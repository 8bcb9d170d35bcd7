import JavaOutline.File.Path
import JavaOutline.Settings.Basic
import JavaOutline.Yaml.Document

/-! # Loading settings

    Settings are kept in a YAML file: a mapping with two fields, both of which
    may be left out.  An empty file gives the default settings.  Fields that
    are not known are reported before the known ones are looked at.

    Reading the file and reading YAML are left to others, whose errors are
    dealt with under clauses.  There are no clauses for putting unknown fields
    in order and for writing their names. -/

namespace JavaOutline

open Text

/-- Why there are no settings. -/
inductive SettingsFault where
  /-- There is no file. -/
  | missing
  /-- The file gives no text. -/
  | unreadable (error : Error)
  /-- The text is no YAML. -/
  | malformed (error : Error)
  | notMapping
  /-- Fields that are not known, in order. -/
  | unknownFields (names : List String)
  | encodingField
  | keywordsField
  deriving DecidableEq, Repr

/-- The wording of a fault in the file at `path`. -/
def SettingsFault.message (path : String) : SettingsFault → String
  | .missing => "Parser config file not found: " ++ path
  | .unreadable error => "Cannot read parser config file: " ++ error.message
  | .malformed error => "Invalid YAML in " ++ path ++ ": " ++ error.message
  | .notMapping => path ++ ": parser config must be a YAML mapping"
  | .unknownFields names =>
    path ++ ": unknown field(s) " ++ joinWith ", " names
  | .encodingField => path ++ ": 'encoding' must be a non-empty string"
  | .keywordsField => path ++ ": 'ignored-keywords' must be a list of strings"

namespace Settings

open Yaml

/-- The fields of a settings file. -/
def knownFields : List String := ["encoding", "ignored-keywords"]

/-- Whether a key is a field of a settings file. -/
def isKnown : Atom → Bool
  | .text s => knownFields.contains s
  | _ => false

/-- Keys in order, unless two of them cannot be put in order. -/
def ordered? (ks : List Atom) : Option (List Atom) :=
  match ks with
  | [] => some []
  | [k] => some [k]
  | k :: rest =>
    if rest.all (Atom.comparable k) then some (ks.mergeSort Atom.keyLe)
    else none

/-- The error of keys that cannot be put in order. -/
def unorderedKeys : Error where
  kind := .type
  message := "keys cannot be put in order"

/-- The error of a key that is too long to be written. -/
def endlessKey : Error where
  kind := .value
  message := "key is too long to be written"

/-- The names of keys, in order. -/
def namesOf (ks : List Atom) : Except Error (List String) := do
  let ks ← orRaise unorderedKeys (ordered? ks)
  orRaise endlessKey (ks.mapM Atom.keyText?)

/-- No field but the known ones, and no fault otherwise. -/
def checkFields (ks : List Atom) : Except (Stop SettingsFault) Unit := do
  match ← attempt [] (namesOf (ks.filter fun k => !isKnown k)) with
  | [] => .ok ()
  | names => .error (.promised (.unknownFields names))

/-- The value of a field, if it is there. -/
def field? (es : List (Atom × Item)) (name : String) : Option Item :=
  (es.find? (fun e => e.1.sameKey (.text name))).map Prod.snd

/-- A text that is not empty. -/
def encodingOf : Item → Except (Stop SettingsFault) String
  | .atom (.text s) =>
    if s = "" then .error (.promised .encodingField) else .ok s
  | _ => .error (.promised .encodingField)

/-- The texts of a list of texts. -/
def textsOf? : List Item → Option (List String)
  | [] => some []
  | .atom (.text s) :: xs => (textsOf? xs).map (s :: ·)
  | _ :: _ => none

/-- A list of texts; a list of pairs is one if it is empty. -/
def keywordsOf :
    Option Collection → Except (Stop SettingsFault) (List String)
  | some (.sequence xs) =>
    match textsOf? xs with
    | some ss => .ok ss
    | none => .error (.promised .keywordsField)
  | some (.pairs []) => .ok []
  | _ => .error (.promised .keywordsField)

/-- The settings that the entries of a mapping give. -/
def ofEntries (d : Document) (es : List (Atom × Item)) :
    Except (Stop SettingsFault) Settings := do
  checkFields (es.map Prod.fst)
  let defaults : Settings := {}
  let encoding ←
    match field? es "encoding" with
    | some x => encodingOf x
    | none => .ok defaults.encoding
  let ignoredKeywords ←
    match field? es "ignored-keywords" with
    | some x => keywordsOf (d.collection? x)
    | none => .ok defaults.ignoredKeywords
  .ok { encoding, ignoredKeywords }

/-- The settings that a document gives. -/
def ofDocument (d : Document) : Except (Stop SettingsFault) Settings :=
  if d.root = .atom .null then .ok {}
  else
    match d.collection? d.root with
    | some (.mapping m) => ofEntries d m.entries
    | _ => .error (.promised .notMapping)

/-- The settings that a text gives. -/
def ofText (yaml : Loader) (text : String) :
    Except (Stop SettingsFault) Settings := do
  let d ← attempt [⟨[.yaml], .malformed⟩] (yaml text)
  ofDocument d

/-- The settings of the file at `path`. -/
def load (read : TextReader) (yaml : Loader) (path : Path) :
    Except (Stop SettingsFault) Settings := do
  let text ←
    attempt [⟨[.missing], fun _ => .missing⟩, ⟨[.system], .unreadable⟩]
      (read path "utf-8")
  ofText yaml text

end Settings

end JavaOutline
