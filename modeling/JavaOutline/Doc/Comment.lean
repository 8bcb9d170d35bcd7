import JavaOutline.Doc.Basic
import JavaOutline.Report
import JavaOutline.Text.Blank
import JavaOutline.Text.Letter

/-! # Doc comments

    The words of a doc comment are tags and text.  A block tag opens a
    section, which takes the text up to the next block tag; the text before
    the first one is the description.  Inline tags leave the text where it
    is, and unknown tags are reported and dropped.  Among the sections of one
    kind the last wins, except that every parameter and every exception is
    kept. -/

namespace JavaOutline

open Text

/-- A word of a doc comment. -/
inductive DocWord where
  | tag (name : String)
  | text (word : String)
  deriving DecidableEq, Repr

namespace DocWord

/-- The braces of an inline tag. -/
def isBrace (c : Char) : Bool := c == '{' || c == '}'

/-- A word without the braces at its ends. -/
def unbraced (w : String) : String :=
  String.ofList ((w.toList.dropWhile isBrace).reverse.dropWhile isBrace).reverse

/-- A word that has the form of a tag: an at sign and letters. -/
def looksLikeTag (w : String) : Bool :=
  match w.toList with
  | '@' :: cs => !cs.isEmpty && cs.all isLetter
  | _ => false

/-- The last word of an inline tag without the brace that closes it. -/
def withoutClosing (w : String) : String :=
  if w.toList.getLast? = some '}' ∧ ¬ holds '{' w then
    String.ofList w.toList.dropLast
  else w

/-- Classify a word found inside a doc comment. -/
def ofWord (w : String) : DocWord :=
  let t := unbraced w
  if Keyword.isDocTag t || looksLikeTag t then .tag t
  else .text (withoutClosing w)

end DocWord

/-- The sections of a doc comment. -/
inductive DocSection where
  | description
  | returns
  | param
  | author
  | deprecated
  | version
  | see
  | exception
  | ignored
  deriving DecidableEq, Repr

/-- What a tag does. -/
inductive TagRole where
  /-- Opens a section. -/
  | block (s : DocSection)
  /-- Marks a stretch of running text. -/
  | inlined
  | unknown
  deriving DecidableEq, Repr

/-- The tags of running text. -/
def inlineTags : List String :=
  ["@code", "@literal", "@docRoot", "@inheritDoc", "@value"]

/-- The section that a tag opens. -/
def DocSection.ofTag? (t : String) : Option DocSection :=
  if t = "@return" then some .returns
  else if t = "@param" then some .param
  else if t = "@author" then some .author
  else if t = "@deprecated" then some .deprecated
  else if ["@since", "@version"].contains t then some .version
  else if ["@link", "@linkplain", "@see"].contains t then some .see
  else if ["@exception", "@throws"].contains t then some .exception
  else if ["@serial", "@serialData", "@serialField"].contains t then
    some .ignored
  else none

/-- The role of a tag. -/
def TagRole.of (t : String) : TagRole :=
  if inlineTags.contains t then .inlined
  else
    match DocSection.ofTag? t with
    | some s => .block s
    | none => .unknown

namespace Doc

/-- Put the text of a finished section into the record.  A parameter and an
    exception begin with their name; without any text they are dropped. -/
def store (d : Doc) (s : DocSection) (text : String) : Doc :=
  match s with
  | .description => { d with description := text }
  | .returns => { d with returns := text }
  | .author => { d with author := text }
  | .deprecated => { d with deprecated := text }
  | .version => { d with version := text }
  | .see => { d with see := text }
  | .param =>
    if text = "" then d
    else
      let p : Param :=
        { name := before ' ' text, description := trim (after ' ' text) }
      { d with params := d.params ++ [p] }
  | .exception =>
    if text = "" then d
    else
      let e : ExceptionDoc :=
        { type := before ' ' text, description := trim (after ' ' text) }
      { d with exceptions := d.exceptions ++ [e] }
  | .ignored => d

end Doc

/-- How far a doc comment has been read. -/
structure DocReading where
  doc : Doc := {}
  current : DocSection := .description
  words : List String := []
  deriving DecidableEq, Repr

namespace DocReading

/-- The record with the section that is open. -/
def close (r : DocReading) : Doc :=
  r.doc.store r.current (trim (joinWords r.words))

/-- Whether a word of text counts; the star of a continuation line does
    not. -/
def counts (w : String) : Bool := !(w == "" || w == "*")

/-- Read one word. -/
def step (r : DocReading) : DocWord → Logged DocReading
  | .text w => pure (if counts w then { r with words := r.words ++ [w] } else r)
  | .tag t =>
    match TagRole.of t with
    | .inlined => pure r
    | .block s => pure { doc := r.close, current := s, words := [] }
    | .unknown => do
      Logged.report (.unknownTag t)
      pure r

end DocReading

/-- Read the words of one doc comment. -/
def Doc.ofWords (ws : List DocWord) : Logged Doc := do
  let r ← Logged.fold DocReading.step {} ws
  pure r.close

end JavaOutline
