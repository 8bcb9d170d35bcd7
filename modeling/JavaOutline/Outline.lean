import JavaOutline.File.Path
import JavaOutline.Settings.Basic
import JavaOutline.Token.Line
import JavaOutline.Walk.Step

/-! # Outlines of sources and files

    The two ways in: the outline of a source text, and the outline of a file,
    whose text is read first. -/

namespace JavaOutline

/-- The outline of a source text. -/
def outline (source : String) (settings : Settings) :
    Logged (Except Failure Declaration) :=
  Declaration.ofTokens (tokenize source settings.ignoredKeywords)

/-- Why a file has no outline. -/
inductive FileFailure where
  /-- There is no file at the path. -/
  | missing (path : Path)
  /-- The path gives no text. -/
  | unreadable (path : Path) (error : Error)
  /-- The text has no outline. -/
  | refused (failure : Failure)
  deriving DecidableEq, Repr

/-- The wording of a failure. -/
def FileFailure.message : FileFailure → String
  | .missing path => "Source file not found: " ++ path.text
  | .unreadable path error =>
    "Cannot read source file '" ++ path.text ++ "': " ++ error.message
  | .refused failure => failure.message

/-- The text of the source file at `path`. -/
def sourceText (read : TextReader) (path : Path) (charset : String) :
    Except (Stop FileFailure) String :=
  attempt
    [⟨[.missing], fun _ => .missing path⟩,
     ⟨[.system, .decoding, .lookup], .unreadable path⟩]
    (read path charset)

/-- The outline of the file at `path`.  Whether its documentation is to be
    checked as well is only reported. -/
def outlineFile (read : TextReader) (path : Path) (checking : Bool)
    (settings : Settings) : Logged (Except (Stop FileFailure) Declaration) :=
  match sourceText read path settings.encoding with
  | .error stop => pure (.error stop)
  | .ok source => do
    Logged.report (.reading path.text checking)
    let r ← outline source settings
    pure (r.mapError fun failure => .promised (.refused failure))

end JavaOutline
