import JavaOutline.File.Charset
import JavaOutline.File.Tree

/-! # Reading text files

    A file is looked up, decoded, and its line ends are made newlines. -/

namespace JavaOutline

open Text

/-- Why a path gives no text. -/
inductive ReadFault where
  | lookup (fault : LookupFault)
  | unknownCharset (name : String)
  | undecodable (fault : DecodeFault)
  /-- Bytes that can be decoded, but lack the mark that gives their order. -/
  | unmarked
  /-- A name that holds the null character, which no name can. -/
  | nullInName
  deriving DecidableEq, Repr

/-- The wording of a fault in reading `path`. -/
def ReadFault.message (path : String) : ReadFault → String
  | .lookup .missing => "[Errno 2] No such file or directory: " ++ quoted path
  | .lookup .isDirectory => "[Errno 21] Is a directory: " ++ quoted path
  | .lookup .notDirectory => "[Errno 20] Not a directory: " ++ quoted path
  | .lookup .nameTooLong => "[Errno 36] File name too long: " ++ quoted path
  | .unknownCharset name => "unknown encoding: " ++ name
  | .undecodable fault => fault.message
  | .unmarked => "UTF-16 stream does not start with BOM"
  | .nullInName => "embedded null byte"

/-- The kind of error that a fault is. -/
def ReadFault.kind : ReadFault → ErrorKind
  | .lookup .missing => .missing
  | .lookup _ => .system
  | .unknownCharset _ => .lookup
  | .undecodable _ => .decoding
  | .unmarked => .unicode
  | .nullInName => .value

/-- Every line end as one newline: a carriage return with the newline after
    it, or alone. -/
def newlines : List Char → List Char
  | '\r' :: '\n' :: cs => '\n' :: newlines cs
  | '\r' :: cs => '\n' :: newlines cs
  | c :: cs => c :: newlines cs
  | [] => []

/-- The text of the file at `path` under the encoding of the given name.  A
    path that leads to no file is noticed before the name of the encoding is
    looked up, and bytes that cannot be decoded before a mark they lack. -/
def FileTree.readText (t : FileTree) (path : Path) (charset : String) :
    Except ReadFault String :=
  if holds '\x00' charset || holds '\x00' path.text then .error .nullInName
  else
    match t.read path with
    | .error f => .error (.lookup f)
    | .ok bytes =>
      match Charset.ofName? charset with
      | none => .error (.unknownCharset charset)
      | some c =>
        match c.decode bytes with
        | .error f => .error (.undecodable f)
        | .ok cs =>
          if c.lacksMark bytes then .error .unmarked
          else .ok (String.ofList (newlines cs))

/-- The reader of the files of a tree. -/
def FileTree.reader (t : FileTree) : TextReader := fun path charset =>
  match t.readText path charset with
  | .ok text => .ok text
  | .error f => .error { kind := f.kind, message := f.message path.text }

end JavaOutline
