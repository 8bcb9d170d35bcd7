import JavaOutline.File.Path

/-! # Trees of files

    The files and directories that a path is looked up in, relative to the
    directory where the look-up starts.  Nothing is known of the world above
    that directory except that it is there. -/

namespace JavaOutline

/-- Files by their components, and directories beside those that hold a
    file. -/
structure FileTree where
  files : List (List String × List UInt8) := []
  dirs : List (List String) := []
  deriving DecidableEq, Repr

/-- Why a path leads to no file. -/
inductive LookupFault where
  | missing
  | isDirectory
  | notDirectory
  | nameTooLong
  deriving DecidableEq, Repr

namespace FileTree

/-- The bytes of the file at a place. -/
def file? (t : FileTree) (place : List String) : Option (List UInt8) :=
  t.files.lookup place

/-- Whether there is a directory at a place: a listed one, or one on the way
    to something listed. -/
def isDir (t : FileTree) (place : List String) : Bool :=
  place.isEmpty
    || t.dirs.any (fun d => place.isPrefixOf d)
    || t.files.any (fun f => place.isPrefixOf f.1 && f.1 != place)

/-- The most bytes that a component may have. -/
def maxName : Nat := 255

/-- The most bytes that a path may have. -/
def maxPath : Nat := 4095

/-- Follow components from the directory `place`; `none` is a directory
    outside the tree. -/
def follow (t : FileTree) : Option (List String) → List String →
    Except LookupFault (List UInt8)
  | _, [] => .error .isDirectory
  | none, p :: ps =>
    if p = ".." then t.follow none ps
    else if maxName < p.utf8ByteSize then .error .nameTooLong
    else .error .missing
  | some place, p :: ps =>
    if p = ".." then
      t.follow (if place.isEmpty then none else some place.dropLast) ps
    else if maxName < p.utf8ByteSize then .error .nameTooLong
    else
      let next := place ++ [p]
      match t.file? next with
      | some bytes => if ps.isEmpty then .ok bytes else .error .notDirectory
      | none => if t.isDir next then t.follow (some next) ps else .error .missing

/-- The bytes of the file that a path leads to. -/
def read (t : FileTree) (p : Path) : Except LookupFault (List UInt8) :=
  if maxPath < p.text.utf8ByteSize then .error .nameTooLong
  else t.follow (if p.root = "" then some [] else none) p.parts

end FileTree

end JavaOutline
