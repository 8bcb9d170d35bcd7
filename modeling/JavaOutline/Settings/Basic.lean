/-! # Settings

    How source files are read. -/

namespace JavaOutline

/-- The settings of a reading. -/
structure Settings where
  /-- The name of the encoding of source files. -/
  encoding : String := "utf-8"
  /-- Further words to be taken as keywords and passed over. -/
  ignoredKeywords : List String := []
  deriving DecidableEq, Repr

end JavaOutline
