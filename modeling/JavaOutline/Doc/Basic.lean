/-! # Documentation records

    What a doc comment says about the declaration after it. -/

namespace JavaOutline

/-- A parameter of a method, declared or documented. -/
structure Param where
  type : String := ""
  name : String
  description : String := ""
  deriving DecidableEq, Repr

/-- An exception that a method throws or documents. -/
structure ExceptionDoc where
  type : String
  description : String := ""
  deriving DecidableEq, Repr

/-- The sections of one doc comment. -/
structure Doc where
  description : String := ""
  params : List Param := []
  returns : String := ""
  author : String := ""
  version : String := ""
  exceptions : List ExceptionDoc := []
  deprecated : String := ""
  see : String := ""
  deriving DecidableEq, Repr

end JavaOutline
