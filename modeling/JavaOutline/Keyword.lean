/-! # Keywords

    The words of Java that carry structure, the tags of doc comments, and the
    words that are recognised only so that they never become part of a type
    name.  A caller may name further words to be taken as keywords. -/

namespace JavaOutline.Keyword

/-- Words that begin a type declaration. -/
def typeWords : List String := ["class", "interface", "enum"]

/-- Words that fix who may use a declaration. -/
def accessWords : List String := ["public", "protected", "private"]

/-- Words that modify a declaration. -/
def modifierWords : List String :=
  ["static", "final", "abstract", "synchronized", "volatile"]

/-- Words that announce what the next names stand for. -/
def markerWords : List String :=
  ["package", "import", "throws", "extends", "implements"]

/-- Block and inline tags of doc comments. -/
def docTags : List String :=
  ["@author", "@code", "@deprecated", "@docRoot", "@exception", "@inheritDoc",
   "@link", "@linkplain", "@literal", "@param", "@return", "@see", "@serial",
   "@serialData", "@serialField", "@since", "@throws", "@value", "@version"]

/-- Words that occur only in executable statements. -/
def statementWords : List String :=
  ["assert", "break", "case", "catch", "continue", "do", "else", "finally",
   "for", "if", "return", "switch", "throw", "try", "while", "yield"]

/-- Words of declarations and expressions that are recognised and passed
    over. -/
def passiveWords : List String :=
  ["const", "default", "goto", "instanceof", "native", "new", "non-sealed",
   "permits", "sealed", "strictfp", "super", "this", "transient"]

/-- A word that begins a type declaration. -/
def isTypeWord (w : String) : Bool := typeWords.contains w

/-- A word that has a role in the structure of a declaration. -/
def isStructural (w : String) : Bool :=
  typeWords.contains w || accessWords.contains w || modifierWords.contains w
    || markerWords.contains w

/-- A tag of doc comments. -/
def isDocTag (w : String) : Bool := docTags.contains w

/-- A word of an executable statement. -/
def isStatementWord (w : String) : Bool := statementWords.contains w

/-- A word that is recognised and then ignored. -/
def isIgnored (w : String) : Bool :=
  statementWords.contains w || passiveWords.contains w

/-- A word of any of the classes above, or one of the `extra` words. -/
def isKeyword (extra : List String) (w : String) : Bool :=
  isStructural w || isDocTag w || isIgnored w || extra.contains w

end JavaOutline.Keyword
