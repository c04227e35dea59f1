namespace QueryGraph

def isNameStart (c : Char) : Bool :=
  c.isAlpha || c == '_'

def isNameChar (c : Char) : Bool :=
  c.isAlphanum || c == '_'

/-- A letter or underscore, then letters, digits and underscores, all of them ASCII. -/
def isIdentifier (text : String) : Bool :=
  match text.toList with
  | [] => false
  | c :: rest => isNameStart c && rest.all isNameChar

/-- Words that stand for something else where a name is expected. They may be keys. -/
def keywords : List String :=
  ["and", "or", "true", "false", "if", "then", "else", "table"]

/-- What statements and variables may be called. -/
def isName (text : String) : Bool :=
  isIdentifier text && !keywords.contains text

end QueryGraph
