import QueryGraph.Json.Writer
import QueryGraph.Literal
import QueryGraph.Query

/-!
The JSON form of queries, for looking at what goes to the engine. Each expression is an object
with one field, named for its kind, but for the placeholder, which is a bare string.
-/

namespace QueryGraph.Query.Export

open QueryGraph.Number

/-- How JSON text writes floating-point numbers: positionally from `0.00001` on, of two equally
near digit strings the even one, exponents with a sign. -/
def jsonLayout : Layout :=
  ⟨.even, -5, true⟩

/-- JSON has no word for infinities and for what is not a number. -/
def double (d : Double) : Json :=
  if d.isFinite then .number (jsonLayout.number d) else .null

/-- An object with one field. -/
def tagged (tag : String) (content : Json) : Json :=
  .object [(tag, content)]

def constant : Constant → Json
  | .int value => tagged "Int" (.number (intText value.toInt))
  | .double value => tagged "Double" (double value)
  | .bool value => tagged "Bool" (.bool value)
  | .string value => tagged "String" (.string value)

mutual

def expr : Expr → Json
  | .atom value => tagged "Atom" (constant value)
  | .binary left op right =>
    tagged "Binary" (.object [("left", expr left), ("op", .string op), ("right", expr right)])
  | .lookup on property =>
    tagged "Lookup" (.object [("on", expr on), ("property", .string property)])
  | .list values => tagged "List" (.object [("values", .array (list values))])
  | .dict values => tagged "Dict" (.object [("values", .object (entries values))])
  | .table inner => tagged "Table" (.object [("inner", expr inner)])
  | .reference name => tagged "Var" (.object [("name", .string name)])
  | .placeholder => .string "At"
  | .call call => tagged "OpCall" (callObject call)
  | .pipeline base steps =>
    tagged "Pipeline" (.object [("base", expr base), ("steps", .array (calls steps))])
  | .conditional condition thenDo elseDo =>
    tagged "IfElse" (.object [("condition", expr condition), ("then_do", expr thenDo),
      ("else_do", expr elseDo)])

def list : List Expr → List Json
  | [] => []
  | value :: rest => expr value :: list rest

def entries : List (String × Expr) → List (String × Json)
  | [] => []
  | (key, value) :: rest => (key, expr value) :: entries rest

def operand : Option Expr → Json
  | none => .null
  | some value => expr value

def callObject : Call → Json
  | { operand := on, space, name, arguments } =>
    .object [("operand", operand on), ("namespace", .string space), ("name", .string name),
      ("kwargs", .object [("values", .object (entries arguments))])]

def calls : List Call → List Json
  | [] => []
  | call :: rest => callObject call :: calls rest

end

def statement (statement : Statement Expr) : Json :=
  .object [("name", .string statement.name), ("body", expr statement.body)]

end QueryGraph.Query.Export

namespace QueryGraph.Query

def toJson (query : Query) : Json :=
  .object [("statements", .array (query.statements.map Export.statement)),
    ("final", Export.expr query.final)]

/-- The JSON form on one line. -/
def jsonText (query : Query) : String :=
  String.ofList query.toJson.compact

/-- The JSON form, indented. -/
def prettyJsonText (query : Query) : String :=
  String.ofList (query.toJson.pretty)

end QueryGraph.Query
