import QueryGraph.Graph
import QueryGraph.Json
import QueryGraph.Json.Numeral
import QueryGraph.Render.Error

/-!
The constants that free variables are bound to when a graph is rendered.
-/

namespace QueryGraph

/-- Variable names and their constants, in the order in which the names were first bound. -/
structure Bindings where
  entries : Entries Constant
  distinct : entries.keys.Nodup
  deriving Repr

namespace Bindings

def empty : Bindings :=
  ⟨[], List.nodup_nil⟩

instance : Inhabited Bindings := ⟨empty⟩

def get? (bindings : Bindings) (name : String) : Option Constant :=
  bindings.entries.find? name

def contains (bindings : Bindings) (name : String) : Bool :=
  bindings.entries.contains name

def bind (bindings : Bindings) (name : String) (value : Constant) : Bindings :=
  ⟨bindings.entries.insert name value, Entries.nodup_keys_insert bindings.distinct⟩

def ofList (pairs : List (String × Constant)) : Bindings :=
  ⟨Entries.ofList pairs, Entries.nodup_keys_ofList pairs⟩

/-- Binds a name to the value of a constant node. -/
def bindNode (bindings : Bindings) (name : String) (node : Node) : Except RenderError Bindings :=
  match node.kind with
  | .constant value => .ok (bindings.bind name value)
  | kind => .error (.unboundVariable name (.notConstant kind.describe))

/-- The constant that a JSON value stands for, or the kind of value it is instead. -/
def constantOfJson : Json → Except String Constant
  | .bool value => .ok (.bool value)
  | .string text => .ok (.string text)
  | .number literal =>
    let numeral := Json.Numeral.ofLiteral literal
    match numeral.toInt?, numeral.toDouble? with
    | some value, _ => .ok (.int value)
    | none, some value => .ok (.double value)
    | none, none => .error "number out of range"
  | .null => .error "null"
  | .array _ => .error "array"
  | .object _ => .error "object"

/-- Puts a field where its name belongs in the order of names; it replaces a field of the same
name. -/
def insertField (name : String) (value : Json) : List (String × Json) → List (String × Json)
  | [] => [(name, value)]
  | field :: rest =>
    if name < field.1 then (name, value) :: field :: rest
    else if name = field.1 then (name, value) :: rest
    else field :: insertField name value rest

/-- Bindings from fields in order, up to the first that is no constant. -/
def ofFields (bindings : Bindings) : List (String × Json) → Except RenderError Bindings
  | [] => .ok bindings
  | (name, value) :: rest =>
    match constantOfJson value with
    | .ok constant => ofFields (bindings.bind name constant) rest
    | .error kind => .error (.unboundVariable name (.notConstant kind))

/-- Bindings from a JSON object with constants for values. The fields are taken in the order of
their names. -/
def ofJson : Json → Except RenderError Bindings
  | .object fields =>
    ofFields empty (fields.foldl (fun sorted field => insertField field.1 field.2 sorted) [])
  | _ => .error (.invalidBindings "expected a JSON object")

end Bindings

end QueryGraph
