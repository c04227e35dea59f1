import QueryGraph.Graph
import QueryGraph.Name

/-!
Building expression graphs node by node. Whatever is wrong with a node is reported by the call
that would have made it.
-/

namespace QueryGraph

/-- Why a node cannot be made or named, or a scope not be opened or rendered. -/
inductive BuildError where
  | invalidOperand (construct : String) (operand : NodeId)
  | invalidListElement (index : Nat)
  | invalidDictValue (key : String)
  | invalidArgument (key : String)
  | invalidStep (index : Nat)
  /-- Keys must be identifiers; names must not be keywords besides. -/
  | invalidName (what name : String)
  | nameAlreadySet (id : NodeId) (name : String)
  | unnameable (kind : String)
  | unknownNode (id : NodeId)
  | unregisteredOperator (space name : String)
  | nestedScope
  | emptyScope
  deriving DecidableEq, Repr

def BuildError.message : BuildError → String
  | invalidOperand construct operand =>
    "operand " ++ operand.describe ++ " of " ++ construct ++
      " is not a value expression of this graph"
  | invalidListElement index =>
    "list element at index " ++ toString index ++ " is not a value expression of this graph"
  | invalidDictValue key =>
    "dict value for key '" ++ key ++ "' is not a value expression of this graph"
  | invalidArgument key =>
    "value for operator argument '" ++ key ++ "' is not a value expression of this graph"
  | invalidStep index =>
    "pipeline step at index " ++ toString index ++ " is not an operator call of this graph"
  | invalidName what name => "'" ++ name ++ "' is not a valid " ++ what
  | nameAlreadySet id name => "node " ++ id.describe ++ " is already named '" ++ name ++ "'"
  | unnameable kind => kind ++ " nodes cannot be named"
  | unknownNode id => "node " ++ id.describe ++ " does not belong to this graph"
  | unregisteredOperator space name =>
    "operator '" ++ space ++ "." ++ name ++ "' is not registered"
  | nestedScope => "cannot open a query scope while another one is active"
  | emptyScope => "query scope has no top-level expressions"

/-- The operators that the engine knows, in the order of their registration. -/
structure Registry where
  operators : List (String × String)
  deriving DecidableEq, Repr, Inhabited

namespace Registry

def contains (registry : Registry) (space name : String) : Bool :=
  registry.operators.contains (space, name)

def register (registry : Registry) (space name : String) : Registry :=
  if registry.contains space name then registry else ⟨registry.operators ++ [(space, name)]⟩

def empty : Registry :=
  ⟨[]⟩

def standard : Registry :=
  (empty.register "std" "filter").register "std" "take"

end Registry

/-- A graph in the making. With a registry only registered operators may be called. -/
structure Builder where
  graph : Graph
  registry : Option Registry
  deriving Repr, Inhabited

namespace Builder

def empty (registry : Option Registry) : Builder :=
  ⟨⟨[]⟩, registry⟩

def find? (builder : Builder) (id : NodeId) : Option Node :=
  builder.graph.find? id

/-- Whether an id is that of a node of this builder that may stand where an expression is
expected. -/
def hasValue (builder : Builder) (id : NodeId) : Bool :=
  ((builder.find? id).map fun node => node.kind.isValue).getD false

def hasCall (builder : Builder) (id : NodeId) : Bool :=
  ((builder.find? id).map fun node => !node.kind.isValue).getD false

/-- Whether an operator may be called. -/
def knows (builder : Builder) (space name : String) : Bool :=
  match builder.registry with
  | none => true
  | some registry => registry.contains space name

/-- The graph as it stands. -/
def finish (builder : Builder) : Graph :=
  builder.graph

end Builder

/-- What calls work on: a builder, and the id of the next node, which no builder has to itself. -/
structure BuildState where
  builder : Builder
  nextId : NodeId
  deriving Repr, Inhabited

/-- A call on a builder. What it has changed by the time it fails stays changed. -/
abbrev BuildM (α : Type) :=
  EStateM BuildError BuildState α

namespace BuildM

def check (condition : Builder → Bool) (error : BuildError) : BuildM Unit := do
  unless condition (← get).builder do throw error

def checkOperand (construct : String) (operand : NodeId) : BuildM Unit :=
  check (·.hasValue operand) (.invalidOperand construct operand)

def checkKey (what key : String) : BuildM Unit :=
  check (fun _ => isIdentifier key) (.invalidName what key)

def checkName (what name : String) : BuildM Unit :=
  check (fun _ => isName name) (.invalidName what name)

def checkRegistered (space name : String) : BuildM Unit :=
  check (·.knows space name) (.unregisteredOperator space name)

/-- Checks elements in order, counting from `index`. -/
def checkEach (valid : Builder → NodeId → Bool) (error : Nat → BuildError) (index : Nat) :
    List NodeId → BuildM Unit
  | [] => pure ()
  | id :: rest => do
    check (fun builder => valid builder id) (error index)
    checkEach valid error (index + 1) rest

/-- Checks entries in order, of each the key before the value, and merges them: a key keeps its
first place and its last value. -/
def mergeEntries (what : String) (error : String → BuildError) (sofar : Entries NodeId) :
    List (String × NodeId) → BuildM (Entries NodeId)
  | [] => pure sofar
  | (key, value) :: rest => do
    checkKey what key
    check (·.hasValue value) (error key)
    mergeEntries what error (sofar.insert key value) rest

def freshId : BuildM NodeId :=
  modifyGet fun state => (state.nextId, { state with nextId := state.nextId + 1 })

def modifyNodes (change : List Node → List Node) : BuildM Unit :=
  modify fun state => { state with builder.graph := ⟨change state.builder.graph.nodes⟩ }

def addUser (id : NodeId) : BuildM Unit :=
  modifyNodes fun nodes => nodes.map fun node =>
    if node.id = id then { node with fanOut := node.fanOut + 1 } else node

/-- Adds one user to each of the nodes, however often it is listed. -/
def addUsers (seen : List NodeId) : List NodeId → BuildM Unit
  | [] => pure ()
  | operand :: rest => do
    if seen.contains operand then addUsers seen rest
    else
      addUser operand
      addUsers (operand :: seen) rest

def insert (kind : NodeKind) : BuildM NodeId := do
  let id ← freshId
  addUsers [] kind.operands
  modifyNodes fun nodes => nodes ++ [⟨id, none, kind, 0⟩]
  return id

/-- Makes a node under a fresh id. -/
def make (request : NodeKind) : BuildM NodeId :=
  match request with
  | .constant _ | .placeholder => insert request
  | .binary left op right => do
    let construct := if op = .index then "'[]'" else "binary operation"
    checkOperand construct left
    checkOperand construct right
    insert request
  | .lookup on key => do
    checkOperand "lookup" on
    checkKey "lookup key" key
    insert request
  | .list values => do
    checkEach Builder.hasValue .invalidListElement 0 values
    insert request
  | .dict values => do
    let values ← mergeEntries "dict key" .invalidDictValue [] values
    insert (.dict values)
  | .table inner => do
    checkOperand "table" inner
    insert request
  | .variable name => do
    checkName "variable name" name
    insert request
  | .call space name arguments => do
    checkKey "operator namespace" space
    checkKey "operator name" name
    checkRegistered space name
    let arguments ← mergeEntries "operator argument name" .invalidArgument [] arguments
    insert (.call space name arguments)
  | .pipeline base steps => do
    checkOperand "pipeline" base
    checkEach Builder.hasCall .invalidStep 0 steps
    insert request
  | .conditional condition thenDo elseDo => do
    checkOperand "conditional" condition
    checkOperand "conditional" thenDo
    checkOperand "conditional" elseDo
    insert request

/-- Gives a node a statement name. A node can be named once. -/
def setName (id : NodeId) (name : String) : BuildM Unit := do
  match (← get).builder.find? id with
  | none => throw (.unknownNode id)
  | some node =>
    check (fun _ => node.kind.isNameable) (.unnameable node.kind.describe)
    match node.name with
    | some existing => throw (.nameAlreadySet id existing)
    | none =>
      checkName "statement name" name
      modifyNodes fun nodes => nodes.map fun node =>
        if node.id = id then { node with name := some name } else node

/-- Gives a node a statement name and hands its id back. -/
def named (id : NodeId) (name : String) : BuildM NodeId := do
  setName id name
  return id

end BuildM

end QueryGraph
