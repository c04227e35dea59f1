import QueryGraph.Scope

/-!
Builders, scopes and finished graphs side by side. They share one supply of node ids, so no id
is ever that of two nodes, and at most one scope is open on a thread at a time.
-/

namespace QueryGraph

/-- A place for a builder or a scope, and for the graph that becomes of it. -/
inductive Slot where
  | builder (builder : Builder)
  | scope (scope : Scope)
  | graph (graph : Graph)
  | closed
  deriving Repr, Inhabited

namespace Slot

/-- The builder that nodes are made with, if the slot is open. -/
def builder? : Slot → Option Builder
  | builder b => some b
  | scope s => some s.builder
  | _ => none

/-- The graph as it stands, if the slot is not closed. -/
def graph? : Slot → Option Graph
  | builder b => some b.graph
  | scope s => some s.builder.graph
  | graph g => some g
  | closed => none

def withBuilder (b : Builder) : Slot → Slot
  | scope s => scope { s with builder := b }
  | _ => builder b

def isScope : Slot → Bool
  | scope _ => true
  | _ => false

end Slot

structure Session where
  slots : List Slot
  /-- The id of the next node, in whichever slot it is made. -/
  nextId : NodeId
  /-- Of each thread whether a scope is open there. -/
  flags : Thread → Bool
  deriving Inhabited

/-- What can be asked of a session. -/
inductive Session.Step where
  | openBuilder (registry : Option Registry)
  | openScope (registry : Option Registry) (options : Options) (thread : Thread := 0)
  | make (slot : Nat) (kind : NodeKind)
  | setName (slot : Nat) (id : NodeId) (name : String)
  | finish (slot : Nat)
  | print (slot : Nat) (bindings : Bindings)
  | execute (slot : Nat) (bindings : Bindings)
  | drop (slot : Nat)

/-- What a session answers. -/
inductive Session.Reply where
  | opened (slot : Nat)
  | node (id : NodeId)
  | finished (roots : List NodeId)
  | text (text : String)
  | query (query : Query)
  | dropped
  | buildError (error : BuildError)
  | renderError (error : RenderError)
  /-- The slot is not one that this can be asked of. -/
  | refused

namespace Session

def start : Session :=
  ⟨[], 1, fun _ => false⟩

/-- Whether a scope is open on a thread. -/
def active (session : Session) (thread : Thread := 0) : Bool :=
  session.flags thread

def setFlag (session : Session) (thread : Thread) (flag : Bool) : Session :=
  { session with
    flags := fun other => if other = thread then flag else session.flags other }

/-- Puts something else in a slot. If there was a scope, its thread is free again. -/
def replace (session : Session) (index : Nat) (slot : Slot) : Session :=
  let replaced : Session := { session with slots := session.slots.set index slot }
  match session.slots[index]? with
  | some (.scope scope) => replaced.setFlag scope.thread false
  | _ => replaced

def scopeReply {α : Type} (reply : α → Reply) : Except ScopeError α → Reply
  | .ok value => reply value
  | .error (.build error) => .buildError error
  | .error (.render error) => .renderError error

/-- Leaves a slot and the supply of ids as a call has left them. -/
def commit (session : Session) (index : Nat) (slot : Slot) (state : BuildState) : Session :=
  { session with
    slots := session.slots.set index (slot.withBuilder state.builder)
    nextId := state.nextId }

/-- Makes a call on the builder of a slot. -/
def call (session : Session) (index : Nat) (call : BuildM NodeId) : Reply × Session :=
  match session.slots[index]? with
  | none => (.refused, session)
  | some slot =>
    match slot.builder? with
    | none => (.refused, session)
    | some builder =>
      match call.run ⟨builder, session.nextId⟩ with
      | .ok id state => (.node id, session.commit index slot state)
      | .error error state => (.buildError error, session.commit index slot state)

def step (session : Session) : Step → Reply × Session
  | .openBuilder registry =>
    (.opened session.slots.length,
      { session with slots := session.slots ++ [.builder (.empty registry)] })
  | .openScope registry options thread =>
    let flagged := session.setFlag thread true
    if session.active thread then (.buildError .nestedScope, flagged)
    else
      (.opened session.slots.length,
        { flagged with slots := session.slots ++ [.scope (.empty registry options thread)] })
  | .make index request => session.call index (.make request)
  | .setName index id name => session.call index (.named id name)
  | .finish index =>
    match (session.slots[index]?).bind Slot.builder? with
    | none => (.refused, session)
    | some builder =>
      (.finished builder.finish.roots, session.replace index (.graph builder.finish))
  | .print index bindings =>
    match session.slots[index]? with
    | some (.scope scope) =>
      (scopeReply .text (scope.print bindings), session.replace index .closed)
    | _ => (.refused, session)
  | .execute index bindings =>
    match session.slots[index]? with
    | some (.scope scope) =>
      (scopeReply .query (scope.execute bindings), session.replace index .closed)
    | _ => (.refused, session)
  | .drop index =>
    match session.slots[index]? with
    | none => (.refused, session)
    | some _ => (.dropped, session.replace index .closed)

/-- Takes steps one after the other. -/
def run (session : Session) (steps : List Step) : Session :=
  steps.foldl (fun session step => (session.step step).2) session

end Session

end QueryGraph
