import QueryGraph.Proofs.Calls

namespace QueryGraph

/-- Graphs that some course of a session leads to, whatever else the session is about. -/
def Graph.Built (graph : Graph) : Prop :=
  ∃ (steps : List Session.Step) (index : Nat),
    ((Session.start.run steps).slots[index]?).bind Slot.graph? = some graph

/-- Whether what a slot is built with has a property, in which the next free id may occur. -/
def Slot.All (property : Builder → Prop) : Slot → Prop
  | .builder b => property b
  | .scope s => property s.builder
  | .graph g => ∃ registry, property ⟨g, registry⟩
  | .closed => True

theorem Slot.All.mono {property property' : Builder → Prop} {slot : Slot}
    (h : slot.All property) (imp : ∀ b, property b → property' b) : slot.All property' := by
  cases slot with
  | builder b => exact imp b h
  | scope s => exact imp s.builder h
  | graph g =>
    obtain ⟨registry, h⟩ := h
    exact ⟨registry, imp _ h⟩
  | closed => trivial

theorem Slot.All.builder {property : Builder → Prop} {slot : Slot} {b : Builder}
    (h : slot.All property) (found : slot.builder? = some b) : property b := by
  cases slot with
  | builder b' => cases found; exact h
  | scope s => cases found; exact h
  | graph g => cases found
  | closed => cases found

theorem Slot.All.graph {property : Builder → Prop} {slot : Slot} {g : Graph}
    (h : slot.All property) (found : slot.graph? = some g) :
    ∃ registry, property ⟨g, registry⟩ := by
  cases slot with
  | builder b => cases found; exact ⟨b.registry, h⟩
  | scope s => cases found; exact ⟨s.builder.registry, h⟩
  | graph g' => cases found; exact h
  | closed => cases found

theorem Slot.all_withBuilder {property : Builder → Prop} {slot : Slot} {b : Builder}
    (h : property b) : (slot.withBuilder b).All property := by
  cases slot <;> exact h

namespace Session

/-- Whether all that the slots are built with has a property. -/
def All (property : NodeId → Builder → Prop) (session : Session) : Prop :=
  ∀ slot ∈ session.slots, slot.All (property session.nextId)

/-- A property that calls keep. A builder is also told when another one takes an id. -/
structure Kept (property : NodeId → Builder → Prop) : Prop where
  empty : ∀ next registry, property next (.empty registry)
  later : ∀ next b, property next b → property (next + 1) b
  make : ∀ next b request, property next b → b.Admits request →
    property (next + 1) (b.insert next request.merged)
  setName : ∀ next b id name, property next b → b.MayName id name →
    property next (b.withName id name)

variable {property : NodeId → Builder → Prop} {session : Session}

theorem All.slot (all : session.All property) {index : Nat} {slot : Slot}
    (found : session.slots[index]? = some slot) : slot.All (property session.nextId) :=
  all slot (List.mem_of_getElem? found)

theorem All.replace (all : session.All property) (index : Nat) {slot : Slot}
    (h : slot.All (property session.nextId)) : (session.replace index slot).All property := by
  unfold All
  rw [slots_replace, nextId_replace]
  intro other member
  rcases List.mem_or_eq_of_mem_set member with member | rfl
  · exact all other member
  · exact h

/-- A call on one builder keeps a property of all of them, if the one that it changes has it
afterwards and the others have it whatever ids have been given. -/
theorem All.call (all : session.All property) (index : Nat) {call : BuildM NodeId}
    (atomic : call.Atomic)
    (keeps : ∀ b id state, property session.nextId b →
      call.run ⟨b, session.nextId⟩ = .ok id state → property state.nextId state.builder ∧
        ∀ other, property session.nextId other → property state.nextId other) :
    (session.call index call).2.All property := by
  rcases session.call_cases index atomic with
    ⟨_, same⟩ | ⟨_, same⟩ | ⟨slot, b, id, state, found, isOpen, done, same⟩
  · rwa [same]
  · rwa [same]
  · obtain ⟨here, elsewhere⟩ := keeps b id state ((all.slot found).builder isOpen) done
    rw [same]
    intro other member
    rcases List.mem_or_eq_of_mem_set member with member | rfl
    · exact (all other member).mono elsewhere
    · exact Slot.all_withBuilder here

theorem All.append (all : session.All property) {slot : Slot} {flags : Thread → Bool}
    (h : slot.All (property session.nextId)) :
    ({ session with slots := session.slots ++ [slot], flags } : Session).All property := by
  intro other member
  rcases List.mem_append.1 member with member | member
  · exact all other member
  · rw [List.mem_singleton.1 member]
    exact h

theorem All.step (kept : Kept property) (all : session.All property) (step : Step) :
    (session.step step).2.All property := by
  cases step with
  | openBuilder registry => exact all.append (kept.empty _ registry)
  | openScope registry options thread =>
    simp only [Session.step]
    split
    · exact all
    · exact all.append (kept.empty _ registry)
  | make index request =>
    refine all.call index (BuildM.atomic_make request) fun b _ _ old done => ?_
    obtain ⟨admits, _, rfl⟩ := BuildM.make_iff.1 done
    exact ⟨kept.make _ b request old admits, kept.later _⟩
  | setName index id name =>
    refine all.call index (BuildM.atomic_named id name) fun b _ _ old done => ?_
    obtain ⟨mayName, _, rfl⟩ := BuildM.named_iff.1 done
    exact ⟨kept.setName _ b id name old mayName, fun _ same => same⟩
  | finish index =>
    simp only [Session.step]
    split
    · exact all
    · rename_i b found
      obtain ⟨slot, found, isOpen⟩ := Option.bind_eq_some_iff.1 found
      exact all.replace index ⟨b.registry, (all.slot found).builder isOpen⟩
  | print index bindings =>
    simp only [Session.step]
    split
    · exact all.replace index trivial
    · exact all
  | execute index bindings =>
    simp only [Session.step]
    split
    · exact all.replace index trivial
    · exact all
  | drop index =>
    simp only [Session.step]
    split
    · exact all
    · exact all.replace index trivial

theorem All.run (kept : Kept property) (all : session.All property) (steps : List Step) :
    (session.run steps).All property := by
  induction steps generalizing session with
  | nil => exact all
  | cons step rest ih => exact ih (all.step kept step)

theorem Kept.built (kept : Kept property) {graph : Graph} (built : graph.Built) :
    ∃ next registry, property next ⟨graph, registry⟩ := by
  obtain ⟨steps, index, found⟩ := built
  obtain ⟨slot, found, isGraph⟩ := Option.bind_eq_some_iff.1 found
  have start : Session.start.All property := fun slot member => by cases member
  obtain ⟨registry, h⟩ := ((start.run kept steps).slot found).graph isGraph
  exact ⟨_, registry, h⟩

end Session

/-- A pipeline that two nodes use, one of its steps looking at the rows that pass. -/
def Graph.sample : Graph where
  nodes := [
    ⟨1, none, .variable "rows", 1⟩,
    ⟨2, none, .placeholder, 1⟩,
    ⟨3, none, .lookup 2 "price", 1⟩,
    ⟨4, none, .constant (.int 5), 2⟩,
    ⟨5, none, .binary 3 .greaterThan 4, 1⟩,
    ⟨6, none, .call "std" "filter" [("where", 5)], 1⟩,
    ⟨7, none, .pipeline 1 [6], 2⟩,
    ⟨8, none, .lookup 7 "count", 1⟩,
    ⟨9, none, .list [7, 8, 4], 0⟩]

theorem Graph.built_sample : sample.Built :=
  ⟨[.openBuilder none, .make 0 (.variable "rows"), .make 0 .placeholder,
    .make 0 (.lookup 2 "price"), .make 0 (.constant (.int 5)), .make 0 (.binary 3 .greaterThan 4),
    .make 0 (.call "std" "filter" [("where", 5)]), .make 0 (.pipeline 1 [6]),
    .make 0 (.lookup 7 "count"), .make 0 (.list [7, 8, 4])], 0, rfl⟩

end QueryGraph
