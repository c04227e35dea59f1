import QueryGraph.Proofs.Interleaving

namespace QueryGraph

open Session

/-- Whether a graph has no other ids than one before it, except that the next free one may have been
taken. -/
inductive Graph.Grows (next : NodeId) (before graph : Graph) : NodeId → Prop where
  | same (ids : graph.ids = before.ids) : Grows next before graph next
  | added (ids : graph.ids = before.ids ++ [next]) : Grows next before graph (next + 1)

theorem Graph.Grows.ids {next next' : NodeId} {before graph : Graph}
    (grows : before.Grows next graph next') :
    graph.ids = before.ids ∨ (graph.ids = before.ids ++ [next] ∧ next' = next + 1) := by
  cases grows with
  | same ids => exact Or.inl ids
  | added ids => exact Or.inr ⟨ids, rfl⟩

theorem Graph.Grows.length {next next' : NodeId} {before graph : Graph}
    (grows : before.Grows next graph next') :
    graph.ids.length + next = before.ids.length + next' := by
  cases grows with
  | same ids => rw [ids]
  | added ids =>
    rw [ids, List.length_append, List.length_singleton, Nat.add_right_comm, Nat.add_assoc]

namespace Slot

/-- What a call on its builder makes of a slot, and the next free id after it. -/
def call (next : NodeId) (call : BuildM NodeId) (slot : Slot) : Slot × NodeId :=
  match slot.builder? with
  | none => (slot, next)
  | some b => (slot.withBuilder (call.after ⟨b, next⟩).builder, (call.after ⟨b, next⟩).nextId)

/-- What a step makes of the slot that it is about, and the next free id after it. -/
def after (next : NodeId) (step : Step) (slot : Slot) : Slot × NodeId :=
  match step with
  | .openBuilder _ | .openScope _ _ _ => (slot, next)
  | .make _ request => slot.call next (.make request)
  | .setName _ id name => slot.call next (.named id name)
  | .finish _ =>
    match slot.builder? with
    | none => (slot, next)
    | some b => (.graph b.finish, next)
  | .print _ _ | .execute _ _ => (if slot.isScope then .closed else slot, next)
  | .drop _ => (.closed, next)

theorem graph?_of_builder? {slot : Slot} {b : Builder} (isOpen : slot.builder? = some b) :
    slot.graph? = some b.graph := by
  cases slot <;> cases isOpen <;> rfl

theorem graph?_withBuilder (slot : Slot) (b : Builder) :
    (slot.withBuilder b).graph? = some b.graph := by
  cases slot <;> rfl

/-- What the graph of a slot after a step comes from, and the next free id with it: it is the one
that was there, or a node has been made in that, or one of its nodes named. -/
inductive Yields (slot : Slot) (next : NodeId) : Step → Graph → NodeId → Prop where
  | kept {step : Step} {graph : Graph} (isGraph : slot.graph? = some graph) :
    Yields slot next step graph next
  | made {index : Nat} {request : NodeKind} {b : Builder} (isOpen : slot.builder? = some b)
    (admits : b.Admits request) :
    Yields slot next (.make index request) (b.insert next request.merged).graph (next + 1)
  | named {index : Nat} {id : NodeId} {name : String} {b : Builder}
    (isOpen : slot.builder? = some b) (mayName : b.MayName id name) :
    Yields slot next (.setName index id name) (b.withName id name).graph next

theorem call_closed {slot : Slot} (closed : slot.builder? = none) (next : NodeId)
    (call : BuildM NodeId) : slot.call next call = (slot, next) := by
  rw [Slot.call, closed]

/-- What can come of a call on the builder of a slot that leaves nothing behind if it fails. -/
theorem call_cases (slot : Slot) (next : NodeId) {call : BuildM NodeId} (atomic : call.Atomic) :
    slot.call next call = (slot, next) ∨
    ∃ b id state, slot.builder? = some b ∧ call.run ⟨b, next⟩ = .ok id state ∧
      slot.call next call = (slot.withBuilder state.builder, state.nextId) := by
  cases isOpen : slot.builder? with
  | none => exact Or.inl (call_closed isOpen next call)
  | some b =>
    simp only [Slot.call, isOpen]
    cases outcome : call.run ⟨b, next⟩ with
    | ok id state =>
      exact Or.inr ⟨b, id, state, rfl, outcome, by simp only [BuildM.after_of_ok outcome]⟩
    | error error state =>
      obtain rfl := atomic _ _ _ outcome
      exact Or.inl (by simp only [BuildM.after_of_error outcome, withBuilder_self isOpen])

theorem le_call (slot : Slot) (next : NodeId) {call : BuildM NodeId} (atomic : call.Atomic)
    (ascends : call.Ascends) : next ≤ (slot.call next call).2 := by
  rcases slot.call_cases next atomic with same | ⟨b, id, state, _, done, same⟩
  · rw [same]
  · rw [same]
    exact ascends _ _ _ done

theorem call_make {slot : Slot} {b : Builder} (isOpen : slot.builder? = some b)
    {request : NodeKind} (admits : b.Admits request) (next : NodeId) :
    slot.call next (.make request) =
      (slot.withBuilder (b.insert next request.merged), next + 1) := by
  simp only [call, isOpen, BuildM.after_of_ok (BuildM.run_make admits next)]

theorem call_make_fails {slot : Slot} {b : Builder} (isOpen : slot.builder? = some b)
    {request : NodeKind} (refuses : ¬ b.Admits request) (next : NodeId) :
    slot.call next (.make request) = (slot, next) := by
  obtain ⟨_, failed⟩ := BuildM.make_fails refuses next
  simp only [call, isOpen, BuildM.after_of_error failed, withBuilder_self isOpen]

theorem call_named {slot : Slot} {b : Builder} (isOpen : slot.builder? = some b) {id : NodeId}
    {name : String} (mayName : b.MayName id name) (next : NodeId) :
    slot.call next (.named id name) = (slot.withBuilder (b.withName id name), next) := by
  simp only [call, isOpen, BuildM.after_of_ok (BuildM.run_named mayName next)]

theorem call_named_fails {slot : Slot} {b : Builder} (isOpen : slot.builder? = some b)
    {id : NodeId} {name : String} (refuses : ¬ b.MayName id name) (next : NodeId) :
    slot.call next (.named id name) = (slot, next) := by
  obtain ⟨_, failed⟩ := BuildM.named_fails refuses next
  simp only [call, isOpen, BuildM.after_of_error failed, withBuilder_self isOpen]

theorem yields_after {slot : Slot} {next : NodeId} {step : Step} {graph : Graph}
    (found : (slot.after next step).1.graph? = some graph) :
    slot.Yields next step graph (slot.after next step).2 := by
  have unchanged (same : slot.after next step = (slot, next)) :
      slot.Yields next step graph (slot.after next step).2 := by
    rw [same] at found ⊢
    exact .kept found
  cases step with
  | openBuilder | openScope => exact unchanged rfl
  | make index request =>
    rcases slot.call_cases next (BuildM.atomic_make request) with
      same | ⟨b, _, _, isOpen, done, same⟩
    · exact unchanged same
    · obtain ⟨admits, _, rfl⟩ := BuildM.make_iff.1 done
      simp only [after, same, graph?_withBuilder, Option.some.injEq] at found ⊢
      exact found ▸ .made isOpen admits
  | setName index id name =>
    rcases slot.call_cases next (BuildM.atomic_named id name) with
      same | ⟨b, _, _, isOpen, done, same⟩
    · exact unchanged same
    · obtain ⟨mayName, _, rfl⟩ := BuildM.named_iff.1 done
      simp only [after, same, graph?_withBuilder, Option.some.injEq] at found ⊢
      exact found ▸ .named isOpen mayName
  | finish index =>
    cases isOpen : slot.builder? with
    | none => exact unchanged (by simp only [after, isOpen])
    | some b =>
      simp only [after, isOpen] at found ⊢
      exact .kept ((graph?_of_builder? isOpen).trans found)
  | print index bindings | execute index bindings =>
    cases scope : slot.isScope with
    | true => simp [after, scope, graph?] at found
    | false => exact unchanged (by simp [after, scope])
  | drop index => cases found

theorem Yields.grows {slot : Slot} {next next' : NodeId} {step : Step} {graph : Graph}
    (yields : slot.Yields next step graph next') :
    ∃ before, slot.graph? = some before ∧ before.Grows next graph next' := by
  cases yields with
  | kept isGraph => exact ⟨graph, isGraph, .same rfl⟩
  | @made index request b isOpen admits =>
    exact ⟨b.graph, graph?_of_builder? isOpen, .added (b.ids_insert next _)⟩
  | @named index id name b isOpen mayName =>
    refine ⟨b.graph, graph?_of_builder? isOpen, .same ?_⟩
    simp [Graph.ids, Builder.withName, Function.comp_def]

theorem le_after (slot : Slot) (next : NodeId) (step : Step) : next ≤ (slot.after next step).2 := by
  cases step with
  | make index request =>
    exact slot.le_call next (BuildM.atomic_make request) (BuildM.ascends_make request)
  | setName index id name =>
    exact slot.le_call next (BuildM.atomic_named id name) (BuildM.ascends_named id name)
  | finish index => cases isOpen : slot.builder? <;> simp [after, isOpen]
  | _ => exact Nat.le_refl next

end Slot

namespace Session

variable {session : Session} {index : Nat} {step : Step}

/-- The graph of a slot as it stands, unless the slot is closed. -/
def graph? (session : Session) (index : Nat) : Option Graph :=
  (session.slots[index]?).bind Slot.graph?

theorem step_missing (about : step.slot? = some index) (missing : session.slots[index]? = none) :
    (session.step step).2 = session := by
  cases step with
  | openBuilder | openScope => cases about
  | _ => cases about; simp [Session.step, call, missing]

theorem call_found {slot : Slot} (found : session.slots[index]? = some slot)
    (call : BuildM NodeId) :
    (session.call index call).2.slots = session.slots.set index (slot.call session.nextId call).1 ∧
      (session.call index call).2.nextId = (slot.call session.nextId call).2 := by
  cases isOpen : slot.builder? with
  | none =>
    obtain ⟨inside, rfl⟩ := List.getElem?_eq_some_iff.1 found
    simp only [Session.call, found, Slot.call, isOpen, List.set_getElem_self, and_self]
  | some b =>
    simp only [Session.call, found, Slot.call, isOpen, BuildM.after]
    cases call.run ⟨b, session.nextId⟩ with
    | ok id state => exact ⟨rfl, rfl⟩
    | error error state => exact ⟨rfl, rfl⟩

theorem step_found (about : step.slot? = some index) {slot : Slot}
    (found : session.slots[index]? = some slot) :
    (session.step step).2.slots = session.slots.set index (slot.after session.nextId step).1 ∧
      (session.step step).2.nextId = (slot.after session.nextId step).2 := by
  have unchanged : session.slots = session.slots.set index slot := by
    obtain ⟨inside, rfl⟩ := List.getElem?_eq_some_iff.1 found
    exact (List.set_getElem_self inside).symm
  cases step with
  | openBuilder | openScope => cases about
  | make _ request =>
    cases about
    exact call_found found (.make request)
  | setName _ id name =>
    cases about
    exact call_found found (.named id name)
  | finish =>
    cases about
    cases isOpen : slot.builder? with
    | none =>
      simpa only [Session.step, found, Slot.after, Option.bind_some, isOpen, and_true]
        using unchanged
    | some b =>
      simp only [Session.step, found, Slot.after, Option.bind_some, isOpen, slots_replace,
        nextId_replace, and_self]
  | print | execute =>
    cases about
    cases slot with
    | scope s =>
      simp only [Session.step, found, Slot.after, Slot.isScope, slots_replace, nextId_replace,
        if_true, and_self]
    | builder | graph | closed =>
      simpa only [Session.step, found, Slot.after, Slot.isScope, Bool.false_eq_true, if_false,
        and_true] using unchanged
  | drop =>
    cases about
    simp only [Session.step, found, Slot.after, slots_replace, nextId_replace, and_self]

theorem step_opens (opens : step.slot? = none) : (session.step step).2.nextId = session.nextId ∧
    ((session.step step).2 = session ∨ ∃ slot, slot.graph? = some ⟨[]⟩ ∧
      (session.step step).2.slots = session.slots ++ [slot]) := by
  cases step with
  | openBuilder registry => exact ⟨rfl, Or.inr ⟨.builder (.empty registry), rfl, rfl⟩⟩
  | openScope registry options thread =>
    cases isActive : session.active thread with
    | true => exact ⟨by rw [step_nested isActive], Or.inl (by rw [step_nested isActive])⟩
    | false =>
      simp only [Session.step, isActive]
      exact ⟨rfl, Or.inr ⟨.scope (.empty registry options thread), rfl, rfl⟩⟩
  | _ => cases opens

theorem nextId_le_step (session : Session) (step : Step) :
    session.nextId ≤ (session.step step).2.nextId := by
  cases about : step.slot? with
  | none => rw [(step_opens about).1]
  | some index =>
    cases found : session.slots[index]? with
    | none => rw [step_missing about found]
    | some slot =>
      rw [(step_found about found).2]
      exact slot.le_after session.nextId step

theorem length_le_step (session : Session) (step : Step) :
    session.slots.length ≤ (session.step step).2.slots.length := by
  cases about : step.slot? with
  | none =>
    rcases (step_opens about).2 with same | ⟨slot, _, opened⟩
    · rw [same]
    · simp [opened]
  | some index =>
    cases found : session.slots[index]? with
    | none => rw [step_missing about found]
    | some slot => rw [(step_found about found).1, List.length_set]

theorem slots_elsewhere (elsewhere : step.slot? ≠ some index)
    (inside : index < session.slots.length) :
    (session.step step).2.slots[index]? = session.slots[index]? := by
  cases about : step.slot? with
  | none =>
    rcases (step_opens about).2 with same | ⟨slot, _, opened⟩
    · rw [same]
    · rw [opened, List.getElem?_append_left inside]
  | some other =>
    cases found : session.slots[other]? with
    | none => rw [step_missing about found]
    | some slot =>
      rw [(step_found about found).1, List.getElem?_set_ne]
      rintro rfl
      exact elsewhere about

theorem slots_missing {slot : Slot} (missing : session.slots[index]? = none)
    (found : (session.step step).2.slots[index]? = some slot) : slot.graph? = some ⟨[]⟩ := by
  have beyond : session.slots.length ≤ index := List.getElem?_eq_none_iff.1 missing
  cases about : step.slot? with
  | none =>
    rcases (step_opens about).2 with same | ⟨slot', isNew, opened⟩
    · rw [same, missing] at found
      cases found
    · rw [opened, List.getElem?_append_right beyond] at found
      rw [List.mem_singleton.1 (List.mem_of_getElem? found)]
      exact isNew
  | some other =>
    cases found' : session.slots[other]? with
    | none =>
      rw [step_missing about found', missing] at found
      cases found
    | some slot' =>
      rw [(step_found about found').1, List.getElem?_eq_none (by simpa using beyond)] at found
      cases found

/-- A graph in a slot was there before a step, and has another id only if the step was about the
slot, or has no nodes as yet. -/
theorem grows_step {graph : Graph} (found : (session.step step).2.graph? index = some graph) :
    (∃ before, session.graph? index = some before ∧ (graph.ids = before.ids ∨
      (step.slot? = some index ∧ graph.ids = before.ids ++ [session.nextId] ∧
        (session.step step).2.nextId = session.nextId + 1))) ∨
    graph.ids = [] := by
  obtain ⟨slot, found, isGraph⟩ := Option.bind_eq_some_iff.1 found
  cases earlier : session.slots[index]? with
  | none =>
    cases (slots_missing earlier found).symm.trans isGraph
    exact Or.inr rfl
  | some slot' =>
    have inside := (List.getElem?_eq_some_iff.1 earlier).1
    rw [graph?, earlier, Option.bind_some]
    by_cases about : step.slot? = some index
    · obtain ⟨slots, nextId⟩ := step_found about earlier
      rw [slots, List.getElem?_set_self inside] at found
      cases found
      obtain ⟨before, isBefore, grows⟩ := (Slot.yields_after isGraph).grows
      rw [nextId]
      exact Or.inl ⟨before, isBefore, grows.ids.imp_right fun added => ⟨about, added⟩⟩
    · rw [slots_elsewhere about inside, earlier] at found
      cases found
      exact Or.inl ⟨graph, isGraph, Or.inl rfl⟩

/-- Whether no id is that of a node in two slots, and all of them are below the next free one. -/
structure Apart (session : Session) : Prop where
  below : ∀ index graph, session.graph? index = some graph → ∀ id ∈ graph.ids, id < session.nextId
  disjoint : ∀ index index' graph graph', index ≠ index' → session.graph? index = some graph →
    session.graph? index' = some graph' → ∀ id ∈ graph.ids, id ∉ graph'.ids

theorem Apart.kept (apart : session.Apart) (step : Step) : (session.step step).2.Apart := by
  have origin {index : Nat} {graph : Graph}
      (found : (session.step step).2.graph? index = some graph) {id : NodeId}
      (member : id ∈ graph.ids) :
      (∃ before, session.graph? index = some before ∧ id ∈ before.ids) ∨
        (step.slot? = some index ∧ id = session.nextId ∧
          (session.step step).2.nextId = session.nextId + 1) := by
    rcases grows_step found with ⟨before, isBefore, ids | ⟨about, ids, taken⟩⟩ | empty
    · exact Or.inl ⟨before, isBefore, ids ▸ member⟩
    · rw [ids, List.mem_append, List.mem_singleton] at member
      exact member.imp (fun member => ⟨before, isBefore, member⟩) fun same => ⟨about, same, taken⟩
    · rw [empty] at member
      cases member
  constructor
  · intro index graph found id member
    rcases origin found member with ⟨before, isBefore, member⟩ | ⟨_, rfl, taken⟩
    · exact Nat.lt_of_lt_of_le (apart.below index before isBefore id member)
        (session.nextId_le_step step)
    · rw [taken]
      exact Nat.lt_succ_self _
  · intro index index' graph graph' distinct found found' id member member'
    rcases origin found member with ⟨before, isBefore, member⟩ | ⟨about, isNew, _⟩
    · rcases origin found' member' with ⟨before', isBefore', member'⟩ | ⟨_, isNew', _⟩
      · exact apart.disjoint index index' before before' distinct isBefore isBefore' id member
          member'
      · exact absurd isNew' (Nat.ne_of_lt (apart.below index before isBefore id member))
    · rcases origin found' member' with ⟨before', isBefore', member'⟩ | ⟨about', _, _⟩
      · exact absurd isNew (Nat.ne_of_lt (apart.below index' before' isBefore' id member'))
      · exact distinct (Option.some.inj (about.symm.trans about'))

theorem apart_start : start.Apart where
  below _ _ found := by cases found
  disjoint _ _ _ _ _ found := by cases found

theorem Apart.run (apart : session.Apart) (steps : List Step) : (session.run steps).Apart := by
  induction steps generalizing session with
  | nil => exact apart
  | cons step rest ih => exact ih (apart.kept step)

/-- The ids in a slot were in it at any earlier time, or were free then. -/
theorem ids_run {steps : List Step} {graph : Graph}
    (found : (session.run steps).graph? index = some graph) {id : NodeId}
    (member : id ∈ graph.ids) :
    (∃ before, session.graph? index = some before ∧ id ∈ before.ids) ∨ session.nextId ≤ id := by
  induction steps generalizing session with
  | nil => exact Or.inl ⟨graph, found, member⟩
  | cons step rest ih =>
    rcases ih found with ⟨middle, isMiddle, member⟩ | free
    · rcases grows_step isMiddle with ⟨before, isBefore, ids | ⟨_, ids, _⟩⟩ | empty
      · exact Or.inl ⟨before, isBefore, ids ▸ member⟩
      · rw [ids, List.mem_append, List.mem_singleton] at member
        exact member.imp (fun member => ⟨before, isBefore, member⟩) fun same => same.symm.le
      · rw [empty] at member
        cases member
    · exact Or.inr (Nat.le_trans (session.nextId_le_step step) free)

theorem Apart.never_elsewhere (apart : session.Apart) {other : Nat} (distinct : other ≠ index)
    {earlier graph : Graph} {steps : List Step} (found : session.graph? other = some earlier)
    (found' : (session.run steps).graph? index = some graph) {id : NodeId}
    (member : id ∈ earlier.ids) : id ∉ graph.ids := by
  intro member'
  rcases ids_run found' member' with ⟨before, isBefore, inside⟩ | free
  · exact apart.disjoint other index earlier before distinct found isBefore id member inside
  · exact absurd (apart.below other earlier found id member) (Nat.not_lt_of_le free)

end Session

end QueryGraph
