import QueryGraph.Proofs.Effects

namespace QueryGraph

/-- The thread whose flag is set for what is in a slot. -/
def Slot.thread? : Slot → Option Thread
  | .scope s => some s.thread
  | _ => none

theorem Slot.thread?_withBuilder (slot : Slot) (b : Builder) :
    (slot.withBuilder b).thread? = slot.thread? := by
  cases slot <;> rfl

namespace Session

/-- The steps that close the scope of a slot, if there is one in it. -/
inductive Step.Closes (index : Nat) : Step → Prop where
  | finish : Closes index (.finish index)
  | print (bindings : Bindings) : Closes index (.print index bindings)
  | execute (bindings : Bindings) : Closes index (.execute index bindings)
  | drop : Closes index (.drop index)

/-- The slot whose scope is open on a thread after a step, given that before it. -/
def watch (thread : Thread) (opened : Option Nat) : Step × Reply → Option Nat
  | (.openScope _ _ other, .opened index) => if other = thread then some index else opened
  | (.finish index, _) | (.print index _, _) | (.execute index _, _) | (.drop index, _) =>
    if opened = some index then none else opened
  | _ => opened

/-- The slot whose scope is open on a thread, as those can tell who have seen all steps and the
answers. -/
def openSlot? (thread : Thread) (transcript : List (Step × Reply)) : Option Nat :=
  transcript.foldl (watch thread) none

/-- The thread on which the scope of a slot is open. -/
def thread? (session : Session) (index : Nat) : Option Thread :=
  (session.slots[index]?).bind Slot.thread?

/-- Whether the scope that is open on a thread is in this slot and no other, and the flag says
so. -/
structure Tracks (session : Session) (thread : Thread) (opened : Option Nat) : Prop where
  scopes : ∀ index, session.thread? index = some thread ↔ opened = some index
  active : session.active thread = opened.isSome

variable {session : Session} {thread : Thread} {opened : Option Nat} {index : Nat}
  {slot slot' : Slot}

theorem thread?_iff : session.thread? index = some thread ↔
    ∃ scope, session.slots[index]? = some (.scope scope) ∧ scope.thread = thread := by
  unfold thread?
  cases found : session.slots[index]? with
  | none => simp
  | some slot => cases slot <;> simp [Slot.thread?]

theorem thread?_of_found (found : session.slots[index]? = some slot) :
    session.thread? index = slot.thread? := by
  rw [thread?, found, Option.bind_some]

theorem thread?_set (found : session.slots[index]? = some slot) {later : Session}
    (slots : later.slots = session.slots.set index slot') (other : Nat) :
    later.thread? other = if other = index then slot'.thread? else session.thread? other := by
  have inside := (List.getElem?_eq_some_iff.1 found).1
  rw [thread?, slots]
  split
  · rename_i same
    rw [same, List.getElem?_set_self inside, Option.bind_some]
  · rename_i apart
    rw [List.getElem?_set_ne (Ne.symm apart), thread?]

theorem thread?_append {later : Session} (slots : later.slots = session.slots ++ [slot])
    (index : Nat) : later.thread? index =
      if index = session.slots.length then slot.thread? else session.thread? index := by
  rw [thread?, slots]
  split
  · rename_i same
    rw [same, List.getElem?_concat_length, Option.bind_some]
  · rename_i apart
    rcases Nat.lt_or_gt_of_ne apart with inside | beyond
    · rw [List.getElem?_append_left inside, thread?]
    · have none' : session.slots[index]? = none := List.getElem?_eq_none (Nat.le_of_lt beyond)
      have none'' : (session.slots ++ [slot])[index]? = none :=
        List.getElem?_eq_none (by simpa using Nat.succ_le_of_lt beyond)
      rw [none'', thread?, none']

theorem active_setFlag (other : Thread) (flag : Bool) : (session.setFlag other flag).active thread =
    if thread = other then flag else session.active thread := rfl

theorem active_replace (found : session.slots[index]? = some slot) :
    (session.replace index slot').active thread =
      if slot.thread? = some thread then false else session.active thread := by
  unfold replace
  rw [found]
  cases slot with
  | scope scope =>
    rw [active_setFlag]
    by_cases same : thread = scope.thread
    · simp [Slot.thread?, same]
    · simp [Slot.thread?, same, Ne.symm same, active]
  | _ => rfl

theorem tracks_start (thread : Thread) : start.Tracks thread none where
  scopes index := by simp [thread?, start]
  active := rfl

namespace Tracks

theorem unchanged (tracks : session.Tracks thread opened)
    (notHere : session.thread? index ≠ some thread) :
    session.Tracks thread (if opened = some index then none else opened) := by
  rwa [if_neg fun here => notHere ((tracks.scopes index).2 here)]

theorem commit (tracks : session.Tracks thread opened) (found : session.slots[index]? = some slot)
    (state : BuildState) : (session.commit index slot state).Tracks thread opened where
  scopes other := by
    rw [thread?_set found rfl, ← tracks.scopes other]
    split
    · rename_i here
      rw [here, thread?_of_found found, slot.thread?_withBuilder]
    · rfl
  active := tracks.active

/-- Something else in its slot closes a scope. -/
theorem close (tracks : session.Tracks thread opened) (found : session.slots[index]? = some slot)
    (noScope : slot'.thread? = none) : (session.replace index slot').Tracks thread
      (if opened = some index then none else opened) := by
  have here : slot.thread? = some thread ↔ opened = some index := by
    rw [← tracks.scopes index, thread?_of_found found]
  constructor
  · intro other
    rw [thread?_set found slots_replace, noScope]
    by_cases same : other = index
    · subst same
      by_cases isOpen : opened = some other <;> simp [isOpen]
    · rw [if_neg same, tracks.scopes other]
      split
      · rename_i isOpen
        simp [isOpen, Ne.symm same]
      · rfl
  · rw [active_replace found, tracks.active]
    by_cases isOpen : opened = some index <;> simp [here, isOpen]

theorem append_builder (tracks : session.Tracks thread opened) (b : Builder) :
    ({ session with slots := session.slots ++ [.builder b] } : Session).Tracks thread opened where
  scopes index := by
    rw [thread?_append rfl, ← tracks.scopes index]
    split
    · rename_i same
      simp [same, thread?, Slot.thread?]
    · rfl
  active := tracks.active

theorem append_scope (tracks : session.Tracks thread opened) {scope : Scope}
    (free : session.active scope.thread = false) {later : Session}
    (slots : later.slots = session.slots ++ [.scope scope])
    (flags : later.flags = (session.setFlag scope.thread true).flags) :
    later.Tracks thread
      (if scope.thread = thread then some session.slots.length else opened) := by
  have flag : later.active thread = (session.setFlag scope.thread true).active thread :=
    congrFun flags thread
  constructor
  · intro index
    rw [thread?_append slots]
    by_cases last : index = session.slots.length
    · have notOpen : opened ≠ some session.slots.length := by
        intro here
        have found := (tracks.scopes _).2 here
        simp [thread?] at found
      by_cases same : scope.thread = thread <;> simp [last, Slot.thread?, same, notOpen]
    · rw [if_neg last, tracks.scopes index]
      split
      · rename_i same
        rw [same, tracks.active, Option.isSome_eq_false_iff, Option.isNone_iff_eq_none] at free
        simp [free, Ne.symm last]
      · rfl
  · rw [flag, active_setFlag, tracks.active]
    by_cases same : scope.thread = thread
    · simp [same]
    · simp [same, Ne.symm same]

theorem call (tracks : session.Tracks thread opened) (index : Nat) {call : BuildM NodeId}
    (atomic : call.Atomic) : (session.call index call).2.Tracks thread opened := by
  rcases session.call_cases index atomic with
    ⟨_, same⟩ | ⟨_, same⟩ | ⟨slot, _, _, state, found, _, _, same⟩
  · rwa [same]
  · rwa [same]
  · rw [same]
    exact tracks.commit found state

theorem step (tracks : session.Tracks thread opened) (step : Step) :
    (session.step step).2.Tracks thread (watch thread opened (step, (session.step step).1)) := by
  cases step with
  | openBuilder registry => exact tracks.append_builder _
  | openScope registry options other =>
    cases isActive : session.active other with
    | true =>
      rw [step_nested isActive]
      exact tracks
    | false =>
      have free : session.active (Scope.empty registry options other).thread = false := isActive
      simp only [Session.step, isActive, Bool.false_eq_true, if_false, watch]
      exact tracks.append_scope free rfl rfl
  | make index request => exact tracks.call index (BuildM.atomic_make request)
  | setName index id name => exact tracks.call index (BuildM.atomic_named id name)
  | finish index =>
    simp only [Session.step, watch]
    split
    · rename_i closed
      refine tracks.unchanged fun here => ?_
      obtain ⟨scope, found, _⟩ := thread?_iff.1 here
      simp [found, Slot.builder?] at closed
    · rename_i b isOpen
      obtain ⟨slot, found, _⟩ := Option.bind_eq_some_iff.1 isOpen
      exact tracks.close found rfl
  | print index bindings | execute index bindings =>
    simp only [Session.step, watch]
    split
    · rename_i found
      exact tracks.close found rfl
    · rename_i noScope
      refine tracks.unchanged fun here => ?_
      obtain ⟨scope, found, _⟩ := thread?_iff.1 here
      exact noScope scope found
  | drop index =>
    simp only [Session.step, watch]
    split
    · rename_i missing
      exact tracks.unchanged (by simp [thread?, missing])
    · rename_i found
      exact tracks.close found rfl

/-- The flag and the slots go along with the answers over any course of steps. -/
theorem run (tracks : session.Tracks thread opened) (steps : List Step) :
    (session.run steps).Tracks thread ((session.transcript steps).foldl (watch thread) opened) := by
  induction steps generalizing session opened with
  | nil => exact tracks
  | cons step rest ih => exact ih (tracks.step step)

theorem step_closes (tracks : session.Tracks thread opened)
    (isOpen : session.thread? index = some thread) {step : Step} (closes : step.Closes index) :
    (session.step step).2.Tracks thread none := by
  have here := (tracks.scopes index).1 isOpen
  have later := tracks.step step
  cases closes <;> simpa [watch, here] using later

end Tracks

theorem step_openScope (tracks : session.Tracks thread opened) (registry : Option Registry)
    (options : Options) :
    (opened = none → session.step (.openScope registry options thread) =
      (.opened session.slots.length,
        { session.setFlag thread true with
          slots := session.slots ++ [.scope (.empty registry options thread)] })) ∧
    (opened ≠ none →
      session.step (.openScope registry options thread) = (.buildError .nestedScope, session)) := by
  constructor
  · rintro rfl
    have inactive : session.active thread = false := tracks.active
    simp [Session.step, inactive]
  · intro some
    exact step_nested (tracks.active.trans (Option.isSome_iff_ne_none.2 some)) registry options

/-- At any time of any course of steps, whatever happens on other threads, the scope that is open on
a thread, if any, is the one that the answers tell of: it is in that slot and there is no other on
the thread, and the flag is set if and only if there is one. A scope can be opened if and only if
none is open; if it cannot, everything stays as it is. Whatever the answer to a step that closes it,
no scope is left behind on the thread, and the next one can be opened. -/
theorem scope_exclusive (thread : Thread) (steps : List Step) :
    let session := start.run steps
    let opened := openSlot? thread (start.transcript steps)
    (∀ index, (∃ scope, session.slots[index]? = some (.scope scope) ∧ scope.thread = thread) ↔
      opened = some index) ∧
    (session.active thread = true ↔
      ∃ (index : Nat) (scope : Scope),
        session.slots[index]? = some (.scope scope) ∧ scope.thread = thread) ∧
    (∀ registry options,
      (opened = none → session.step (.openScope registry options thread) =
        (.opened session.slots.length,
          { session.setFlag thread true with
            slots := session.slots ++ [.scope (.empty registry options thread)] })) ∧
      (opened ≠ none →
        session.step (.openScope registry options thread) =
          (.buildError .nestedScope, session))) ∧
    ∀ (index : Nat) (scope : Scope), session.slots[index]? = some (.scope scope) →
      scope.thread = thread → ∀ step : Step, step.Closes index →
        let later := (session.step step).2
        (∀ (other : Nat) (scope : Scope), later.slots[other]? = some (.scope scope) →
          scope.thread ≠ thread) ∧
        later.active thread = false ∧
        ∀ registry options,
          (later.step (.openScope registry options thread)).1 = .opened later.slots.length := by
  intro session opened
  have tracks : session.Tracks thread opened := (tracks_start thread).run steps
  have scopes (index : Nat) := thread?_iff.symm.trans (tracks.scopes index)
  refine ⟨scopes, ?_, step_openScope tracks, ?_⟩
  · rw [tracks.active, Option.isSome_iff_exists]
    exact exists_congr fun index => (scopes index).symm
  · intro index scope found isThread step closes later
    have nothing : later.Tracks thread none :=
      tracks.step_closes (thread?_iff.2 ⟨scope, found, isThread⟩) closes
    refine ⟨?_, nothing.active, ?_⟩
    · intro other scope found isThread
      have none' := (nothing.scopes other).1 (thread?_iff.2 ⟨scope, found, isThread⟩)
      cases none'
    · intro registry options
      rw [(step_openScope nothing registry options).1 rfl]

/-- Two threads have a scope open each. A variable without a constant makes the one fail to render,
and it is closed all the same, while the other stays open. -/
theorem sample_scope_exclusive :
    let session := start.run [.openBuilder none, .openScope none .standard 1,
      .make 1 (.variable "rows"), .openScope (some .standard) .standard 2, .make 1 (.list [1])]
    session.active 1 = true ∧ (∀ scope, session.slots[0]? ≠ some (.scope scope)) ∧
      session.step (.openScope (some .standard) .standard 1) =
        (.buildError .nestedScope, session) ∧
      (session.step (.execute 1 .empty)).1 = .renderError (.unboundVariable "rows" .missing) ∧
      ((session.step (.execute 1 .empty)).2).active 2 = true ∧
      (((session.step (.execute 1 .empty)).2).step (.openScope none .standard 1)).1 =
        .opened 3 := by
  intro session
  obtain ⟨scopes, active, opening, closing⟩ := scope_exclusive 1 [.openBuilder none,
    .openScope none .standard 1, .make 1 (.variable "rows"),
    .openScope (some .standard) .standard 2, .make 1 (.list [1])]
  refine ⟨active.2 ⟨1, _, rfl, rfl⟩, ?_, (opening _ _).2 (by decide), rfl, rfl, ?_⟩
  · intro scope found
    cases found
  · exact (closing 1 _ rfl rfl _ (.execute .empty)).2.2 none .standard

end Session

end QueryGraph
