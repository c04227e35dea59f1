import QueryGraph.Proofs.Slots

namespace QueryGraph

open QueryGraph.Graph

variable {f : NodeId → NodeId}

def Graph.rename (f : NodeId → NodeId) (graph : Graph) : Graph :=
  ⟨graph.nodes.map (Node.rename f)⟩

theorem Graph.ids_rename (graph : Graph) : (graph.rename f).ids = graph.ids.map f := by
  simp [Graph.rename, ids]

theorem Graph.roots_rename (graph : Graph) : (graph.rename f).roots = graph.roots.map f := by
  simp [Graph.rename, roots, List.filter_map, Function.comp_def]

def Builder.rename (f : NodeId → NodeId) (b : Builder) : Builder :=
  ⟨b.graph.rename f, b.registry⟩

namespace Slot

def rename (f : NodeId → NodeId) : Slot → Slot
  | .builder b => .builder (b.rename f)
  | .scope s => .scope { s with builder := s.builder.rename f }
  | .graph g => .graph (g.rename f)
  | .closed => .closed

@[simp] theorem builder?_rename (slot : Slot) :
    (slot.rename f).builder? = slot.builder?.map (Builder.rename f) := by
  cases slot <;> rfl

@[simp] theorem graph?_rename (slot : Slot) :
    (slot.rename f).graph? = slot.graph?.map (Graph.rename f) := by
  cases slot <;> rfl

@[simp] theorem isScope_rename (slot : Slot) : (slot.rename f).isScope = slot.isScope := by
  cases slot <;> rfl

theorem withBuilder_rename (slot : Slot) (b : Builder) :
    (slot.rename f).withBuilder (b.rename f) = (slot.withBuilder b).rename f := by
  cases slot <;> rfl

end Slot

/-- Whether ids become their ranks in a list, and all others more than there are ranks. -/
structure Ranks (f : NodeId → NodeId) (ids : List NodeId) : Prop where
  inside : ids.map f = List.range' 1 ids.length
  outside : ∀ id ∉ ids, ids.length < f id

theorem ranks_idxOf {ids : List NodeId} (distinct : ids.Nodup) :
    Ranks (fun id => ids.idxOf id + 1) ids where
  inside := by
    refine List.ext_getElem (by simp) fun index _ _ => ?_
    simp [distinct.idxOf_getElem, Nat.add_comm]
  outside id missing := by
    rw [List.idxOf_eq_length missing]
    exact Nat.lt_succ_self _

theorem Ranks.of_concat {ids : List NodeId} {id : NodeId} (ranks : Ranks f (ids ++ [id])) :
    Ranks f ids ∧ f id = ids.length + 1 := by
  have inside := ranks.inside
  rw [List.map_append, List.length_append, List.length_singleton, List.range'_concat] at inside
  obtain ⟨front, last⟩ := List.append_inj inside (by simp)
  have last : f id = ids.length + 1 := by simpa [Nat.add_comm] using last
  refine ⟨⟨front, fun other missing => ?_⟩, last⟩
  by_cases same : other = id
  · rw [same, last]
    exact Nat.lt_succ_self _
  · have more := ranks.outside other (by simp [missing, same])
    rw [List.length_append] at more
    exact Nat.lt_of_le_of_lt (Nat.le_add_right _ _) more

theorem Ranks.of_grows {next next' : NodeId} {before graph : Graph} (ranks : Ranks f graph.ids)
    (grows : before.Grows next graph next') :
    Ranks f before.ids ∧ (next' = next + 1 → f next = before.ids.length + 1) := by
  cases grows with
  | same ids => exact ⟨ids ▸ ranks, fun taken => absurd taken (Nat.ne_of_lt (Nat.lt_succ_self _))⟩
  | added ids =>
    rw [ids] at ranks
    exact ⟨ranks.of_concat.1, fun _ => ranks.of_concat.2⟩

theorem Ranks.counterparts {graph : Graph} (ranks : Ranks f graph.ids)
    (renamed : Renamed f graph (graph.rename f)) (id : NodeId) :
    graph.Counterparts (graph.rename f) id (f id) := by
  by_cases known : id ∈ graph.ids
  · obtain ⟨node, inside, rfl⟩ := mem_ids.1 known
    exact renamed.counterpart inside
  · refine Or.inr ⟨known, ?_⟩
    rw [ids_rename, ranks.inside, List.mem_range'_1]
    have more := ranks.outside id known
    omega

theorem Builder.insert_rename {b : Builder} (renamed : Renamed f b.graph (b.rename f).graph)
    {kind : NodeKind} (known : ∀ id ∈ kind.operands, id ∈ b.graph.ids) (next : NodeId) :
    (b.rename f).insert (f next) (kind.rename f) = (b.insert next kind).rename f := by
  have used : (b.rename f).graph.nodes.map (·.usedBy (kind.rename f)) =
      (b.graph.nodes.map (·.usedBy kind)).map (Node.rename f) := by
    rw [Builder.rename, Graph.rename, List.map_map, List.map_map]
    exact List.map_congr_left fun node inside => renamed.usedBy known inside
  have nodes : ((b.rename f).insert (f next) (kind.rename f)).graph.nodes =
      (b.insert next kind).graph.nodes.map (Node.rename f) := by
    rw [nodes_insert, used, nodes_insert, List.map_append]
    rfl
  exact congrArg (fun nodes => (⟨⟨nodes⟩, b.registry⟩ : Builder)) nodes

theorem Builder.admits_rename {b : Builder} (renamed : Renamed f b.graph (b.rename f).graph)
    (ranks : Ranks f b.graph.ids) (request : NodeKind) :
    (b.rename f).Admits (request.rename f) ↔ b.Admits request :=
  renamed.admits_iff rfl fun id _ => ranks.counterparts renamed id

theorem Builder.insert_merged_rename {b : Builder}
    (renamed : Renamed f b.graph (b.rename f).graph) {request : NodeKind}
    (admits : b.Admits request) (next : NodeId) :
    (b.rename f).insert (f next) (request.rename f).merged =
      (b.insert next request.merged).rename f := by
  rw [NodeKind.merged_rename]
  exact insert_rename renamed (fun id isOperand => mem_ids.2
    (exists_operand admits.accepts.values admits.accepts.calls isOperand)) next

theorem Builder.mayName_rename {b : Builder} (renamed : Renamed f b.graph (b.rename f).graph)
    (ranks : Ranks f b.graph.ids) (id : NodeId) (name : String) :
    (b.rename f).MayName (f id) name ↔ b.MayName id name :=
  renamed.mayName_iff (ranks.counterparts renamed id)

theorem Builder.withName_rename {b : Builder} (renamed : Renamed f b.graph (b.rename f).graph)
    (ranks : Ranks f b.graph.ids) (id : NodeId) (name : String) :
    (b.rename f).withName (f id) name = (b.withName id name).rename f := by
  have nodes : (b.rename f).graph.nodes.map (·.withName (f id) name) =
      (b.graph.nodes.map (·.withName id name)).map (Node.rename f) := by
    rw [Builder.rename, Graph.rename, List.map_map, List.map_map]
    exact List.map_congr_left fun node inside =>
      renamed.withName (ranks.counterparts renamed id) name inside
  exact congrArg (fun nodes => (⟨⟨nodes⟩, b.registry⟩ : Builder)) nodes

/-- A step as it is asked of the only slot there is, with other ids. -/
def Session.Step.alone (f : NodeId → NodeId) : Step → Step
  | .openBuilder registry => .openBuilder registry
  | .openScope registry options thread => .openScope registry options thread
  | .make _ request => .make 0 (request.rename f)
  | .setName _ id name => .setName 0 (f id) name
  | .finish _ => .finish 0
  | .print _ bindings => .print 0 bindings
  | .execute _ bindings => .execute 0 bindings
  | .drop _ => .drop 0

/-- What a step makes of a slot it makes of the slot under other ids, if the node that may come of
it takes its rank for an id. -/
theorem Slot.after_rename {slot : Slot} {step : Session.Step} {next next' : NodeId}
    (renamed : ∀ b, slot.builder? = some b → Renamed f b.graph (b.rename f).graph)
    (ranks : ∀ b, slot.builder? = some b → Ranks f b.graph.ids)
    (rank : (slot.after next step).2 = next + 1 → f next = next') :
    ((slot.rename f).after next' (step.alone f)).1 = (slot.after next step).1.rename f := by
  cases step with
  | openBuilder | openScope => rfl
  | make _ request =>
    change ((slot.rename f).call next' (.make (request.rename f))).1 =
      (slot.call next (.make request)).1.rename f
    cases isOpen : slot.builder? with
    | none => rw [call_closed isOpen, call_closed (by simp [isOpen])]
    | some b =>
      have isOpen' : (slot.rename f).builder? = some (b.rename f) := by simp [isOpen]
      have admits_rename := Builder.admits_rename (renamed b isOpen) (ranks b isOpen) request
      by_cases admits : b.Admits request
      · obtain rfl := rank (by rw [after, call_make isOpen admits])
        rw [call_make isOpen admits, call_make isOpen' (admits_rename.2 admits),
          Builder.insert_merged_rename (renamed b isOpen) admits, withBuilder_rename]
      · rw [call_make_fails isOpen admits, call_make_fails isOpen' (mt admits_rename.1 admits)]
  | setName _ id name =>
    change ((slot.rename f).call next' (.named (f id) name)).1 =
      (slot.call next (.named id name)).1.rename f
    cases isOpen : slot.builder? with
    | none => rw [call_closed isOpen, call_closed (by simp [isOpen])]
    | some b =>
      have isOpen' : (slot.rename f).builder? = some (b.rename f) := by simp [isOpen]
      have mayName_rename :=
        Builder.mayName_rename (renamed b isOpen) (ranks b isOpen) id name
      by_cases mayName : b.MayName id name
      · rw [call_named isOpen mayName, call_named isOpen' (mayName_rename.2 mayName),
          Builder.withName_rename (renamed b isOpen) (ranks b isOpen), withBuilder_rename]
      · rw [call_named_fails isOpen mayName,
          call_named_fails isOpen' (mt mayName_rename.1 mayName)]
  | finish =>
    cases isOpen : slot.builder? with
    | none => simp [after, Session.Step.alone, isOpen]
    | some b => simp [after, Session.Step.alone, isOpen]; rfl
  | print | execute =>
    cases scope : slot.isScope with
    | true => simp [after, Session.Step.alone, scope]; rfl
    | false => simp [after, Session.Step.alone, scope]
  | drop => rfl

namespace Session

/-- Whether a step opens a slot or is asked of it. -/
def concerns (session : Session) (index : Nat) (step : Step) : Bool :=
  match step.slot? with
  | some other => other == index
  | none =>
    match (session.step step).1 with
    | .opened other => other == index
    | _ => false

/-- The steps of a course that concern a slot, as they are asked of the only slot there is. -/
def own (f : NodeId → NodeId) (index : Nat) (session : Session) : List Step → List Step
  | [] => []
  | step :: rest =>
    let later := own f index (session.step step).2 rest
    if session.concerns index step then step.alone f :: later else later

theorem own_concat (f : NodeId → NodeId) (index : Nat) (session : Session) (steps : List Step)
    (step : Step) : session.own f index (steps ++ [step]) = session.own f index steps ++
      if (session.run steps).concerns index step then [step.alone f] else [] := by
  induction steps generalizing session with
  | nil => rfl
  | cons first rest ih =>
    rw [List.cons_append, own, own, ih]
    split
    · rfl
    · rfl

theorem concerns_iff_of_found {session : Session} {index : Nat} {step : Step}
    (inside : index < session.slots.length) :
    session.concerns index step = true ↔ step.slot? = some index := by
  cases step with
  | openBuilder registry => simp [concerns, Step.slot?, Session.step, Nat.ne_of_gt inside]
  | openScope registry options thread =>
    cases active : session.active thread with
    | true => simp [concerns, Step.slot?, Session.step, active]
    | false => simp [concerns, Step.slot?, Session.step, active, Nat.ne_of_gt inside]
  | _ => simp [concerns, Step.slot?]

theorem Step.slot?_alone {step : Step} {index : Nat} (about : step.slot? = some index) :
    (step.alone f).slot? = some 0 := by
  cases step with
  | openBuilder | openScope => cases about
  | _ => rfl

/-- Whether a session is about a slot of another one and nothing else. As long as the slot is not
closed, the ids are the ranks of those that they stand for. -/
def Mirrors (f : NodeId → NodeId) (index : Nat) (session alone : Session) : Prop :=
  match session.slots[index]? with
  | none => alone = start
  | some slot => ∀ graph, slot.graph? = some graph → Ranks f graph.ids →
    alone.slots = [slot.rename f] ∧ alone.nextId = graph.ids.length + 1

variable {session alone : Session} {index : Nat}

theorem Mirrors.of_missing (missing : session.slots[index]? = none)
    (mirrors : Mirrors f index session alone) (step : Step) : Mirrors f index (session.step step).2
      (if session.concerns index step then (alone.step (step.alone f)).2 else alone) := by
  have beyond := List.getElem?_eq_none_iff.1 missing
  rw [Mirrors, missing] at mirrors
  subst mirrors
  cases about : step.slot? with
  | some other =>
    have same : (start.step (step.alone f)).2 = start :=
      step_missing (Step.slot?_alone about) rfl
    have missing' : (session.step step).2.slots[index]? = none := by
      cases found : session.slots[other]? with
      | none => rw [step_missing about found, missing]
      | some slot => rw [(step_found about found).1, List.getElem?_eq_none (by simpa using beyond)]
    rw [Mirrors, missing', same, ite_self]
  | none =>
    -- A slot that is not there yet is the next to be opened, or comes later.
    have opened (slot : Slot) (flags : Thread → Bool) (fresh : slot.graph? = some ⟨[]⟩)
        (alone : Session) (only : alone.slots = [slot.rename f]) (first : alone.nextId = 1) :
        Mirrors f index { session with slots := session.slots ++ [slot], flags }
          (if session.slots.length == index then alone else start) := by
      by_cases next : session.slots.length = index
      · subst next
        simp only [Mirrors, List.getElem?_concat_length, beq_self_eq_true, if_true]
        rintro graph isGraph -
        cases fresh.symm.trans isGraph
        exact ⟨only, first⟩
      · have beyond' : (session.slots ++ [slot])[index]? = none := by
          rw [List.getElem?_eq_none_iff, List.length_append, List.length_singleton]
          omega
        simp [Mirrors, beyond', next]
    cases step with
    | openBuilder registry => exact opened (.builder (.empty registry)) _ rfl _ rfl rfl
    | openScope registry options thread =>
      cases active : session.active thread with
      | true => simp [Mirrors, Session.step, concerns, Step.slot?, active, missing]
      | false =>
        have now := opened (.scope (.empty registry options thread))
          (session.setFlag thread true).flags rfl
          (start.step (.openScope registry options thread)).2 rfl rfl
        simpa [Session.step, setFlag, concerns, Step.slot?, active, Step.alone] using now
    | _ => cases about

theorem Mirrors.of_found {slot : Slot} (found : session.slots[index]? = some slot)
    (mirrors : Mirrors f index session alone)
    (all : session.All fun next b => b.graph.WellFormedBelow next)
    (all' : alone.All fun next b => b.graph.WellFormedBelow next)
    (step : Step) : Mirrors f index (session.step step).2
      (if session.concerns index step then (alone.step (step.alone f)).2 else alone) := by
  have inside := (List.getElem?_eq_some_iff.1 found).1
  rw [Mirrors, found] at mirrors
  by_cases about : step.slot? = some index
  · rw [if_pos ((concerns_iff_of_found inside).2 about), Mirrors, (step_found about found).1,
      List.getElem?_set_self inside]
    intro graph isGraph ranks
    obtain ⟨before, isBefore, grows⟩ := (Slot.yields_after isGraph).grows
    obtain ⟨earlier, rank⟩ := ranks.of_grows grows
    obtain ⟨slots, nextId⟩ := mirrors before isBefore earlier
    have found' : alone.slots[0]? = some (slot.rename f) := by rw [slots]; rfl
    have renamed : ∀ b, slot.builder? = some b → Renamed f b.graph (b.rename f).graph := by
      intro b isOpen
      have isOpen' : (slot.rename f).builder? = some (b.rename f) := by simp [isOpen]
      exact ⟨((all.slot found).builder isOpen).toWellFormed,
        ((all'.slot found').builder isOpen').toWellFormed, rfl⟩
    have ranks' : ∀ b, slot.builder? = some b → Ranks f b.graph.ids := by
      intro b isOpen
      cases isBefore.symm.trans (Slot.graph?_of_builder? isOpen)
      exact earlier
    rw [← nextId] at rank
    have turned := Slot.after_rename renamed ranks' rank
    obtain ⟨slots', nextId'⟩ := step_found (Step.slot?_alone about) found'
    rw [slots, List.set_cons_zero, turned] at slots'
    refine ⟨slots', ?_⟩
    have isGraph' : ((slot.rename f).after alone.nextId (step.alone f)).1.graph? =
        some (graph.rename f) := by
      rw [turned, Slot.graph?_rename, isGraph, Option.map_some]
    obtain ⟨_, isBefore', grows'⟩ := (Slot.yields_after isGraph').grows
    rw [Slot.graph?_rename, isBefore] at isBefore'
    cases isBefore'
    have count := grows'.length
    rw [ids_rename, ids_rename, List.length_map, List.length_map, ← nextId', nextId] at count
    exact Nat.add_left_cancel (count.symm.trans (Nat.add_left_comm _ _ _))
  · rw [if_neg (mt (concerns_iff_of_found inside).1 about), Mirrors,
      slots_elsewhere about inside, found]
    exact mirrors

theorem mirrors_run (f : NodeId → NodeId) (index : Nat) (steps : List Step) :
    Mirrors f index (start.run steps) (start.run (start.own f index steps)) := by
  induction steps using List.reverseRecOn with
  | nil => rfl
  | append_singleton steps step ih =>
    have last : start.run (steps ++ [step]) = ((start.run steps).step step).2 :=
      List.foldl_concat ..
    have last' : start.run (start.own f index (steps ++ [step])) =
        if (start.run steps).concerns index step then
          ((start.run (start.own f index steps)).step (step.alone f)).2
        else start.run (start.own f index steps) := by
      rw [own_concat]
      split
      · exact List.foldl_concat ..
      · rw [List.append_nil]
    rw [last, last']
    cases found : (start.run steps).slots[index]? with
    | none => exact ih.of_missing found step
    | some slot => exact ih.of_found found (all_wellFormed steps) (all_wellFormed _) step

/-- Whether the calls on the builder of a slot that are given an id fail and change nothing. -/
structure Rejects (session : Session) (index : Nat) (id : NodeId) : Prop where
  operand : ∀ request : NodeKind, id ∈ request.operands →
    ∃ error, session.step (.make index request) = (.buildError error, session)
  target : ∀ name, ∃ error, session.step (.setName index id name) = (.buildError error, session)

theorem rejects_of_not_mem {b : Builder} (found : session.builder? index = some b) {id : NodeId}
    (missing : id ∉ b.graph.ids) : session.Rejects index id := by
  constructor
  · intro request isOperand
    refine step_make_fails found fun admits => missing (mem_ids.2 ?_)
    exact Builder.exists_operand admits.values admits.calls isOperand
  · intro name
    refine step_setName_fails found fun mayName => ?_
    obtain ⟨node, isNode, _⟩ := mayName.target
    exact missing (mem_ids.2 ⟨node, mem_of_find? isNode⟩)

/-- Builders do not get in each other's way. In each the ids go up; an id that was another builder's
at any time is none of its own, and calls that are given it fail; and it has become what it would
have become if the steps that concern it had been the only ones, but for the ids, which would have
been `1`, `2` and so on. -/
theorem slots_isolated (before after : List Step) {index : Nat} {graph : Graph}
    (found : (start.run (before ++ after)).graph? index = some graph) :
    graph.ids.Pairwise (· < ·) ∧
    (∀ other earlier, other ≠ index → (start.run before).graph? other = some earlier →
      ∀ id ∈ earlier.ids, id ∉ graph.ids ∧
        (((start.run (before ++ after)).builder? index).isSome →
          (start.run (before ++ after)).Rejects index id)) ∧
    let rank := fun id => graph.ids.idxOf id + 1
    (start.run (start.own rank index (before ++ after))).graph? 0 = some (graph.rename rank) ∧
    (graph.rename rank).ids = List.range' 1 graph.ids.length ∧
    (graph.rename rank).roots = graph.roots.map rank := by
  obtain ⟨slot, isSlot, isGraph⟩ := Option.bind_eq_some_iff.1 found
  obtain ⟨_, wf⟩ := ((all_wellFormed (before ++ after)).slot isSlot).graph isGraph
  have ascending : graph.ids.Pairwise (· < ·) := wf.ascending
  have ranks := ranks_idxOf (ascending.imp Nat.ne_of_lt)
  refine ⟨ascending, ?_, ?_, ?_, graph.roots_rename⟩
  · intro other earlier distinct isEarlier id member
    have elsewhere : id ∉ graph.ids := by
      rw [run, List.foldl_append] at found
      exact (apart_start.run before).never_elsewhere distinct isEarlier found member
    refine ⟨elsewhere, fun isOpen => ?_⟩
    obtain ⟨b, isBuilder⟩ := Option.isSome_iff_exists.1 isOpen
    refine rejects_of_not_mem isBuilder ?_
    obtain ⟨slot', isSlot', isOpen'⟩ := Option.bind_eq_some_iff.1 isBuilder
    cases isSlot.symm.trans isSlot'
    cases isGraph.symm.trans (Slot.graph?_of_builder? isOpen')
    exact elsewhere
  · have mirrors := mirrors_run (fun id => graph.ids.idxOf id + 1) index (before ++ after)
    rw [Mirrors, isSlot] at mirrors
    obtain ⟨slots, _⟩ := mirrors graph isGraph ranks
    simp [graph?, slots, isGraph]
  · rw [ids_rename, ranks.inside]

/-- Scopes of two threads that are each given the other's ids. -/
def woven : List Step :=
  [.openScope none .standard 1, .openScope none .standard 2, .make 0 (.variable "rows"),
    .make 1 (.constant (.int 5)), .make 0 (.list [1, 2]), .make 1 (.binary 2 .add 1),
    .make 0 (.lookup 1 "size"), .setName 1 3 "total", .make 1 (.binary 2 .add 2),
    .setName 1 4 "total", .make 0 (.dict [("rows", 1), ("rows", 4)]), .make 0 (.list [3, 1])]

def woven.graph : Graph where
  nodes := [
    ⟨1, none, .variable "rows", 2⟩,
    ⟨3, none, .lookup 1 "size", 1⟩,
    ⟨5, none, .list [3, 1], 0⟩]

/-- The first scope by itself: what was an id of the other is the id of no node. -/
theorem woven_isolated : (start.run woven).graph? 0 = some woven.graph ∧
    (start.run woven).Rejects 0 2 ∧
    (start.run [.openScope none .standard 1, .make 0 (.variable "rows"), .make 0 (.list [1, 4]),
      .make 0 (.lookup 1 "size"), .make 0 (.dict [("rows", 1), ("rows", 4)]),
      .make 0 (.list [2, 1])]).graph? 0 = some ⟨[
        ⟨1, none, .variable "rows", 2⟩,
        ⟨2, none, .lookup 1 "size", 1⟩,
        ⟨3, none, .list [2, 1], 0⟩]⟩ := by
  have found : (start.run woven).graph? 0 = some woven.graph := rfl
  have scope : (start.run (woven.take 4)).graph? 1 =
      some ⟨[⟨2, none, .constant (.int 5), 0⟩]⟩ := rfl
  obtain ⟨_, foreign, alone, _⟩ := slots_isolated (woven.take 4) (woven.drop 4) found
  exact ⟨found, (foreign 1 _ (by decide) scope 2 (by decide)).2 rfl, alone⟩

end Session

end QueryGraph
