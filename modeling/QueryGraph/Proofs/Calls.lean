import QueryGraph.Session

namespace QueryGraph

namespace NodeKind

/-- The operands that stand where an expression is expected. -/
def valueOperands : NodeKind → List NodeId
  | .pipeline base _ => [base]
  | kind => kind.operands

/-- The operands that stand where an operator call is expected. -/
def callOperands : NodeKind → List NodeId
  | .pipeline _ steps => steps
  | _ => []

theorem mem_operands {kind : NodeKind} {id : NodeId} :
    id ∈ kind.operands ↔ id ∈ kind.valueOperands ∨ id ∈ kind.callOperands := by
  cases kind <;> simp [operands, valueOperands, callOperands]

/-- The keys that are part of a node, those of an operator call before those of its arguments. -/
def words : NodeKind → List String
  | .lookup _ key => [key]
  | .dict values => Entries.keys values
  | .call space name arguments => space :: name :: Entries.keys arguments
  | _ => []

/-- The name of a variable, if the node is one. -/
def variableName? : NodeKind → Option String
  | .variable name => some name
  | _ => none

/-- What is left of a kind when repeated keys are merged: a key keeps its first place and its last
value. -/
def merged : NodeKind → NodeKind
  | .dict values => .dict (Entries.ofList values)
  | .call space name arguments => .call space name (Entries.ofList arguments)
  | kind => kind

end NodeKind

namespace Node

/-- What becomes of a node when the one with the id gets the name. -/
def withName (id : NodeId) (name : String) (node : Node) : Node :=
  if node.id = id then { node with name := some name } else node

variable {id : NodeId} {name : String}

@[simp] theorem withName_id (node : Node) : (node.withName id name).id = node.id := by
  unfold withName
  split <;> rfl

@[simp] theorem withName_kind (node : Node) : (node.withName id name).kind = node.kind := by
  unfold withName
  split <;> rfl

theorem withName_name {node : Node} {given : String}
    (isNamed : (node.withName id name).name = some given) :
    node.name = some given ∨ (node.id = id ∧ given = name) := by
  unfold withName at isNamed
  split at isNamed
  · rename_i isTarget
    exact Or.inr ⟨isTarget, (Option.some.inj isNamed).symm⟩
  · exact Or.inl isNamed

/-- What becomes of a node when one of the kind is made. -/
def usedBy (kind : NodeKind) (node : Node) : Node :=
  if kind.operands.contains node.id then { node with fanOut := node.fanOut + 1 } else node

variable {kind : NodeKind}

@[simp] theorem usedBy_id (node : Node) : (node.usedBy kind).id = node.id := by
  unfold usedBy
  split <;> rfl

@[simp] theorem usedBy_name (node : Node) : (node.usedBy kind).name = node.name := by
  unfold usedBy
  split <;> rfl

@[simp] theorem usedBy_kind (node : Node) : (node.usedBy kind).kind = node.kind := by
  unfold usedBy
  split <;> rfl

end Node

namespace Builder

variable {b : Builder}

/-- What a builder asks of the kind of a node that it is to make. -/
structure Admits (b : Builder) (request : NodeKind) : Prop where
  values : ∀ id ∈ request.valueOperands, b.hasValue id = true
  calls : ∀ id ∈ request.callOperands, b.hasCall id = true
  words : ∀ word ∈ request.words, isIdentifier word = true
  names : ∀ name, request.variableName? = some name → isName name = true
  registered : ∀ space name arguments, request = .call space name arguments →
    b.knows space name = true

theorem admits_iff {request : NodeKind} : b.Admits request ↔
    (∀ id ∈ request.valueOperands, b.hasValue id = true) ∧
    (∀ id ∈ request.callOperands, b.hasCall id = true) ∧
    (∀ word ∈ request.words, isIdentifier word = true) ∧
    (∀ name, request.variableName? = some name → isName name = true) ∧
    ∀ space name arguments, request = .call space name arguments →
      b.knows space name = true := by
  constructor
  · rintro ⟨values, calls, words, names, registered⟩
    exact ⟨values, calls, words, names, registered⟩
  · rintro ⟨values, calls, words, names, registered⟩
    exact ⟨values, calls, words, names, registered⟩

/-- What a builder asks of a name, and of the node that is to get it. -/
structure MayName (b : Builder) (id : NodeId) (name : String) : Prop where
  isName : isName name = true
  target : ∃ node, b.find? id = some node ∧ node.kind.isNameable = true ∧ node.name = none

theorem mayName_iff {id : NodeId} {name : String} : b.MayName id name ↔
    QueryGraph.isName name = true ∧
      ∃ node, b.find? id = some node ∧ node.kind.isNameable = true ∧ node.name = none := by
  constructor
  · rintro ⟨isName, target⟩
    exact ⟨isName, target⟩
  · rintro ⟨isName, target⟩
    exact ⟨isName, target⟩

/-- A builder with one more node. -/
def insert (b : Builder) (id : NodeId) (kind : NodeKind) : Builder :=
  { b with graph := ⟨b.graph.nodes.map (·.usedBy kind) ++ [⟨id, none, kind, 0⟩]⟩ }

def withName (b : Builder) (id : NodeId) (name : String) : Builder :=
  { b with graph := ⟨b.graph.nodes.map (·.withName id name)⟩ }

end Builder

namespace BuildM

variable {α β : Type} {call : BuildM α} {next : α → BuildM β} {state later : BuildState}

/-- What a call leaves behind, whether it fails or not. -/
def after (call : BuildM α) (state : BuildState) : BuildState :=
  match call.run state with
  | .ok _ later => later
  | .error _ later => later

/-- Whether a call changes nothing, whatever comes of it. -/
def Reads (call : BuildM α) : Prop :=
  ∀ state, call.after state = state

/-- Whether a call has changed nothing if it fails. -/
def Atomic (call : BuildM α) : Prop :=
  ∀ state error later, call.run state = .error error later → later = state

/-- Whether a call never takes an id back. -/
def Ascends (call : BuildM α) : Prop :=
  ∀ state value later, call.run state = .ok value later → state.nextId ≤ later.nextId

theorem after_of_ok {value : α} (done : call.run state = .ok value later) :
    call.after state = later := by
  rw [after, done]

theorem after_of_error {error : BuildError} (failed : call.run state = .error error later) :
    call.after state = later := by
  rw [after, failed]

theorem bind_eq_ok {value : β} : (call >>= next).run state = .ok value later ↔
    ∃ first middle, call.run state = .ok first middle ∧
      (next first).run middle = .ok value later := by
  rw [EStateM.run_bind]
  cases call.run state with
  | ok first middle => simp [and_assoc]
  | error error middle => simp

theorem bind_eq_error {error : BuildError} : (call >>= next).run state = .error error later ↔
    call.run state = .error error later ∨
      ∃ first middle, call.run state = .ok first middle ∧
        (next first).run middle = .error error later := by
  rw [EStateM.run_bind]
  cases call.run state with
  | ok first middle => simp [and_assoc]
  | error error middle => simp

theorem reads_pure (value : α) : Reads (pure value) :=
  fun _ => rfl

theorem Reads.bind (reads : call.Reads) (nextReads : ∀ value, (next value).Reads) :
    (call >>= next).Reads := by
  intro state
  have same := reads state
  unfold after at same ⊢
  rw [EStateM.run_bind]
  cases outcome : call.run state with
  | ok value later =>
    rw [outcome] at same
    subst same
    exact nextReads value later
  | error error later =>
    rw [outcome] at same
    exact same

/-- What comes before anything is changed may fail. -/
theorem Reads.atomic_bind (reads : call.Reads) (nextAtomic : ∀ value, (next value).Atomic) :
    (call >>= next).Atomic := by
  intro state error later failed
  rcases bind_eq_error.1 failed with failed | ⟨value, middle, done, failed⟩
  · rw [← after_of_error failed, reads state]
  · rw [nextAtomic value middle error later failed, ← after_of_ok done, reads state]

theorem Atomic.bind_pure (atomic : call.Atomic) (f : α → β) :
    (call >>= fun value => pure (f value)).Atomic := by
  intro state error later failed
  rcases bind_eq_error.1 failed with failed | ⟨_, _, _, failed⟩
  · exact atomic state error later failed
  · cases failed

/-- Users that have been counted stay counted, so a call is not atomic for being a call. -/
example : ¬ Atomic (do addUsers [] [1]; checkKey "lookup key" "1st" : BuildM Unit) := by
  intro atomic
  have same := atomic ⟨⟨⟨[⟨1, none, .placeholder, 0⟩]⟩, none⟩, 2⟩ _ _ rfl
  cases same

theorem run_check (condition : Builder → Bool) (error : BuildError) (state : BuildState) :
    (check condition error).run state =
      if condition state.builder = true then .ok () state else .error error state := by
  cases holds : condition state.builder <;> simp [check, EStateM.run_bind, holds]

theorem reads_check (condition : Builder → Bool) (error : BuildError) :
    (check condition error).Reads := by
  intro state
  unfold after
  rw [run_check]
  cases condition state.builder <;> rfl

theorem reads_checkEach (valid : Builder → NodeId → Bool) (error : Nat → BuildError) (index : Nat)
    (ids : List NodeId) : (checkEach valid error index ids).Reads := by
  induction ids generalizing index with
  | nil => exact reads_pure ()
  | cons id rest ih => exact (reads_check _ _).bind fun _ => ih (index + 1)

theorem reads_mergeEntries (what : String) (error : String → BuildError) (sofar : Entries NodeId)
    (pairs : List (String × NodeId)) : (mergeEntries what error sofar pairs).Reads := by
  induction pairs generalizing sofar with
  | nil => exact reads_pure sofar
  | cons first rest ih =>
    exact (reads_check _ _).bind fun _ => (reads_check _ _).bind fun _ => ih _

theorem check_bind_eq_ok {condition : Builder → Bool} {error : BuildError} {call : BuildM α}
    {value : α} : (check condition error >>= fun _ => call).run state = .ok value later ↔
      condition state.builder = true ∧ call.run state = .ok value later := by
  rw [EStateM.run_bind, run_check]
  cases condition state.builder <;> simp

theorem checkEach_bind_eq_ok {valid : Builder → NodeId → Bool} {error : Nat → BuildError}
    {index : Nat} {ids : List NodeId} {call : BuildM α} {value : α} :
    (checkEach valid error index ids >>= fun _ => call).run state = .ok value later ↔
      (∀ id ∈ ids, valid state.builder id = true) ∧ call.run state = .ok value later := by
  induction ids generalizing index with
  | nil => simp [checkEach]
  | cons first rest ih =>
    rw [checkEach, bind_assoc, check_bind_eq_ok, ih, List.forall_mem_cons, and_assoc]

theorem mergeEntries_bind_eq_ok {what : String} {error : String → BuildError}
    {sofar : Entries NodeId} {pairs : List (String × NodeId)} {next : Entries NodeId → BuildM α}
    {value : α} : (mergeEntries what error sofar pairs >>= next).run state = .ok value later ↔
      (∀ id ∈ Entries.values pairs, state.builder.hasValue id = true) ∧
      (∀ key ∈ Entries.keys pairs, isIdentifier key = true) ∧
      (next (sofar.insertAll pairs)).run state = .ok value later := by
  simp only [Entries.values, Entries.keys, List.forall_mem_map]
  induction pairs generalizing sofar with
  | nil => simp [mergeEntries, Entries.insertAll]
  | cons first rest ih =>
    rw [mergeEntries, checkKey, bind_assoc, check_bind_eq_ok, bind_assoc, check_bind_eq_ok, ih,
      List.forall_mem_cons, List.forall_mem_cons]
    constructor
    · rintro ⟨key, value, values, keys, done⟩
      exact ⟨⟨value, values⟩, ⟨key, keys⟩, done⟩
    · rintro ⟨⟨value, values⟩, ⟨key, keys⟩, done⟩
      exact ⟨key, value, values, keys, done⟩

theorem run_addUsers (seen ids : List NodeId) (state : BuildState) :
    (addUsers seen ids).run state = .ok () { state with
      builder.graph := ⟨state.builder.graph.nodes.map fun node =>
        if node.id ∈ ids ∧ node.id ∉ seen then { node with fanOut := node.fanOut + 1 }
        else node⟩ } := by
  induction ids generalizing seen state with
  | nil => simp [addUsers]
  | cons operand rest ih =>
    rw [addUsers]
    -- an operand that was listed before has been counted, the first one has not
    split
    · rename_i known
      rw [ih]
      have same (node : Node) : node.id ∈ operand :: rest ∧ node.id ∉ seen ↔
          node.id ∈ rest ∧ node.id ∉ seen := by
        grind
      simp only [same]
    · rename_i new
      rw [EStateM.run_bind, addUser, modifyNodes, EStateM.run_modify]
      simp only [ih, List.map_map]
      congr 4
      refine List.map_congr_left fun node _ => ?_
      by_cases same : node.id = operand
      · have fresh : operand ∉ seen := by simpa using new
        simp [same, fresh]
      · simp [same]

theorem run_insert (kind : NodeKind) (state : BuildState) :
    (insert kind).run state = .ok state.nextId
      ⟨state.builder.insert state.nextId kind, state.nextId + 1⟩ := by
  simp only [insert, freshId, modifyNodes, EStateM.run_bind, EStateM.run_modifyGet, run_addUsers,
    EStateM.run_modify, EStateM.run_pure, Builder.insert]
  simp [Node.usedBy]

theorem atomic_throw (error : BuildError) : Atomic (throw error : BuildM α) := by
  intro state _ later failed
  cases failed
  rfl

theorem atomic_modifyNodes (change : List Node → List Node) : (modifyNodes change).Atomic := by
  intro state error later failed
  cases failed

theorem atomic_insert (kind : NodeKind) : (insert kind).Atomic := by
  intro state error later failed
  rw [run_insert] at failed
  cases failed

/-- All checks come before the first change. -/
theorem atomic_make (request : NodeKind) : (make request).Atomic := by
  cases request with
  | constant | placeholder => exact atomic_insert _
  | binary | lookup =>
    exact (reads_check _ _).atomic_bind fun _ => (reads_check _ _).atomic_bind fun _ =>
      atomic_insert _
  | list => exact (reads_checkEach _ _ _ _).atomic_bind fun _ => atomic_insert _
  | dict => exact (reads_mergeEntries _ _ _ _).atomic_bind fun _ => atomic_insert _
  | table | «variable» => exact (reads_check _ _).atomic_bind fun _ => atomic_insert _
  | call =>
    exact (reads_check _ _).atomic_bind fun _ => (reads_check _ _).atomic_bind fun _ =>
      (reads_check _ _).atomic_bind fun _ => (reads_mergeEntries _ _ _ _).atomic_bind fun _ =>
        atomic_insert _
  | pipeline =>
    exact (reads_check _ _).atomic_bind fun _ => (reads_checkEach _ _ _ _).atomic_bind fun _ =>
      atomic_insert _
  | conditional =>
    exact (reads_check _ _).atomic_bind fun _ => (reads_check _ _).atomic_bind fun _ =>
      (reads_check _ _).atomic_bind fun _ => atomic_insert _

/-- A node is made exactly if all is right with the request, and then of the kind that is left when
repeated keys are merged. -/
theorem make_iff {request : NodeKind} {id : NodeId} :
    (make request).run state = .ok id later ↔ state.builder.Admits request ∧
      state.nextId = id ∧
      ⟨state.builder.insert state.nextId request.merged, state.nextId + 1⟩ = later := by
  rw [Builder.admits_iff]
  cases request with
  | constant | placeholder =>
    simp [make, run_insert, NodeKind.merged, NodeKind.valueOperands, NodeKind.callOperands,
      NodeKind.operands, NodeKind.words, NodeKind.variableName?]
  | «variable» | binary | lookup | table | conditional =>
    simp only [make, checkOperand, checkKey, checkName, check_bind_eq_ok, run_insert]
    simp [NodeKind.merged, NodeKind.valueOperands, NodeKind.callOperands, NodeKind.operands,
      NodeKind.words, NodeKind.variableName?, and_assoc]
  | list | pipeline =>
    simp only [make, checkOperand, check_bind_eq_ok, checkEach_bind_eq_ok, run_insert]
    simp [NodeKind.merged, NodeKind.valueOperands, NodeKind.callOperands, NodeKind.operands,
      NodeKind.words, NodeKind.variableName?, and_assoc]
  | dict values =>
    simp only [make, mergeEntries_bind_eq_ok, run_insert]
    simp [Entries.ofList, NodeKind.merged, NodeKind.valueOperands, NodeKind.callOperands,
      NodeKind.operands, NodeKind.words, NodeKind.variableName?, and_assoc]
  | call space name arguments =>
    simp only [make, checkKey, checkRegistered, check_bind_eq_ok, mergeEntries_bind_eq_ok,
      run_insert]
    simp [Entries.ofList, NodeKind.merged, NodeKind.valueOperands, NodeKind.callOperands,
      NodeKind.operands, NodeKind.words, NodeKind.variableName?]
    constructor
    · rintro ⟨isSpace, isName, known, values, keys, done⟩
      exact ⟨⟨values, ⟨isSpace, isName, keys⟩, known⟩, done⟩
    · rintro ⟨⟨values, ⟨isSpace, isName, keys⟩, known⟩, done⟩
      exact ⟨isSpace, isName, known, values, keys, done⟩

theorem ascends_make (request : NodeKind) : (make request).Ascends := by
  intro state id later done
  obtain ⟨_, _, rfl⟩ := make_iff.1 done
  exact Nat.le_succ _

theorem atomic_setName (id : NodeId) (name : String) : (setName id name).Atomic := by
  refine Reads.atomic_bind (fun _ => rfl) fun current => ?_
  cases current.builder.find? id with
  | none => exact atomic_throw _
  | some node =>
    refine (reads_check _ _).atomic_bind fun _ => ?_
    cases node.name with
    | some existing => exact atomic_throw _
    | none => exact (reads_check _ _).atomic_bind fun _ => atomic_modifyNodes _

theorem setName_iff {id : NodeId} {name : String} :
    (setName id name).run state = .ok () later ↔ state.builder.MayName id name ∧
      ⟨state.builder.withName id name, state.nextId⟩ = later := by
  rw [Builder.mayName_iff, setName, EStateM.run_bind, EStateM.run_get]
  simp only
  cases found : state.builder.find? id with
  | none => simp
  | some node =>
    simp only [check_bind_eq_ok]
    cases given : node.name with
    | some existing => simp [given]
    | none =>
      simp only [checkName, check_bind_eq_ok, modifyNodes, EStateM.run_modify,
        EStateM.Result.ok.injEq, Option.some.injEq, exists_eq_left', given, true_and, and_true]
      constructor
      · rintro ⟨nameable, isName, rfl⟩
        exact ⟨⟨isName, nameable⟩, rfl⟩
      · rintro ⟨⟨isName, nameable⟩, rfl⟩
        exact ⟨nameable, isName, rfl⟩

theorem atomic_named (id : NodeId) (name : String) : (named id name).Atomic :=
  (atomic_setName id name).bind_pure fun _ => id

theorem named_iff {id : NodeId} {name : String} {value : NodeId} :
    (named id name).run state = .ok value later ↔ state.builder.MayName id name ∧ id = value ∧
      ⟨state.builder.withName id name, state.nextId⟩ = later := by
  rw [named, bind_eq_ok]
  constructor
  · rintro ⟨_, middle, done, same⟩
    cases same
    obtain ⟨mayName, rfl⟩ := setName_iff.1 done
    exact ⟨mayName, rfl, rfl⟩
  · rintro ⟨mayName, rfl, rfl⟩
    exact ⟨(), _, setName_iff.2 ⟨mayName, rfl⟩, rfl⟩

theorem ascends_named (id : NodeId) (name : String) : (named id name).Ascends := by
  intro state value later done
  obtain ⟨_, _, rfl⟩ := named_iff.1 done
  exact Nat.le_refl _

variable {b : Builder} {request : NodeKind} {id : NodeId} {name : String}

theorem run_make (admits : b.Admits request) (next : NodeId) :
    (make request).run ⟨b, next⟩ = .ok next ⟨b.insert next request.merged, next + 1⟩ :=
  make_iff.2 ⟨admits, rfl, rfl⟩

theorem make_fails (refuses : ¬ b.Admits request) (next : NodeId) :
    ∃ error, (make request).run ⟨b, next⟩ = .error error ⟨b, next⟩ := by
  cases outcome : (make request).run ⟨b, next⟩ with
  | ok id later => exact absurd (make_iff.1 outcome).1 refuses
  | error error later => exact ⟨error, by rw [atomic_make request _ error later outcome]⟩

theorem run_named (mayName : b.MayName id name) (next : NodeId) :
    (named id name).run ⟨b, next⟩ = .ok id ⟨b.withName id name, next⟩ :=
  named_iff.2 ⟨mayName, rfl, rfl⟩

theorem named_fails (refuses : ¬ b.MayName id name) (next : NodeId) :
    ∃ error, (named id name).run ⟨b, next⟩ = .error error ⟨b, next⟩ := by
  cases outcome : (named id name).run ⟨b, next⟩ with
  | ok value later => exact absurd (named_iff.1 outcome).1 refuses
  | error error later => exact ⟨error, by rw [atomic_named id name _ error later outcome]⟩

end BuildM

theorem Slot.withBuilder_self {slot : Slot} {b : Builder} (isOpen : slot.builder? = some b) :
    slot.withBuilder b = slot := by
  cases slot <;> cases isOpen <;> rfl

namespace Session

variable {session : Session} {index : Nat} {slot : Slot} {b : Builder}

/-- The builder of a slot, if the slot is open. -/
def builder? (session : Session) (index : Nat) : Option Builder :=
  (session.slots[index]?).bind Slot.builder?

@[simp] theorem slots_setFlag (thread : Thread) (flag : Bool) :
    (session.setFlag thread flag).slots = session.slots := rfl

theorem setFlag_self (session : Session) (thread : Thread) :
    session.setFlag thread (session.active thread) = session := by
  have flags : (session.setFlag thread (session.active thread)).flags = session.flags := by
    funext other
    by_cases same : other = thread
    · simp [setFlag, active, same]
    · simp [setFlag, same]
  exact congrArg (fun flags => (⟨session.slots, session.nextId, flags⟩ : Session)) flags

theorem step_nested {thread : Thread} (isActive : session.active thread = true)
    (registry : Option Registry) (options : Options) :
    session.step (.openScope registry options thread) = (.buildError .nestedScope, session) := by
  have same := session.setFlag_self thread
  rw [isActive] at same
  simp [step, isActive, same]

@[simp] theorem slots_replace :
    (session.replace index slot).slots = session.slots.set index slot := by
  unfold replace
  split <;> rfl

@[simp] theorem nextId_replace : (session.replace index slot).nextId = session.nextId := by
  unfold replace
  split <;> rfl

theorem commit_self (found : session.slots[index]? = some slot) (isOpen : slot.builder? = some b) :
    session.commit index slot ⟨b, session.nextId⟩ = session := by
  obtain ⟨inside, same⟩ := List.getElem?_eq_some_iff.1 found
  rw [commit, Slot.withBuilder_self isOpen, ← same, List.set_getElem_self]

theorem call_closed (closed : session.builder? index = none) (call : BuildM NodeId) :
    session.call index call = (.refused, session) := by
  unfold Session.call
  cases found : session.slots[index]? with
  | none => rfl
  | some slot =>
    have closed : slot.builder? = none := by simpa [builder?, found] using closed
    simp [closed]

/-- What can come of a call on the builder of a slot. Nothing is left of one that fails, if the
call is atomic. -/
theorem call_cases (session : Session) (index : Nat) {call : BuildM NodeId} (atomic : call.Atomic) :
    (session.builder? index = none ∧ session.call index call = (.refused, session)) ∨
    (∃ error, session.call index call = (.buildError error, session)) ∨
    ∃ slot b id state, session.slots[index]? = some slot ∧ slot.builder? = some b ∧
      call.run ⟨b, session.nextId⟩ = .ok id state ∧
      session.call index call = (.node id, session.commit index slot state) := by
  cases closed : session.builder? index with
  | none => exact Or.inl ⟨rfl, call_closed closed call⟩
  | some b =>
    obtain ⟨slot, found, isOpen⟩ := Option.bind_eq_some_iff.1 closed
    right
    unfold Session.call
    simp only [found, isOpen]
    cases outcome : call.run ⟨b, session.nextId⟩ with
    | ok id state => exact Or.inr ⟨slot, b, id, state, rfl, isOpen, outcome, rfl⟩
    | error error state =>
      obtain rfl := atomic _ _ _ outcome
      exact Or.inl ⟨error, by simp only [commit_self found isOpen]⟩

theorem builder?_commit (found : session.slots[index]? = some slot) (state : BuildState) :
    (session.commit index slot state).builder? index = some state.builder := by
  have inside := (List.getElem?_eq_some_iff.1 found).1
  rw [builder?, commit, List.getElem?_set_self inside]
  cases slot <;> rfl

variable {request : NodeKind} {id : NodeId} {name : String}

theorem step_make (found : session.builder? index = some b) (admits : b.Admits request) :
    ∃ slot, session.slots[index]? = some slot ∧ slot.builder? = some b ∧
      session.step (.make index request) = (.node session.nextId,
        session.commit index slot
          ⟨b.insert session.nextId request.merged, session.nextId + 1⟩) := by
  obtain ⟨slot, found, isOpen⟩ := Option.bind_eq_some_iff.1 found
  exact ⟨slot, found, isOpen, by simp only [step, call, found, isOpen, BuildM.run_make admits]⟩

theorem step_make_fails (found : session.builder? index = some b) (refuses : ¬ b.Admits request) :
    ∃ error, session.step (.make index request) = (.buildError error, session) := by
  obtain ⟨slot, found, isOpen⟩ := Option.bind_eq_some_iff.1 found
  obtain ⟨error, failed⟩ := BuildM.make_fails refuses session.nextId
  exact ⟨error, by simp only [step, call, found, isOpen, failed, commit_self found isOpen]⟩

theorem step_setName (found : session.builder? index = some b) (mayName : b.MayName id name) :
    ∃ slot, session.slots[index]? = some slot ∧ slot.builder? = some b ∧
      session.step (.setName index id name) = (.node id,
        session.commit index slot ⟨b.withName id name, session.nextId⟩) := by
  obtain ⟨slot, found, isOpen⟩ := Option.bind_eq_some_iff.1 found
  exact ⟨slot, found, isOpen, by simp only [step, call, found, isOpen, BuildM.run_named mayName]⟩

theorem step_setName_fails (found : session.builder? index = some b)
    (refuses : ¬ b.MayName id name) :
    ∃ error, session.step (.setName index id name) = (.buildError error, session) := by
  obtain ⟨slot, found, isOpen⟩ := Option.bind_eq_some_iff.1 found
  obtain ⟨error, failed⟩ := BuildM.named_fails refuses session.nextId
  exact ⟨error, by simp only [step, call, found, isOpen, failed, commit_self found isOpen]⟩

end Session

end QueryGraph
