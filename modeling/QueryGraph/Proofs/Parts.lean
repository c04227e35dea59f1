import QueryGraph.Query

namespace QueryGraph

/-- The expressions that are part of an operator call. -/
def Call.parts (call : Call) : List Expr :=
  call.operand.toList ++ Entries.values call.arguments

namespace Expr

/-- The expressions that an expression is made of. -/
def parts : Expr → List Expr
  | .atom _ | .reference _ | .placeholder => []
  | .binary left _ right => [left, right]
  | .lookup on _ => [on]
  | .list values => values
  | .dict entries => Entries.values entries
  | .table inner => [inner]
  | .call step => step.parts
  | .pipeline base steps => base :: steps.flatMap Call.parts
  | .conditional condition thenDo elseDo => [condition, thenDo, elseDo]

theorem induction {motive : Expr → Prop}
    (step : ∀ expr, (∀ part ∈ expr.parts, motive part) → motive expr) (expr : Expr) :
    motive expr := by
  refine Expr.rec (motive_1 := motive) (motive_2 := fun call => ∀ part ∈ call.parts, motive part)
    (motive_3 := fun values => ∀ part ∈ values, motive part)
    (motive_4 := fun entries => ∀ part ∈ Entries.values entries, motive part)
    (motive_5 := fun calls => ∀ part ∈ calls.flatMap Call.parts, motive part)
    (motive_6 := fun operand => ∀ part ∈ operand.toList, motive part)
    (motive_7 := fun entry => motive entry.2)
    (fun _ => step _ nofun) ?binary ?lookup (fun values => step (.list values))
    (fun entries => step (.dict entries)) ?table (fun _ => step _ nofun) (step _ nofun)
    (fun call => step (.call call)) ?pipeline ?conditional ?call nofun ?value nofun ?entry nofun
    ?stage nofun ?operand (fun _ _ => id) expr
  case binary =>
    intro _ _ _ left right
    exact step _ (List.forall_mem_cons.2 ⟨left, List.forall_mem_singleton.2 right⟩)
  case lookup => exact fun _ _ on => step _ (List.forall_mem_singleton.2 on)
  case table => exact fun _ inner => step _ (List.forall_mem_singleton.2 inner)
  case pipeline => exact fun _ _ base steps => step _ (List.forall_mem_cons.2 ⟨base, steps⟩)
  case conditional =>
    intro _ _ _ condition thenDo elseDo
    exact step _ (List.forall_mem_cons.2
      ⟨condition, List.forall_mem_cons.2 ⟨thenDo, List.forall_mem_singleton.2 elseDo⟩⟩)
  case call =>
    exact fun _ _ _ _ operand arguments => List.forall_mem_append.2 ⟨operand, arguments⟩
  case value => exact fun _ _ first rest => List.forall_mem_cons.2 ⟨first, rest⟩
  case entry => exact fun _ _ first rest => List.forall_mem_cons.2 ⟨first, rest⟩
  case stage => exact fun _ _ first rest => List.forall_mem_append.2 ⟨first, rest⟩
  case operand => exact fun _ inner => List.forall_mem_singleton.2 inner

/-- Whether an expression is another one, or part of it at any depth. -/
inductive Occurs (inner : Expr) : Expr → Prop where
  | self : Occurs inner inner
  | part {expr part : Expr} (isPart : part ∈ expr.parts) (path : Occurs inner part) :
      Occurs inner expr

theorem occurs_iff {inner expr : Expr} :
    inner.Occurs expr ↔ inner = expr ∨ ∃ part ∈ expr.parts, inner.Occurs part := by
  constructor
  · intro path
    cases path with
    | self => exact Or.inl rfl
    | part isPart path => exact Or.inr ⟨_, isPart, path⟩
  · rintro (rfl | ⟨part, isPart, path⟩)
    · exact .self
    · exact .part isPart path

/-- The parts whose placeholders are the expression's own. The placeholders in the arguments of an
operator call belong to the call. -/
def openParts : Expr → List Expr
  | .call step => step.operand.toList
  | .pipeline base steps => base :: steps.flatMap fun step => step.operand.toList
  | expr => expr.parts

/-- Whether a path leads from an expression to a placeholder without entering the arguments of an
operator call. -/
inductive Escapes : Expr → Prop where
  | placeholder : Escapes .placeholder
  | part {expr part : Expr} (isOpen : part ∈ expr.openParts) (path : Escapes part) : Escapes expr

theorem escapes_iff {expr : Expr} :
    expr.Escapes ↔ expr = .placeholder ∨ ∃ part ∈ expr.openParts, part.Escapes := by
  constructor
  · intro path
    cases path with
    | placeholder => exact Or.inl rfl
    | part isOpen path => exact Or.inr ⟨_, isOpen, path⟩
  · rintro (rfl | ⟨part, isOpen, path⟩)
    · exact .placeholder
    · exact .part isOpen path

theorem not_escapes_of_closed {expr : Expr} (noPlaceholder : expr ≠ .placeholder)
    (closed : expr.openParts = []) : ¬ expr.Escapes := by
  intro escapes
  obtain same | ⟨part, isOpen, _⟩ := escapes_iff.1 escapes
  · exact noPlaceholder same
  · rw [closed] at isOpen
    cases isOpen

end Expr

end QueryGraph
