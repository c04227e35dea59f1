namespace QueryGraph.Outcome

variable {ε α β : Type}

@[simp] theorem ok_bind (a : α) (f : α → Except ε β) : (Except.ok a >>= f) = f a := rfl

@[simp] theorem error_bind (e : ε) (f : α → Except ε β) :
    ((Except.error e : Except ε α) >>= f) = .error e := rfl

@[simp] theorem pure_eq (a : α) : (pure a : Except ε α) = .ok a := rfl

@[simp] theorem throw_eq (e : ε) : (throw e : Except ε α) = .error e := rfl

@[simp] theorem map_ok (f : α → β) (a : α) : (Except.ok a : Except ε α).map f = .ok (f a) := rfl

@[simp] theorem map_error (f : α → β) (e : ε) :
    (Except.error e : Except ε α).map f = .error e := rfl

theorem bind_eq_ok {x : Except ε α} {f : α → Except ε β} {b : β} :
    (x >>= f) = .ok b ↔ ∃ a, x = .ok a ∧ f a = .ok b := by
  cases x with
  | error e => simp
  | ok a => simp

theorem then_eq_ok {x : Except ε Unit} {y : Except ε α} {a : α} :
    (x >>= fun _ => y) = .ok a ↔ x = .ok () ∧ y = .ok a := by
  cases x with
  | error e => simp
  | ok => simp

theorem map_eq_ok {x : Except ε α} {f : α → β} {b : β} :
    x.map f = .ok b ↔ ∃ a, x = .ok a ∧ f a = b := by
  cases x with
  | error e => simp
  | ok a => simp

theorem bind_eq_error {x : Except ε α} {f : α → Except ε β} {e : ε} :
    (x >>= f) = .error e ↔ x = .error e ∨ ∃ a, x = .ok a ∧ f a = .error e := by
  cases x with
  | error e => simp
  | ok a => simp

theorem map_eq_error {x : Except ε α} {f : α → β} {e : ε} :
    x.map f = .error e ↔ x = .error e := by
  cases x with
  | error e => simp
  | ok a => simp

section

variable {α' β' : Type} {g : α → α'} {k : β → β'}

theorem bind_step {x : Except ε α} {f : α → Except ε β} {f' : α' → Except ε β'}
    (step : ∀ a, f' (g a) = (f a).map k) : (x.map g >>= f') = (x >>= f).map k := by
  cases x with
  | error e => rfl
  | ok a => exact step a

theorem then_step {x : Except ε α} {f : α → Except ε β} {f' : α → Except ε β'}
    (step : ∀ a, f' a = (f a).map k) : (x >>= f') = (x >>= f).map k := by
  cases x with
  | error e => rfl
  | ok a => exact step a

theorem mapM_step {items : List α} {f : α → Except ε β} {f' : α → Except ε β'}
    (step : ∀ a, f' a = (f a).map k) : items.mapM f' = (items.mapM f).map (List.map k) := by
  induction items with
  | nil => rfl
  | cons first rest ih =>
    rw [List.mapM_cons, List.mapM_cons, step, ih]
    exact bind_step fun _ => bind_step fun _ => rfl

theorem foldlM_step {items : List α} {f : β → α → Except ε β} {f' : β' → α → Except ε β'}
    (step : ∀ b a, f' (k b) a = (f b a).map k) (b : β) :
    items.foldlM f' (k b) = (items.foldlM f b).map k := by
  induction items generalizing b with
  | nil => rfl
  | cons first rest ih =>
    rw [List.foldlM_cons, List.foldlM_cons, step]
    exact bind_step ih

end

/-- A loop that fails does so at one of its steps, and all steps before succeed. -/
theorem foldlM_eq_error {f : β → α → Except ε β} {items : List α} {b : β} {e : ε}
    (h : items.foldlM f b = .error e) : ∃ before a after b',
      items = before ++ a :: after ∧ before.foldlM f b = .ok b' ∧ f b' a = .error e := by
  induction items generalizing b with
  | nil => cases h
  | cons first rest ih =>
    rcases bind_eq_error.1 h with failed | ⟨b', passed, failed⟩
    · exact ⟨[], first, rest, b, rfl, rfl, failed⟩
    · obtain ⟨before, a, after, b'', rfl, earlier, failed⟩ := ih failed
      exact ⟨first :: before, a, after, b'', rfl, bind_eq_ok.2 ⟨b', passed, earlier⟩, failed⟩

/-- Whether two computations fail with errors that are related, or both succeed with values that
are. -/
inductive Alike {ε' α' : Type} (onError : ε → ε' → Prop) (onOk : α → α' → Prop) :
    Except ε α → Except ε' α' → Prop where
  | error {e : ε} {e' : ε'} (related : onError e e') : Alike onError onOk (.error e) (.error e')
  | ok {a : α} {a' : α'} (related : onOk a a') : Alike onError onOk (.ok a) (.ok a')

namespace Alike

variable {ε' α' β' : Type} {onError : ε → ε' → Prop} {onOk : α → α' → Prop}
  {onOk' : β → β' → Prop}

theorem bind {x : Except ε α} {x' : Except ε' α'} {f : α → Except ε β} {f' : α' → Except ε' β'}
    (first : Alike onError onOk x x')
    (next : ∀ a a', onOk a a' → Alike onError onOk' (f a) (f' a')) :
    Alike onError onOk' (x >>= f) (x' >>= f') := by
  cases first with
  | error related => exact .error related
  | ok related => exact next _ _ related

theorem map {x : Except ε α} {x' : Except ε' α'} {f : α → β} {f' : α' → β'}
    (first : Alike onError onOk x x') (next : ∀ a a', onOk a a' → onOk' (f a) (f' a')) :
    Alike onError onOk' (x.map f) (x'.map f') := by
  cases first with
  | error related => exact .error related
  | ok related => exact .ok (next _ _ related)

theorem outcomes {x : Except ε α} {x' : Except ε' α'} (alike : Alike onError onOk x x') :
    (∃ e e', x = .error e ∧ x' = .error e' ∧ onError e e') ∨
      ∃ a a', x = .ok a ∧ x' = .ok a' ∧ onOk a a' := by
  cases alike with
  | error related => exact Or.inl ⟨_, _, rfl, rfl, related⟩
  | ok related => exact Or.inr ⟨_, _, rfl, rfl, related⟩

theorem mono {onError' : ε → ε' → Prop} {onOk' : α → α' → Prop} {x : Except ε α}
    {x' : Except ε' α'} (alike : Alike onError onOk x x')
    (errors : ∀ e e', x = .error e → onError e e' → onError' e e')
    (values : ∀ a a', x = .ok a → onOk a a' → onOk' a a') : Alike onError' onOk' x x' := by
  cases alike with
  | error related => exact .error (errors _ _ rfl related)
  | ok related => exact .ok (values _ _ rfl related)

theorem foldlM {items : List α} {g : α → α'} {f : β → α → Except ε β}
    {f' : β' → α' → Except ε' β'}
    (step : ∀ a ∈ items, ∀ b b', onOk' b b' → Alike onError onOk' (f b a) (f' b' (g a)))
    {b : β} {b' : β'} (start : onOk' b b') :
    Alike onError onOk' (items.foldlM f b) ((items.map g).foldlM f' b') := by
  induction items generalizing b b' with
  | nil => exact .ok start
  | cons first rest ih =>
    exact (step first List.mem_cons_self b b' start).bind fun _ _ related =>
      ih (fun a member => step a (List.mem_cons_of_mem _ member)) related

theorem foldlM_self {items : List α} {f : β → α → Except ε β} {f' : β' → α → Except ε' β'}
    (step : ∀ a ∈ items, ∀ b b', onOk' b b' → Alike onError onOk' (f b a) (f' b' a))
    {b : β} {b' : β'} (start : onOk' b b') :
    Alike onError onOk' (items.foldlM f b) (items.foldlM f' b') := by
  have mapped : Alike onError onOk' (items.foldlM f b) ((items.map fun a => a).foldlM f' b') :=
    foldlM step start
  rwa [List.map_id'] at mapped

theorem refl (x : Except ε α) : Alike Eq Eq x x := by
  cases x with
  | error e => exact .error rfl
  | ok a => exact .ok rfl

theorem map_right (f : α → α') (x : Except ε α) :
    Alike Eq (fun a a' => a' = f a) x (x.map f) := by
  cases x with
  | error e => exact .error rfl
  | ok a => exact .ok rfl

theorem eq_map {f : α → α'} {x : Except ε α} {x' : Except ε α'}
    (alike : Alike Eq (fun a a' => a' = f a) x x') : x' = x.map f := by
  cases alike with
  | error related => exact congrArg Except.error related.symm
  | ok related => exact congrArg Except.ok related

end Alike

end QueryGraph.Outcome
