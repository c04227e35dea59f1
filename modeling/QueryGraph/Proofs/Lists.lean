import Mathlib.Data.List.Forall2
import Mathlib.Data.List.Induction

namespace List

variable {α β : Type} [BEq α] [LawfulBEq α]

omit [BEq α] [LawfulBEq α] in
theorem forall₂_map_map {γ : Type} {relation : β → γ → Prop} {l : List α} {f : α → β} {g : α → γ}
    (h : ∀ a ∈ l, relation (f a) (g a)) : Forall₂ relation (l.map f) (l.map g) := by
  simpa [forall₂_same] using h

omit [BEq α] [LawfulBEq α] in
theorem append_singleton_eq_append_cons {l before after : List α} {last a : α}
    (h : l ++ [last] = before ++ a :: after) :
    (after = [] ∧ l = before ∧ last = a) ∨
      ∃ after', after = after' ++ [last] ∧ l = before ++ a :: after' := by
  rcases eq_nil_or_concat after with rfl | ⟨after', final, rfl⟩
  · obtain ⟨rfl, same⟩ := append_inj' h rfl
    cases same
    exact Or.inl ⟨rfl, rfl, rfl⟩
  · rw [concat_eq_append, ← cons_append, ← append_assoc] at h
    obtain ⟨rfl, same⟩ := append_inj' h rfl
    cases same
    exact Or.inr ⟨after', concat_eq_append, rfl⟩

omit [BEq α] [LawfulBEq α] in
theorem nodup_append_singleton {l : List α} {a : α} (distinct : l.Nodup) (fresh : a ∉ l) :
    (l ++ [a]).Nodup := by
  refine nodup_append.2 ⟨distinct, by simp, ?_⟩
  intro b inside last isLast
  rw [mem_singleton.1 isLast]
  rintro rfl
  exact fresh inside

theorem eraseDups_concat (l : List α) (a : α) :
    (l ++ [a]).eraseDups = if a ∈ l then l.eraseDups else l.eraseDups ++ [a] := by
  rw [eraseDups_append]
  by_cases h : a ∈ l
  · simp [removeAll, h]
  · simp [removeAll, h, eraseDups_cons]

theorem nodup_eraseDups (l : List α) : l.eraseDups.Nodup := by
  induction l using List.reverseRecOn with
  | nil => exact List.nodup_nil
  | append_singleton l a ih =>
    rw [eraseDups_concat]
    split
    · exact ih
    · rename_i fresh
      exact nodup_append_singleton ih (by simpa using fresh)

theorem eraseDups_eq_self {l : List α} (distinct : l.Nodup) : l.eraseDups = l := by
  induction l using List.reverseRecOn with
  | nil => rfl
  | append_singleton l a ih =>
    rw [List.nodup_append] at distinct
    have fresh : a ∉ l := fun inside => distinct.2.2 a inside a (by simp) rfl
    rw [eraseDups_concat, ih distinct.1]
    simp [fresh]

theorem eraseDups_append_of_subset {l m : List α} (h : ∀ a ∈ m, a ∈ l) :
    (l ++ m).eraseDups = l.eraseDups := by
  have nothing : m.removeAll l = [] := by
    simp only [removeAll, filter_eq_nil_iff]
    intro a inside
    simp [h a inside]
  rw [eraseDups_append, nothing]
  simp

theorem eraseDups_eraseDups_append (l m : List α) :
    (l.eraseDups ++ m).eraseDups = (l ++ m).eraseDups := by
  induction m using List.reverseRecOn with
  | nil => simpa using eraseDups_eq_self (nodup_eraseDups l)
  | append_singleton m a ih =>
    rw [← append_assoc, ← append_assoc, eraseDups_concat, eraseDups_concat, ih]
    simp

theorem eraseDups_filter (p : α → Bool) (l : List α) :
    (l.filter p).eraseDups = l.eraseDups.filter p := by
  induction l using List.reverseRecOn with
  | nil => rfl
  | append_singleton l a ih =>
    rw [filter_append, eraseDups_concat]
    by_cases h : p a
    · by_cases inside : a ∈ l
      · simp [h, inside, eraseDups_concat, ih]
      · simp [h, inside, eraseDups_concat, ih]
    · by_cases inside : a ∈ l
      · simp [h, inside, ih]
      · simp [h, inside, ih]

theorem eraseDups_filterMap_eraseDups [BEq β] [LawfulBEq β] (f : α → Option β) (l : List α) :
    (l.eraseDups.filterMap f).eraseDups = (l.filterMap f).eraseDups := by
  induction l using List.reverseRecOn with
  | nil => rfl
  | append_singleton l a ih =>
    rw [eraseDups_concat, filterMap_append]
    split
    · rename_i inside
      rw [ih, eraseDups_append_of_subset]
      intro b new
      simp only [filterMap_cons, filterMap_nil] at new
      cases image : f a with
      | none => simp [image] at new
      | some b' =>
        simp only [image, mem_singleton] at new
        exact mem_filterMap.2 ⟨a, inside, by rw [image, new]⟩
    · rw [filterMap_append, ← eraseDups_eraseDups_append (l.eraseDups.filterMap f), ih,
        eraseDups_eraseDups_append]

theorem eraseDups_append_eraseDups (l m : List α) :
    (l ++ m.eraseDups).eraseDups = (l ++ m).eraseDups := by
  rw [eraseDups_append, eraseDups_append, removeAll, removeAll, eraseDups_filter,
    eraseDups_filter, eraseDups_eq_self (nodup_eraseDups m)]

theorem eraseDups_flatMap_congr {γ : Type} {f g : γ → List α} {l : List γ}
    (h : ∀ c ∈ l, (f c).eraseDups = (g c).eraseDups) :
    (l.flatMap f).eraseDups = (l.flatMap g).eraseDups := by
  induction l with
  | nil => rfl
  | cons c rest ih =>
    have others := ih fun c inside => h c (mem_cons_of_mem _ inside)
    rw [flatMap_cons, flatMap_cons, ← eraseDups_eraseDups_append, h c mem_cons_self,
      eraseDups_eraseDups_append, ← eraseDups_append_eraseDups, others,
      eraseDups_append_eraseDups]

theorem lookup_of_mem {l : List (α × β)} {a : α} {b : β} (distinct : (l.map (·.1)).Nodup)
    (inside : (a, b) ∈ l) : l.lookup a = some b := by
  obtain ⟨before, after, rfl⟩ := append_of_mem inside
  refine lookup_eq_some_iff.2 ⟨before, after, rfl, ?_⟩
  intro pair earlier
  simp only [map_append, map_cons, nodup_append] at distinct
  have other := distinct.2.2 pair.1 (mem_map_of_mem earlier) a mem_cons_self
  simpa using fun same : a = pair.1 => other same.symm

end List
