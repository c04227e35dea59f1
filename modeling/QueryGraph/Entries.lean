/-!
Dictionaries in insertion order, as lists of pairs. What is put together by insertion alone has
distinct keys.
-/

namespace QueryGraph

/-- A dictionary that remembers the order in which its keys came. -/
abbrev Entries (α : Type) := List (String × α)

namespace Entries

variable {α β : Type}

def keys (entries : Entries α) : List String :=
  entries.map (·.1)

def values (entries : Entries α) : List α :=
  entries.map (·.2)

def find? (entries : Entries α) (key : String) : Option α :=
  entries.lookup key

def contains (entries : Entries α) (key : String) : Bool :=
  entries.keys.contains key

/-- A new key goes to the end; a key that is there keeps its place and takes the new value. -/
def insert (key : String) (value : α) : Entries α → Entries α
  | [] => [(key, value)]
  | entry :: rest =>
    if entry.1 = key then (key, value) :: rest else entry :: insert key value rest

/-- Inserts pairs one after the other. -/
def insertAll (entries : Entries α) (pairs : List (String × α)) : Entries α :=
  pairs.foldl (fun sofar pair => insert pair.1 pair.2 sofar) entries

def ofList (pairs : List (String × α)) : Entries α :=
  insertAll [] pairs

theorem keys_insert (key : String) (value : α) (entries : Entries α) :
    (insert key value entries).keys =
      if key ∈ entries.keys then entries.keys else entries.keys ++ [key] := by
  induction entries with
  | nil => simp [insert, keys]
  | cons entry rest ih =>
    by_cases same : entry.1 = key
    · simp [insert, keys, same]
    · have other : key ≠ entry.1 := fun h => same h.symm
      simp only [keys] at ih
      by_cases found : key ∈ rest.map (·.1)
      · simp [insert, keys, same, ih, found]
      · simp [insert, keys, same, other, ih, found]

theorem nodup_keys_insert {key : String} {value : α} {entries : Entries α}
    (distinct : entries.keys.Nodup) : (insert key value entries).keys.Nodup := by
  rw [keys_insert]
  split
  · exact distinct
  · rename_i fresh
    refine List.nodup_append.2 ⟨distinct, by simp, ?_⟩
    intro a inside b last
    rw [List.mem_singleton] at last
    subst last
    exact fun same => fresh (same ▸ inside)

theorem nodup_keys_insertAll {entries : Entries α} (pairs : List (String × α))
    (distinct : entries.keys.Nodup) : (insertAll entries pairs).keys.Nodup := by
  induction pairs generalizing entries with
  | nil => exact distinct
  | cons pair rest ih => exact ih (nodup_keys_insert distinct)

theorem nodup_keys_ofList (pairs : List (String × α)) : (ofList pairs).keys.Nodup :=
  nodup_keys_insertAll pairs List.nodup_nil

end Entries

end QueryGraph
