import Mathlib.Data.Set.Function
import QueryGraph.Proofs.Failures

namespace QueryGraph

namespace Text

/-- The number that digits in base sixteen stand for. -/
def hexNumber (digits : List Char) : Nat :=
  digits.foldl (fun n c => n * 16 + (hexValue? c).getD 0) 0

theorem hexValue?_digitChar : ∀ d < 16, hexValue? (Nat.digitChar d) = some d := by
  decide

theorem hexNumber_toDigits (n : Nat) : hexNumber (Nat.toDigits 16 n) = n := by
  induction n using Nat.strongRecOn with
  | ind n ih =>
    by_cases small : n < 16
    · simp [Nat.toDigits_of_lt_base small, hexNumber, hexValue?_digitChar n small]
    · have last := hexValue?_digitChar (n % 16) (Nat.mod_lt n (by decide))
      have others := ih (n / 16) (by omega)
      rw [hexNumber] at others
      rw [Nat.toDigits_of_base_le (by decide) (by omega), hexNumber, List.foldl_append, others]
      simp only [List.foldl_cons, List.foldl_nil, last, Option.getD_some]
      omega

theorem hexNumber_hexPadded (width n : Nat) : hexNumber (hexPadded width n) = n := by
  have padding (k : Nat) (digits : List Char) :
      hexNumber (List.replicate k '0' ++ digits) = hexNumber digits := by
    induction k with
    | zero => rfl
    | succ k ih => exact ih
  rw [hexPadded, padding, hexNumber_toDigits]

end Text

namespace Options

variable {options : Options}

theorem label_injective {a b : NodeId} (same : options.label a = options.label b) : a = b := by
  have digits : Text.hexPadded 8 a = Text.hexPadded 8 b :=
    String.ofList_injective ((String.append_right_inj _).1 same)
  rw [← Text.hexNumber_hexPadded 8 a, digits, Text.hexNumber_hexPadded]

/-- Beyond eight digits labels grow and do not begin anew. -/
example : standard.label (16 ^ 8 + 10) = "_10000000a" := by
  decide

end Options

open Extraction

namespace Graph

/-- The nodes that are to be statements when roots are rendered. -/
noncomputable def plannedNodes (graph : Graph) (roots : List NodeId) : List Node :=
  roots.getLast?.toList.flatMap (graph.statementNodes roots.dropLast)

/-- The labels of the nodes that are to be statements without a name of their own. -/
def labels (graph : Graph) (roots : List NodeId) (options : Options) : Set String :=
  {label | ∃ node ∈ graph.plannedNodes roots, node.name = none ∧ options.label node.id = label}

/-- The names of all other statements: of variables below the roots, of the other bindings if they
are asked for, and of the nodes that were given one. -/
noncomputable def givenNames (graph : Graph) (roots : List NodeId) (bindings : Bindings)
    (options : Options) : List String :=
  graph.variableNames roots ++
    (if options.bindUnreferenced then bindings.entries.keys.filter fun name =>
      !(graph.variableNames roots).contains name else []) ++
    (graph.plannedNodes roots).filterMap (·.name)

/-- Whether, if it comes to statements at all, no label happens to be a name from elsewhere. -/
def LabelsClear (graph : Graph) (roots : List NodeId) (bindings : Bindings) (options : Options) :
    Prop :=
  graph.Prepared roots bindings →
    ∀ label ∈ graph.labels roots options, label ∉ graph.givenNames roots bindings options

theorem plannedNodes_concat (graph : Graph) (rest : List NodeId) (last : NodeId) :
    graph.plannedNodes (rest ++ [last]) = graph.statementNodes rest last := by
  simp [plannedNodes]

end Graph

end QueryGraph
