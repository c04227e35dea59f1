import QueryGraph.Proofs.IntegerLiterals
import QueryGraph.Proofs.JsonReading
import QueryGraph.Proofs.Legibility
import QueryGraph.Query.Export
import QueryGraph.Query.Lowering

namespace QueryGraph

open QueryGraph.Number

theorem head?_toDigits {n : Nat} (nonzero : n ≠ 0) : (Nat.toDigits 10 n).head? ≠ some '0' := by
  have digit : ∀ d < 10, d ≠ 0 → Nat.digitChar d ≠ '0' := by decide
  induction n using Nat.strongRecOn with
  | ind n ih =>
    by_cases small : n < 10
    · rw [Nat.toDigits_of_lt_base small]
      simpa using digit n small nonzero
    · obtain ⟨c, cs, digits, _⟩ := toDigits_eq_cons (n / 10)
      have first := ih (n / 10) (by omega) (by omega)
      rw [Nat.toDigits_of_base_le (by decide) (Nat.le_of_not_lt small)]
      rw [digits] at first ⊢
      exact first

theorem isUnsigned_toDigits (n : Nat) : Json.IsUnsigned (Nat.toDigits 10 n) := by
  have noZero : (Nat.toDigits 10 n).length ≠ 1 → (Nat.toDigits 10 n).head? ≠ some '0' := by
    intro long
    refine head?_toDigits ?_
    rintro rfl
    exact long rfl
  have isUnsigned := @Json.IsUnsigned.intro (Nat.toDigits 10 n) [] []
    (by simpa using isDigit_toDigits n) Nat.toDigits_ne_nil noZero (Or.inl rfl)
  simpa [pointed] using isUnsigned

theorem isUnsigned_fraction {whole fraction : List Char}
    (digits : ∀ c ∈ whole ++ fraction, c.isDigit = true) (nonempty : whole ≠ [])
    (noZero : whole.length ≠ 1 → whole.head? ≠ some '0') (nonempty' : fraction ≠ []) :
    Json.IsUnsigned (whole ++ '.' :: fraction) := by
  have isUnsigned := @Json.IsUnsigned.intro whole fraction [] digits nonempty noZero (Or.inl rfl)
  rwa [List.append_nil, pointed, if_neg (by simpa using nonempty')] at isUnsigned

theorem isNumeral_intText (value : Int) : Json.IsNumeral (intText value) := by
  cases value with
  | ofNat n => exact .positive (isUnsigned_toDigits n)
  | negSucc n => exact .negative (isUnsigned_toDigits (n + 1))

namespace Number.Layout

theorem head?_significant {d : Decimal} (nonzero : d.coefficient ≠ 0) :
    (significant d).head? ≠ some '0' := by
  obtain ⟨zeros, digits⟩ := exists_zeros d
  obtain ⟨c, cs, same⟩ := List.exists_cons_of_ne_nil (significant_ne_nil nonzero)
  have first := head?_toDigits nonzero
  rw [digits, same] at first
  rw [same]
  exact first

variable {digits : List Char}

theorem isUnsigned_positional (all : ∀ c ∈ digits, c.isDigit = true) (nonempty : digits ≠ [])
    (noZero : digits.head? ≠ some '0') (power : Int) :
    Json.IsUnsigned (positional digits power) := by
  cases power with
  | ofNat p =>
    have whole : (digits.take (p + 1) ++ List.replicate (p + 1 - digits.length) '0').head? =
        digits.head? := by
      obtain ⟨c, cs, rfl⟩ := List.exists_cons_of_ne_nil nonempty
      rfl
    refine isUnsigned_fraction ?_ (by simp [nonempty]) (fun _ => whole ▸ noZero) ?_
    · simp only [List.mem_append, List.mem_replicate]
      rintro c ((member | ⟨-, rfl⟩) | member)
      · exact all c (List.mem_of_mem_take member)
      · rfl
      · split at member
        · rw [List.mem_singleton.1 member]
          rfl
        · exact all c (List.mem_of_mem_drop member)
    · split
      · exact List.cons_ne_nil _ _
      · rename_i some
        exact fun none => some (List.isEmpty_iff.2 none)
  | negSucc p =>
    refine @isUnsigned_fraction ['0'] _ ?_ (List.cons_ne_nil _ _) (fun long => absurd rfl long)
      (by simp [nonempty])
    simp only [List.mem_append, List.mem_singleton, List.mem_replicate]
    rintro c (rfl | ⟨-, rfl⟩ | member)
    · rfl
    · rfl
    · exact all c member

theorem isUnsigned_scientific (all : ∀ c ∈ digits, c.isDigit = true) (nonempty : digits ≠ [])
    (plusSign : Bool) (power : Int) :
    Json.IsUnsigned (scientific plusSign digits power) := by
  obtain ⟨c, cs, rfl⟩ := List.exists_cons_of_ne_nil nonempty
  exact @Json.IsUnsigned.intro [c] cs _ all (List.cons_ne_nil _ _) (fun long => absurd rfl long)
    (Or.inr ⟨plusSign, power, rfl⟩)

theorem isUnsigned_magnitude (layout : Layout) {m : Nat} (finite : m < Double.infinity) :
    Json.IsUnsigned (layout.magnitude m) := by
  unfold magnitude
  split
  · exact @isUnsigned_fraction ['0'] ['0'] (List.all_eq_true.1 rfl) (List.cons_ne_nil _ _)
      (fun long => absurd rfl long) (List.cons_ne_nil _ _)
  · rename_i nonzero
    have coefficient := coefficient_shortest layout.tie finite nonzero
    have nonempty := significant_ne_nil coefficient
    dsimp only
    split
    · exact isUnsigned_positional significant_isDigit nonempty (head?_significant coefficient) _
    · exact isUnsigned_scientific significant_isDigit nonempty layout.plusSign _

theorem isNumeral_number (layout : Layout) {value : Double} (finite : value.isFinite = true) :
    Json.IsNumeral (layout.number value) := by
  have small : value.magnitude < Double.infinity := by simpa [Double.isFinite] using finite
  have isUnsigned := layout.isUnsigned_magnitude small
  rw [number]
  split
  · exact .negative isUnsigned
  · exact .positive isUnsigned

end Number.Layout

theorem Constant.eq_of_spells {text : List Char} {constant other : Constant}
    (spells : Spells text constant.tokens) (spells' : Spells text other.tokens) :
    constant = other := by
  have parses := Expr.parse_spelled spells
  rw [Expr.parse_spelled spells'] at parses
  cases parses
  rfl

namespace Query.Export

open Json (Valid)

-- Forms are compared constructor by constructor, down to the forms of the parts.
attribute [simp] tagged constant expr callObject statement toJson

theorem list_eq (values : List Expr) : list values = values.map expr := by
  induction values with
  | nil => rfl
  | cons value rest ih => rw [list, ih, List.map_cons]

theorem entries_eq (values : List (String × Expr)) :
    entries values = values.map fun entry => (entry.1, expr entry.2) := by
  induction values with
  | nil => rfl
  | cons entry rest ih => rw [entries, ih, List.map_cons]

theorem calls_eq (steps : List Call) : calls steps = steps.map callObject := by
  induction steps with
  | nil => rfl
  | cons step rest ih => rw [calls, ih, List.map_cons]

theorem valid_double (value : Double) : Valid (double value) := by
  rw [double]
  split
  · rename_i finite
    exact .number (jsonLayout.isNumeral_number finite)
  · exact .null

theorem valid_constant (value : Constant) : Valid (constant value) := by
  cases value with
  | int value => simpa using Valid.number (isNumeral_intText value.toInt)
  | double value => simpa using valid_double value
  | bool value => simp
  | string value => simp

theorem valid_entries {values : List (String × Expr)}
    (valid : ∀ part ∈ Entries.values values, Valid (expr part)) :
    Valid (.object (entries values)) := by
  rw [Entries.values, List.forall_mem_map] at valid
  rw [entries_eq, Json.valid_object, List.forall_mem_map]
  exact valid

theorem valid_operand {on : Option Expr} (valid : ∀ part ∈ on.toList, Valid (expr part)) :
    Valid (operand on) := by
  cases on with
  | none => exact .null
  | some value => exact valid value (List.mem_singleton_self value)

theorem valid_callObject {call : Call} (valid : ∀ part ∈ call.parts, Valid (expr part)) :
    Valid (callObject call) := by
  obtain ⟨on, space, name, arguments⟩ := call
  obtain ⟨validOn, validArguments⟩ := List.forall_mem_append.1 valid
  have both : Valid (operand on) ∧ Valid (.object (entries arguments)) :=
    ⟨valid_operand validOn, valid_entries validArguments⟩
  simpa using both

theorem valid_expr (value : Expr) : Valid (expr value) := by
  induction value using Expr.induction with
  | step value valid =>
    cases value with
    | atom value => simpa using valid_constant value
    | binary left op right => simpa [Expr.parts] using valid
    | lookup on property => simpa [Expr.parts] using valid
    | list values => simpa [Expr.parts, list_eq] using valid
    | dict values => simpa using valid_entries valid
    | table inner => simpa [Expr.parts] using valid
    | reference name => simp
    | placeholder => simp
    | call step => simpa using valid_callObject valid
    | pipeline base steps =>
      obtain ⟨validBase, validSteps⟩ := List.forall_mem_cons.1 valid
      have stages : ∀ step ∈ steps, Valid (callObject step) := fun step member =>
        valid_callObject (List.forall_mem_flatMap.1 validSteps step member)
      simpa [calls_eq, validBase] using stages
    | conditional condition thenDo elseDo => simpa [Expr.parts] using valid

theorem valid_toJson (query : Query) : Valid query.toJson := by
  simp [valid_expr]

/-- Whether a value is told by its form from every other value that meets a condition. -/
def Told {α β : Type} (condition : α → Prop) (form : α → β) (value : α) : Prop :=
  ∀ other, condition other → form other = form value → other = value

theorem eq_of_map {α β : Type} {condition : α → Prop} {form : α → β} {values others : List α}
    (told : ∀ value ∈ values, Told condition form value) (all : ∀ other ∈ others, condition other)
    (same : others.map form = values.map form) : others = values := by
  induction values generalizing others with
  | nil => exact List.map_eq_nil_iff.1 same
  | cons value rest ih =>
    cases others with
    | nil => cases same
    | cons other others =>
      rw [List.map_cons, List.map_cons, List.cons.injEq] at same
      obtain ⟨first, more⟩ := List.forall_mem_cons.1 told
      obtain ⟨own, below⟩ := List.forall_mem_cons.1 all
      rw [first other own same.1, ih more below same.2]

theorem told_constant {value : Constant} (finite : value.isFinite = true) :
    Told (fun other => other.isFinite = true) constant value := by
  intro other finite' same
  cases value with
  | int value =>
    cases other with
    | int other =>
      have text : intText other.toInt = intText value.toInt := by simpa using same
      exact Constant.eq_of_spells (text ▸ Constant.spells_int other) (Constant.spells_int value)
    | _ => simp at same
  | double value =>
    cases other with
    | double other =>
      have digits : double value = .number (jsonLayout.number value) := if_pos finite
      have digits' : double other = .number (jsonLayout.number other) := if_pos finite'
      have text : jsonLayout.number other = jsonLayout.number value := by
        simpa [digits, digits'] using same
      exact Constant.eq_of_spells (text ▸ Constant.spells_number jsonLayout finite')
        (Constant.spells_number jsonLayout finite)
    | _ => simp at same
  | bool value =>
    cases other with
    | bool other => simpa using same
    | _ => simp at same
  | string value =>
    cases other with
    | string other => simpa using same
    | _ => simp at same

theorem expr_ne_null (value : Expr) : expr value ≠ .null := by
  cases value <;> simp

section

variable {left right on inner base condition thenDo elseDo : Expr}

theorem told_atom {value : Constant} (finite : value.isFinite = true) :
    Told Expr.IsFinite expr (.atom value) := by
  intro other finite' same
  obtain ⟨own, -⟩ := Expr.constants_iff.1 finite'
  cases other with
  | atom other =>
    have form : constant other = constant value := by simpa using same
    rw [told_constant finite other (own other rfl) form]
  | _ => simp at same

theorem told_binary {op : String} (left' : Told Expr.IsFinite expr left)
    (right' : Told Expr.IsFinite expr right) :
    Told Expr.IsFinite expr (.binary left op right) := by
  intro other finite same
  obtain ⟨-, parts⟩ := Expr.constants_iff.1 finite
  cases other with
  | binary otherLeft otherOp otherRight =>
    obtain ⟨finiteLeft, rest⟩ := List.forall_mem_cons.1 parts
    have finiteRight := List.forall_mem_singleton.1 rest
    have forms : expr otherLeft = expr left ∧ otherOp = op ∧ expr otherRight = expr right := by
      simpa using same
    rw [left' _ finiteLeft forms.1, forms.2.1, right' _ finiteRight forms.2.2]
  | _ => simp at same

theorem told_lookup {property : String} (on' : Told Expr.IsFinite expr on) :
    Told Expr.IsFinite expr (.lookup on property) := by
  intro other finite same
  obtain ⟨-, parts⟩ := Expr.constants_iff.1 finite
  cases other with
  | lookup otherOn otherProperty =>
    have forms : expr otherOn = expr on ∧ otherProperty = property := by
      simpa using same
    rw [on' _ (List.forall_mem_singleton.1 parts) forms.1, forms.2]
  | _ => simp at same

theorem told_list {values : List Expr} (told : ∀ value ∈ values, Told Expr.IsFinite expr value) :
    Told Expr.IsFinite expr (.list values) := by
  intro other finite same
  obtain ⟨-, parts⟩ := Expr.constants_iff.1 finite
  cases other with
  | list others =>
    have forms : others.map expr = values.map expr := by simpa [list_eq] using same
    have items : others = values := eq_of_map told parts forms
    rw [items]
  | _ => simp at same

theorem eq_of_entries {values others : List (String × Expr)}
    (told : ∀ part ∈ Entries.values values, Told Expr.IsFinite expr part)
    (all : ∀ part ∈ Entries.values others, part.IsFinite)
    (same : entries others = entries values) : others = values := by
  rw [Entries.values, List.forall_mem_map] at told all
  rw [entries_eq, entries_eq] at same
  have toldEntries : ∀ entry ∈ values, Told (fun other : String × Expr => other.2.IsFinite)
      (fun other => (other.1, expr other.2)) entry := by
    intro entry member other finite form
    rw [Prod.mk.injEq] at form
    exact Prod.ext form.1 (told entry member other.2 finite form.2)
  exact eq_of_map toldEntries all same

theorem told_dict {values : List (String × Expr)}
    (told : ∀ part ∈ Entries.values values, Told Expr.IsFinite expr part) :
    Told Expr.IsFinite expr (.dict values) := by
  intro other finite same
  obtain ⟨-, parts⟩ := Expr.constants_iff.1 finite
  cases other with
  | dict others =>
    have forms : entries others = entries values := by simpa using same
    rw [eq_of_entries told parts forms]
  | _ => simp at same

theorem told_table (inner' : Told Expr.IsFinite expr inner) :
    Told Expr.IsFinite expr (.table inner) := by
  intro other finite same
  obtain ⟨-, parts⟩ := Expr.constants_iff.1 finite
  cases other with
  | table otherInner =>
    have form : expr otherInner = expr inner := by simpa using same
    rw [inner' _ (List.forall_mem_singleton.1 parts) form]
  | _ => simp at same

theorem told_reference (name : String) : Told Expr.IsFinite expr (.reference name) := by
  intro other _ same
  cases other with
  | reference otherName => simpa using same
  | _ => simp at same

theorem told_placeholder : Told Expr.IsFinite expr .placeholder := by
  intro other _ same
  cases other with
  | placeholder => rfl
  | _ => simp at same

theorem eq_of_operand {on other : Option Expr}
    (told : ∀ part ∈ on.toList, Told Expr.IsFinite expr part)
    (all : ∀ part ∈ other.toList, part.IsFinite) (same : operand other = operand on) :
    other = on := by
  cases on with
  | none =>
    cases other with
    | none => rfl
    | some value => exact absurd same (expr_ne_null value)
  | some value =>
    cases other with
    | none => exact absurd same.symm (expr_ne_null value)
    | some other =>
      rw [told value (List.mem_singleton_self value) other
        (all other (List.mem_singleton_self other)) same]

theorem told_callObject {call : Call}
    (told : ∀ part ∈ call.parts, Told Expr.IsFinite expr part) :
    Told Call.IsFinite callObject call := by
  intro other finite same
  obtain ⟨on, space, name, arguments⟩ := call
  obtain ⟨otherOn, otherSpace, otherName, otherArguments⟩ := other
  obtain ⟨toldOn, toldArguments⟩ := List.forall_mem_append.1 told
  obtain ⟨finiteOn, finiteArguments⟩ := List.forall_mem_append.1 finite
  have forms : operand otherOn = operand on ∧ otherSpace = space ∧ otherName = name ∧
      entries otherArguments = entries arguments := by
    simpa using same
  obtain ⟨sameOn, rfl, rfl, sameArguments⟩ := forms
  obtain rfl : otherOn = on := eq_of_operand toldOn finiteOn sameOn
  obtain rfl : otherArguments = arguments :=
    eq_of_entries toldArguments finiteArguments sameArguments
  rfl

theorem told_call {call : Call} (told : ∀ part ∈ call.parts, Told Expr.IsFinite expr part) :
    Told Expr.IsFinite expr (.call call) := by
  intro other finite same
  obtain ⟨-, parts⟩ := Expr.constants_iff.1 finite
  cases other with
  | call other =>
    have form : callObject other = callObject call := by simpa using same
    rw [told_callObject told other parts form]
  | _ => simp at same

theorem told_pipeline {steps : List Call} (base' : Told Expr.IsFinite expr base)
    (told : ∀ step ∈ steps, ∀ part ∈ step.parts, Told Expr.IsFinite expr part) :
    Told Expr.IsFinite expr (.pipeline base steps) := by
  intro other finite same
  cases other with
  | pipeline otherBase otherSteps =>
    obtain ⟨finiteBase, finiteSteps⟩ := Expr.constants_pipeline.1 finite
    have forms : expr otherBase = expr base ∧
        otherSteps.map callObject = steps.map callObject := by
      simpa [calls_eq] using same
    have steps' := fun step member => told_callObject (told step member)
    rw [base' _ finiteBase forms.1, eq_of_map steps' finiteSteps forms.2]
  | _ => simp at same

theorem told_conditional (condition' : Told Expr.IsFinite expr condition)
    (thenDo' : Told Expr.IsFinite expr thenDo) (elseDo' : Told Expr.IsFinite expr elseDo) :
    Told Expr.IsFinite expr (.conditional condition thenDo elseDo) := by
  intro other finite same
  obtain ⟨-, parts⟩ := Expr.constants_iff.1 finite
  cases other with
  | conditional otherCondition otherThen otherElse =>
    obtain ⟨finiteCondition, branches⟩ := List.forall_mem_cons.1 parts
    obtain ⟨finiteThen, rest⟩ := List.forall_mem_cons.1 branches
    have finiteElse := List.forall_mem_singleton.1 rest
    have forms : expr otherCondition = expr condition ∧ expr otherThen = expr thenDo ∧
        expr otherElse = expr elseDo := by
      simpa using same
    rw [condition' _ finiteCondition forms.1, thenDo' _ finiteThen forms.2.1,
      elseDo' _ finiteElse forms.2.2]
  | _ => simp at same

end

theorem told_expr {value : Expr} (finite : value.IsFinite) : Told Expr.IsFinite expr value := by
  -- The form of a finite expression shows its kind, and the forms of parts that are finite too.
  induction value using Expr.induction with
  | step value told =>
    obtain ⟨own, below⟩ := Expr.constants_iff.1 finite
    have parts : ∀ part ∈ value.parts, Told Expr.IsFinite expr part :=
      fun part member => told part member (below part member)
    cases value with
    | atom value => exact told_atom (own value rfl)
    | binary left op right =>
      obtain ⟨left', rest⟩ := List.forall_mem_cons.1 parts
      exact told_binary left' (List.forall_mem_singleton.1 rest)
    | lookup on property => exact told_lookup (List.forall_mem_singleton.1 parts)
    | list values => exact told_list parts
    | dict values => exact told_dict parts
    | table inner => exact told_table (List.forall_mem_singleton.1 parts)
    | reference name => exact told_reference name
    | placeholder => exact told_placeholder
    | call step => exact told_call parts
    | pipeline base steps =>
      obtain ⟨base', steps'⟩ := List.forall_mem_cons.1 parts
      exact told_pipeline base' (List.forall_mem_flatMap.1 steps')
    | conditional condition thenDo elseDo =>
      obtain ⟨condition', branches⟩ := List.forall_mem_cons.1 parts
      obtain ⟨thenDo', rest⟩ := List.forall_mem_cons.1 branches
      exact told_conditional condition' thenDo' (List.forall_mem_singleton.1 rest)

theorem told_statement {value : Statement Expr} (finite : value.body.IsFinite) :
    Told (fun other => other.body.IsFinite) statement value := by
  intro other finite' same
  obtain ⟨name, body⟩ := value
  obtain ⟨otherName, otherBody⟩ := other
  have forms : otherName = name ∧ expr otherBody = expr body := by
    simpa using same
  rw [forms.1, told_expr finite otherBody finite' forms.2]

theorem told_query {query : Query} (finite : query.IsFinite) :
    Told Query.IsFinite toJson query := by
  intro other finite' same
  obtain ⟨statements, final⟩ := query
  obtain ⟨otherStatements, otherFinal⟩ := other
  obtain ⟨bodies, last⟩ := List.forall_mem_append.1 finite
  obtain ⟨otherBodies, otherLast⟩ := List.forall_mem_append.1 finite'
  have forms : otherStatements.map statement = statements.map statement ∧
      expr otherFinal = expr final := by
    simpa using same
  have told : ∀ value ∈ statements, Told (fun other => other.body.IsFinite) statement value :=
    fun value member => told_statement (List.forall_mem_map.1 bodies value member)
  obtain rfl : otherStatements = statements :=
    eq_of_map told (List.forall_mem_map.1 otherBodies) forms.1
  obtain rfl : otherFinal = final := told_expr (List.forall_mem_singleton.1 last) otherFinal
    (List.forall_mem_singleton.1 otherLast) forms.2
  rfl

end Query.Export

/-- Two queries whose numbers are finite are one query if they have one text: the text is read back
as the JSON form, and the form tells the query. -/
theorem Query.jsonText_injective {query query' : Query} (finite : query.IsFinite)
    (finite' : query'.IsFinite) (same : query.jsonText = query'.jsonText) : query = query' := by
  have texts : query.toJson.compact = query'.toJson.compact := String.ofList_injective same
  have valid := Export.valid_toJson
  have forms := Json.compact_injective (valid query) (valid query') texts
  exact Export.told_query finite' query finite forms

/-- One of the zeros in a list that is named, and the list piped through calls. -/
def Query.pipedZero (negative : Bool) : Query where
  statements := [⟨"rows", .list [.atom (.double (.ofMagnitude negative 0))]⟩]
  final := .pipeline (.reference "rows")
    [⟨none, "std", "take", [("count", .atom (.int 1))]⟩, ⟨none, "std", "filter", []⟩]

/-- The same with one call inside the other. -/
def Query.nestedZero (negative : Bool) : Query where
  statements := [⟨"rows", .list [.atom (.double (.ofMagnitude negative 0))]⟩]
  final := .call ⟨some (.call ⟨some (.reference "rows"), "std", "take",
    [("count", .atom (.int 1))]⟩), "std", "filter", []⟩

theorem Query.isFinite_nestedZero (negative : Bool) : (nestedZero negative).IsFinite := by
  have zero : (Double.ofMagnitude negative 0).isFinite = true := by
    cases negative <;> decide
  have one : (Expr.atom (.int 1)).IsFinite := Expr.isFinite_atom rfl
  have rows : (Expr.reference "rows").IsFinite := Expr.isFinite_of_parts nofun nofun
  have inner : (Expr.call ⟨some (.reference "rows"), "std", "take",
      [("count", .atom (.int 1))]⟩).IsFinite :=
    Expr.isFinite_of_parts nofun
      (List.forall_mem_cons.2 ⟨rows, List.forall_mem_singleton.2 one⟩)
  refine List.forall_mem_cons.2 ⟨?_, List.forall_mem_singleton.2 ?_⟩
  · exact Expr.isFinite_of_parts nofun (List.forall_mem_singleton.2 (Expr.isFinite_atom zero))
  · exact Expr.isFinite_of_parts nofun (List.forall_mem_singleton.2 inner)

theorem Query.isFinite_pipedZero (negative : Bool) : (pipedZero negative).IsFinite := by
  obtain ⟨rows, final⟩ := List.forall_mem_cons.1 (isFinite_nestedZero negative)
  refine List.forall_mem_cons.2 ⟨rows, List.forall_mem_singleton.2 ?_⟩
  refine Expr.constants_pipeline.2 ⟨Expr.isFinite_of_parts nofun nofun, ?_⟩
  rintro step member part isPart
  rcases List.mem_pair.1 member with rfl | rfl
  · rw [List.mem_singleton.1 isPart]
    exact Expr.isFinite_atom rfl
  · cases isPart

/-- Lowering the pipeline gives the text of the nested calls. The text of the pipeline itself is
another one, and so is that of the calls with the other zero. -/
theorem Query.sample_jsonText_injective :
    (pipedZero true).lower.jsonText = (nestedZero true).jsonText ∧
      (pipedZero true).lower = nestedZero true ∧
      (pipedZero true).jsonText ≠ (nestedZero true).jsonText ∧
      (nestedZero true).jsonText ≠ (nestedZero false).jsonText := by
  have text : (pipedZero true).lower.jsonText = (nestedZero true).jsonText := rfl
  have finite : (pipedZero true).lower.IsFinite := isFinite_nestedZero true
  refine ⟨text, jsonText_injective finite (isFinite_nestedZero true) text, ?_, ?_⟩
  · intro same
    have queries := jsonText_injective (isFinite_pipedZero true) (isFinite_nestedZero true) same
    cases queries
  · intro same
    have zeros := jsonText_injective (isFinite_nestedZero true) (isFinite_nestedZero false) same
    have signs : Double.ofMagnitude true 0 = .ofMagnitude false 0 := by
      simpa [nestedZero] using zeros
    exact absurd signs (by decide)

end QueryGraph
