import QueryGraph.Proofs.Passage

namespace QueryGraph.Text

open QueryGraph.Lexer

/-- Whether a text ends in a backslash that escapes what comes next, and is not escaped itself. -/
def endsInEscape (text : List Char) : Bool :=
  text.foldl (fun escaping c => !escaping && c == '\\') false

theorem isControl_eq_false {c : Char} (isName : isNameChar c = true) : isControl c = false := by
  have bounds := isNameChar_iff.1 isName
  rw [isControl, decide_eq_false_iff_not]
  omega

/-- A character stands for itself in a literal, or a backslash and another character stand for it,
with hexadecimal digits behind them if it is a control character of no other kind. -/
theorem escapeChar_cases (c : Char) :
    (escapeChar c = [c] ∧ c ≠ '"' ∧ c ≠ '\\' ∧ isControl c = false) ∨
      ∃ mark digits, escapeChar c = '\\' :: mark :: digits ∧ isControl mark = false ∧
        ∀ d ∈ digits, isNameChar d = true := by
  unfold escapeChar
  split
  · exact Or.inr ⟨'"', [], rfl, rfl, nofun⟩
  rename_i noQuote
  split
  · exact Or.inr ⟨'\\', [], rfl, rfl, nofun⟩
  rename_i noBackslash
  split
  · exact Or.inr ⟨'n', [], rfl, rfl, nofun⟩
  split
  · exact Or.inr ⟨'r', [], rfl, rfl, nofun⟩
  split
  · exact Or.inr ⟨'t', [], rfl, rfl, nofun⟩
  split
  · exact Or.inr ⟨'u', _, rfl, rfl, fun d member => isNameChar_of_mem_hexPadded member⟩
  · rename_i plain
    exact Or.inl ⟨rfl, noQuote, noBackslash, by simpa using plain⟩

theorem not_isControl_of_mem_escapeChar {c d : Char} (member : d ∈ escapeChar c) :
    isControl d = false := by
  rcases escapeChar_cases c with ⟨same, _, _, plain⟩ | ⟨mark, digits, same, plain, names⟩
  · rw [same, List.mem_singleton] at member
    rwa [member]
  · rw [same, List.mem_cons, List.mem_cons] at member
    rcases member with rfl | rfl | member
    · rfl
    · exact plain
    · exact isControl_eq_false (names d member)

theorem foldl_names {digits : List Char} (names : ∀ d ∈ digits, isNameChar d = true) :
    digits.foldl (fun escaping c => !escaping && c == '\\') false = false := by
  induction digits with
  | nil => rfl
  | cons d digits ih =>
    rw [List.forall_mem_cons] at names
    have plain : d ≠ '\\' := by
      rintro rfl
      exact absurd names.1 (by decide)
    have closed : (d == '\\') = false := beq_false_of_ne plain
    rw [List.foldl_cons, closed, Bool.and_false]
    exact ih names.2

theorem endsInEscape_escapeChar_append (c : Char) (text : List Char) :
    endsInEscape (escapeChar c ++ text) = endsInEscape text := by
  have closed : endsInEscape (escapeChar c) = false := by
    rcases escapeChar_cases c with ⟨same, _, noBackslash, _⟩ | ⟨mark, digits, same, _, names⟩
    · simp [same, endsInEscape, noBackslash]
    · have opened : endsInEscape ('\\' :: mark :: digits) =
          digits.foldl (fun escaping c => !escaping && c == '\\') false := rfl
      rw [same, opened]
      exact foldl_names names
  rw [endsInEscape, List.foldl_append]
  exact congrArg (text.foldl _) closed

theorem eq_backslash_of_escapeChar {c : Char} {before after : List Char}
    (split : escapeChar c = before ++ '"' :: after) : before = ['\\'] := by
  rcases escapeChar_cases c with ⟨same, noQuote, _, _⟩ | ⟨mark, digits, same, _, names⟩
  · rw [same] at split
    cases before with
    | nil =>
      cases split
      exact absurd rfl noQuote
    | cons => simp at split
  · rw [same] at split
    match before with
    | [] => cases split
    | [x] =>
      cases split
      rfl
    | x :: y :: before =>
      cases split
      exact absurd (names '"' (by simp)) (by decide)

theorem not_isControl_of_mem_escape {text : List Char} {d : Char} (member : d ∈ escape text) :
    isControl d = false := by
  obtain ⟨c, _, member⟩ := List.mem_flatMap.1 member
  exact not_isControl_of_mem_escapeChar member

theorem endsInEscape_of_escape {text before after : List Char}
    (split : escape text = before ++ '"' :: after) : endsInEscape before = true := by
  induction text generalizing before with
  | nil => simp [escape] at split
  | cons c text ih =>
    rw [escape, List.flatMap_cons] at split
    rcases List.append_eq_append_iff.1 split with ⟨more, rfl, rest⟩ | ⟨more, first, rest⟩
    · rw [endsInEscape_escapeChar_append]
      exact ih rest
    · cases more with
      | nil =>
        rw [List.append_nil] at first
        rw [← first, ← List.append_nil (escapeChar c), endsInEscape_escapeChar_append]
        exact @ih [] rest.symm
      | cons d more =>
        cases rest
        rw [eq_backslash_of_escapeChar first]
        rfl

theorem steps_literal (s : String) (rest : List Char) (position start : Position) :
    Steps ⟨'"' :: (escape s.toList ++ '"' :: rest), position, start⟩ (.string s)
      ⟨rest, position.after (literal s.toList), position⟩ [] (literal s.toList) := by
  have whole : literal s.toList ++ rest = '"' :: (escape s.toList ++ '"' :: rest) := by
    simp [literal]
  refine ⟨whole.symm, nofun, ?_, ?_, rfl, rfl⟩
  · rw [whole]
    rintro c ⟨⟩
    rfl
  · have reads := string_escape [] 1 s.toList rest
    simp only [List.reverse_nil, List.nil_append, String.ofList_toList] at reads
    rw [whole, Scan.ofText, if_pos rfl, reads]
    simp [literal, Nat.add_comm 1]

/-- A string is read back from its literal by a lexer that stands before it, whatever follows the
literal. What stands between the quotes has no control character, and no quote but behind a
backslash that escapes it; and it is that of no other string. -/
theorem literal_read_back (s : String) :
    (∀ rest position start,
      (⟨'"' :: (escape s.toList ++ '"' :: rest), position, start⟩ : Lexer).next =
        (.ok (.string s), ⟨rest, position.after (literal s.toList), position⟩)) ∧
    (∀ c ∈ escape s.toList, isControl c = false ∧ c ≠ '\n' ∧ c ≠ '\r') ∧
    (∀ before after, escape s.toList = before ++ '"' :: after → endsInEscape before = true) ∧
    ∀ s' : String, escape s'.toList = escape s.toList → s' = s := by
  refine ⟨fun rest position start => (steps_literal s rest position start).next, ?_,
    fun _ _ split => endsInEscape_of_escape split, ?_⟩
  · intro c member
    have plain := not_isControl_of_mem_escape member
    refine ⟨plain, ?_, ?_⟩
    · rintro rfl
      cases plain
    · rintro rfl
      cases plain
  · intro s' same
    have first := (steps_literal s' [] .start .start).next
    rw [same, (steps_literal s [] .start .start).next] at first
    cases first
    rfl

/-- A backslash before what looks like an escape, a quote, and a control character before what looks
like another digit. -/
theorem sample_literal_read_back :
    (⟨"\"\\\\u41\\\"\\u009f0\"\"".toList, .start, .start⟩ : Lexer).next =
        (.ok (.string "\\u41\"\x9f0"), ⟨['"'], ⟨1, 17⟩, .start⟩) ∧
      endsInEscape "\\\\u41\\".toList = true ∧ '\n' ∉ escape "\n".toList ∧
      escape "n".toList ≠ escape "\n".toList := by
  obtain ⟨reads, _, escaped, _⟩ := literal_read_back "\\u41\"\x9f0"
  obtain ⟨_, plain, _, only⟩ := literal_read_back "\n"
  refine ⟨reads ['"'] .start .start, escaped _ "\\u009f0".toList rfl, ?_, ?_⟩
  · exact fun member => (plain _ member).2.1 rfl
  · exact fun same => absurd (only "n" same) (by decide)

end QueryGraph.Text
