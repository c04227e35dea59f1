import QueryGraph.Proofs.Acceptance
import QueryGraph.Proofs.Languages

namespace QueryGraph.Parser

open QueryGraph.Grammar

variable {α β : Type}

/-- More than the number of tokens behind the one ahead, which counts unless it is the end. -/
def Cursor.left (c : Cursor) : Nat :=
  c.rest.length + if c.token = .endOfInput then 0 else 1

namespace Cursor

variable {c c' : Cursor} {tokens : List Token}

theorem left_of_advance (advances : c.advance = .ok c') : c'.left ≤ c.rest.length := by
  unfold advance at advances
  cases more : c.rest with
  | token token start next =>
    rw [more] at advances
    cases advances
    simp only [left, Feed.length]
    split <;> omega
  | finish position =>
    rw [more] at advances
    cases advances
    simp [left, Feed.length]
  | fault error next =>
    rw [more] at advances
    cases advances
  | stuck error =>
    rw [more] at advances
    cases advances

theorem left_lt_of_advance (advances : c.advance = .ok c') (noEnd : c.token ≠ .endOfInput) :
    c'.left < c.left := by
  have shorter := left_of_advance advances
  rw [left, left, if_neg noEnd]
  rw [left] at shorter
  omega

theorem Reads.left_le (reads : c.Reads tokens c') : c'.left ≤ c.left := by
  induction reads with
  | nil => exact Nat.le_refl _
  | @cons c next c' tokens advances _ ih =>
    have shorter := left_of_advance advances
    refine ih.trans (shorter.trans ?_)
    rw [left]
    omega

/-- What is read begins with the token ahead, and so does what stands behind nothing. -/
theorem Reads.ahead_append (reads : c.Reads tokens c') {more : List Token}
    (same : ahead more = c'.token) : ahead (tokens ++ more) = c.token := by
  cases reads with
  | nil => exact same
  | cons => rfl

end Cursor

/-- Whether a computation of the parser goes along with a language of what may come. If it succeeds,
what may come then is another language, as far as it begins with the token ahead. If it complains
about a token, nothing may come that begins with the token, but something else may. -/
inductive Leads (may : Language Token) (c : Cursor) (may' : Language Token) :
    Except Failure (α × Cursor) → Prop where
  | ok {value : α} {c' : Cursor} {tokens : List Token} (reads : c.Reads tokens c')
      (sound : ∀ more ∈ may', tokens ++ more ∈ may)
      (complete : ∀ more, ahead more = c'.token → tokens ++ more ∈ may → more ∈ may') :
      Leads may c may' (.ok (value, c'))
  | unexpected {expected : String} {c' stopped : Cursor} {tokens : List Token}
      (reads : c.Reads tokens c')
      (viable : ∃ more, tokens ++ more ∈ may ∧ ∀ token ∈ more, isFiller token = true)
      (dead : ∀ more, ahead more = c'.token → tokens ++ more ∉ may) :
      Leads may c may' (.error ⟨.unexpected expected c'.token c'.position, stopped⟩)
  | other {error : ParseError} {stopped : Cursor}
      (other : ∀ expected found position, error ≠ .unexpected expected found position) :
      Leads may c may' (.error ⟨error, stopped⟩)

namespace Leads

variable {may may' may'' part : Language Token} {c : Cursor} {token : Token}

theorem narrow {outcome : Except Failure (α × Cursor)} (leads : Leads part c may' outcome)
    (sub : ∀ tokens ∈ part, tokens ∈ may)
    (same : ∀ tokens ∈ may, ahead tokens = c.token → tokens ∈ part) :
    Leads may c may' outcome := by
  cases leads with
  | ok reads sound complete =>
    refine .ok reads (fun more member => sub _ (sound more member)) fun more begins member => ?_
    exact complete more begins (same _ member (reads.ahead_append begins))
  | unexpected reads viable dead =>
    obtain ⟨more, member, fillers⟩ := viable
    refine .unexpected reads ⟨more, sub _ member, fillers⟩ fun more begins member => ?_
    exact dead more begins (same _ member (reads.ahead_append begins))
  | other other => exact .other other

theorem left {other : Language Token} {outcome : Except Failure (α × Cursor)}
    (leads : Leads part c may' outcome) (others : ∀ tokens ∈ other, ahead tokens ≠ c.token) :
    Leads (part + other) c may' outcome := by
  refine leads.narrow (fun _ => Or.inl) ?_
  rintro tokens (member | member) same
  · exact member
  · exact absurd same (others tokens member)

theorem right {other : Language Token} {outcome : Except Failure (α × Cursor)}
    (leads : Leads part c may' outcome) (others : ∀ tokens ∈ other, ahead tokens ≠ c.token) :
    Leads (other + part) c may' outcome := by
  rw [add_comm]
  exact leads.left others

theorem done {value : α} (sub : ∀ tokens ∈ may', tokens ∈ may)
    (same : ∀ tokens ∈ may, ahead tokens = c.token → tokens ∈ may') :
    Leads may c may' (.ok (value, c)) :=
  .ok (.nil c) sub fun more begins member => same more member begins

theorem stay {value : α} : Leads may c may (.ok (value, c)) :=
  .done (fun _ => id) fun _ member _ => member

theorem stop {expected : String} (completable : Completable may)
    (dead : ∀ tokens ∈ may, ahead tokens ≠ c.token) :
    Leads may c may' (c.unexpected expected : Except Failure (α × Cursor)) := by
  obtain ⟨tokens, member, fillers⟩ := completable
  exact .unexpected (.nil c) ⟨tokens, member, fillers⟩ fun more begins member =>
    dead more member begins

theorem bind {outcome : Except Failure (α × Cursor)}
    {next : α × Cursor → Except Failure (β × Cursor)} (first : Leads may c may' outcome)
    (second : ∀ value c', c'.left ≤ c.left → Leads may' c' may'' (next (value, c'))) :
    Leads may c may'' (outcome >>= next) := by
  cases first with
  | @ok value c' tokens reads sound complete =>
    have rest := second value c' reads.left_le
    simp only [Outcome.ok_bind]
    generalize next (value, c') = outcome at rest
    cases rest with
    | ok reads' sound' complete' =>
      refine .ok (reads.append reads') (fun more member => ?_) fun more begins member => ?_
      · rw [List.append_assoc]
        exact sound _ (sound' more member)
      · rw [List.append_assoc] at member
        exact complete' more begins (complete _ (reads'.ahead_append begins) member)
    | unexpected reads' viable dead =>
      obtain ⟨more, member, fillers⟩ := viable
      refine .unexpected (reads.append reads') ⟨more, ?_, fillers⟩ fun more begins member => ?_
      · rw [List.append_assoc]
        exact sound _ member
      · rw [List.append_assoc] at member
        exact dead more begins (complete _ (reads'.ahead_append begins) member)
    | other other => exact .other other
  | unexpected reads viable dead => exact .unexpected reads viable dead
  | other other => exact .other other

theorem step {outcome : Except Failure (α × Cursor)} {next : Cursor} (isToken : c.token = token)
    (advances : c.advance = .ok next) (rest : Leads may next may' outcome) :
    Leads (token.alone * may) c may' outcome := by
  cases rest with
  | ok reads sound complete =>
    refine .ok (.step isToken advances reads) (fun more member => ?_) fun more begins member => ?_
    · exact Token.mem_alone_mul.2 ⟨_, sound more member, rfl⟩
    · obtain ⟨_, inside, same⟩ := Token.mem_alone_mul.1 member
      cases same
      exact complete more begins inside
  | unexpected reads viable dead =>
    obtain ⟨more, member, fillers⟩ := viable
    refine .unexpected (.step isToken advances reads) ⟨more, ?_, fillers⟩
      fun more begins member => ?_
    · exact Token.mem_alone_mul.2 ⟨_, member, rfl⟩
    · obtain ⟨_, inside, same⟩ := Token.mem_alone_mul.1 member
      cases same
      exact dead more begins inside
  | other other => exact .other other

theorem of_advance_error {failure : Failure} (fails : c.advance = .error failure) :
    Leads may c may' (.error failure : Except Failure (α × Cursor)) := by
  unfold Cursor.advance at fails
  cases more : c.rest <;> rw [more] at fails <;> cases fails <;> exact .other (by simp)

theorem of_consume_error {failure : Failure} (fails : c.consume = .error failure) :
    Leads may c may' (.error failure : Except Failure (α × Cursor)) := by
  unfold Cursor.consume Cursor.advance at fails
  cases more : c.rest <;> simp only [more] at fails <;> cases fails <;> exact .other (by simp)

theorem advance {next : Cursor → Except Failure (α × Cursor)} (isToken : c.token = token)
    (noEnd : token ≠ .endOfInput)
    (second : ∀ c', c'.left < c.left → Leads may c' may' (next c')) :
    Leads (token.alone * may) c may' (c.advance >>= next) := by
  cases advances : c.advance with
  | error failure => exact of_advance_error advances
  | ok c' =>
    have fewer := Cursor.left_lt_of_advance advances (isToken ▸ noEnd)
    exact step isToken advances (second c' fewer)

theorem consume {next : Cursor → Except Failure (α × Cursor)} (isToken : c.token = token)
    (noEnd : token ≠ .endOfInput)
    (second : ∀ c', c'.left < c.left → Leads may c' may' (next c')) :
    Leads (token.alone * may) c may' (c.consume >>= next) := by
  cases consumes : c.consume with
  | error failure => exact of_consume_error consumes
  | ok c' =>
    have advances := Cursor.consume_ok consumes
    have fewer := Cursor.left_lt_of_advance advances (isToken ▸ noEnd)
    exact step isToken advances (second c' fewer)

theorem expect {next : Cursor → Except Failure (α × Cursor)} {description : String}
    (isFiller' : isFiller token = true) (completable : Completable may)
    (second : ∀ c', c'.left < c.left → Leads may c' may' (next c')) :
    Leads (token.alone * may) c may' (c.expect token description >>= next) := by
  unfold Cursor.expect
  split
  · rename_i isToken
    refine advance isToken ?_ second
    rintro rfl
    cases isFiller'
  · rename_i noToken
    refine stop ((Completable.alone isFiller').mul completable) ?_
    rintro _ ⟨_, rfl, rest, _, rfl⟩ same
    exact noToken same.symm

theorem key (completable : Completable may) : Leads (keys * may) c may (key c) := by
  unfold Parser.key
  split
  · rename_i name isKey
    have one : Leads (c.token.alone * may) c may (do
        let c ← c.advance
        return (name, c)) := by
      refine advance rfl ?_ fun c' _ => stay
      intro isEnd
      rw [isEnd] at isKey
      cases isKey
    refine one.narrow ?_ ?_
    · rintro _ ⟨_, rfl, rest, member, rfl⟩
      exact ⟨_, ⟨⟨c.token, name, isKey⟩, rfl⟩, rest, member, rfl⟩
    · rintro _ ⟨_, ⟨key, rfl⟩, rest, member, rfl⟩ same
      exact ⟨_, congrArg (fun token => [token]) same, rest, member, rfl⟩
  · rename_i noKey
    refine stop (Completable.keys.mul completable) ?_
    rintro _ ⟨_, ⟨key, rfl⟩, rest, _, rfl⟩ same
    have isKey := key.isKey
    rw [show key.token = c.token from same, noKey] at isKey
    cases isKey

theorem separator {close : Token} {others : Language Token} {expected : String}
    {more last : Cursor → Except Failure (α × Cursor)} (noComma : close ≠ .comma)
    (isFiller' : isFiller close = true) (completable : Completable may)
    (more' : ∀ c', c'.left < c.left → Leads others c' may' (more c'))
    (last' : ∀ c', c'.left < c.left → Leads may c' may' (last c')) :
    Leads (close.alone * may + Token.alone .comma * others) c may'
      (if c.token = .comma then c.advance >>= more
      else if c.token = close then c.advance >>= last
      else c.unexpected expected) := by
  have closeNoEnd : close ≠ .endOfInput := by
    rintro rfl
    cases isFiller'
  split
  · rename_i isComma
    refine (advance isComma (by simp) more').right fun tokens member same => ?_
    exact noComma ((ahead_alone member).symm.trans (same.trans isComma))
  · rename_i noComma'
    split
    · rename_i isClose
      refine (advance isClose closeNoEnd last').left fun tokens member same => ?_
      exact noComma' (same.symm.trans (ahead_alone member))
    · rename_i noClose
      refine stop ((Completable.alone isFiller').mul completable).left ?_
      rintro tokens (member | member) same
      · exact noClose (same.symm.trans (ahead_alone member))
      · exact noComma' (same.symm.trans (ahead_alone member))

end Leads

/-- Whether a parser goes along with phrases of a kind, wherever less than so much is left. -/
def Tracks (parser : Parser α) (category : Category) (bound : Nat) : Prop :=
  ∀ c after, c.left < bound → category.EndsBehind after →
    Leads (category.language * after) c after (parser c)

variable {inner : Parser Expr} {depth rounds bound : Nat}

theorem not_expression {token : Token} (noBegin : token.begins = false)
    (noIf : token ≠ .keyword .ifWord) {after : Language Token} {tokens : List Token}
    (member : tokens ∈ Category.expression.language * after) : ahead tokens ≠ token := by
  rintro rfl
  rcases ahead_expression member with begins | isIf
  · rw [noBegin] at begins
    cases begins
  · exact noIf isIf

theorem tracks_values (inner' : Tracks inner .expression depth) (enough : bound ≤ rounds)
    (within : bound ≤ depth) (sofar : List Expr) :
    Tracks (values inner rounds sofar) .values bound := by
  induction rounds generalizing bound sofar with
  | zero =>
    intro c after fewer
    omega
  | succ rounds ih =>
    intro c after fewer behind
    rw [values_eq, add_mul, mul_assoc, add_mul, mul_assoc]
    unfold values
    split
    · rename_i isClose
      apply Leads.left
      · exact .advance isClose (by simp) fun c' _ => .stay
      · rw [isClose]
        exact fun tokens => not_expression rfl (by simp)
    · rename_i noClose
      apply Leads.right
      · have value : Category.expression.EndsBehind (Token.alone .rightBracket * after +
            Token.alone .comma * (Category.values.language * after)) :=
          .add (.alone (ends_of (by simp)) rfl behind.completable)
            (.alone (ends_of (by simp)) rfl (Completable.values.mul behind.completable))
        apply (inner' c _ (by omega) value).bind
        intro item c₁ fewer₁
        apply Leads.separator (by simp) rfl behind.completable
        · intro c₂ fewer₂
          have less : bound - 1 ≤ rounds := by omega
          exact ih less (by omega) _ c₂ after (by omega) behind
        · intro c₂ _
          exact .stay
      · exact fun tokens member same => noClose (same.symm.trans (ahead_alone member))

theorem tracks_entries (inner' : Tracks inner .expression depth) {close : Token}
    (isClose : close = .rightParen ∨ close = .rightBrace) (expected : String)
    (enough : bound ≤ rounds) (within : bound ≤ depth) (sofar : Entries Expr) :
    Tracks (entries inner close expected rounds sofar) (.entries close) bound := by
  have isFiller' : isFiller close = true := by rcases isClose with rfl | rfl <;> rfl
  have noComma : close ≠ .comma := by rcases isClose with rfl | rfl <;> simp
  have noEnd : close ≠ .endOfInput := by rcases isClose with rfl | rfl <;> simp
  induction rounds generalizing bound sofar with
  | zero =>
    intro c after fewer
    omega
  | succ rounds ih =>
    intro c after fewer behind
    rw [entries_eq, add_mul, mul_assoc, mul_assoc, mul_assoc, add_mul, mul_assoc]
    unfold entries
    split
    · rename_i closes
      apply Leads.left
      · exact .advance closes noEnd fun c' _ => .stay
      · intro tokens member same
        obtain ⟨name, isKey⟩ := ahead_keys member
        exact key_ne_close isClose isKey (same.trans closes)
    · rename_i noClose
      apply Leads.right
      · have value : Category.expression.EndsBehind (close.alone * after +
            Token.alone .comma * ((Category.entries close).language * after)) :=
          .add (.alone (Derivation.ends_of_close isClose) isFiller' behind.completable)
            (.alone (ends_of (by simp)) rfl
              ((Completable.entries isFiller').mul behind.completable))
        apply (Leads.key ((Completable.alone rfl).mul
          (Completable.expression.mul value.completable))).bind
        intro name c₁ fewer₁
        apply Leads.expect rfl (Completable.expression.mul value.completable)
        intro c₂ fewer₂
        apply (inner' c₂ _ (by omega) value).bind
        intro item c₃ fewer₃
        apply Leads.separator noComma isFiller' behind.completable
        · intro c₄ fewer₄
          have less : bound - 1 ≤ rounds := by omega
          exact ih less (by omega) _ c₄ after (by omega) behind
        · intro c₄ _
          exact .stay
      · exact fun tokens member same => noClose (same.symm.trans (ahead_alone member))

theorem tracks_call (inner' : Tracks inner .expression depth) (enough : bound ≤ rounds)
    (within : bound ≤ depth) : Tracks (call inner rounds) .call bound := by
  intro c after fewer behind
  have entries : (Category.entries .rightParen).EndsBehind after :=
    ⟨fun _ _ => Or.inl rfl, behind.completable⟩
  have arguments : Completable ((Category.entries .rightParen).language * after) :=
    (Completable.entries rfl).mul behind.completable
  have opened : Completable (Token.alone .leftParen * _) := (Completable.alone rfl).mul arguments
  have named := Completable.keys.mul opened
  rw [call_eq]
  simp only [mul_assoc]
  unfold call
  apply (Leads.key ((Completable.alone rfl).mul named)).bind
  intro space c₁ fewer₁
  apply Leads.expect rfl named
  intro c₂ fewer₂
  apply (Leads.key opened).bind
  intro name c₃ fewer₃
  apply Leads.expect rfl arguments
  intro c₄ fewer₄
  apply (tracks_entries inner' (Or.inl rfl) _ enough within [] c₄ after (by omega) entries).bind
  intro items c₅ _
  exact .stay

theorem leads_negative (start : Text.Position) {c : Cursor} {after : Language Token}
    (completable : Completable after) : Leads (numbers * after) c after (negative start c) := by
  have number {outcome : Except Failure (Expr × Cursor)} {token : Token}
      (isNumber : [token] ∈ numbers) (isToken : c.token = token)
      (leads : Leads (token.alone * after) c after outcome) :
      Leads (numbers * after) c after outcome := by
    refine leads.narrow ?_ ?_
    · rintro _ ⟨_, rfl, rest, member, rfl⟩
      exact ⟨_, isNumber, rest, member, rfl⟩
    · rintro _ ⟨_, ⟨digits, _, rfl⟩ | ⟨value, rfl⟩, rest, member, rfl⟩ same
      · exact Token.mem_alone_mul.2 ⟨rest, member, congrArg (· :: rest) (same.trans isToken)⟩
      · exact Token.mem_alone_mul.2 ⟨rest, member, congrArg (· :: rest) (same.trans isToken)⟩
  unfold negative
  split
  · rename_i digits isInteger
    cases within : integer true digits with
    | none =>
      cases advances : c.advance with
      | error failure => exact .of_advance_error advances
      | ok c' => exact .other (by simp)
    | some expr =>
      obtain ⟨fits, _⟩ := integer_some_neg within
      apply number (Or.inl ⟨digits, fits, rfl⟩) isInteger
      exact .advance isInteger (by simp) fun c' _ => .stay
  · rename_i value isFloat
    apply number (Or.inr ⟨value, rfl⟩) isFloat
    exact .advance isFloat (by simp) fun c' _ => .stay
  · rename_i noInteger noFloat
    refine .stop (Completable.numbers.mul completable) ?_
    rintro _ ⟨_, ⟨digits, _, rfl⟩ | ⟨value, rfl⟩, rest, _, rfl⟩ same
    · exact noInteger digits same.symm
    · exact noFloat value same.symm

theorem leads_primary {after : Language Token} {c : Cursor} {token : Token}
    {outcome : Except Failure (Expr × Cursor)} (isToken : c.token = token)
    (leads : Leads (token.alone * afterFirst after token) c after outcome) :
    Leads ((Category.operand .primary).language * after) c after outcome := by
  refine leads.narrow ?_ ?_
  · rintro _ ⟨_, rfl, rest, member, rfl⟩
    exact mem_primary_mul.2 ⟨_, rest, rfl, member⟩
  · intro tokens member same
    obtain ⟨other, rest, rfl, inside⟩ := mem_primary_mul.1 member
    obtain rfl : other = token := same.trans isToken
    exact Token.mem_alone_mul.2 ⟨rest, inside, rfl⟩

theorem tracks_primary (inner' : Tracks inner .expression depth) :
    Tracks (primary inner (depth + 1)) (.operand .primary) (depth + 1) := by
  intro c after fewer behind
  have completable := behind.completable
  have closed : Completable (Token.alone .rightParen * after) :=
    (Completable.alone rfl).mul completable
  have enclosed : Category.expression.EndsBehind (Token.alone .rightParen * after) :=
    .alone (ends_of (by simp)) rfl completable
  unfold primary
  dsimp only
  split
  · rename_i digits isInteger
    cases within : integer false digits with
    | none =>
      cases consumes : c.consume with
      | error failure => exact .of_consume_error consumes
      | ok c' => exact .other (by simp)
    | some expr =>
      obtain ⟨fits, _⟩ := integer_some within
      apply leads_primary isInteger
      rw [afterFirst, if_pos fits]
      exact .consume isInteger (by simp) fun c' _ => .stay
  · rename_i value isFloat
    apply leads_primary isFloat
    exact .consume isFloat (by simp) fun c' _ => .stay
  · rename_i value isString
    apply leads_primary isString
    exact .consume isString (by simp) fun c' _ => .stay
  · rename_i value isBoolean
    apply leads_primary isBoolean
    exact .consume isBoolean (by simp) fun c' _ => .stay
  · rename_i isMinus
    apply leads_primary isMinus
    exact .consume isMinus (by simp) fun c' _ => leads_negative _ completable
  · rename_i name isReference
    apply leads_primary isReference
    exact .consume isReference (by simp) fun c' _ => .stay
  · rename_i isPlaceholder
    apply leads_primary isPlaceholder
    exact .consume isPlaceholder (by simp) fun c' _ => .stay
  · rename_i isOpen
    apply leads_primary isOpen
    apply Leads.consume isOpen (by simp)
    intro c₁ fewer₁
    apply (inner' c₁ _ (by omega) enclosed).bind
    intro value c₂ _
    exact .expect rfl completable fun c' _ => .stay
  · rename_i isOpen
    apply leads_primary isOpen
    apply Leads.consume isOpen (by simp)
    intro c₁ fewer₁
    have items := tracks_values inner' (Nat.le_succ depth) (Nat.le_refl depth) []
    apply (items c₁ after (by omega) ⟨fun _ _ => trivial, completable⟩).bind
    exact fun value c' _ => .stay
  · rename_i isOpen
    apply leads_primary isOpen
    apply Leads.consume isOpen (by simp)
    intro c₁ fewer₁
    have items expected :=
      tracks_entries inner' (Or.inr rfl) expected (Nat.le_succ depth) (Nat.le_refl depth) []
    apply (items _ c₁ after (by omega) ⟨fun _ _ => Or.inr rfl, completable⟩).bind
    exact fun value c' _ => .stay
  · rename_i isTable
    apply leads_primary isTable
    apply Leads.consume isTable (by simp)
    intro c₁ fewer₁
    apply Leads.expect rfl (Completable.expression.mul closed)
    intro c₂ fewer₂
    apply (inner' c₂ _ (by omega) enclosed).bind
    intro value c₃ _
    exact .expect rfl completable fun c' _ => .stay
  · refine .stop (Completable.primary.mul completable) fun tokens member same => ?_
    obtain ⟨token, rest, rfl, inside⟩ := mem_primary_mul.1 member
    obtain rfl : token = c.token := same
    unfold afterFirst at inside
    split at inside
    all_goals simp_all [Language.notMem_zero]

theorem tracks_accesses (inner' : Tracks inner .expression depth) (enough : bound ≤ rounds)
    (within : bound ≤ depth + 1) (on : Expr) :
    Tracks (accesses inner rounds on) .accesses bound := by
  induction rounds generalizing bound on with
  | zero =>
    intro c after fewer
    omega
  | succ rounds ih =>
    intro c after fewer behind
    have more (on : Expr) (c' : Cursor) (fewer' : c'.left < c.left) :
        Leads (Category.accesses.language * after) c' after (accesses inner rounds on c') := by
      have less : bound - 1 ≤ rounds := by omega
      exact ih less (by omega) on c' after (by omega) behind
    have others : Completable (Category.accesses.language * after) :=
      Completable.accesses.mul behind.completable
    have noDot (tokens : List Token) (member : tokens ∈ after) : ahead tokens ≠ .dot :=
      ((behind.ends tokens member).2 (Nat.le_refl _)).1
    have noBracket (tokens : List Token) (member : tokens ∈ after) : ahead tokens ≠ .leftBracket :=
      ((behind.ends tokens member).2 (Nat.le_refl _)).2
    rw [accesses_eq, add_mul, add_mul, one_mul]
    simp only [mul_assoc]
    unfold accesses
    split
    · rename_i isDot
      apply Leads.right
      · apply Leads.left
        · apply Leads.advance isDot (by simp)
          intro c₁ fewer₁
          apply (Leads.key others).bind
          intro name c₂ fewer₂
          exact more _ c₂ (by omega)
        · intro tokens member same
          rw [ahead_alone member, isDot] at same
          cases same
      · rw [isDot]
        exact noDot
    · rename_i isOpen
      apply Leads.right
      · apply Leads.right
        · apply Leads.advance isOpen (by simp)
          intro c₁ fewer₁
          apply (inner' c₁ _ (by omega) (.alone (ends_of (by simp)) rfl others)).bind
          intro index c₂ fewer₂
          apply Leads.expect rfl others
          intro c₃ fewer₃
          exact more _ c₃ (by omega)
        · intro tokens member same
          rw [ahead_alone member, isOpen] at same
          cases same
      · rw [isOpen]
        exact noBracket
    · rename_i noDot' noOpen
      refine .done (fun _ => Or.inl) ?_
      rintro tokens (member | member | member) same
      · exact member
      · exact absurd (same.symm.trans (ahead_alone member)) noDot'
      · exact absurd (same.symm.trans (ahead_alone member)) noOpen

theorem tracks_access (inner' : Tracks inner .expression depth) :
    Tracks (access inner (depth + 1)) (.operand .access) (depth + 1) := by
  intro c after fewer behind
  rw [access_eq, mul_assoc]
  unfold access
  apply (tracks_primary inner' c _ fewer behind.beforeAccesses).bind
  intro on c' fewer'
  have accesses' := tracks_accesses inner' (Nat.le_refl _) (Nat.le_refl _) on
  exact accesses' c' after (by omega) behind.accessesEnd

variable {level : ChainLevel} {operand : Parser Expr}

theorem operatorAt_none {level : Nat} {token : Token} {op : Operator}
    (none' : operatorAt level token = none) (binds : op.precedence = level) :
    token ≠ .operator op := by
  rintro rfl
  rw [operatorAt, if_pos binds] at none'
  cases none'

theorem tracks_links (operand' : Tracks operand (.operand level.operand) depth)
    (enough : bound ≤ rounds) (within : bound ≤ depth) (left : Expr) :
    Tracks (links level.precedence operand rounds left) (.links level) bound := by
  induction rounds generalizing bound left with
  | zero =>
    intro c after fewer
    omega
  | succ rounds ih =>
    intro c after fewer behind
    have chain : (Category.operand (.chain level)).EndsBehind after :=
      ⟨behind.ends, behind.completable⟩
    rw [links_eq, add_mul, one_mul, mul_assoc, mul_assoc]
    unfold links
    split
    · rename_i op isOperator
      obtain ⟨isToken, binds⟩ := operatorAt_some isOperator
      refine Leads.narrow (?linked : Leads (c.token.alone *
        ((Category.operand level.operand).language *
          ((Category.links level).language * after))) c after _) ?_ ?_
      · apply Leads.advance rfl (by rw [isToken]; simp)
        intro c₁ fewer₁
        apply (operand' c₁ _ (by omega) chain.beforeLinks).bind
        intro right c₂ fewer₂
        have less : bound - 1 ≤ rounds := by omega
        exact ih less (by omega) _ c₂ after (by omega) behind
      · rintro _ ⟨_, rfl, rest, member, rfl⟩
        exact Or.inr ⟨_, ⟨op, binds, congrArg (fun token => [token]) isToken⟩, rest, member, rfl⟩
      · rintro tokens (member | ⟨_, ⟨other, _, rfl⟩, rest, member, rfl⟩) same
        · have stops := behind.ends tokens member
          rw [same] at stops
          exact absurd (stops.1 op isToken) (by omega)
        · exact Token.mem_alone_mul.2 ⟨rest, member, congrArg (· :: rest) same⟩
    · rename_i noOperator
      refine .done (fun _ => Or.inl) ?_
      rintro tokens (member | ⟨_, ⟨op, binds, rfl⟩, rest, member, rfl⟩) same
      · exact member
      · exact absurd same.symm (operatorAt_none noOperator binds)

theorem tracks_chain (operand' : Tracks operand (.operand level.operand) depth) :
    Tracks (chain level.precedence operand depth) (.operand (.chain level)) depth := by
  intro c after fewer behind
  rw [chain_eq, mul_assoc]
  unfold chain
  apply (operand' c _ fewer behind.beforeLinks).bind
  intro left c' fewer'
  have links' := tracks_links operand' (Nat.le_refl _) (Nat.le_refl _) left
  exact links' c' after (by omega) behind.linksEnd

theorem tracks_comparison (operand' : Tracks operand (.operand (.chain .sum)) depth) :
    Tracks (comparison operand) (.operand .comparison) depth := by
  intro c after fewer behind
  rw [comparison_eq, mul_assoc, add_mul, one_mul, mul_assoc]
  unfold comparison
  apply (operand' c _ fewer behind.beforeComparison).bind
  intro left c₁ fewer₁
  dsimp only
  split
  · rename_i op isOperator
    obtain ⟨isToken, binds⟩ := operatorAt_some isOperator
    have compares : op.isComparison = true := by simp [Operator.isComparison, binds]
    refine Leads.narrow (?compared : Leads (c₁.token.alone *
      ((Category.operand (.chain .sum)).language * after)) c₁ after _) ?_ ?_
    · apply Leads.advance rfl (by rw [isToken]; simp)
      intro c₂ fewer₂
      apply (operand' c₂ _ (by omega) behind.comparedEnd).bind
      intro right c₃ _
      exact .stay
    · rintro _ ⟨_, rfl, rest, member, rfl⟩
      exact Or.inr ⟨_, ⟨op, compares, congrArg (fun token => [token]) isToken⟩, rest, member, rfl⟩
    · rintro tokens (member | ⟨_, ⟨other, _, rfl⟩, rest, member, rfl⟩) same
      · have stops := behind.ends tokens member
        rw [same, isToken] at stops
        cases Derivation.not_stops_comparison compares stops
      · exact Token.mem_alone_mul.2 ⟨rest, member, congrArg (· :: rest) same⟩
  · rename_i noOperator
    refine .done (fun _ => Or.inl) ?_
    rintro tokens (member | ⟨_, ⟨op, compares, rfl⟩, rest, member, rfl⟩) same
    · exact member
    · have binds : op.precedence = Operator.equal.precedence := by
        simpa [Operator.isComparison] using compares
      exact absurd same.symm (operatorAt_none noOperator binds)

theorem tracks_operation (inner' : Tracks inner .expression depth) :
    Tracks (operation inner (depth + 1)) (.operand (.chain .disjunction)) (depth + 1) := by
  have product : Tracks _ (.operand (.chain .product)) (depth + 1) :=
    tracks_chain (tracks_access inner')
  have sum : Tracks _ (.operand (.chain .sum)) (depth + 1) := tracks_chain product
  have conjunction : Tracks _ (.operand (.chain .conjunction)) (depth + 1) :=
    tracks_chain (tracks_comparison sum)
  have disjunction : Tracks _ (.operand (.chain .disjunction)) (depth + 1) :=
    tracks_chain conjunction
  exact disjunction

theorem tracks_steps {step : Parser Call} (step' : Tracks step .call depth)
    (enough : bound ≤ rounds) (within : bound ≤ depth + 1) (sofar : List Call) :
    Tracks (steps step rounds sofar) .steps bound := by
  induction rounds generalizing bound sofar with
  | zero =>
    intro c after fewer
    omega
  | succ rounds ih =>
    intro c after fewer behind
    rw [steps_eq, add_mul, one_mul, mul_assoc, mul_assoc]
    unfold steps
    split
    · rename_i isPipe
      apply Leads.right
      · apply Leads.advance isPipe (by simp)
        intro c₁ fewer₁
        have others : Category.call.EndsBehind (Category.steps.language * after) :=
          ⟨fun _ _ => trivial, Completable.steps.mul behind.completable⟩
        apply (step' c₁ _ (by omega) others).bind
        intro item c₂ fewer₂
        have less : bound - 1 ≤ rounds := by omega
        exact ih less (by omega) _ c₂ after (by omega) behind
      · rw [isPipe]
        exact behind.ends
    · rename_i noPipe
      refine .done (fun _ => Or.inl) ?_
      rintro tokens (member | member) same
      · exact member
      · exact absurd (same.symm.trans (ahead_alone member)) noPipe

theorem tracks_expressionWith (inner' : Tracks inner .expression depth) :
    Tracks (expressionWith inner (depth + 1)) .expression (depth + 1) := by
  intro c after fewer behind
  rw [expression_eq, add_mul]
  simp only [mul_assoc]
  unfold expressionWith
  split
  · rename_i isIf
    have last : Completable (Category.expression.language * after) :=
      Completable.expression.mul behind.completable
    have otherwise : Category.expression.EndsBehind
        (Token.alone (.keyword .elseWord) * (Category.expression.language * after)) :=
      .alone (ends_of (by simp)) rfl last
    have consequence := Completable.expression.mul otherwise.completable
    have condition : Category.expression.EndsBehind (Token.alone (.keyword .thenWord) * _) :=
      .alone (ends_of (by simp)) rfl consequence
    apply Leads.left
    · apply Leads.advance isIf (by simp)
      intro c₁ fewer₁
      apply (inner' c₁ _ (by omega) condition).bind
      intro value c₂ fewer₂
      apply Leads.expect rfl consequence
      intro c₃ fewer₃
      apply (inner' c₃ _ (by omega) otherwise).bind
      intro thenDo c₄ fewer₄
      apply Leads.expect rfl last
      intro c₅ fewer₅
      apply (inner' c₅ _ (by omega) behind).bind
      intro elseDo c₆ _
      exact .stay
    · intro tokens member same
      have begins := ahead_operand member
      rw [same, isIf] at begins
      cases begins
  · rename_i noIf
    apply Leads.right
    · apply (tracks_operation inner' c _ fewer behind.beforeSteps).bind
      intro base c₁ fewer₁
      have step' := tracks_call inner' (Nat.le_succ depth) (Nat.le_refl depth)
      have steps' := tracks_steps step' (Nat.le_refl _) (Nat.le_refl _) []
      apply (steps' c₁ after (by omega) behind.stepsEnd).bind
      intro calls c₂ _
      exact .stay
    · exact fun tokens member same => noIf (same.symm.trans (ahead_alone member))

theorem tracks_expressionAt (depth : Nat) : Tracks (expressionAt depth) .expression depth := by
  induction depth with
  | zero =>
    intro c after fewer
    exact absurd fewer (Nat.not_lt_zero _)
  | succ depth ih => exact tracks_expressionWith ih

theorem leads_statements {expression : Parser Expr}
    (expression' : Tracks expression .expression depth) {c : Cursor} (enough : c.left < rounds)
    (within : c.left < depth) (sofar : List (Statement Expr)) :
    Leads queries c Category.expression.language (statements expression rounds sofar c) := by
  induction rounds generalizing c sofar with
  | zero => omega
  | succ rounds ih =>
    have ended : Completable (Token.alone .semicolon * queries) :=
      (Completable.alone rfl).mul .queries
    have value : Category.expression.EndsBehind (Token.alone .semicolon * queries) :=
      .alone (ends_of (by simp)) rfl .queries
    rw [queries_eq]
    unfold statements
    split
    · rename_i name isName
      refine Leads.narrow (?statement : Leads (c.token.alone * (Token.alone .assign *
        (Category.expression.language * (Token.alone .semicolon * queries)))) c
        Category.expression.language _) ?_ ?_
      · apply Leads.advance rfl (by rw [isName]; simp)
        intro c₁ fewer₁
        apply Leads.expect rfl (Completable.expression.mul ended)
        intro c₂ fewer₂
        apply (expression' c₂ _ (by omega) value).bind
        intro body c₃ fewer₃
        apply Leads.expect rfl .queries
        intro c₄ fewer₄
        exact ih (by omega) (by omega) _
      · rintro _ ⟨_, rfl, rest, member, rfl⟩
        exact Or.inl ⟨_, ⟨name, congrArg (fun token => [token]) isName.symm⟩, rest, member, rfl⟩
      · rintro tokens (⟨_, ⟨other, rfl⟩, rest, member, rfl⟩ | member) same
        · exact Token.mem_alone_mul.2 ⟨rest, member, congrArg (· :: rest) same⟩
        · rw [← mul_one Category.expression.language] at member
          rw [isName] at same
          exact absurd same (not_expression rfl (by simp) member)
    · rename_i noName
      refine .done (fun _ => Or.inr) ?_
      rintro tokens (⟨_, ⟨other, rfl⟩, rest, member, rfl⟩ | member) same
      · exact absurd same.symm (noName other)
      · exact member

theorem leads_end (value : α) (c : Cursor) : Leads 1 c 0 (do
    let c ← c.expect .endOfInput "end of input"
    return (value, c)) := by
  unfold Cursor.expect
  split
  · rename_i isEnd
    cases advances : c.advance with
    | error failure => exact .of_advance_error advances
    | ok c' =>
      refine .ok (.one isEnd advances)
        (fun more member => absurd member (Language.notMem_zero _)) ?_
      intro more _ member
      cases member
  · rename_i noEnd
    refine .stop .one ?_
    rintro _ rfl same
    exact noEnd same.symm

theorem leads_query (c : Cursor) : Leads queries c 0 (query c) := by
  have bound : c.left < c.bound := by
    rw [Cursor.left, Cursor.bound]
    split <;> omega
  have expression' := tracks_expressionAt c.bound
  unfold query
  apply (leads_statements expression' bound bound []).bind
  intro items c₁ fewer₁
  have behind : Category.expression.EndsBehind 1 := by
    refine ⟨?_, .one⟩
    rintro _ rfl
    exact ends_of (by simp [ahead])
  have final := expression' c₁ 1 (by omega) behind
  rw [mul_one] at final
  have last : Leads Category.expression.language c₁ 0 (whole (expressionAt c.bound) c₁) := by
    unfold whole
    apply final.bind
    exact fun value c₂ _ => leads_end value c₂
  apply last.bind
  exact fun value c₂ _ => .stay

end QueryGraph.Parser
