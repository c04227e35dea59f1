namespace QueryGraph.Text

/-- Line and column of a character, both from one. -/
structure Position where
  line : Nat
  column : Nat
  deriving DecidableEq, Repr, Inhabited

namespace Position

def start : Position :=
  ⟨1, 1⟩

/-- The place behind one character. -/
def step (p : Position) (c : Char) : Position :=
  if c = '\n' then ⟨p.line + 1, 1⟩ else ⟨p.line, p.column + 1⟩

/-- The place behind a piece of text that begins at `p`. -/
def after (p : Position) (text : List Char) : Position :=
  text.foldl step p

@[simp] theorem after_nil (p : Position) : p.after [] = p := rfl

@[simp] theorem after_cons (p : Position) (c : Char) (text : List Char) :
    p.after (c :: text) = (p.step c).after text := rfl

theorem after_append (p : Position) (a b : List Char) :
    p.after (a ++ b) = (p.after a).after b := by
  simp [after]

def describe (p : Position) : String :=
  "line " ++ toString p.line ++ ", column " ++ toString p.column

end Position

end QueryGraph.Text
