/-! Places in a text: lines and columns count from one, columns in characters.
`Position.after` is the only rule that moves a position; `afterAll_append` says it may be
applied piece by piece. -/
namespace Curly

structure Position where
  line : Nat
  column : Nat
deriving DecidableEq, Repr, Inhabited

namespace Position

/-- The place that stands for no place at all. -/
def unknown : Position := ⟨0, 0⟩

def start : Position := ⟨1, 1⟩

/-- The position behind a character. A line feed begins the next line. -/
def after (p : Position) (c : Char) : Position :=
  if c = '\n' then ⟨p.line + 1, 1⟩ else ⟨p.line, p.column + 1⟩

def afterAll (p : Position) (text : List Char) : Position :=
  text.foldl after p

/-- Reading order: by line, then by column. -/
protected def le (p q : Position) : Prop :=
  p.line < q.line ∨ (p.line = q.line ∧ p.column ≤ q.column)

instance : LE Position := ⟨Position.le⟩

instance (p q : Position) : Decidable (p ≤ q) :=
  inferInstanceAs (Decidable (p.line < q.line ∨ (p.line = q.line ∧ p.column ≤ q.column)))

def text (p : Position) : String :=
  "line " ++ toString p.line ++ ", column " ++ toString p.column

@[simp] theorem afterAll_nil (p : Position) : p.afterAll [] = p := rfl

@[simp] theorem afterAll_cons (p : Position) (c : Char) (text : List Char) :
    p.afterAll (c :: text) = (p.after c).afterAll text := rfl

theorem afterAll_append (p : Position) (before behind : List Char) :
    p.afterAll (before ++ behind) = (p.afterAll before).afterAll behind :=
  List.foldl_append ..

theorem le_refl (p : Position) : p ≤ p := .inr ⟨rfl, Nat.le_refl _⟩

theorem le_trans {p q r : Position} (left : p ≤ q) (right : q ≤ r) : p ≤ r := by
  rcases left with left | ⟨left, _⟩ <;> rcases right with right | ⟨right, _⟩
  · exact .inl (by omega)
  · exact .inl (by omega)
  · exact .inl (by omega)
  · exact .inr ⟨by omega, by omega⟩

theorem le_after (p : Position) (c : Char) : p ≤ p.after c := by
  unfold after
  split
  · exact .inl (Nat.lt_succ_self _)
  · exact .inr ⟨rfl, Nat.le_succ _⟩

end Position

/-- A stretch of text, from its first character to the place behind its last one. -/
structure Span where
  start : Position
  stop : Position
deriving DecidableEq, Repr, Inhabited

end Curly
