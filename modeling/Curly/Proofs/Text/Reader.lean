import Curly.Reader
import Curly.Proofs.Text.Slices

/-! A reader beside the tokens of the text that it walks. It counts bytes, and the tokens come with
lines and columns of characters; but wherever it stands, its place is that behind the characters it
has passed, and on its way over a token it goes from the one place of the token to the other. -/
namespace Curly.Reader

variable {r next : Reader} {before front following : List Char}

def bytes : List Char → Nat
  | [] => 0
  | c :: text => c.utf8Size + bytes text

/-- The reader has passed a text and has another one before it. -/
structure Between (r : Reader) (before following : List Char) : Prop where
  rest : r.rest = following
  position : r.position = .behind before

theorem between_ofText (source file : String) : (ofText source file).Between [] source.toList :=
  ⟨rfl, rfl⟩

theorem skip_append (p : Position) (front following : List Char) :
    skip p (front ++ following) (bytes front) = some (following, p.afterAll front) := by
  induction front generalizing p with
  | nil => cases following <;> simp [skip, bytes]
  | cons c front ih =>
    have some := c.utf8Size_pos
    rw [List.cons_append, skip, bytes, if_neg (by omega), if_neg (by omega),
      Nat.add_sub_cancel_left, ih, Position.afterAll_cons]

/-- Just what a number of bytes can cover, or all that is left. -/
theorem of_skip {p q : Position} {text rest : List Char} {n : Nat}
    (skipped : skip p text n = some (rest, q)) : ∃ moved, text = moved ++ rest ∧
      q = p.afterAll moved ∧ (bytes moved = n ∨ rest = [] ∧ bytes moved ≤ n) := by
  induction text generalizing p n with
  | nil =>
    obtain ⟨rfl, rfl⟩ := Prod.mk.inj (Option.some.inj skipped)
    exact ⟨[], rfl, rfl, .inr ⟨rfl, Nat.zero_le n⟩⟩
  | cons c text ih =>
    rw [skip] at skipped
    split at skipped
    next none =>
      obtain ⟨rfl, rfl⟩ := Prod.mk.inj (Option.some.inj skipped)
      exact ⟨[], rfl, rfl, .inl none.symm⟩
    next =>
      split at skipped
      next => cases skipped
      next enough =>
        obtain ⟨moved, rfl, rfl, size⟩ := ih skipped
        refine ⟨c :: moved, rfl, (Position.afterAll_cons ..).symm, ?_⟩
        rw [bytes]
        exact size.imp (by omega) fun ⟨last, less⟩ => ⟨last, by omega⟩

namespace Between

/-- Over the characters that the bytes are those of. -/
theorem advance (here : r.Between before (front ++ following)) :
    ∃ next, r.advance? (bytes front) = some next ∧ next.Between (before ++ front) following := by
  refine ⟨⟨r.file, following, r.position.afterAll front⟩, ?_, rfl, ?_⟩
  · rw [advance?, here.rest, skip_append]
    rfl
  · rw [here.position, Position.afterAll_behind]

/-- However it moves, a reader knows the place that it is at. -/
theorem of_advance? {n : Nat} (here : r.Between before following)
    (moves : r.advance? n = some next) : ∃ moved, following = moved ++ next.rest ∧
      next.Between (before ++ moved) next.rest ∧
      (bytes moved = n ∨ next.atEnd ∧ bytes moved ≤ n) := by
  obtain ⟨⟨rest, position⟩, skipped, rfl⟩ := Option.map_eq_some_iff.mp moves
  obtain ⟨moved, whole, rfl, size⟩ := of_skip skipped
  refine ⟨moved, here.rest.symm.trans whole, ⟨rfl, ?_⟩, ?_⟩
  · rw [here.position, Position.afterAll_behind]
  · simpa [atEnd] using size

end Between

/-- On its way over a text a reader is at both places of each token, one after the other. -/
theorem at_tokens {source : String} (file : String) {tokens : List Token}
    (read : tokenize source = .ok tokens) {t : Token} (listed : t ∈ tokens)
    (solid : t.kind ≠ .eof) : ∃ before lexeme following begun ended,
      source.toList = before ++ (lexeme ++ following) ∧
      (ofText source file).advance? (bytes before) = some begun ∧
      begun.advance? (bytes lexeme) = some ended ∧
      t.span = ⟨begun.position, ended.position⟩ := by
  obtain ⟨before, slice, following, whole, -, token⟩ := exists_slice_of_tokenize read listed solid
  have start : (ofText source file).Between [] (before ++ (slice.lexeme ++ following)) :=
    whole ▸ between_ofText source file
  obtain ⟨begun, first, here⟩ := start.advance
  obtain ⟨ended, second, there⟩ := here.advance
  obtain ⟨_, _, rfl⟩ := Option.map_eq_some_iff.mp token
  exact ⟨before, slice.lexeme, following, begun, ended, whole, first, second, by
    rw [here.position, there.position]; rfl⟩

end Curly.Reader
