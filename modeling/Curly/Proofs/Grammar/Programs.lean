import Curly.Proofs.Grammar.Statements

/-! Parsing undoes printing. The tokens of a program, with or without the end mark, are read as the
program again, apart from the spans. -/
namespace Curly

open Glyph

/-- The glyphs end with another one than the end mark. -/
def Glyph.Ends (glyphs : List Glyph) : Prop :=
  ∃ front k, glyphs = front ++ [k] ∧ k.kind ≠ .eof

theorem Glyph.Ends.append {glyphs : List Glyph} (ends : Ends glyphs) (before : List Glyph) :
    Ends (before ++ glyphs) := by
  obtain ⟨front, k, rfl, other⟩ := ends
  exact ⟨before ++ front, k, by rw [List.append_assoc], other⟩

theorem Glyph.ends_mark (front : List Glyph) {k : Token.Kind} (other : k ≠ .eof) :
    Ends (front ++ [mark k]) :=
  ⟨front, mark k, rfl, other⟩

theorem Block.ends (b : Block) : Ends b.glyphs := by
  obtain ⟨body, span⟩ := b
  exact ends_mark _ (by decide)

theorem Stmt.ends (s : Stmt) : Ends s.glyphs := by
  cases s with
  | function t text ps body span => exact body.ends.append _
  | main body span => exact body.ends.append [mark .mainWord]
  | block body => exact body.ends
  | branch condition yes no span =>
    cases no with
    | none =>
      rw [Stmt.glyphs, elseGlyphs, List.append_nil]
      exact yes.ends.append _
    | some no =>
      exact (no.ends.append [mark .elseWord]).append _
  | whileLoop condition body span => exact body.ends.append _
  | forLoop initial condition update body span => exact body.ends.append _
  | switch subject cases fallback span => exact (ends_mark _ (by decide)).append _
  | leave span => exact ends_mark [mark .breakWord] (by decide)
  | inclusion header span => exact ⟨[], _, rfl, by simp⟩
  | _ => exact ends_mark _ (by decide)

theorem ends_bodyGlyphs (s : Stmt) (others : List Stmt) : Ends (bodyGlyphs (s :: others)) := by
  induction others generalizing s with
  | nil =>
    rw [bodyGlyphs, bodyGlyphs, List.append_nil]
    exact s.ends
  | cons t others ih =>
    rw [bodyGlyphs]
    exact (ih t).append _

@[simp] theorem Token.glyph_eof (p : Position) : (Token.eof p).glyph = mark .eof := rfl

theorem Cursor.glyphs_ofTokens (front : List Token) (t : Token) :
    (ofTokens (front ++ [t])).glyphs =
      (front ++ [t]).map Token.glyph ++ if t.kind = .eof then [] else [mark .eof] := by
  cases front with
  | nil =>
    by_cases ends : t.kind = .eof
    · simp [ofTokens, glyphs, ends]
    · simp [ofTokens, glyphs, ends]
  | cons first others =>
    by_cases ends : t.kind = .eof
    · simp [ofTokens, glyphs, ends]
    · simp [ofTokens, glyphs, ends]

/-- The walk over the tokens of a program ends with an end mark, and with one only. -/
theorem Cursor.glyphs_ofTokens_of_written {p : Program} {tokens : List Token}
    (written : tokens.map Token.glyph = p.glyphs ∨
      tokens.map Token.glyph = p.glyphs ++ [mark .eof]) :
    (ofTokens tokens).glyphs = p.glyphs ++ [mark .eof] := by
  rcases tokens.eq_nil_or_concat with rfl | ⟨front, t, rfl⟩
  · rcases written with written | written
    · rw [← written]
      rfl
    · simp at written
  · rw [List.concat_eq_append] at written ⊢
    rw [glyphs_ofTokens]
    rcases written with written | written
    · have other : t.kind ≠ .eof := by
        obtain ⟨body, span⟩ := p
        cases body with
        | nil => simp [Program.glyphs, bodyGlyphs] at written
        | cons s others =>
          obtain ⟨before, k, shows, other⟩ := ends_bodyGlyphs s others
          rw [Program.glyphs, shows, List.map_append] at written
          have last := (List.append_inj' written rfl).2
          rw [Token.kind_of_glyph (List.cons.inj last).1]
          exact other
      rw [written, if_neg other]
    · have last : t.kind = .eof := by
        rw [List.map_append] at written
        exact Token.kind_of_glyph (List.cons.inj (List.append_inj' written rfl).2).1
      rw [written, if_pos last, List.append_nil]

namespace Parse

theorem reads_program {p : Program} (shaped : p.Shaped) :
    Reads (program .full) (p.glyphs ++ [mark .eof]) [mark .eof] (·.bare = p.bare) := by
  refine reads_start.bind fun begin _ => ?_
  refine (reads_statements (follows_statement _) ?_ rfl (by simp) shaped
    (Nat.le_refl _)).bind fun xs alike => ?_
  · exact fun k begins => decide_eq_false (begins.ne rfl rfl)
  · exact reads_start.bind fun _ _ => .pure (by rw [Program.bare, Program.bare, alike])

/-- Tokens that show a program, wherever they stand in a text, are parsed as this program. -/
theorem ofTokens_of_glyphs {p : Program} {tokens : List Token} (shaped : p.Shaped)
    (written : tokens.map Token.glyph = p.glyphs ∨
      tokens.map Token.glyph = p.glyphs ++ [mark .eof]) :
    ∃ q, ofTokens tokens = .ok q ∧ q.bare = p.bare := by
  have here := Cursor.glyphs_ofTokens_of_written written
  obtain ⟨q, c, run, _, same⟩ := reads_program shaped (Cursor.ofTokens tokens) here
  refine ⟨q, ?_, same⟩
  rw [ofTokens, read, run]

/-- `main { float x = 0.5; while (i != 3) { n = (i - 1) * -n++; } }` -/
def scaled : Program :=
  let one (name : String) : Expr := .symbol ⟨name, .none⟩
  let two (op : BinaryOp) (left right : Expr) : Expr := .binary op left right .none
  let product := two .multiply (two .subtract (one "i") (.int 1 .none))
    (.unary .negate (.unary .increment (one "n") .behind .none) .before .none)
  ⟨[.main
      ⟨[.variable .float "x" (some (.float (.finite false 4503599627370496 (-53)) .none)) .none,
        .whileLoop (two .notEquals (one "i") (.int 3 .none))
          ⟨[.evaluate (two .assign (one "n") product) .none], .none⟩ .none], .none⟩ .none], .none⟩

theorem ofTokens_scaled :
    scaled.Shaped ∧ ∃ tokens : List Token, tokens.map Token.glyph = scaled.glyphs ∧
      ∃ q, ofTokens tokens = .ok q ∧ q.bare = scaled.bare := by
  have half : Double.read? (Double.text (.finite false 4503599627370496 (-53))) =
      some (.finite false 4503599627370496 (-53)) := by decide +kernel
  have shaped : scaled.Shaped := by
    simp [scaled, Program.Shaped, Ty.Written, Expr.symbol?, UnaryOp.isStep, wholeBound,
      half]
  have written : (scaled.glyphs.map fun g => Token.mk g.kind g.text .none).map Token.glyph =
      scaled.glyphs := by decide +kernel
  exact ⟨shaped, _, written, ofTokens_of_glyphs shaped (.inl written)⟩

end Parse
end Curly
