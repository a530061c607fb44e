import Curly.Grammar.Cursor
import Curly.Proofs.Grammar.Rendering

/-! What a parser makes of glyphs. `Reads parse before behind Result` says that `parse` accepts
every cursor that stands before the glyphs `before`, comes to stand before `behind`, and gives a
tree with the property `Result`. The rules follow the operations that parsers are made of. -/
namespace Curly

open Glyph

def Cursor.tokens (c : Cursor) : List Token :=
  c.current :: c.ahead

def Cursor.glyphs (c : Cursor) : List Glyph :=
  (c.current :: c.ahead).map Token.glyph

theorem Cursor.length_glyphs (c : Cursor) : c.glyphs.length = c.room + 1 := by
  rw [glyphs, List.length_map, List.length_cons, room]

theorem Token.kind_of_glyph {t : Token} {x : Glyph} (shows : t.glyph = x) : t.kind = x.kind := by
  rw [← shows, Token.glyph]

theorem Token.value_of_glyph {t : Token} {k : Token.Kind} {text : String}
    (shows : t.glyph = ⟨k, text⟩) (differ : k.hasText = true) : t.value = text := by
  have same := Token.kind_of_glyph shows
  rw [Token.glyph, Glyph.mk.injEq] at shows
  rw [← shows.2, same, if_pos differ]

namespace Parse

variable {α β : Type} {first : Glyph} {before middle behind rest : List Glyph}

def Reads (parse : Parse α) (before behind : List Glyph) (Result : α → Prop) : Prop :=
  ∀ c : Cursor, c.glyphs = before →
    ∃ x d, parse.run c = .ok x d ∧ d.glyphs = behind ∧ Result x

namespace Reads

variable {parse : Parse α} {Result Other : α → Prop} {Next : β → Prop}

theorem pure {x : α} (result : Result x) : Reads (pure x) before before Result :=
  fun c here => ⟨x, c, rfl, here, result⟩

theorem bind {continuation : α → Parse β} (head : Reads parse before middle Result)
    (tail : ∀ x, Result x → Reads (continuation x) middle behind Next) :
    Reads (parse >>= continuation) before behind Next := by
  intro c here
  obtain ⟨x, d, run, there, result⟩ := head c here
  obtain ⟨y, e, run', behind, next⟩ := tail x result d there
  refine ⟨y, e, ?_, behind, next⟩
  rw [EStateM.run_bind, run]
  exact run'

theorem get_bind {continuation : Cursor → Parse β}
    (tail : ∀ c : Cursor, c.glyphs = before → Reads (continuation c) before behind Next) :
    Reads (get >>= continuation) before behind Next := by
  intro c here
  exact tail c here c here

theorem mono (reads : Reads parse before behind Result) (weaker : ∀ x, Result x → Other x) :
    Reads parse before behind Other := by
  intro c here
  obtain ⟨x, d, run, there, result⟩ := reads c here
  exact ⟨x, d, run, there, weaker x result⟩

theorem map {f : α → β} (reads : Reads parse before behind Result)
    (result : ∀ x, Result x → Next (f x)) : Reads (f <$> parse) before behind Next := by
  rw [map_eq_pure_bind]
  exact reads.bind fun x found => .pure (result x found)

end Reads

theorem reads_current : Reads current (first :: rest) (first :: rest) (·.glyph = first) := by
  intro c here
  exact ⟨c.current, c, rfl, here, (List.cons.inj here).1⟩

theorem reads_kind : Reads kind (first :: rest) (first :: rest) (· = first.kind) := by
  intro c here
  exact ⟨c.kind, c, rfl, here, Token.kind_of_glyph (List.cons.inj here).1⟩

theorem reads_start : Reads start before before fun _ => True :=
  fun c here => ⟨c.start, c, rfl, here, trivial⟩

theorem reads_spanFrom (begin : Position) : Reads (spanFrom begin) before before fun _ => True :=
  fun c here => ⟨⟨begin, c.stop⟩, c, rfl, here, trivial⟩

theorem reads_advance (more : behind ≠ []) :
    Reads advance (first :: behind) behind (·.glyph = first) := by
  intro c here
  obtain ⟨head, tail⟩ := List.cons.inj here
  refine ⟨c.current, c.next, rfl, ?_, head⟩
  cases ahead : c.ahead with
  | nil => exact absurd (by simpa [ahead] using tail.symm) more
  | cons t others =>
    rw [ahead] at tail
    simp only [Cursor.next, ahead]
    exact tail

theorem reads_expect {k : Token.Kind} {expectation : String} (same : first.kind = k)
    (more : behind ≠ []) :
    Reads (expect k expectation) (first :: behind) behind (·.glyph = first) := by
  refine reads_current.bind fun t shows => ?_
  rw [if_pos ((Token.kind_of_glyph shows).trans same)]
  exact reads_advance more

theorem reads_mark {k : Token.Kind} {expectation : String} (more : behind ≠ []) :
    Reads (expect k expectation) (mark k :: behind) behind (·.glyph = mark k) :=
  reads_expect rfl more

theorem reads_word {text expectation : String} (more : behind ≠ []) :
    Reads (expect .identifier expectation) (word text :: behind) behind (·.glyph = word text) :=
  reads_expect rfl more

theorem reads_skip {k : Token.Kind} (more : behind ≠ []) :
    Reads (skip k) (mark k :: behind) behind (· = true) := by
  refine reads_kind.bind fun here same => ?_
  rw [if_pos (same.trans (mark_kind k))]
  exact (reads_advance more).bind fun _ _ => .pure rfl

theorem reads_skip_absent {k : Token.Kind} (other : first.kind ≠ k) :
    Reads (skip k) (first :: rest) (first :: rest) (· = false) := by
  refine reads_kind.bind fun here same => ?_
  rw [if_neg (same ▸ other)]
  exact .pure rfl

section

variable {item : Parse α} {Result : α → Prop}

theorem reads_behind {k : Token.Kind} (reads : Reads item middle behind Result)
    (more : middle ≠ []) :
    Reads (behind? k item) (mark k :: middle) behind (∃ x, · = some x ∧ Result x) := by
  refine (reads_skip more).bind fun skipped present => ?_
  rw [if_pos present]
  exact reads.bind fun x result => .pure ⟨x, rfl, result⟩

theorem reads_behind_absent {k : Token.Kind} (other : first.kind ≠ k) :
    Reads (behind? k item) (first :: rest) (first :: rest) (· = none) := by
  refine (reads_skip_absent other).bind fun skipped absent => ?_
  rw [if_neg (absent ▸ Bool.false_ne_true)]
  exact .pure rfl

theorem reads_before {k : Token.Kind} (other : first.kind ≠ k)
    (reads : Reads item (first :: rest) behind Result) :
    Reads (before? k item) (first :: rest) behind (∃ x, · = some x ∧ Result x) := by
  refine reads_kind.bind fun here same => ?_
  rw [if_neg (same ▸ other)]
  exact reads.bind fun x result => .pure ⟨x, rfl, result⟩

theorem reads_before_absent {k : Token.Kind} :
    Reads (before? k item) (mark k :: rest) (mark k :: rest) (· = none) := by
  refine reads_kind.bind fun here same => ?_
  rw [if_pos (same.trans (mark_kind k))]
  exact .pure rfl

end

section

variable {close : Token.Kind} {item : Parse α} {glyphs : α → List Glyph} (bare : α → α)
  {items : List α}

theorem reads_comma (distinct : close ≠ .comma) (more : behind ≠ []) :
    Reads (comma close) (mark .comma :: behind) behind fun _ => True := by
  refine reads_kind.bind fun here same => ?_
  rw [if_neg (fun closing => distinct (closing.symm.trans same))]
  exact (reads_mark more).bind fun _ _ => .pure trivial

theorem reads_comma_absent :
    Reads (comma close) (mark close :: rest) (mark close :: rest) fun _ => True := by
  refine reads_kind.bind fun here same => ?_
  rw [if_pos (same.trans (mark_kind close))]
  exact .pure trivial

/-- The items are read one by one, each in front of a comma or of the closing token. -/
theorem reads_separated {bound : Nat} (enough : items.length ≤ bound) (distinct : close ≠ .comma)
    (opens : ∀ x ∈ items, ∃ first others, glyphs x = first :: others ∧ first.kind ≠ close)
    (reads : ∀ x ∈ items, ∀ k rest, k = .comma ∨ k = close →
      Reads item (glyphs x ++ mark k :: rest) (mark k :: rest) (bare · = bare x)) :
    Reads (separated close item bound) (commas (items.map glyphs) ++ mark close :: rest)
      (mark close :: rest) (·.map bare = items.map bare) := by
  induction items generalizing bound with
  | nil =>
    cases bound with
    | zero => exact .pure rfl
    | succ bound =>
      refine reads_kind.bind fun here same => ?_
      rw [if_pos (same.trans (mark_kind close))]
      exact .pure rfl
  | cons x others ih =>
    cases bound with
    | zero => exact absurd enough (Nat.not_succ_le_zero _)
    | succ bound =>
      rw [List.forall_mem_cons] at opens reads
      obtain ⟨⟨head, tail, shows, other⟩, opens⟩ := opens
      have later := ih (Nat.le_of_succ_le_succ enough) opens reads.2
      obtain ⟨k, rest', mid, same, passes⟩ : ∃ k rest', (k = .comma ∨ k = close) ∧
          commas ((x :: others).map glyphs) ++ mark close :: rest =
            glyphs x ++ mark k :: rest' ∧
          Reads (comma close) (mark k :: rest') (commas (others.map glyphs) ++ mark close :: rest)
            fun _ => True := by
        cases others with
        | nil => exact ⟨close, rest, .inr rfl, rfl, reads_comma_absent⟩
        | cons y others =>
          refine ⟨.comma, _, .inl rfl, ?_, reads_comma distinct (by simp)⟩
          simp [commas]
      have read := reads.1 k rest' mid
      rw [same]
      rw [shows] at read ⊢
      refine reads_kind.bind fun here found => ?_
      rw [if_neg (found ▸ other)]
      refine read.bind fun y like => passes.bind fun _ _ => later.bind fun ys alike => .pure ?_
      rw [List.map_cons, List.map_cons, like, alike]

theorem reads_enclosed (distinct : close ≠ .comma)
    (opens : ∀ x ∈ items, ∃ first others, glyphs x = first :: others ∧ first.kind ≠ close)
    (reads : ∀ x ∈ items, ∀ k rest, k = .comma ∨ k = close →
      Reads item (glyphs x ++ mark k :: rest) (mark k :: rest) (bare · = bare x))
    (more : behind ≠ []) :
    Reads (enclosed close item) (commas (items.map glyphs) ++ mark close :: behind) behind
      (·.map bare = items.map bare) := by
  refine .get_bind fun c here => ?_
  have enough : items.length ≤ c.room + 1 := by
    have counted := congrArg List.length here
    rw [c.length_glyphs, List.length_append, List.length_cons] at counted
    have := length_le_length_commas (items.map glyphs)
    rw [List.length_map] at this
    omega
  exact (reads_separated bare enough distinct opens reads).bind fun ys alike =>
    (reads_mark more).bind fun _ _ => .pure alike

end

end Parse
end Curly
