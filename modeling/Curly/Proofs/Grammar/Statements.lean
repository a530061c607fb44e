import Curly.Grammar.Statement
import Curly.Proofs.Grammar.Expressions

/-! Statements and programs read back from their tokens. A statement never looks further than the
token behind it, and only to see whether that is `else`. -/
namespace Curly

open Glyph

def Token.Kind.Begins (k : Token.Kind) : Prop :=
  k.form?.isSome ∨ k.start?.isSome

theorem Token.Kind.Begins.ne {k other : Token.Kind} (begins : k.Begins)
    (formless : other.form? = none) (startless : other.start? = none) : k ≠ other := by
  rintro rfl
  rw [Begins, formless, startless] at begins
  rcases begins with begins | begins
  · cases begins
  · cases begins

theorem Token.Kind.form?_eq_none {k : Token.Kind} (starts : k.start?.isSome) : k.form? = none := by
  cases k <;> first | rfl | cases starts

theorem Token.Kind.isType_eq_false {k : Token.Kind} (starts : k.start?.isSome) :
    k.isType = false := by
  cases k <;> first | rfl | cases starts

namespace Ty

theorem ty?_kind {t : Ty} (written : t.Written) : t.kind.ty? = some t := by
  cases t <;> first | rfl | simp [Written] at written

theorem form?_kind {t : Ty} (written : t.Written) : t.kind.form? = some .declaration := by
  cases t <;> first | rfl | simp [Written] at written

theorem kind_ne {t : Ty} (written : t.Written) {k : Token.Kind} (formless : k.form? = none) :
    t.kind ≠ k := by
  rintro rfl
  rw [form?_kind written] at formless
  cases formless

theorem isType_kind {t : Ty} (written : t.Written) : t.kind.isType = true := by
  cases t <;> first | rfl | simp [Written] at written

end Ty

theorem Block.opens (b : Block) : ∃ others, b.glyphs = mark .openCurly :: others := by
  cases b
  exact ⟨_, rfl⟩

theorem Stmt.opens {s : Stmt} (shaped : s.Shaped) :
    ∃ first others, s.glyphs = first :: others ∧ first.kind.Begins := by
  cases s with
  | «variable» t text initial span =>
    exact ⟨_, _, rfl, .inl (by rw [mark_kind, Ty.form?_kind shaped.1]; rfl)⟩
  | prototype t text params span =>
    exact ⟨_, _, rfl, .inl (by rw [mark_kind, Ty.form?_kind shaped.1]; rfl)⟩
  | function t text params body span =>
    exact ⟨_, _, rfl, .inl (by rw [mark_kind, Ty.form?_kind shaped.1]; rfl)⟩
  | block body =>
    obtain ⟨others, shows⟩ := body.opens
    exact ⟨mark .openCurly, others, shows, .inl rfl⟩
  | evaluate e span =>
    obtain ⟨first, others, shows, starts⟩ := e.opens
    exact ⟨first, others ++ [mark .semicolon], by rw [Stmt.glyphs, shows]; rfl, .inr starts⟩
  | _ => exact ⟨_, _, rfl, .inl rfl⟩

theorem Cursor.peek_one (c : Cursor) {first second : Glyph} {rest : List Glyph}
    (here : c.glyphs = first :: second :: rest) : c.peek 1 = second.kind := by
  obtain ⟨passed, current, ahead⟩ := c
  cases ahead with
  | nil => cases (List.cons.inj here).2
  | cons t others => exact Token.kind_of_glyph (List.cons.inj (List.cons.inj here).2).1

theorem length_le_length_bodyGlyphs {body : List Stmt} (shaped : shapedStmts body) :
    body.length ≤ (bodyGlyphs body).length := by
  induction body with
  | nil => exact Nat.le_refl _
  | cons s others ih =>
    obtain ⟨first, tail, shows, _⟩ := Stmt.opens shaped.1
    have := ih shaped.2
    rw [bodyGlyphs, shows, List.length_append, List.length_cons, List.length_cons]
    omega

theorem length_le_length_casesGlyphs (cases : List Case) :
    cases.length ≤ (casesGlyphs cases).length := by
  induction cases with
  | nil => exact Nat.le_refl _
  | cons first others ih =>
    obtain ⟨value, b, span⟩ := first
    simp only [casesGlyphs, List.length_append, List.length_cons]
    omega

/-- Behind a statement of a body stands no `else`. -/
theorem bodyGlyphs_append {body : List Stmt} (shaped : shapedStmts body) {close : Glyph}
    (other : close.kind ≠ .elseWord) (rest : List Glyph) :
    ∃ next rest', bodyGlyphs body ++ close :: rest = next :: rest' ∧ next.kind ≠ .elseWord := by
  cases body with
  | nil => exact ⟨close, rest, rfl, other⟩
  | cons s others =>
    obtain ⟨first, tail, shows, begins⟩ := Stmt.opens shaped.1
    exact ⟨first, _, by rw [bodyGlyphs, shows]; rfl, begins.ne rfl rfl⟩

namespace Parse

variable {behind rest : List Glyph} {next : Glyph}

theorem reads_ty {t : Ty} (written : t.Written) (more : behind ≠ []) :
    Reads (ty .full) (mark t.kind :: behind) behind (· = t) := by
  refine reads_current.bind fun token shows => ?_
  rw [Token.kind_of_glyph shows, mark_kind]
  rw [show Grammar.full.ty? t.kind = some t from Ty.ty?_kind written]
  exact (reads_advance more).bind fun _ _ => .pure rfl

theorem reads_condition {e : Expr} (shaped : e.Shaped) (more : behind ≠ []) :
    Reads (condition .full) (parens e.glyphs ++ behind) behind (·.bare = e.bare) := by
  rw [parens, List.append_assoc, List.cons_append]
  refine (reads_mark (by simp)).bind fun _ _ => ?_
  refine (reads_expression shaped rfl).bind fun x same => ?_
  exact (reads_mark more).bind fun _ _ => .pure same

theorem reads_optional {e : Option Expr} {k : Token.Kind} (shaped : ∀ x ∈ e, x.Shaped)
    (ends : k.follow? = none) (never : k.start? = none) :
    Reads (before? k (expression .full .lowest)) (optionalGlyphs e ++ mark k :: rest)
      (mark k :: rest) (·.map Expr.bare = e.map Expr.bare) := by
  cases e with
  | none => exact reads_before_absent.mono fun x absent => by rw [absent]
  | some e =>
    obtain ⟨first, others, shows, other⟩ := e.opens.ne never
    have reads : Reads (expression .full .lowest) (e.glyphs ++ mark k :: rest) (mark k :: rest)
        (·.bare = e.bare) := reads_expression (shaped e rfl) ends
    rw [optionalGlyphs, Option.elim_some, shows] at *
    refine (reads_before other reads).mono fun x present => ?_
    obtain ⟨y, rfl, same⟩ := present
    rw [Option.map_some, Option.map_some, same]

theorem reads_initialized {t : Ty} {name : String} {initial : Option Expr} (begin : Position)
    (span : Span) (shaped : ∀ e ∈ initial, e.Shaped) (more : behind ≠ []) :
    Reads (initialized .full begin t name)
      ((initial.elim [] fun e => mark .assignment :: e.glyphs) ++ mark .semicolon :: behind) behind
      (·.bare = (Stmt.variable t name initial span).bare) := by
  cases initial with
  | none =>
    refine (reads_behind_absent (by decide)).bind fun _ absent => ?_
    refine (reads_mark more).bind fun _ _ => ?_
    refine (reads_spanFrom _).bind fun _ _ => .pure ?_
    rw [absent, Stmt.bare, Stmt.bare]
  | some e =>
    have value : Reads (expression .full .lowest) (e.glyphs ++ mark .semicolon :: behind)
        (mark .semicolon :: behind) (·.bare = e.bare) := reads_expression (shaped e rfl) rfl
    refine (reads_behind value (by simp)).bind fun _ present => ?_
    obtain ⟨x, rfl, same⟩ := present
    refine (reads_mark more).bind fun _ _ => ?_
    refine (reads_spanFrom _).bind fun _ _ => .pure ?_
    rw [Stmt.bare, Stmt.bare, Option.map_some, Option.map_some, same]

theorem reads_variableStatement {t : Ty} {name : String} {initial : Option Expr} {span : Span}
    (shaped : (Stmt.variable t name initial span).Shaped) (more : behind ≠ []) :
    Reads (variableStatement .full) ((Stmt.variable t name initial span).glyphs ++ behind) behind
      (·.bare = (Stmt.variable t name initial span).bare) := by
  rw [Stmt.glyphs, List.append_assoc, List.singleton_append, List.cons_append, List.cons_append]
  refine reads_start.bind fun begin _ => ?_
  refine (reads_ty shaped.1 (by simp)).bind fun _ same => ?_
  refine (reads_word (by simp)).bind fun token shows => ?_
  rw [same, Token.value_of_glyph shows rfl]
  exact reads_initialized begin span shaped.2 more

theorem reads_param {p : Param} {k : Token.Kind} (written : p.ty.Written) :
    Reads (param .full) (p.glyphs ++ mark k :: rest) (mark k :: rest) (·.bare = p.bare) := by
  refine reads_start.bind fun begin _ => ?_
  refine (reads_ty written (by simp)).bind fun _ same => ?_
  refine (reads_word (by simp)).bind fun token shows => ?_
  refine (reads_spanFrom _).bind fun _ _ => .pure ?_
  rw [same, Token.value_of_glyph shows rfl, Param.bare, Param.bare]

/-- A first parameter has a name, so its type is not taken for the word that stands for none. -/
theorem reads_noParams {ps : List Param} :
    Reads noParams (commas (ps.map Param.glyphs) ++ mark .closeParen :: behind)
      (commas (ps.map Param.glyphs) ++ mark .closeParen :: behind) fun _ => True := by
  refine .get_bind fun c here => ?_
  rw [if_neg]
  · exact .pure trivial
  · rintro ⟨void, closes⟩
    cases ps with
    | nil =>
      have first : c.kind = .closeParen := Token.kind_of_glyph (List.cons.inj here).1
      rw [first] at void
      cases void
    | cons p others =>
      obtain ⟨tail, shows⟩ : ∃ tail, c.glyphs = mark p.ty.kind :: word p.name :: tail := by
        rw [here]
        cases others with
        | nil => exact ⟨_, rfl⟩
        | cons q others => exact ⟨_, rfl⟩
      rw [c.peek_one shows] at closes
      cases closes

theorem reads_params {ps : List Param} (written : ∀ p ∈ ps, p.ty.Written) (more : behind ≠ []) :
    Reads (params .full) (parens (commas (ps.map Param.glyphs)) ++ behind) behind
      (·.map Param.bare = ps.map Param.bare) := by
  rw [parens, List.append_assoc, List.cons_append]
  refine (reads_mark (by simp)).bind fun _ _ => ?_
  refine reads_noParams.bind fun _ _ => ?_
  apply reads_enclosed Param.bare (by decide) _ _ more
  · intro p member
    exact ⟨_, _, rfl, Ty.kind_ne (written p member) rfl⟩
  · intro p member k rest _
    exact reads_param (written p member)

theorem reads_variable {inner : Parse Stmt} {t : Ty} {text : String} {start : Option Expr}
    {span : Span} (shaped : (Stmt.variable t text start span).Shaped) (more : behind ≠ []) :
    Reads (declaration .full inner) ((Stmt.variable t text start span).glyphs ++ behind) behind
      (·.bare = (Stmt.variable t text start span).bare) := by
  simp only [Stmt.glyphs, List.append_assoc, List.cons_append, List.nil_append]
  refine reads_start.bind fun begin _ => ?_
  refine (reads_ty shaped.1 (by simp)).bind fun _ same => ?_
  refine (reads_skip_absent (by simp)).bind fun _ absent => ?_
  rw [absent, if_neg Bool.false_ne_true]
  refine (reads_word (by simp)).bind fun token shows => ?_
  have read : Reads (initialized .full begin t text)
      ((start.elim [] fun e => mark .assignment :: e.glyphs) ++ mark .semicolon :: behind) behind
      (·.bare = (Stmt.variable t text start span).bare) :=
    reads_initialized begin span shaped.2 more
  obtain ⟨first, tail, glyphs, other⟩ : ∃ first tail,
      (start.elim [] fun e => mark .assignment :: e.glyphs) ++ mark .semicolon :: behind =
        first :: tail ∧ first.kind ≠ .openParen := by
    cases start with
    | none => exact ⟨_, _, rfl, by decide⟩
    | some e => exact ⟨_, _, rfl, by decide⟩
  rw [glyphs] at read ⊢
  refine reads_kind.bind fun k here => ?_
  rw [here, if_pos other, same, Token.value_of_glyph shows rfl]
  exact read

theorem reads_prototype {inner : Parse Stmt} {t : Ty} {text : String} {ps : List Param}
    {span : Span} (shaped : (Stmt.prototype t text ps span).Shaped) (more : behind ≠ []) :
    Reads (declaration .full inner) ((Stmt.prototype t text ps span).glyphs ++ behind) behind
      (·.bare = (Stmt.prototype t text ps span).bare) := by
  simp only [Stmt.glyphs, headingGlyphs, List.append_assoc, List.cons_append, List.nil_append]
  refine reads_start.bind fun begin _ => ?_
  refine (reads_ty shaped.1 (by simp)).bind fun _ same => ?_
  refine (reads_skip_absent (by simp)).bind fun _ absent => ?_
  rw [absent, if_neg Bool.false_ne_true]
  refine (reads_word (by simp)).bind fun token shows => ?_
  refine reads_kind.bind fun k here => ?_
  rw [here, if_neg (by simp)]
  refine (reads_params shaped.2 (by simp)).bind fun qs alike => ?_
  refine (reads_skip more).bind fun _ present => ?_
  rw [if_pos present]
  refine (reads_spanFrom _).bind fun _ _ => .pure ?_
  rw [same, Token.value_of_glyph shows rfl, Stmt.bare, Stmt.bare, alike]

/-- A statement of at most `n` tokens is read, unless it might go on with an `else`. -/
def Follows (inner : Parse Stmt) (n : Nat) : Prop :=
  ∀ (s : Stmt) (next : Glyph) (rest : List Glyph), s.Shaped → s.glyphs.length ≤ n →
    next.kind ≠ .elseWord →
    Reads inner (s.glyphs ++ next :: rest) (next :: rest) (·.bare = s.bare)

section

variable {inner : Parse Stmt} {n : Nat} (follows : Follows inner n)

include follows

theorem reads_upTo {stops : Token.Kind → Bool} {close : Glyph}
    (free : ∀ k : Token.Kind, k.Begins → stops k = false) (closes : stops close.kind = true)
    (other : close.kind ≠ .elseWord) {body : List Stmt} {bound : Nat}
    (shaped : shapedStmts body) (short : (bodyGlyphs body).length ≤ n)
    (enough : body.length ≤ bound) :
    Reads (upTo stops inner bound) (bodyGlyphs body ++ close :: rest) (close :: rest)
      (bareStmts · = bareStmts body) := by
  induction body generalizing bound with
  | nil =>
    cases bound with
    | zero => exact .pure rfl
    | succ bound =>
      refine reads_current.bind fun t shows => ?_
      rw [Token.kind_of_glyph shows, if_pos closes]
      exact .pure rfl
  | cons s others ih =>
    obtain ⟨shapedFirst, shapedOthers⟩ := shaped
    rw [bodyGlyphs, List.length_append] at short
    rw [bodyGlyphs, List.append_assoc]
    cases bound with
    | zero => exact absurd enough (Nat.not_succ_le_zero _)
    | succ bound =>
      have later := ih shapedOthers (by omega) (Nat.le_of_succ_le_succ enough)
      obtain ⟨next, rest', there, noElse⟩ := bodyGlyphs_append shapedOthers other rest
      rw [there] at later ⊢
      have read := follows s next rest' shapedFirst (by omega) noElse
      obtain ⟨first, tail, shows, begins⟩ := Stmt.opens shapedFirst
      rw [shows] at read ⊢
      refine reads_current.bind fun t glyph => ?_
      rw [Token.kind_of_glyph glyph, free _ begins, if_neg Bool.false_ne_true,
        if_neg (begins.ne rfl rfl)]
      refine read.bind fun x same => later.bind fun xs alike => .pure ?_
      rw [bareStmts, bareStmts, same, alike]

theorem reads_statements {stops : Token.Kind → Bool} {close : Glyph}
    (free : ∀ k : Token.Kind, k.Begins → stops k = false) (closes : stops close.kind = true)
    (other : close.kind ≠ .elseWord) {body : List Stmt} (shaped : shapedStmts body)
    (short : (bodyGlyphs body).length ≤ n) :
    Reads (statements inner stops) (bodyGlyphs body ++ close :: rest) (close :: rest)
      (bareStmts · = bareStmts body) := by
  refine .get_bind fun c here => ?_
  apply reads_upTo follows free closes other shaped short
  have counted := congrArg List.length here
  have := length_le_length_bodyGlyphs shaped
  rw [c.length_glyphs, List.length_append, List.length_cons] at counted
  rw [Walk.rounds_parse]
  omega

theorem reads_block {b : Block} (shaped : b.Shaped) (short : b.glyphs.length ≤ n + 1)
    (more : behind ≠ []) :
    Reads (block inner) (b.glyphs ++ behind) behind (·.bare = b.bare) := by
  obtain ⟨body, span⟩ := b
  rw [Block.glyphs, braces] at short ⊢
  rw [List.append_assoc, List.cons_append]
  rw [List.length_append, List.length_cons] at short
  refine (reads_mark (by simp)).bind fun _ _ => ?_
  refine (reads_statements follows ?_ rfl (by decide) shaped (by omega)).bind fun xs alike => ?_
  · intro k begins
    exact decide_eq_false (begins.ne rfl rfl)
  · refine (reads_mark more).bind fun _ _ => ?_
    refine (reads_spanFrom _).bind fun _ _ => .pure ?_
    rw [Block.bare, Block.bare, alike]

theorem reads_body {b : Block} (shaped : b.Shaped) (short : b.glyphs.length ≤ n + 1)
    (more : behind ≠ []) :
    Reads (body inner) (b.glyphs ++ behind) behind (·.bare = b.bare) := by
  have read := reads_block follows shaped short more
  obtain ⟨others, shows⟩ := b.opens
  rw [shows] at read ⊢
  refine reads_kind.bind fun k same => ?_
  rw [if_pos (same.trans (mark_kind .openCurly))]
  exact read

theorem reads_mainFunction {b : Block} {span : Span} (shaped : b.Shaped)
    (short : b.glyphs.length ≤ n + 1) (more : behind ≠ []) :
    Reads (mainFunction inner) ((Stmt.main b span).glyphs ++ behind) behind
      (·.bare = (Stmt.main b span).bare) := by
  have read := reads_block follows shaped short more
  rw [Stmt.glyphs, List.cons_append]
  refine (reads_advance (List.append_ne_nil_of_right_ne_nil _ more)).bind fun _ _ => ?_
  obtain ⟨others, shows⟩ := b.opens
  rw [shows] at read ⊢
  refine (reads_behind_absent (by decide)).bind fun _ _ => ?_
  refine read.bind fun body same => ?_
  refine (reads_spanFrom _).bind fun _ _ => .pure ?_
  rw [Stmt.bare, Stmt.bare, same]

theorem reads_function {t : Ty} {text : String} {ps : List Param} {b : Block} {span : Span}
    (shaped : (Stmt.function t text ps b span).Shaped)
    (short : (Stmt.function t text ps b span).glyphs.length ≤ n + 1) (more : behind ≠ []) :
    Reads (declaration .full inner) ((Stmt.function t text ps b span).glyphs ++ behind) behind
      (·.bare = (Stmt.function t text ps b span).bare) := by
  obtain ⟨written, shapedParams, shapedBody⟩ := shaped
  rw [Stmt.glyphs, List.length_append] at short
  have read := reads_block follows shapedBody (by omega) more
  obtain ⟨others, opens⟩ := b.opens
  simp only [Stmt.glyphs, headingGlyphs, List.append_assoc, List.cons_append]
  rw [opens] at read ⊢
  refine reads_start.bind fun begin _ => ?_
  refine (reads_ty written (by simp)).bind fun _ same => ?_
  refine (reads_skip_absent (by simp)).bind fun _ absent => ?_
  rw [absent, if_neg Bool.false_ne_true]
  refine (reads_word (by simp)).bind fun token shows => ?_
  refine reads_kind.bind fun k here => ?_
  rw [here, if_neg (by simp)]
  refine (reads_params shapedParams (by simp)).bind fun qs alike => ?_
  refine (reads_skip_absent (by simp)).bind fun _ absent => ?_
  rw [absent, if_neg Bool.false_ne_true]
  refine read.bind fun d like => ?_
  refine (reads_spanFrom _).bind fun _ _ => .pure ?_
  rw [same, Token.value_of_glyph shows rfl, Stmt.bare, Stmt.bare, alike, like]

theorem reads_branch {condition : Expr} {yes : Block} {no : Option Block} {span : Span}
    (shaped : (Stmt.branch condition yes no span).Shaped)
    (short : (Stmt.branch condition yes no span).glyphs.length ≤ n + 1)
    (other : next.kind ≠ .elseWord) :
    Reads (branch .full inner) ((Stmt.branch condition yes no span).glyphs ++ next :: rest)
      (next :: rest) (·.bare = (Stmt.branch condition yes no span).bare) := by
  obtain ⟨shapedCondition, shapedYes, shapedNo⟩ := shaped
  simp only [Stmt.glyphs, List.length_append, List.length_cons, length_parens] at short
  simp only [Stmt.glyphs, List.append_assoc, List.cons_append]
  refine (reads_advance (by simp)).bind fun _ _ => ?_
  refine (reads_condition shapedCondition (by simp)).bind fun x like => ?_
  refine (reads_body follows shapedYes (by omega) (by simp)).bind fun b same => ?_
  cases no with
  | none =>
    refine (reads_behind_absent other).bind fun _ absent => ?_
    refine (reads_spanFrom _).bind fun _ _ => .pure ?_
    rw [Stmt.bare, Stmt.bare, like, same, absent]
  | some no =>
    rw [elseGlyphs, List.length_cons] at short
    have alternative := reads_body follows shapedNo (by omega) (List.cons_ne_nil next rest)
    refine (reads_behind alternative (by simp)).bind fun _ present => ?_
    obtain ⟨d, rfl, agrees⟩ := present
    refine (reads_spanFrom _).bind fun _ _ => .pure ?_
    rw [Stmt.bare, Stmt.bare, like, same, bareBlock?, bareBlock?, agrees]

theorem reads_whileLoop {condition : Expr} {b : Block} {span : Span}
    (shaped : (Stmt.whileLoop condition b span).Shaped)
    (short : (Stmt.whileLoop condition b span).glyphs.length ≤ n + 1) (more : behind ≠ []) :
    Reads (whileLoop .full inner) ((Stmt.whileLoop condition b span).glyphs ++ behind) behind
      (·.bare = (Stmt.whileLoop condition b span).bare) := by
  simp only [Stmt.glyphs, List.length_append, List.length_cons] at short
  simp only [Stmt.glyphs, List.append_assoc, List.cons_append]
  refine (reads_advance (by simp [more])).bind fun _ _ => ?_
  refine (reads_condition shaped.1 (by simp [more])).bind fun x like => ?_
  refine (reads_body follows shaped.2 (by omega) more).bind fun d same => ?_
  refine (reads_spanFrom _).bind fun _ _ => .pure ?_
  rw [Stmt.bare, Stmt.bare, like, same]

theorem reads_doLoop {condition : Expr} {b : Block} {span : Span}
    (shaped : (Stmt.doLoop b condition span).Shaped)
    (short : (Stmt.doLoop b condition span).glyphs.length ≤ n + 1) (more : behind ≠ []) :
    Reads (doLoop .full inner) ((Stmt.doLoop b condition span).glyphs ++ behind) behind
      (·.bare = (Stmt.doLoop b condition span).bare) := by
  simp only [Stmt.glyphs, List.length_append, List.length_cons] at short
  simp only [Stmt.glyphs, List.append_assoc, List.cons_append, List.nil_append]
  refine (reads_advance (by simp)).bind fun _ _ => ?_
  refine (reads_body follows shaped.2 (by omega) (by simp)).bind fun d same => ?_
  refine (reads_mark (by simp)).bind fun _ _ => ?_
  refine (reads_condition shaped.1 (by simp)).bind fun x like => ?_
  refine (reads_mark more).bind fun _ _ => ?_
  refine (reads_spanFrom _).bind fun _ _ => .pure ?_
  rw [Stmt.bare, Stmt.bare, like, same]

end

theorem reads_initial {s : Option Stmt} (shaped : shapedInitial s) (more : behind ≠ []) :
    Reads (initial .full) (initialGlyphs s ++ behind) behind (bareStmt? · = bareStmt? s) := by
  cases s with
  | none =>
    refine (reads_skip more).bind fun _ present => ?_
    rw [if_pos present]
    exact .pure rfl
  | some s =>
    cases s with
    | «variable» t text start span =>
      have read := reads_variableStatement shaped.2 more
      have written : t.Written := shaped.2.1
      rw [initialGlyphs]
      refine (reads_skip_absent (Ty.kind_ne written rfl)).bind fun _ absent => ?_
      rw [absent, if_neg Bool.false_ne_true]
      refine reads_kind.bind fun k same => ?_
      rw [same, mark_kind, Ty.isType_kind written, if_pos rfl]
      exact read.map fun x like => congrArg some like
    | evaluate e span =>
      obtain ⟨first, tail, shows, starts⟩ := e.opens
      have read : Reads (expression .full .lowest) (e.glyphs ++ mark .semicolon :: behind)
        (mark .semicolon :: behind) (·.bare = e.bare) := reads_expression shaped.2 rfl
      rw [initialGlyphs, Stmt.glyphs, List.append_assoc, List.singleton_append]
      rw [shows] at read ⊢
      have other : first.kind ≠ .semicolon := by
        intro same
        rw [same] at starts
        cases starts
      refine (reads_skip_absent other).bind fun _ absent => ?_
      rw [absent, if_neg Bool.false_ne_true]
      refine reads_kind.bind fun k same => ?_
      rw [same, Token.Kind.isType_eq_false starts, if_neg Bool.false_ne_true]
      refine read.bind fun x like => ?_
      refine (reads_mark more).bind fun _ _ => .pure ?_
      rw [bareStmt?, bareStmt?, Stmt.bare, Stmt.bare, like]
    | _ => cases shaped.1

section

variable {inner : Parse Stmt} {n : Nat} (follows : Follows inner n)

include follows

theorem reads_forLoop {start : Option Stmt} {condition update : Option Expr} {b : Block}
    {span : Span} (shaped : (Stmt.forLoop start condition update b span).Shaped)
    (short : (Stmt.forLoop start condition update b span).glyphs.length ≤ n + 1)
    (more : behind ≠ []) :
    Reads (forLoop .full inner) ((Stmt.forLoop start condition update b span).glyphs ++ behind)
      behind (·.bare = (Stmt.forLoop start condition update b span).bare) := by
  obtain ⟨shapedStart, shapedCondition, shapedUpdate, shapedBody⟩ := shaped
  simp only [Stmt.glyphs, List.length_append, List.length_cons] at short
  simp only [Stmt.glyphs, parens, List.append_assoc, List.cons_append, List.nil_append]
  refine (reads_advance (by simp)).bind fun _ _ => ?_
  refine (reads_mark (by simp)).bind fun _ _ => ?_
  refine (reads_initial shapedStart (by simp)).bind fun s first => ?_
  refine (reads_optional shapedCondition rfl rfl).bind fun x like => ?_
  refine (reads_mark (by simp)).bind fun _ _ => ?_
  refine (reads_optional shapedUpdate rfl rfl).bind fun y alike => ?_
  refine (reads_mark (by simp [more])).bind fun _ _ => ?_
  refine (reads_body follows shapedBody (by omega) more).bind fun d same => ?_
  refine (reads_spanFrom _).bind fun _ _ => .pure ?_
  rw [Stmt.bare, Stmt.bare, first, like, alike, same]

theorem reads_arm {b : Block} (shaped : b.Shaped) (short : b.glyphs.length ≤ n + 1)
    (more : behind ≠ []) : Reads (arm inner) (b.glyphs ++ behind) behind (·.bare = b.bare) := by
  have read := reads_block follows shaped short more
  obtain ⟨others, shows⟩ := b.opens
  rw [shows] at read ⊢
  refine reads_kind.bind fun k same => ?_
  rw [if_pos (same.trans (mark_kind .openCurly))]
  exact read

omit follows in
theorem reads_arms_end {bound : Nat} {fallback : Option Block} :
    Reads (arms .full inner bound fallback) (mark .closeCurly :: rest) (mark .closeCurly :: rest)
      (· = ([], fallback)) := by
  cases bound with
  | zero => exact .pure rfl
  | succ bound =>
    refine reads_current.bind fun t shows => ?_
    rw [Token.kind_of_glyph shows, mark_kind, if_pos rfl]
    exact .pure rfl

theorem reads_arms {cases : List Case} {fallback : Option Block} {bound : Nat}
    (shaped : shapedCases cases) (shapedFallback : shapedBlock? fallback)
    (short : (casesGlyphs cases).length + (fallbackGlyphs fallback).length ≤ n)
    (enough : cases.length < bound) :
    Reads (arms .full inner bound none)
      (casesGlyphs cases ++ (fallbackGlyphs fallback ++ mark .closeCurly :: rest))
      (mark .closeCurly :: rest)
      (fun found => bareCases found.1 = bareCases cases ∧
        bareBlock? found.2 = bareBlock? fallback) := by
  induction cases generalizing bound with
  | nil =>
    cases fallback with
    | none => exact reads_arms_end.mono fun found same => by rw [same]; exact ⟨rfl, rfl⟩
    | some b =>
      obtain ⟨bound, rfl⟩ : ∃ m, bound = m + 1 := ⟨bound - 1, by omega⟩
      rw [fallbackGlyphs, List.length_cons] at short
      refine reads_current.bind fun t shows => ?_
      rw [Token.kind_of_glyph shows]
      rw [if_neg (by simp), if_neg (by simp), if_pos (by simp)]
      refine (reads_advance (by simp)).bind fun _ _ => ?_
      refine (reads_arm follows shapedFallback (by omega) (by simp)).bind fun d like => ?_
      refine reads_arms_end.mono fun found same => ?_
      rw [same]
      exact ⟨rfl, congrArg some like⟩
  | cons first others ih =>
    obtain ⟨value, b, span⟩ := first
    obtain ⟨shapedValue, shapedBody, shapedOthers⟩ := shaped
    obtain ⟨bound, rfl⟩ : ∃ m, bound = m + 1 := ⟨bound - 1, by omega⟩
    simp only [casesGlyphs, List.length_append, List.length_cons] at short enough
    have later := ih shapedOthers (by omega) (Nat.lt_of_succ_lt_succ enough)
    have read := reads_arm follows shapedBody (by omega)
      (List.append_ne_nil_of_right_ne_nil (casesGlyphs others)
        (List.append_ne_nil_of_right_ne_nil (fallbackGlyphs fallback)
          (List.cons_ne_nil (mark .closeCurly) rest)))
    simp only [casesGlyphs, List.append_assoc, List.cons_append]
    obtain ⟨tail, opens⟩ := b.opens
    rw [opens] at read ⊢
    refine reads_current.bind fun t shows => ?_
    rw [Token.kind_of_glyph shows, if_neg (by simp), if_pos (by simp)]
    refine (reads_advance (by simp)).bind fun _ _ => ?_
    refine (reads_expression shapedValue rfl).bind fun x like => ?_
    refine read.bind fun d alike => ?_
    refine (reads_spanFrom _).bind fun _ _ => ?_
    refine later.bind fun found agrees => .pure ⟨?_, agrees.2⟩
    rw [bareCases, bareCases, like, alike, agrees.1]

theorem reads_switch {subject : Expr} {cases : List Case} {fallback : Option Block} {span : Span}
    (shaped : (Stmt.switch subject cases fallback span).Shaped)
    (short : (Stmt.switch subject cases fallback span).glyphs.length ≤ n + 1)
    (more : behind ≠ []) :
    Reads (switch .full inner) ((Stmt.switch subject cases fallback span).glyphs ++ behind) behind
      (·.bare = (Stmt.switch subject cases fallback span).bare) := by
  obtain ⟨shapedSubject, shapedCases, shapedFallback⟩ := shaped
  simp only [Stmt.glyphs, List.length_append, List.length_cons, length_braces] at short
  simp only [Stmt.glyphs, braces, List.append_assoc, List.cons_append, List.nil_append]
  refine (reads_advance (by simp)).bind fun _ _ => ?_
  refine (reads_condition shapedSubject (by simp)).bind fun x like => ?_
  refine (reads_mark (by simp)).bind fun _ _ => ?_
  refine .get_bind fun c here => ?_
  have enough : cases.length < c.room + 1 := by
    have counted := congrArg List.length here
    have := length_le_length_casesGlyphs cases
    rw [c.length_glyphs, List.length_append, List.length_append, List.length_cons] at counted
    omega
  refine (reads_arms follows shapedCases shapedFallback (by omega) enough).bind
    fun found agrees => ?_
  obtain ⟨others, last⟩ := found
  refine (reads_mark more).bind fun _ _ => ?_
  refine (reads_spanFrom _).bind fun _ _ => .pure ?_
  rw [Stmt.bare, Stmt.bare, like, agrees.1, agrees.2]

end

theorem reads_inclusion {header : String} {span : Span} (more : behind ≠ []) :
    Reads inclusion ((Stmt.inclusion header span).glyphs ++ behind) behind
      (·.bare = (Stmt.inclusion header span).bare) := by
  refine (reads_advance more).bind fun t shows => .pure ?_
  rw [Token.value_of_glyph shows rfl, Stmt.bare, Stmt.bare]

theorem reads_enumeration {text : String} {values : List Identifier} {inside span : Span}
    (more : behind ≠ []) :
    Reads enumeration ((Stmt.enumeration text values inside span).glyphs ++ behind) behind
      (·.bare = (Stmt.enumeration text values inside span).bare) := by
  simp only [Stmt.glyphs, braces, List.append_assoc, List.cons_append, List.nil_append]
  refine (reads_advance (by simp)).bind fun _ _ => ?_
  refine (reads_word (by simp)).bind fun token shows => ?_
  refine (reads_mark (by simp)).bind fun _ _ => ?_
  refine (reads_enclosed Identifier.bare (by decide) ?_ ?_ (by simp)).bind fun xs alike => ?_
  · exact fun v _ => ⟨word v.name, [], rfl, by simp⟩
  · intro v _ k rest _
    refine (reads_word (by simp)).bind fun t shows => .pure ?_
    rw [Token.value_of_glyph shows rfl, Identifier.bare, Identifier.bare]
  · refine (reads_spanFrom _).bind fun _ _ => ?_
    refine (reads_skip more).bind fun _ _ => ?_
    refine (reads_spanFrom _).bind fun _ _ => .pure ?_
    rw [Token.value_of_glyph shows rfl, Stmt.bare, Stmt.bare, alike]

theorem reads_giveBack {value : Option Expr} {span : Span} (shaped : ∀ e ∈ value, e.Shaped)
    (more : behind ≠ []) :
    Reads (giveBack .full) ((Stmt.giveBack value span).glyphs ++ behind) behind
      (·.bare = (Stmt.giveBack value span).bare) := by
  simp only [Stmt.glyphs, List.append_assoc, List.cons_append, List.nil_append]
  refine (reads_advance (by simp)).bind fun _ _ => ?_
  refine (reads_optional shaped rfl rfl).bind fun x like => ?_
  refine (reads_mark more).bind fun _ _ => ?_
  refine (reads_spanFrom _).bind fun _ _ => .pure ?_
  rw [Stmt.bare, Stmt.bare, like]

theorem reads_leave {span : Span} (more : behind ≠ []) :
    Reads leave ((Stmt.leave span).glyphs ++ behind) behind
      (·.bare = (Stmt.leave span).bare) := by
  refine (reads_advance (by simp)).bind fun _ _ => ?_
  refine (reads_mark more).bind fun _ _ => ?_
  exact (reads_spanFrom _).bind fun _ _ => .pure rfl

theorem reads_print {args : List Expr} {span : Span} (shaped : shapedExprs args)
    (more : behind ≠ []) :
    Reads (print .full) ((Stmt.print args span).glyphs ++ behind) behind
      (·.bare = (Stmt.print args span).bare) := by
  rw [shapedExprs_iff] at shaped
  simp only [Stmt.glyphs, Expr.glyphsOfAll_eq_map, List.append_assoc, List.cons_append,
    List.nil_append]
  refine (reads_advance (by simp)).bind fun _ _ => ?_
  refine (reads_arguments ?_ (fun e _ => e.opens.ne rfl) (by simp)).bind fun xs alike => ?_
  · intro e member k rest closes
    rcases closes with rfl | rfl
    · exact reads_expression (shaped e member) rfl
    · exact reads_expression (shaped e member) rfl
  · refine (reads_mark more).bind fun _ _ => ?_
    refine (reads_spanFrom _).bind fun _ _ => .pure ?_
    rw [Stmt.bare, Stmt.bare, bareExprs_eq_map, bareExprs_eq_map, alike]

theorem reads_evaluate {e : Expr} {span : Span} (shaped : e.Shaped) (more : behind ≠ []) :
    Reads (evaluate .full) ((Stmt.evaluate e span).glyphs ++ behind) behind
      (·.bare = (Stmt.evaluate e span).bare) := by
  rw [Stmt.glyphs, List.append_assoc, List.singleton_append]
  refine (reads_expression shaped rfl).bind fun x like => ?_
  refine (reads_mark more).bind fun _ _ => ?_
  refine (reads_spanFrom _).bind fun _ _ => .pure ?_
  rw [Stmt.bare, Stmt.bare, like]

theorem reads_statementWithin {inner : Nat} {s : Stmt} {first : Glyph} {tail : List Glyph}
    {form : Form} {Result : Stmt → Prop} (shows : s.glyphs = first :: tail)
    (forms : first.kind.form? = some form)
    (reads : Reads (formed .full (statementWithin .full inner) form) (s.glyphs ++ behind) behind
      Result) :
    Reads (statementWithin .full (inner + 1)) (s.glyphs ++ behind) behind Result := by
  rw [shows] at reads ⊢
  refine reads_kind.bind fun k same => ?_
  rw [same, show Grammar.full.form? first.kind = some form from forms]
  exact reads

/-- The layers of statements are as many as there are tokens, so none is missing. -/
theorem follows_statementWithin : ∀ n, Follows (statementWithin .full n) n
  | 0 => by
    intro s next rest shaped short
    obtain ⟨first, tail, shows, _⟩ := Stmt.opens shaped
    rw [shows] at short
    exact absurd short (Nat.not_succ_le_zero _)
  | n + 1 => by
    intro s next rest shaped short other
    have follows := follows_statementWithin n
    have more : next :: rest ≠ [] := List.cons_ne_nil next rest
    cases s with
    | «variable» t text start span =>
      exact reads_statementWithin rfl (Ty.form?_kind shaped.1) (reads_variable shaped more)
    | prototype t text ps span =>
      exact reads_statementWithin rfl (Ty.form?_kind shaped.1) (reads_prototype shaped more)
    | function t text ps b span =>
      exact reads_statementWithin rfl (Ty.form?_kind shaped.1)
        (reads_function follows shaped short more)
    | main b span =>
      have short := Nat.le_of_succ_le short
      exact reads_statementWithin rfl rfl (reads_mainFunction follows shaped short more)
    | enumeration text values inside span =>
      exact reads_statementWithin rfl rfl (reads_enumeration more)
    | block b =>
      obtain ⟨tail, shows⟩ := b.opens
      have read := reads_block follows shaped short more
      exact reads_statementWithin shows rfl (read.map fun d like => congrArg Stmt.block like)
    | branch condition yes no span =>
      exact reads_statementWithin rfl rfl (reads_branch follows shaped short other)
    | whileLoop condition b span =>
      exact reads_statementWithin rfl rfl (reads_whileLoop follows shaped short more)
    | doLoop b condition span =>
      exact reads_statementWithin rfl rfl (reads_doLoop follows shaped short more)
    | forLoop start condition update b span =>
      exact reads_statementWithin rfl rfl (reads_forLoop follows shaped short more)
    | switch subject cases fallback span =>
      exact reads_statementWithin rfl rfl (reads_switch follows shaped short more)
    | giveBack value span => exact reads_statementWithin rfl rfl (reads_giveBack shaped more)
    | leave span => exact reads_statementWithin rfl rfl (reads_leave more)
    | print args span => exact reads_statementWithin rfl rfl (reads_print shaped more)
    | inclusion header span => exact reads_statementWithin rfl rfl (reads_inclusion more)
    | evaluate e span =>
      have read : Reads (evaluate .full) ((Stmt.evaluate e span).glyphs ++ next :: rest)
        (next :: rest) (·.bare = (Stmt.evaluate e span).bare) := reads_evaluate shaped more
      obtain ⟨first, tail, shows, starts⟩ := e.opens
      rw [Stmt.glyphs, shows] at read ⊢
      refine reads_kind.bind fun k same => ?_
      rw [same, show Grammar.full.form? first.kind = none from Token.Kind.form?_eq_none starts]
      exact read

theorem follows_statement (n : Nat) : Follows (statement .full) n := by
  intro s next rest shaped _ other
  refine .get_bind fun c here => ?_
  have counted := congrArg List.length here
  rw [c.length_glyphs, List.length_append, List.length_cons] at counted
  exact follows_statementWithin c.room s next rest shaped (by omega) other

end Parse
end Curly
