import Curly.Grammar.Expression
import Curly.Proofs.Decimal.Whole
import Curly.Proofs.Grammar.Reading
import Curly.Proofs.Grammar.Shape

/-! Expressions read back from their tokens. What stands in front of an operator was read before the
operator was seen, so the claim about an operand is that reading it leads to the place behind it
with the operand in hand, and whatever is read from there on is read from the start. -/
namespace Curly

open Glyph

/-- How tightly a token takes the expression in front of it; nothing takes it at zero. -/
def Token.Kind.pull (k : Token.Kind) : Nat :=
  k.follow?.elim 0 (·.1.rank)

namespace BinaryOp

theorem binaryOp?_kind (op : BinaryOp) : op.kind.binaryOp? = some op := by cases op <;> rfl

theorem pull_kind (op : BinaryOp) : op.kind.pull = op.power.rank := by cases op <;> rfl

def follow : BinaryOp → Follow
  | .assign => .assignment
  | _ => .operand

theorem follow?_kind (op : BinaryOp) : op.kind.follow? = some (op.power, op.follow) := by
  cases op <;> rfl

theorem floor_of_ne {op : BinaryOp} (other : op ≠ .assign) : op.floor = op.power := by
  cases op <;> first | rfl | exact absurd rfl other

theorem rank_pos (op : BinaryOp) : 0 < op.power.rank := by cases op <;> decide

theorem rank_lt_unary (op : BinaryOp) : op.power.rank < Power.unary.rank := by
  cases op <;> decide

theorem one_lt_rank {op : BinaryOp} (other : op ≠ .assign) : 1 < op.power.rank := by
  cases op <;> first | decide | exact absurd rfl other

theorem le_floor_of_lt {op : BinaryOp} {n : Nat} (below : n < op.power.rank) :
    n ≤ op.floor.rank := by
  by_cases assigns : op = .assign
  · subst assigns
    exact Nat.le_of_lt_succ below
  · rw [floor_of_ne assigns]
    exact Nat.le_of_lt below

end BinaryOp

namespace UnaryOp

theorem unaryOp?_kind (op : UnaryOp) : op.kind.unaryOp? = some op := by cases op <;> rfl

theorem start?_kind (op : UnaryOp) : op.kind.start? = some .operator := by cases op <;> rfl

theorem follow?_kind {op : UnaryOp} (step : op.isStep = true) :
    op.kind.follow? = some (.suffix, .step) := by
  cases op <;> first | rfl | cases step

theorem pull_kind {op : UnaryOp} (step : op.isStep = true) :
    op.kind.pull = Power.suffix.rank := by
  cases op <;> first | rfl | cases step

end UnaryOp

namespace Expr

/-- The powers below which the expression is read as a whole. -/
def lead : Expr → Nat
  | .unary _ _ .before _ => Power.suffix.rank
  | e => e.power.rank

/-- The pull of a token up to which the token leaves the expression as it is. -/
def reach : Expr → Nat
  | .binary op .. => op.floor.rank
  | .unary _ _ .before _ => Power.unary.rank
  | _ => Power.primary.rank

theorem lead_pos (e : Expr) : 0 < e.lead := by
  cases e with
  | binary op left right span => exact op.rank_pos
  | unary op e side span => cases side <;> exact Nat.succ_pos _
  | _ => exact Nat.succ_pos _

theorem rank_le_lead (e : Expr) : e.power.rank ≤ e.lead := by
  cases e with
  | unary op e side span => cases side <;> exact Nat.le_of_ble_eq_true rfl
  | _ => exact Nat.le_refl _

theorem le_reach_of_lt_lead {e : Expr} {n : Nat} (below : n < e.lead) : n ≤ e.reach := by
  cases e with
  | binary op left right span => exact BinaryOp.le_floor_of_lt below
  | unary op e side span =>
    cases side with
    | before => exact Nat.le_of_lt_succ below
    | behind => exact Nat.le_of_lt (Nat.lt_succ_of_lt below)
  | call callee args span => exact Nat.le_of_lt (Nat.lt_succ_of_lt below)
  | _ => exact Nat.le_of_lt below

theorem le_reach_of_le_rank {e : Expr} {n : Nat} (binds : 1 < n) (tight : n ≤ e.power.rank) :
    n ≤ e.reach := by
  cases e with
  | binary op left right span =>
    have other : op ≠ .assign := by
      rintro rfl
      exact absurd (Nat.lt_of_lt_of_le binds tight) (Nat.lt_irrefl 1)
    rw [reach, BinaryOp.floor_of_ne other]
    exact tight
  | unary op e side span =>
    cases side with
    | before => exact tight
    | behind => exact Nat.le_succ_of_le tight
  | call callee args span => exact Nat.le_succ_of_le tight
  | _ => exact tight

theorem symbol_of_isSome {e : Expr} (symbol : e.symbol?.isSome) : ∃ i, e = .symbol i := by
  cases e with
  | symbol i => exact ⟨i, rfl⟩
  | _ => cases symbol

/-- A first operand without parentheses stays whole in front of its operator. -/
theorem rank_le_reach {op : BinaryOp} {left : Expr} (target : op = .assign → left.symbol?.isSome)
    (tight : op.power.rank ≤ left.power.rank) : op.power.rank ≤ left.reach := by
  by_cases assigns : op = .assign
  · obtain ⟨i, rfl⟩ := symbol_of_isSome (target assigns)
    exact tight
  · exact le_reach_of_le_rank (BinaryOp.one_lt_rank assigns) tight

theorem unary_lt_lead {e : Expr} (tight : Power.unary.rank ≤ e.power.rank) :
    Power.unary.rank < e.lead := by
  cases e with
  | binary op left right span => exact absurd op.rank_lt_unary (Nat.not_lt.mpr tight)
  | unary op e side span => cases side <;> exact Nat.le_of_ble_eq_true rfl
  | _ => exact Nat.le_of_ble_eq_true rfl

theorem glyphs_of_atomic {e : Expr} (atomic : e.power = .primary) :
    ∃ first, e.glyphs = [first] ∧ first.kind.start? = some .primary := by
  cases e with
  | binary op left right span => cases op <;> cases atomic
  | unary op operand side span => cases side <;> cases atomic
  | call callee args span => cases atomic
  | _ => exact ⟨_, rfl, rfl⟩

def Opens (glyphs : List Glyph) : Prop :=
  ∃ first others, glyphs = first :: others ∧ first.kind.start?.isSome

theorem Opens.operand {glyphs : List Glyph} (opens : Opens glyphs) (loose : Bool) :
    Opens (operand loose glyphs) := by
  cases loose with
  | false => exact opens
  | true => exact ⟨mark .openParen, _, rfl, rfl⟩

theorem Opens.append {glyphs : List Glyph} (opens : Opens glyphs) (others : List Glyph) :
    Opens (glyphs ++ others) := by
  obtain ⟨first, tail, rfl, starts⟩ := opens
  exact ⟨first, tail ++ others, rfl, starts⟩

/-- No token that closes or separates begins an expression. -/
theorem Opens.ne {glyphs : List Glyph} (opens : Opens glyphs) {k : Token.Kind}
    (never : k.start? = none) :
    ∃ first others, glyphs = first :: others ∧ first.kind ≠ k := by
  obtain ⟨first, others, shows, starts⟩ := opens
  refine ⟨first, others, shows, ?_⟩
  rintro rfl
  rw [never] at starts
  cases starts

theorem opens : ∀ e : Expr, Opens e.glyphs
  | .binary op left right _ => (left.opens.operand _).append _
  | .unary op e .before _ => ⟨mark op.kind, _, rfl, by rw [mark_kind, op.start?_kind]; rfl⟩
  | .unary op e .behind _ => (e.opens.operand _).append _
  | .call callee args _ => ⟨word callee.name, _, rfl, rfl⟩
  | .int .. | .float .. | .string .. | .char .. | .bool .. | .symbol _ => ⟨_, [], rfl, rfl⟩

theorem symbol_of_bare {e : Expr} {i : Identifier} (same : e.bare = (Expr.symbol i).bare) :
    ∃ j, e = .symbol j := by
  cases e with
  | symbol j => exact ⟨j, rfl⟩
  | _ => cases same

end Expr

namespace Parse

variable {inner : Inner Parse} {before behind rest : List Glyph} {next : Glyph}

theorem reads_primary {e : Expr} (atomic : e.power = .primary) (shaped : e.Shaped)
    (more : behind ≠ []) : Reads primary (e.glyphs ++ behind) behind (·.bare = e.bare) := by
  cases e with
  | int value span =>
    refine (reads_advance more).bind fun t shows => ?_
    rw [Token.kind_of_glyph shows, Token.value_of_glyph shows rfl,
      readInt?_toString shaped.1 shaped.2]
    exact .pure rfl
  | float value span =>
    refine (reads_advance more).bind fun t shows => ?_
    rw [Token.kind_of_glyph shows, Token.value_of_glyph shows rfl, shaped]
    exact .pure rfl
  | string value span =>
    refine (reads_advance more).bind fun t shows => ?_
    rw [Token.kind_of_glyph shows, Token.value_of_glyph shows rfl]
    exact .pure rfl
  | char value span =>
    refine (reads_advance more).bind fun t shows => ?_
    rw [Token.kind_of_glyph shows, Token.value_of_glyph shows rfl]
    exact .pure (by simp [Expr.bare])
  | bool value span =>
    refine (reads_advance more).bind fun t shows => ?_
    rw [Token.kind_of_glyph shows, Token.value_of_glyph shows rfl]
    exact .pure (by cases value <;> rfl)
  | symbol i =>
    refine (reads_advance more).bind fun t shows => ?_
    rw [Token.kind_of_glyph shows, Token.value_of_glyph shows rfl]
    exact .pure rfl
  | binary op left right span => cases op <;> cases atomic
  | unary op operand side span => cases side <;> cases atomic
  | call callee args span => cases atomic

theorem reads_grouped {Result : Expr → Prop}
    (reads : Reads (inner .lowest) (before ++ mark .closeParen :: behind)
      (mark .closeParen :: behind) Result) (more : behind ≠ []) :
    Reads (grouped inner) (parens before ++ behind) behind Result := by
  rw [parens, List.append_assoc, List.cons_append]
  refine (reads_advance (by simp)).bind fun _ _ => ?_
  refine reads.bind fun e result => ?_
  exact (reads_mark more).bind fun _ _ => .pure result

theorem reads_prefixed {op : UnaryOp} {e : Expr} (span : Span)
    (reads : Reads (inner .unary) before behind (·.bare = e.bare)) (more : before ≠ []) :
    Reads (prefixed inner) (mark op.kind :: before) behind
      (·.bare = (Expr.unary op e .before span).bare) := by
  refine (reads_advance more).bind fun t shows => ?_
  rw [Token.kind_of_glyph shows, mark_kind, op.unaryOp?_kind]
  refine reads.bind fun operand same => .pure ?_
  rw [Expr.bare, Expr.bare, same]

theorem reads_stepped {op : UnaryOp} {left e : Expr} (span : Span) (same : left.bare = e.bare)
    (more : behind ≠ []) :
    Reads (stepped left) (mark op.kind :: behind) behind
      (·.bare = (Expr.unary op e .behind span).bare) := by
  refine (reads_advance more).bind fun t shows => ?_
  rw [Token.kind_of_glyph shows, mark_kind, op.unaryOp?_kind]
  refine .pure ?_
  rw [Expr.bare, Expr.bare, same]

theorem reads_combined {op : BinaryOp} {x left right : Expr} {power : Power} (span : Span)
    (same : x.bare = left.bare)
    (reads : Reads (inner power) before behind (·.bare = right.bare)) (more : before ≠ []) :
    Reads (combined inner x power) (mark op.kind :: before) behind
      (·.bare = (Expr.binary op left right span).bare) := by
  refine (reads_advance more).bind fun t shows => ?_
  rw [Token.kind_of_glyph shows, mark_kind, op.binaryOp?_kind]
  refine reads.bind fun y like => .pure ?_
  rw [Expr.bare, Expr.bare, same, like]

theorem reads_assigned {x left right : Expr} (span : Span) (symbol : left.symbol?.isSome)
    (same : x.bare = left.bare)
    (reads : Reads (inner .lowest) before behind (·.bare = right.bare)) (more : before ≠ []) :
    Reads (assigned inner x) (mark .assignment :: before) behind
      (·.bare = (Expr.binary .assign left right span).bare) := by
  obtain ⟨i, rfl⟩ := Expr.symbol_of_isSome symbol
  obtain ⟨j, rfl⟩ := Expr.symbol_of_bare same
  refine (reads_advance more).bind fun _ _ => ?_
  refine reads.bind fun y like => .pure ?_
  rw [Expr.bare, same, like]
  rfl

theorem reads_operator {op : BinaryOp} {x left right : Expr} (span : Span)
    (target : op = .assign → left.symbol?.isSome) (same : x.bare = left.bare)
    (reads : Reads (inner op.floor) before behind (·.bare = right.bare)) (more : before ≠ []) :
    Reads (followed inner x op.power op.follow) (mark op.kind :: before) behind
      (·.bare = (Expr.binary op left right span).bare) := by
  cases op with
  | assign => exact reads_assigned span (target rfl) same reads more
  | _ => exact reads_combined span same reads more

theorem reads_arguments {args : List Expr}
    (reads : ∀ e ∈ args, ∀ k rest, k = .comma ∨ k = .closeParen →
      Reads (inner .lowest) (e.glyphs ++ mark k :: rest) (mark k :: rest) (·.bare = e.bare))
    (opens : ∀ e ∈ args, ∃ first others, e.glyphs = first :: others ∧ first.kind ≠ .closeParen)
    (more : behind ≠ []) :
    Reads (arguments inner) (parens (commas (args.map Expr.glyphs)) ++ behind) behind
      (·.map Expr.bare = args.map Expr.bare) := by
  rw [parens, List.append_assoc, List.cons_append]
  refine (reads_mark (by simp)).bind fun _ _ => ?_
  exact reads_enclosed Expr.bare (by decide) opens reads more

theorem reads_called {x : Expr} {i : Identifier} {args : List Expr} (span : Span)
    (same : x.bare = (Expr.symbol i).bare)
    (reads : Reads (arguments inner) before behind (·.map Expr.bare = args.map Expr.bare)) :
    Reads (called inner x) before behind (·.bare = (Expr.call i args span).bare) := by
  obtain ⟨j, rfl⟩ := Expr.symbol_of_bare same
  refine reads.bind fun others alike => ?_
  refine (reads_spanFrom _).bind fun _ _ => .pure ?_
  injection same with same
  rw [Expr.bare, Expr.bare, bareExprs_eq_map, bareExprs_eq_map, same, alike]

section

variable {room n : Nat} {floor power : Power} {start : Start} {follow : Follow} {left : Expr}
  {first : Glyph} {middle : List Glyph} {Result Other : Expr → Prop}

theorem reads_expressionWithin (starts : first.kind.start? = some start)
    (begins : Reads (begun (expressionWithin .full room) start) (first :: rest) middle Result)
    (goesOn : ∀ x, Result x →
      Reads (continued .full (expressionWithin .full room) floor room x) middle behind Other) :
    Reads (expressionWithin .full (room + 1) floor) (first :: rest) behind Other := by
  refine reads_current.bind fun t shows => ?_
  rw [Token.kind_of_glyph shows, show Grammar.full.start? first.kind = some start from starts]
  exact begins.bind goesOn

theorem reads_continued (follows : next.kind.follow? = some (power, follow))
    (tighter : floor.rank < power.rank)
    (takes : Reads (followed inner left power follow) (next :: rest) middle Result)
    (goesOn : ∀ x, Result x → Reads (continued .full inner floor n x) middle behind Other) :
    Reads (continued .full inner floor (n + 1) left) (next :: rest) behind Other := by
  refine reads_kind.bind fun k same => ?_
  rw [same, show Grammar.full.follow? next.kind = some (power, follow) from follows]
  dsimp only
  rw [if_neg (Nat.not_le.mpr tighter)]
  exact takes.bind goesOn

theorem reads_continued_of_pull_le (loose : next.kind.pull ≤ floor.rank) (result : Result left) :
    Reads (continued .full inner floor n left) (next :: rest) (next :: rest) Result := by
  cases n with
  | zero => exact .pure result
  | succ n =>
    refine reads_kind.bind fun k same => ?_
    rw [same, show Grammar.full.follow? next.kind = next.kind.follow? from rfl]
    rw [Token.Kind.pull] at loose
    cases follows : next.kind.follow? with
    | none => exact .pure result
    | some found =>
      obtain ⟨power, follow⟩ := found
      rw [follows, Option.elim_some] at loose
      dsimp only
      rw [if_pos loose]
      exact .pure result

end

/-- Every operand of at most `n` tokens is read within `n` tokens, to where a token stands that does
not bind tighter than the `floor`. -/
def Understood (n : Nat) : Prop :=
  ∀ (e : Expr) (loose : Bool) (floor : Power) (next : Glyph) (rest : List Glyph), e.Shaped →
    (operand loose e.glyphs).length ≤ n → (loose = false → floor.rank < e.lead) →
    next.kind.pull ≤ floor.rank →
    Reads (expressionWithin .full n floor) (operand loose e.glyphs ++ next :: rest) (next :: rest)
      (·.bare = e.bare)

/-- What is read behind an operand of `length` tokens, with the operand in hand. At least `room`
less these tokens are left. -/
def GoesOn (room : Nat) (floor : Power) (e : Expr) (length : Nat) (before behind : List Glyph)
    (Result : Expr → Prop) : Prop :=
  ∀ n x, room + 1 ≤ n + length → x.bare = e.bare →
    Reads (continued .full (expressionWithin .full room) floor n x) before behind Result

section

variable {room length total : Nat} {floor power : Power} {follow : Follow} {e whole : Expr}
  {first : Glyph} {middle : List Glyph} {Result : Expr → Prop}

/-- A token that takes the operand makes it a part of the `whole`. -/
theorem goesOn_of_follow (longer : length < total) (short : total ≤ room + 1)
    (follows : first.kind.follow? = some (power, follow)) (tighter : floor.rank < power.rank)
    (takes : ∀ x, x.bare = e.bare →
      Reads (followed (expressionWithin .full room) x power follow) (first :: before) middle
        (·.bare = whole.bare))
    (goesOn : GoesOn room floor whole total middle behind Result) :
    GoesOn room floor e length (first :: before) behind Result := by
  intro n x enough same
  obtain ⟨n, rfl⟩ : ∃ m, n = m + 1 := ⟨n - 1, by omega⟩
  apply reads_continued follows tighter (takes x same)
  intro y like
  exact goesOn n y (by omega) like

theorem reads_atom (atomic : e.power = .primary) (shaped : e.Shaped)
    (goesOn : GoesOn room floor e e.glyphs.length (next :: rest) behind Result) :
    Reads (expressionWithin .full (room + 1) floor) (e.glyphs ++ next :: rest) behind Result := by
  obtain ⟨first, shows, starts⟩ := Expr.glyphs_of_atomic atomic
  have reads := reads_primary atomic shaped (List.cons_ne_nil next rest)
  rw [shows] at reads goesOn ⊢
  apply reads_expressionWithin starts reads
  intro x same
  exact goesOn room x (Nat.le_refl _) same

variable (understood : Understood room)

include understood

theorem reads_group (shaped : e.Shaped) (short : (parens e.glyphs).length ≤ room + 1)
    (goesOn : GoesOn room floor e (parens e.glyphs).length (next :: rest) behind Result) :
    Reads (expressionWithin .full (room + 1) floor) (parens e.glyphs ++ next :: rest) behind
      Result := by
  rw [length_parens] at short goesOn
  have inside : Reads (expressionWithin .full room .lowest)
      (e.glyphs ++ mark .closeParen :: next :: rest) (mark .closeParen :: next :: rest)
      (·.bare = e.bare) :=
    understood e false _ _ _ shaped (Nat.le_of_succ_le (Nat.le_of_succ_le_succ short))
      (fun _ => e.lead_pos) (Nat.le_refl 0)
  refine reads_expressionWithin rfl (reads_grouped inside (by simp)) fun x same => ?_
  exact goesOn room x (by omega) same

theorem reads_call {callee : Identifier} {args : List Expr} {span : Span}
    (shaped : ∀ e ∈ args, e.Shaped) (above : floor.rank < Power.suffix.rank)
    (short : (Expr.call callee args span).glyphs.length ≤ room + 1)
    (goesOn : GoesOn room floor (.call callee args span)
      (Expr.call callee args span).glyphs.length (next :: rest) behind Result) :
    Reads (expressionWithin .full (room + 1) floor)
      ((Expr.call callee args span).glyphs ++ next :: rest) behind Result := by
  rw [Expr.glyphs, Expr.glyphsOfAll_eq_map] at short goesOn ⊢
  have taken : Reads (arguments (expressionWithin .full room))
      (parens (commas (args.map Expr.glyphs)) ++ next :: rest) (next :: rest)
      (·.map Expr.bare = args.map Expr.bare) := by
    apply reads_arguments
    · intro e member k rest closes
      have within := length_le_commas (List.mem_map_of_mem (f := Expr.glyphs) member)
      rw [List.length_cons, length_parens] at short
      apply understood e false .lowest _ _ (shaped e member) _ (fun _ => e.lead_pos)
      · rcases closes with rfl | rfl <;> exact Nat.le_refl 0
      · rw [operand_false]
        omega
    · exact fun e _ => e.opens.ne rfl
    · simp
  apply reads_atom (e := .symbol callee) rfl trivial
  exact goesOn_of_follow (by simp [Expr.glyphs]) short rfl above
    (fun x same => reads_called span same taken) goesOn

end

theorem reads_operand {room : Nat} (understood : Understood room) : ∀ (e : Expr) (loose : Bool)
    {floor : Power} {next : Glyph} {rest behind : List Glyph} {Result : Expr → Prop}, e.Shaped →
    (operand loose e.glyphs).length ≤ room + 1 →
    (loose = false → floor.rank < e.lead ∧ next.kind.pull ≤ e.reach) →
    GoesOn room floor e (operand loose e.glyphs).length (next :: rest) behind Result →
    Reads (expressionWithin .full (room + 1) floor) (operand loose e.glyphs ++ next :: rest) behind
      Result
  | e, true, _, _, _, _, _, shaped, short, _, goesOn => reads_group understood shaped short goesOn
  | .binary op left right span, false, floor, next, rest, behind, Result, shaped, short, fits,
      goesOn => by
    obtain ⟨target, shapedLeft, shapedRight⟩ := shaped
    obtain ⟨above, holds⟩ := fits rfl
    rw [operand_false, Expr.glyphs] at short goesOn ⊢
    rw [List.append_assoc, List.cons_append]
    rw [List.length_append, List.length_cons] at short goesOn
    apply reads_operand understood left _ shapedLeft (by omega)
    · intro tight
      rw [decide_eq_false_iff_not, Nat.not_lt] at tight
      refine ⟨Nat.lt_of_lt_of_le above (Nat.le_trans tight left.rank_le_lead), ?_⟩
      rw [mark_kind, op.pull_kind]
      exact Expr.rank_le_reach target tight
    · refine goesOn_of_follow (by omega) short op.follow?_kind above (fun x same => ?_) goesOn
      apply reads_operator span target same _ (by simp)
      apply understood right _ _ _ _ shapedRight (by omega) _ holds
      intro tight
      rw [decide_eq_false_iff_not, Nat.not_le] at tight
      exact Nat.lt_of_lt_of_le tight right.rank_le_lead
  | .unary op e .before span, false, floor, next, rest, behind, Result, shaped, short, fits,
      goesOn => by
    rw [operand_false, Expr.glyphs] at short goesOn ⊢
    rw [List.length_cons] at short goesOn
    have inside : Reads (expressionWithin .full room .unary)
        (operand (e.power.rank < Power.unary.rank) e.glyphs ++ next :: rest) (next :: rest)
        (·.bare = e.bare) := by
      apply understood e _ _ _ _ shaped.2 (Nat.le_of_succ_le_succ short) _ (fits rfl).2
      intro tight
      rw [decide_eq_false_iff_not, Nat.not_lt] at tight
      exact Expr.unary_lt_lead tight
    refine reads_expressionWithin op.start?_kind (reads_prefixed span inside (by simp))
      fun x same => ?_
    exact goesOn room x (by omega) same
  | .unary op e .behind span, false, floor, next, rest, behind, Result, shaped, short, fits,
      goesOn => by
    have step := shaped.1 rfl
    obtain ⟨above, _⟩ := fits rfl
    rw [operand_false, Expr.glyphs] at short goesOn ⊢
    rw [List.append_assoc, List.singleton_append]
    rw [List.length_append, List.length_singleton] at short goesOn
    apply reads_operand understood e _ shaped.2 (by omega)
    · intro tight
      rw [decide_eq_false_iff_not, Nat.not_lt] at tight
      refine ⟨Nat.lt_of_lt_of_le above (Nat.le_trans tight e.rank_le_lead), ?_⟩
      rw [mark_kind, UnaryOp.pull_kind step]
      exact Expr.le_reach_of_le_rank (by decide) tight
    · exact goesOn_of_follow (by omega) short (UnaryOp.follow?_kind step) above
        (fun x same => reads_stepped span same (by simp)) goesOn
  | .call callee args span, false, _, _, _, _, _, shaped, short, fits, goesOn =>
    reads_call understood (shapedExprs_iff.mp shaped) (fits rfl).1 short goesOn
  | .int .., false, _, _, _, _, _, shaped, _, _, goesOn
  | .float .., false, _, _, _, _, _, shaped, _, _, goesOn
  | .string .., false, _, _, _, _, _, shaped, _, _, goesOn
  | .char .., false, _, _, _, _, _, shaped, _, _, goesOn
  | .bool .., false, _, _, _, _, _, shaped, _, _, goesOn
  | .symbol _, false, _, _, _, _, _, shaped, _, _, goesOn => reads_atom rfl shaped goesOn
termination_by structural e => e

theorem understood : ∀ n, Understood n
  | 0 => by
    intro e loose floor next rest shaped short
    obtain ⟨first, others, shows, _⟩ := e.opens.operand loose
    rw [shows] at short
    exact absurd short (Nat.not_succ_le_zero _)
  | room + 1 => by
    intro e loose floor next rest shaped short above free
    apply reads_operand (understood room) e loose shaped short
    · intro tight
      exact ⟨above tight, Nat.le_trans free (Expr.le_reach_of_lt_lead (above tight))⟩
    · intro n x _ same
      exact reads_continued_of_pull_le free same

theorem reads_expression {e : Expr} {k : Token.Kind} (shaped : e.Shaped)
    (ends : k.follow? = none) :
    Reads (expression .full .lowest) (e.glyphs ++ mark k :: rest) (mark k :: rest)
      (·.bare = e.bare) := by
  refine .get_bind fun c here => ?_
  have short : e.glyphs.length ≤ c.room := by
    have counted := congrArg List.length here
    rw [c.length_glyphs, List.length_append, List.length_cons] at counted
    omega
  have free : (mark k).kind.pull ≤ Power.lowest.rank := by
    rw [mark_kind, Token.Kind.pull, ends]
    exact Nat.le_refl 0
  exact understood c.room e false .lowest (mark k) rest shaped short (fun _ => e.lead_pos) free

end Parse
end Curly
