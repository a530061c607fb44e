import Curly.Proofs.Grammar.Expressions

/-! The layered grammar of expressions. It has one layer for each power: an expression of a layer
is one of the next tighter layer, or is built by the operators of the layer itself. A `floor` is
carried along that the operators have to bind tighter than, outside parentheses and operands of
prefix operators. -/
namespace Curly

namespace Power

/-- The next tighter layer. -/
def next : Power → Power
  | .lowest => .assignment
  | .assignment => .logicalOr
  | .logicalOr => .logicalAnd
  | .logicalAnd => .bitwiseOr
  | .bitwiseOr => .bitwiseXor
  | .bitwiseXor => .bitwiseAnd
  | .bitwiseAnd => .equality
  | .equality => .relational
  | .relational => .shift
  | .shift => .additive
  | .additive => .multiplicative
  | .multiplicative => .unary
  | .unary => .suffix
  | .suffix | .primary => .primary

/-- The pull of a token up to which the token leaves an expression of the layer as it is. A value
that is assigned takes in all operators behind it. -/
def reach : Power → Nat
  | .lowest | .assignment => 0
  | p => p.rank

theorem rank_injective {p q : Power} (same : p.rank = q.rank) : p = q := by
  have at_rank (p : Power) : all[p.rank]? = some p := by cases p <;> rfl
  exact Option.some.inj ((at_rank p).symm.trans (same ▸ at_rank q))

theorem rank_le (p : Power) : p.rank ≤ Power.primary.rank := by cases p <;> decide

theorem rank_next (p : Power) : p.next.rank = min (p.rank + 1) Power.primary.rank := by
  cases p <;> rfl

theorem rank_lt_next (p : Power) (below : p.rank < Power.primary.rank) : p.rank < p.next.rank := by
  rw [rank_next]
  exact Nat.lt_min.mpr ⟨Nat.lt_succ_self _, below⟩

theorem reach_le_next (p : Power) : p.reach ≤ p.next.reach := by cases p <;> decide

theorem rank_le_reach_next (p : Power) : p.rank ≤ p.next.reach := by cases p <;> decide

theorem reach_eq (p : Power) : p.reach = if p.rank ≤ 1 then 0 else p.rank := by cases p <;> rfl

end Power

/-- The expression that a token is by itself. -/
def Token.atom? (t : Token) : Option Expr :=
  match t.kind with
  | .intLiteral => (readInt? t.value).map (.int · t.span)
  | .floatLiteral => (Double.read? t.value).map (.float · t.span)
  | .stringLiteral => some (.string t.value t.span)
  | .charLiteral => some (.char (t.value.toList.headD '\x00') t.span)
  | .boolLiteral => some (.bool (t.value = "true") t.span)
  | .identifier => some (.symbol ⟨t.value, t.span⟩)
  | _ => none

/-- An identifier. -/
def Names (tokens : List Token) (i : Identifier) : Prop :=
  ∃ t, tokens = [t] ∧ t.kind = .identifier ∧ i = ⟨t.value, t.span⟩

/-- An identifier that may be in parentheses. -/
inductive Denotes : List Token → Identifier → Prop
  | name {tokens : List Token} {i : Identifier} : Names tokens i → Denotes tokens i
  | group {opening closing : Token} {tokens : List Token} {i : Identifier} :
    opening.kind = .openParen → closing.kind = .closeParen → Denotes tokens i →
    Denotes (opening :: (tokens ++ [closing])) i

mutual

/-- The tokens are an expression of the layer. What can be called is a parameter. -/
inductive Layered (Callee : List Token → Identifier → Prop) :
    (floor layer : Power) → List Token → Expr → Prop
  | climb {floor layer : Power} {tokens : List Token} {e : Expr} :
    Layered Callee floor layer.next tokens e → Layered Callee floor layer tokens e
  | assign {floor : Power} {target value : List Token} {sign : Token} {i : Identifier} {e : Expr} :
    floor.rank < Power.assignment.rank → sign.kind = .assignment → Denotes target i →
    Layered Callee floor .assignment value e →
    Layered Callee floor .assignment (target ++ sign :: value)
      (.binary .assign (.symbol i) e ⟨i.span.start, e.span.stop⟩)
  | binary {floor : Power} {first second : List Token} {sign : Token} {left right : Expr}
    (op : BinaryOp) :
    op ≠ .assign → floor.rank < op.power.rank → sign.kind = op.kind →
    Layered Callee floor op.power first left → Layered Callee floor op.power.next second right →
    Layered Callee floor op.power (first ++ sign :: second)
      (.binary op left right ⟨left.start, right.span.stop⟩)
  | before {floor : Power} {sign : Token} {operand : List Token} {e : Expr} (op : UnaryOp) :
    sign.kind = op.kind → Layered Callee .lowest .unary operand e →
    Layered Callee floor .unary (sign :: operand)
      (.unary op e .before ⟨sign.span.start, e.span.stop⟩)
  | behind {floor : Power} {sign : Token} {operand : List Token} {e : Expr} (op : UnaryOp) :
    op.isStep → floor.rank < Power.suffix.rank → sign.kind = op.kind →
    Layered Callee floor .suffix operand e →
    Layered Callee floor .suffix (operand ++ [sign])
      (.unary op e .behind ⟨e.start, sign.span.stop⟩)
  | call {floor : Power} {callee args : List Token} {opening closing : Token} {i : Identifier}
    {es : List Expr} :
    floor.rank < Power.suffix.rank → Callee callee i → opening.kind = .openParen →
    closing.kind = .closeParen → LayeredAll Callee args es →
    Layered Callee floor .suffix (callee ++ opening :: (args ++ [closing]))
      (.call i es ⟨i.span.start, closing.span.stop⟩)
  | atom {floor : Power} {t : Token} {e : Expr} :
    t.atom? = some e → Layered Callee floor .primary [t] e
  | group {floor : Power} {opening closing : Token} {tokens : List Token} {e : Expr} :
    opening.kind = .openParen → closing.kind = .closeParen →
    Layered Callee .lowest .assignment tokens e →
    Layered Callee floor .primary (opening :: (tokens ++ [closing])) e

/-- Expressions with commas between them, and perhaps one behind the last. -/
inductive LayeredAll (Callee : List Token → Identifier → Prop) : List Token → List Expr → Prop
  | none : LayeredAll Callee [] []
  | last {tokens : List Token} {e : Expr} :
    Layered Callee .lowest .assignment tokens e → LayeredAll Callee tokens [e]
  | cons {tokens others : List Token} {comma : Token} {e : Expr} {es : List Expr} :
    Layered Callee .lowest .assignment tokens e → comma.kind = .comma →
    LayeredAll Callee others es → LayeredAll Callee (tokens ++ comma :: others) (e :: es)

end

namespace Layered

variable {Callee : List Token → Identifier → Prop} {floor layer goal lower : Power}
  {tokens : List Token} {e : Expr} {i : Identifier}

/-- The floor may be lowered. -/
theorem regrade {floor layer : Power} {tokens : List Token} {e : Expr}
    (le : lower.rank ≤ floor.rank) :
    Layered Callee floor layer tokens e → Layered Callee lower layer tokens e
  | climb layered => climb (layered.regrade le)
  | assign above sign target value =>
    assign (Nat.lt_of_le_of_lt le above) sign target (value.regrade le)
  | binary op other above sign left right =>
    binary op other (Nat.lt_of_le_of_lt le above) sign (left.regrade le) (right.regrade le)
  | before op sign operand => before op sign operand
  | behind op step above sign operand =>
    behind op step (Nat.lt_of_le_of_lt le above) sign (operand.regrade le)
  | call above callee opening closing args =>
    call (Nat.lt_of_le_of_lt le above) callee opening closing args
  | atom same => atom same
  | group opening closing inner => group opening closing inner
termination_by structural layered => layered

/-- In a layer above the floor there are no operators that the floor excludes. -/
theorem raise {floor layer : Power} {tokens : List Token} {e : Expr}
    (above : goal.rank < layer.rank ∨
      Power.unary.rank ≤ layer.rank ∧ goal.rank < Power.suffix.rank) :
    Layered Callee floor layer tokens e → Layered Callee goal layer tokens e
  | climb layered => climb (layered.raise (by
      have next := layer.rank_next
      have := layer.rank_le
      omega))
  | assign _ sign target value => by
    have above : goal.rank < Power.assignment.rank :=
      above.resolve_right fun tight => absurd tight.1 (by decide)
    exact assign above sign target (value.raise (.inl above))
  | binary op other _ sign left right => by
    have above : goal.rank < op.power.rank :=
      above.resolve_right fun tight => Nat.not_le.mpr op.rank_lt_unary tight.1
    have next := op.power.rank_lt_next (Nat.lt_trans op.rank_lt_unary (by decide))
    exact binary op other above sign (left.raise (.inl above))
      (right.raise (.inl (Nat.lt_trans above next)))
  | before op sign operand => before op sign operand
  | behind op step _ sign operand => by
    have above : goal.rank < Power.suffix.rank := above.elim id And.right
    exact behind op step above sign (operand.raise (.inl above))
  | call _ callee opening closing args =>
    call (above.elim id And.right) callee opening closing args
  | atom same => atom same
  | group opening closing inner => group opening closing inner
termination_by structural layered => layered

/-- An expression of a tighter layer is one of a looser layer. -/
theorem loosen (layered : Layered Callee floor layer tokens e) (le : goal.rank ≤ layer.rank) :
    Layered Callee floor goal tokens e := by
  induction far : layer.rank - goal.rank generalizing goal with
  | zero => exact Power.rank_injective (by omega : layer.rank = goal.rank) ▸ layered
  | succ far ih =>
    have next := goal.rank_next
    have := layer.rank_le
    exact climb (ih (by omega) (by omega))

/-- The layers that a floor excludes are only passed through. -/
theorem tighten {floor layer : Power} {tokens : List Token} {e : Expr}
    (above : goal.rank ≤ floor.rank + 1) (binds : goal.rank ≤ Power.unary.rank)
    (le : layer.rank ≤ goal.rank) :
    Layered Callee floor layer tokens e → Layered Callee floor goal tokens e
  | climb layered => by
    by_cases same : layer.rank = goal.rank
    · exact Power.rank_injective same ▸ climb layered
    · have next := layer.rank_next
      exact layered.tighten above binds (by omega)
  | assign here sign target value => by
    have same : goal.rank = Power.assignment.rank := by omega
    exact Power.rank_injective same ▸ assign here sign target value
  | binary op other here sign left right => by
    have same : goal.rank = op.power.rank := by omega
    exact Power.rank_injective same ▸ binary op other here sign left right
  | before op sign operand => by
    have same : goal.rank = Power.unary.rank := by omega
    exact Power.rank_injective same ▸ before op sign operand
  | behind .. | call .. | atom .. | group .. => absurd (Nat.le_trans le binds) (by decide)
termination_by structural layered => layered

/-- What binds tighter than a power is of the layer next to it. -/
theorem above (layered : Layered Callee floor .assignment tokens e)
    (binds : floor.rank < Power.unary.rank) : Layered Callee floor floor.next tokens e := by
  have next := floor.rank_next
  have loosest : Power.assignment.rank ≤ floor.next.rank := by cases floor <;> decide
  have : Power.unary.rank < Power.primary.rank := by decide
  exact layered.tighten (by omega) (by omega) loosest

/-- No operator belongs to the lowest power. -/
theorem whole (layered : Layered Callee floor layer tokens e) :
    Layered Callee floor .assignment tokens e := by
  by_cases lowest : layer = .lowest
  · cases layered with
    | climb layered =>
      subst lowest
      exact layered
    | binary op => cases op <;> exact nomatch lowest
    | _ => exact nomatch lowest
  · exact layered.loosen (by cases layer <;> first | exact absurd rfl lowest | decide)

/-- Only a name, in parentheses or not, is a variable. -/
theorem denotes {floor layer : Power} {tokens : List Token} {e : Expr} (symbol : e = .symbol i) :
    Layered Callee floor layer tokens e → Denotes tokens i
  | climb layered => layered.denotes symbol
  | atom (t := t) same => by
    subst symbol
    refine .name ⟨t, rfl, ?_⟩
    cases kind : t.kind <;> simp_all [Token.atom?]
  | group opening closing inner => .group opening closing (inner.denotes symbol)
  | assign .. | binary .. | before .. | behind .. | call .. => nomatch symbol
termination_by structural layered => layered

/-- A call is made of what is called and its arguments, or stands in parentheses. -/
theorem call_cases {floor layer : Power} {tokens : List Token} {e : Expr} {es : List Expr}
    {span : Span} (called : e = .call i es span) : Layered Callee floor layer tokens e →
    (∃ callee opening more, tokens = callee ++ opening :: more ∧ Callee callee i ∧
      opening.kind = .openParen) ∨
    ∃ opening inner closing, tokens = opening :: (inner ++ [closing]) ∧
      opening.kind = .openParen ∧ Layered Callee .lowest .assignment inner e
  | climb layered => layered.call_cases called
  | call _ callee opening _ _ => by
    obtain ⟨rfl, -, -⟩ := Expr.call.inj called
    exact .inl ⟨_, _, _, rfl, callee, opening⟩
  | atom same => by
    subst called
    unfold Token.atom? at same
    split at same <;> simp_all
  | group opening closing inner => .inr ⟨_, _, _, rfl, opening, inner⟩
  | assign .. | binary .. | before .. | behind .. => nomatch called
termination_by structural layered => layered

end Layered

theorem Denotes.layered {Callee : List Token → Identifier → Prop} {floor : Power}
    {tokens : List Token} {i : Identifier} (denotes : Denotes tokens i) :
    Layered Callee floor .primary tokens (.symbol i) := by
  induction denotes generalizing floor with
  | name names =>
    obtain ⟨t, rfl, kind, rfl⟩ := names
    exact .atom (by simp [Token.atom?, kind])
  | group opening closing _ ih => exact .group opening closing (ih.loosen (by decide))

theorem Token.start?_of_atom {t : Token} {e : Expr} (atom : t.atom? = some e) :
    t.kind.start? = some .primary := by
  cases kind : t.kind <;> simp_all [Token.atom?, Token.Kind.start?]

/-- Some token of which an expression can begin stands first. -/
def Starts (tokens : List Token) : Prop :=
  ∃ t more, tokens = t :: more ∧ t.kind.start?.isSome

theorem Starts.ne_nil {tokens : List Token} (starts : Starts tokens) : tokens ≠ [] := by
  obtain ⟨t, more, rfl, -⟩ := starts
  exact List.cons_ne_nil t more

theorem Starts.append {tokens : List Token} (starts : Starts tokens) (others : List Token) :
    Starts (tokens ++ others) := by
  obtain ⟨t, more, rfl, start⟩ := starts
  exact ⟨t, more ++ others, rfl, start⟩

theorem Denotes.starts {tokens : List Token} {i : Identifier} (denotes : Denotes tokens i) :
    Starts tokens := by
  cases denotes with
  | name names =>
    obtain ⟨t, rfl, kind, rfl⟩ := names
    exact ⟨t, [], rfl, by simp [kind, Token.Kind.start?]⟩
  | group opening => exact ⟨_, _, rfl, by simp [opening, Token.Kind.start?]⟩

theorem Layered.starts {floor layer : Power} {tokens : List Token} {e : Expr} :
    Layered Denotes floor layer tokens e → Starts tokens
  | .climb layered => layered.starts
  | .assign _ _ target _ => target.starts.append _
  | .binary _ _ _ _ left _ => left.starts.append _
  | .before op sign _ => ⟨_, _, rfl, by simp [sign, op.start?_kind]⟩
  | .behind _ _ _ _ operand => operand.starts.append _
  | .call _ callee _ _ _ => callee.starts.append _
  | .atom same => ⟨_, _, rfl, by simp [Token.start?_of_atom same]⟩
  | .group opening _ _ => ⟨_, _, rfl, by simp [opening, Token.Kind.start?]⟩
termination_by structural layered => layered

end Curly
