import Curly.Proofs.Errors.Earliest
import Curly.Proofs.Grammar.Climbing

/-! What the layered grammar derives is read by the parser of expressions. The induction is on the
derivation, and says that the parser comes to stand behind a first operand with the operand in hand,
whatever comes next; what stands behind an operator is shorter, and is read by a parser with less
room. -/
namespace Curly
namespace Parse

section

variable {room n : Nat} {inner : Inner Parse} {p : Option Position} {t : Token}
  {tokens rest used more args : List Token} {floor layer power : Power} {e left : Expr}

theorem run_expect_of_kind {k : Token.Kind} {expectation : String} (kind : t.kind = k)
    (closed : Closed rest) :
    (expect k expectation).run (.facing p (t :: rest)) =
      .ok t (.facing (some t.span.stop) rest) := by
  rw [expect, run_current_bind, if_pos kind, run_advance closed]

theorem pullOf_of_kind {k : Token.Kind} (kind : t.kind = k) : pullOf (t :: rest) = k.pull :=
  congrArg Token.Kind.pull kind

/-- What the grammar derives from at most `n` tokens is read, before a token that leaves it as it
is. -/
def Understands (n : Nat) : Prop :=
  ∀ floor p used e rest, Layered Denotes floor .assignment used e → used.length ≤ n →
    Closed rest → pullOf rest ≤ floor.rank → pullOf rest ≤ Power.unary.rank →
    (expressionWithin .full n floor).run (.facing p (used ++ rest)) =
      .ok e (.facing (stopBehind p used) rest)

/-- The parser comes to stand behind some tokens with the expression in hand, and has lost less room
than it has passed tokens. -/
def Reaches (room : Nat) (floor : Power) (p : Option Position) (used rest : List Token)
    (e : Expr) : Prop :=
  ∃ n, room + 1 ≤ n + used.length ∧
    (expressionWithin .full (room + 1) floor).run (.facing p (used ++ rest)) =
      (continued .full (expressionWithin .full room) floor n e).run
        (.facing (stopBehind p used) rest)

theorem reaches_of_begun {start : Start} (starts : t.kind.start? = some start)
    (begins : (begun (expressionWithin .full room) start).run (.facing p (t :: (more ++ rest))) =
      .ok e (.facing (stopBehind p (t :: more)) rest)) :
    Reaches room floor p (t :: more) rest e := by
  refine ⟨room, by simp, ?_⟩
  rw [List.cons_append, run_expressionWithin room starts, EStateM.run_bind, begins]

/-- A token that takes the expression in hand makes it a part of a greater one. -/
theorem Reaches.goOn {follow : Follow} {whole : Expr}
    (reaches : Reaches room floor p used (t :: (more ++ rest)) left)
    (short : (used ++ t :: more).length ≤ room + 1)
    (follows : t.kind.follow? = some (power, follow)) (above : floor.rank < power.rank)
    (takes : (followed (expressionWithin .full room) left power follow).run
      (.facing (stopBehind p used) (t :: (more ++ rest))) =
        .ok whole (.facing (stopBehind p (used ++ t :: more)) rest)) :
    Reaches room floor p (used ++ t :: more) rest whole := by
  obtain ⟨n, enough, run⟩ := reaches
  rw [List.length_append, List.length_cons] at short
  obtain ⟨n, rfl⟩ : ∃ m, n = m + 1 := ⟨n - 1, by omega⟩
  refine ⟨n, by rw [List.length_append, List.length_cons]; omega, ?_⟩
  rw [List.append_assoc, List.cons_append, run, continued, run_kind_bind,
    show Grammar.full.follow? t.kind = some (power, follow) from follows]
  dsimp only
  rw [if_neg (Nat.not_le.mpr above), EStateM.run_bind, takes]

theorem run_primary (atom : t.atom? = some e) (closed : Closed rest) :
    primary.run (.facing p (t :: rest)) = .ok e (.facing (some t.span.stop) rest) := by
  rw [primary, EStateM.run_bind, run_advance closed]
  unfold Token.atom? at atom
  split at atom
  next kind =>
    obtain ⟨value, read, rfl⟩ := Option.map_eq_some_iff.mp atom
    simp only [kind, read]
    rfl
  next kind =>
    obtain ⟨value, read, rfl⟩ := Option.map_eq_some_iff.mp atom
    simp only [kind, read]
    rfl
  next kind => simp only [kind, ← Option.some.inj atom]; rfl
  next kind => simp only [kind, ← Option.some.inj atom]; rfl
  next kind => simp only [kind, ← Option.some.inj atom]; rfl
  next kind => simp only [kind, ← Option.some.inj atom]; rfl
  next => exact nomatch atom

theorem reaches_atom (atom : t.atom? = some e) (closed : Closed rest) :
    Reaches room floor p [t] rest e :=
  reaches_of_begun (Token.start?_of_atom atom) (run_primary atom closed)

variable (understands : Understands room)

include understands

theorem reaches_group {opening closing : Token} (opens : opening.kind = .openParen)
    (closes : closing.kind = .closeParen) (layered : Layered Denotes .lowest .assignment tokens e)
    (short : tokens.length ≤ room) (closed : Closed rest) :
    Reaches room floor p (opening :: (tokens ++ [closing])) rest e := by
  have starts : opening.kind.start? = some .group := by simp [opens, Token.Kind.start?]
  have behind : Closed (closing :: rest) := @Closed.append [closing] _ closed
  have inside := understands .lowest (some opening.span.stop) tokens e (closing :: rest) layered
    short behind (by rw [pullOf_of_kind closes]; decide) (by rw [pullOf_of_kind closes]; decide)
  apply reaches_of_begun starts
  rw [begun, grouped, EStateM.run_bind, List.append_assoc, List.singleton_append,
    run_advance behind.append]
  dsimp only
  rw [EStateM.run_bind, inside]
  dsimp only
  rw [EStateM.run_bind, run_expect_of_kind closes closed, stopBehind, stopBehind_append]
  rfl

theorem reaches_denoted {i : Identifier} (denotes : Denotes used i) (short : used.length ≤ room + 1)
    (closed : Closed rest) : Reaches room floor p used rest (.symbol i) := by
  cases denotes with
  | name names =>
    obtain ⟨t, rfl, kind, rfl⟩ := names
    exact reaches_atom (by simp [Token.atom?, kind]) closed
  | group opens closes inner =>
    rw [List.length_cons, List.length_append] at short
    have layered : Layered Denotes .lowest .assignment _ _ := inner.layered.loosen (by decide)
    exact reaches_group understands opens closes layered (by omega) closed

/-- One round of reading arguments: an argument and what separates it from the others. -/
theorem run_round {bound : Nat} {es : List Expr} {q : Option Position} {d : Cursor}
    (separates : t.kind.pull = 0)
    (layered : Layered Denotes .lowest .assignment tokens e) (short : tokens.length ≤ room)
    (closed : Closed (t :: rest))
    (passes : (comma .closeParen).run (.facing (stopBehind p tokens) (t :: rest)) =
      .ok () (.facing q more))
    (tail : (separated .closeParen (expressionWithin .full room .lowest) bound).run
      (.facing q more) = .ok es d) :
    (separated .closeParen (expressionWithin .full room .lowest) (bound + 1)).run
      (.facing p (tokens ++ t :: rest)) = .ok (e :: es) d := by
  obtain ⟨first, others, same, starts⟩ := layered.starts
  have other : first.kind ≠ .closeParen := by
    intro same
    simp [same, Token.Kind.start?] at starts
  have item : (expressionWithin .full room .lowest).run (.facing p (tokens ++ t :: rest)) =
      .ok e (.facing (stopBehind p tokens) (t :: rest)) := by
    have free (power : Power) : pullOf (t :: rest) ≤ power.rank :=
      Nat.le_trans (Nat.le_of_eq separates) (Nat.zero_le _)
    exact understands .lowest p tokens e _ layered short closed (free _) (free _)
  have here : (separated .closeParen (expressionWithin .full room .lowest) (bound + 1)).run
      (.facing p (tokens ++ t :: rest)) =
        ((expressionWithin .full room .lowest) >>= fun first => comma .closeParen >>= fun _ =>
          separated .closeParen (expressionWithin .full room .lowest) bound >>= fun others =>
            pure (first :: others)).run (.facing p (tokens ++ t :: rest)) := by
    rw [same, List.cons_append, separated, run_kind_bind, if_neg other]
  rw [here, EStateM.run_bind, item]
  dsimp only
  rw [EStateM.run_bind, passes]
  dsimp only
  rw [EStateM.run_bind, tail]
  rfl

omit understands in
theorem run_separated_none (bound : Nat) (closes : t.kind = .closeParen) :
    (separated .closeParen (inner .lowest) bound).run (.facing p (t :: rest)) =
      .ok [] (.facing p (t :: rest)) := by
  cases bound with
  | zero => rfl
  | succ bound => rw [separated, run_kind_bind, if_pos closes]; rfl

theorem run_separated {closing : Token} (closes : closing.kind = .closeParen)
    (closed : Closed (closing :: rest)) {args : List Token} {es : List Expr} (bound : Nat)
    (p : Option Position) (short : args.length ≤ room) (enough : args.length ≤ bound) :
    LayeredAll Denotes args es →
    (separated .closeParen (expressionWithin .full room .lowest) bound).run
      (.facing p (args ++ closing :: rest)) = .ok es (.facing (stopBehind p args) (closing :: rest))
  | .none => run_separated_none bound closes
  | .last layered => by
    have some := List.length_pos_iff.mpr layered.starts.ne_nil
    obtain ⟨bound, rfl⟩ : ∃ m, bound = m + 1 := ⟨bound - 1, by omega⟩
    refine run_round understands (by rw [closes]; rfl) layered short closed ?_
      (run_separated_none bound closes)
    rw [comma, run_kind_bind, if_pos closes]
    rfl
  | @LayeredAll.cons _ tokens others between _ _ layered kind listed => by
    rw [List.length_append, List.length_cons] at short enough
    obtain ⟨bound, rfl⟩ : ∃ m, bound = m + 1 := ⟨bound - 1, by omega⟩
    have behind : Closed (others ++ closing :: rest) := closed.append
    have separator : Closed (between :: (others ++ closing :: rest)) :=
      @Closed.append [between] _ behind
    have passes : (comma .closeParen).run
        (.facing (stopBehind p tokens) (between :: (others ++ closing :: rest))) =
          .ok () (.facing (some between.span.stop) (others ++ closing :: rest)) := by
      rw [comma, run_kind_bind, if_neg (by simp [kind]), EStateM.run_bind,
        run_expect_of_kind kind behind]
      rfl
    have tail := run_separated closes closed bound (some between.span.stop) (by omega) (by omega)
      listed
    rw [List.append_assoc, List.cons_append, stopBehind_append]
    exact run_round understands (by rw [kind]; rfl) layered (by omega) separator passes tail

theorem run_arguments {opening closing : Token} {es : List Expr} (opens : opening.kind = .openParen)
    (closes : closing.kind = .closeParen) (listed : LayeredAll Denotes args es)
    (short : args.length ≤ room) (closed : Closed rest) :
    (arguments (expressionWithin .full room)).run
      (.facing p (opening :: (args ++ [closing] ++ rest))) =
        .ok es (.facing (some closing.span.stop) rest) := by
  have behind : Closed (closing :: rest) := @Closed.append [closing] _ closed
  have enough : args.length ≤
      (Cursor.facing (some opening.span.stop) (args ++ closing :: rest)).room + 1 := by
    cases args with
    | nil => exact Nat.zero_le _
    | cons => simp [Cursor.facing, Cursor.room]
  have items := run_separated understands closes behind _ (some opening.span.stop) short enough
    listed
  rw [List.append_assoc, List.singleton_append, arguments, EStateM.run_bind,
    run_expect_of_kind opens behind.append]
  dsimp only
  rw [enclosed, EStateM.run_bind, EStateM.run_get]
  dsimp only
  rw [Walk.rounds_parse, EStateM.run_bind, items]
  dsimp only
  rw [EStateM.run_bind, run_expect_of_kind closes closed]
  rfl

theorem run_right {floor : Power} (layered : Layered Denotes floor layer used e)
    (short : used.length ≤ room) (closed : Closed rest) (loose : pullOf rest ≤ power.rank)
    (above : power.rank < layer.rank) (binds : power.rank ≤ Power.unary.rank) :
    (expressionWithin .full room power).run (.facing p (used ++ rest)) =
      .ok e (.facing (stopBehind p used) rest) :=
  understands power p used e rest (layered.raise (.inl above)).whole short closed loose
    (Nat.le_trans loose binds)

theorem Reaches.assigned {target value : List Token} {sign : Token} {i : Identifier}
    (reaches : Reaches room floor p target (sign :: (value ++ rest)) (.symbol i))
    (short : (target ++ sign :: value).length ≤ room + 1) (closed : Closed rest)
    (loose : pullOf rest ≤ Power.assignment.reach) (above : floor.rank < Power.assignment.rank)
    (kind : sign.kind = .assignment) (layered : Layered Denotes floor .assignment value e) :
    Reaches room floor p (target ++ sign :: value) rest
      (.binary .assign (.symbol i) e ⟨i.span.start, e.span.stop⟩) := by
  have within : value.length ≤ room := by
    rw [List.length_append, List.length_cons] at short
    omega
  have right : (expressionWithin .full room .lowest).run
      (.facing (some sign.span.stop) (value ++ rest)) =
        .ok e (.facing (stopBehind (some sign.span.stop) value) rest) :=
    run_right understands layered within closed loose (by decide) (by decide)
  have takes : (followed (expressionWithin .full room) (.symbol i) .assignment .assignment).run
      (.facing (stopBehind p target) (sign :: (value ++ rest))) =
        .ok (.binary .assign (.symbol i) e ⟨i.span.start, e.span.stop⟩)
          (.facing (stopBehind p (target ++ sign :: value)) rest) := by
    rw [Parse.followed, Parse.assigned, EStateM.run_bind, run_advance closed.append]
    dsimp only
    rw [EStateM.run_bind, right, stopBehind_append]
    rfl
  exact reaches.goOn short (by rw [kind]; rfl) above takes

theorem Reaches.combined {first second : List Token} {sign : Token} {l r : Expr} {op : BinaryOp}
    (reaches : Reaches room floor p first (sign :: (second ++ rest)) l)
    (short : (first ++ sign :: second).length ≤ room + 1) (closed : Closed rest)
    (loose : pullOf rest ≤ op.power.rank) (above : floor.rank < op.power.rank)
    (kind : sign.kind = op.kind) (other : op ≠ .assign)
    (layered : Layered Denotes floor op.power.next second r) :
    Reaches room floor p (first ++ sign :: second) rest
      (.binary op l r ⟨l.start, r.span.stop⟩) := by
  have within : second.length ≤ room := by
    rw [List.length_append, List.length_cons] at short
    omega
  have next := op.power.rank_lt_next (Nat.lt_trans op.rank_lt_unary (by decide))
  have right : (expressionWithin .full room op.power).run
      (.facing (some sign.span.stop) (second ++ rest)) =
        .ok r (.facing (stopBehind (some sign.span.stop) second) rest) :=
    run_right understands layered within closed loose next (Nat.le_of_lt op.rank_lt_unary)
  have operand : op.follow = .operand := by cases op <;> first | rfl | exact absurd rfl other
  have takes : (followed (expressionWithin .full room) l op.power op.follow).run
      (.facing (stopBehind p first) (sign :: (second ++ rest))) =
        .ok (.binary op l r ⟨l.start, r.span.stop⟩)
          (.facing (stopBehind p (first ++ sign :: second)) rest) := by
    rw [operand, Parse.followed, Parse.combined, EStateM.run_bind, run_advance closed.append]
    dsimp only
    rw [kind, op.binaryOp?_kind]
    dsimp only
    rw [EStateM.run_bind, right, stopBehind_append]
    rfl
  exact reaches.goOn short (by rw [kind, op.follow?_kind]) above takes

omit understands in
theorem Reaches.stepped {operand : List Token} {sign : Token} {op : UnaryOp}
    (reaches : Reaches room floor p operand (sign :: rest) e)
    (short : (operand ++ [sign]).length ≤ room + 1) (closed : Closed rest)
    (above : floor.rank < Power.suffix.rank) (kind : sign.kind = op.kind) (step : op.isStep) :
    Reaches room floor p (operand ++ [sign]) rest
      (.unary op e .behind ⟨e.start, sign.span.stop⟩) := by
  have takes : (followed (expressionWithin .full room) e .suffix .step).run
      (.facing (stopBehind p operand) (sign :: ([] ++ rest))) =
        .ok (.unary op e .behind ⟨e.start, sign.span.stop⟩)
          (.facing (stopBehind p (operand ++ [sign])) rest) := by
    rw [List.nil_append, Parse.followed, Parse.stepped, EStateM.run_bind, run_advance closed]
    dsimp only
    rw [kind, op.unaryOp?_kind, stopBehind_append]
    rfl
  exact reaches.goOn short (by rw [kind, op.follow?_kind step]) above takes

theorem Reaches.called {callee : List Token} {opening closing : Token} {i : Identifier}
    {es : List Expr}
    (reaches : Reaches room floor p callee (opening :: (args ++ [closing] ++ rest)) (.symbol i))
    (short : (callee ++ opening :: (args ++ [closing])).length ≤ room + 1) (closed : Closed rest)
    (above : floor.rank < Power.suffix.rank) (opens : opening.kind = .openParen)
    (closes : closing.kind = .closeParen) (listed : LayeredAll Denotes args es) :
    Reaches room floor p (callee ++ opening :: (args ++ [closing])) rest
      (.call i es ⟨i.span.start, closing.span.stop⟩) := by
  have within : args.length ≤ room := by
    rw [List.length_append, List.length_cons, List.length_append] at short
    omega
  have stop : stopBehind p (callee ++ opening :: (args ++ [closing])) =
      some closing.span.stop := by
    rw [stopBehind_append, stopBehind, stopBehind_append]
    rfl
  have takes : (followed (expressionWithin .full room) (.symbol i) .suffix .arguments).run
      (.facing (stopBehind p callee) (opening :: (args ++ [closing] ++ rest))) =
        .ok (.call i es ⟨i.span.start, closing.span.stop⟩)
          (.facing (stopBehind p (callee ++ opening :: (args ++ [closing]))) rest) := by
    obtain ⟨next, others, rfl⟩ := List.exists_cons_of_ne_nil closed.ne_nil
    rw [Parse.followed, Parse.called, EStateM.run_bind,
      run_arguments understands opens closes listed within closed, stop]
    rfl
  exact reaches.goOn short (by rw [opens]; rfl) above takes

theorem reaches_prefixed {sign : Token} {operand : List Token} {op : UnaryOp}
    (kind : sign.kind = op.kind) (layered : Layered Denotes .lowest .unary operand e)
    (short : operand.length ≤ room) (closed : Closed rest)
    (loose : pullOf rest ≤ Power.unary.rank) :
    Reaches room floor p (sign :: operand) rest
      (.unary op e .before ⟨sign.span.start, e.span.stop⟩) := by
  have tight : Layered Denotes .unary .unary operand e :=
    layered.raise (.inr ⟨Nat.le_refl _, by decide⟩)
  have inside := understands .unary (some sign.span.stop) operand e rest tight.whole short closed
    loose loose
  refine reaches_of_begun (by rw [kind, op.start?_kind]) ?_
  rw [begun, prefixed, EStateM.run_bind, run_advance closed.append]
  dsimp only
  rw [kind, op.unaryOp?_kind]
  dsimp only
  rw [EStateM.run_bind, inside]
  rfl

theorem reaches_layered {floor layer : Power} {used rest : List Token} {e : Expr}
    (short : used.length ≤ room + 1) (closed : Closed rest) (loose : pullOf rest ≤ layer.reach) :
    Layered Denotes floor layer used e → Reaches room floor p used rest e
  | .climb layered => reaches_layered short closed (Nat.le_trans loose layer.reach_le_next) layered
  | @Layered.assign _ _ target value sign i e above kind denotes layered => by
    have before : target.length ≤ room + 1 := by
      rw [List.length_append] at short
      omega
    have left : Reaches room floor p target (sign :: (value ++ rest)) (.symbol i) :=
      reaches_denoted understands denotes before (@Closed.append [sign] _ closed.append)
    exact left.assigned understands short closed loose above kind layered
  | @Layered.binary _ _ first second sign l r op other above kind left right => by
    have before : first.length ≤ room + 1 := by
      rw [List.length_append] at short
      omega
    have reach : op.power.reach = op.power.rank := by
      rw [Power.reach_eq, if_neg (Nat.not_le.mpr (BinaryOp.one_lt_rank other))]
    have pull : pullOf (sign :: (second ++ rest)) ≤ op.power.reach :=
      Nat.le_of_eq (by rw [pullOf_of_kind kind, op.pull_kind, reach])
    have reached : Reaches room floor p first (sign :: (second ++ rest)) l :=
      reaches_layered before (@Closed.append [sign] _ closed.append) pull left
    exact reached.combined understands short closed (reach ▸ loose) above kind other right
  | @Layered.before _ _ sign operand e op kind layered =>
    reaches_prefixed understands kind layered (Nat.le_of_succ_le_succ short) closed loose
  | @Layered.behind _ _ sign operand e op step above kind layered => by
    have before : operand.length ≤ room + 1 := by
      rw [List.length_append] at short
      omega
    have pull : pullOf (sign :: rest) ≤ Power.suffix.reach := pullOf_le_suffix _
    have reached := reaches_layered before (@Closed.append [sign] _ closed) pull layered
    exact reached.stepped short closed above kind step
  | @Layered.call _ _ callee args opening closing i es above denotes opens closes listed => by
    have before : callee.length ≤ room + 1 := by
      rw [List.length_append] at short
      omega
    have reached : Reaches room floor p callee (opening :: (args ++ [closing] ++ rest))
        (.symbol i) :=
      reaches_denoted understands denotes before (@Closed.append [opening] _ closed.append)
    exact reached.called understands short closed above opens closes listed
  | .atom atom => reaches_atom atom closed
  | .group opens closes inner => by
    rw [List.length_cons, List.length_append] at short
    exact reaches_group understands opens closes inner (by omega) closed
termination_by structural layered => layered

omit understands in
theorem run_continued_of_loose (n : Nat) (closed : Closed rest) (loose : pullOf rest ≤ floor.rank) :
    (continued .full inner floor n left).run (.facing p rest) = .ok left (.facing p rest) := by
  obtain ⟨t, rest, rfl⟩ := List.exists_cons_of_ne_nil closed.ne_nil
  cases n with
  | zero => rfl
  | succ n =>
    rw [continued, run_kind_bind, show Grammar.full.follow? t.kind = t.kind.follow? from rfl]
    cases follows : t.kind.follow? with
    | none => rfl
    | some found =>
      have pull : pullOf (t :: rest) = found.1.rank := by
        rw [pullOf_of_kind rfl, Token.Kind.pull, follows]
        rfl
      dsimp only
      rw [if_pos (pull ▸ loose)]
      rfl

end

theorem understands : ∀ n, Understands n
  | 0 => by
    intro floor p used e rest layered short
    exact absurd (List.length_eq_zero_iff.mp (Nat.le_zero.mp short)) layered.starts.ne_nil
  | room + 1 => by
    intro floor p used e rest layered short closed loose free
    -- What the floor excludes does not come apart before a token that the floor excludes as well.
    have reaches : Reaches room floor p used rest e := by
      by_cases binds : floor.rank < Power.unary.rank
      · exact reaches_layered (understands room) short closed
          (Nat.le_trans loose floor.rank_le_reach_next) (layered.above binds)
      · have tight : Layered Denotes floor .unary used e :=
          layered.tighten (by omega) (Nat.le_refl _) (by decide)
        have free : pullOf rest ≤ Power.unary.reach := free
        exact reaches_layered (understands room) short closed free tight
    obtain ⟨n, _, run⟩ := reaches
    rw [run, run_continued_of_loose n closed loose]

end Parse

theorem Cursor.closed_ofTokens (tokens : List Token) : Closed (Cursor.ofTokens tokens).tokens := by
  cases tokens with
  | nil => exact ⟨_, rfl, rfl⟩
  | cons t tokens =>
    obtain ⟨more, closed, same⟩ := Parse.ofTokens_facing (List.cons_ne_nil t tokens)
    rw [same]
    exact closed

namespace Parse

/-- A list of tokens is one expression at most. -/
theorem layered_unique {floor other : Power} {used : List Token} {e e' : Expr}
    (first : Layered Denotes floor .assignment used e)
    (second : Layered Denotes other .assignment used e') : e = e' := by
  have closed : Closed [Token.sample .eof] := ⟨_, rfl, rfl⟩
  have read {e : Expr} (layered : Layered Denotes .lowest .assignment used e) :=
    understands used.length .lowest none used e [.sample .eof] layered (Nat.le_refl _) closed
      (Nat.le_refl 0) (Nat.zero_le _)
  have same := (read (first.regrade (Nat.zero_le _))).symm.trans
    (read (second.regrade (Nat.zero_le _)))
  exact (EStateM.Result.ok.inj same).1

/-- The parser accepts what the layered grammar derives, and gives the one tree that it derives. An
operand of a prefix operator that stands last takes in all steps behind it, whatever the floor. -/
theorem expression_layered {c : Cursor} (closed : Closed c.tokens) (floor : Power) :
    (∀ e d, (expression .full floor).run c = .ok e d → ∃ used, c.tokens = used ++ d.tokens ∧
      Layered Denotes floor .assignment used e ∧ d.kind.pull ≤ floor.rank ∧
      ∀ other e', Layered Denotes other .assignment used e' → e' = e) ∧
    ∀ used next rest e, c.tokens = used ++ next :: rest →
      Layered Denotes floor .assignment used e →
      next.kind.pull ≤ min floor.rank Power.unary.rank →
      ∃ d, (expression .full floor).run c = .ok e d ∧ d.tokens = next :: rest := by
  refine ⟨fun e d run => ?_, fun used next rest e split layered loose => ?_⟩
  · obtain ⟨used, rest, split, closed, rfl, layered, loose⟩ :=
      climbs_expressionWithin c.room floor c.passed c.tokens closed (Nat.le_refl _) e d run
    obtain ⟨next, rest, rfl⟩ := List.exists_cons_of_ne_nil closed.ne_nil
    exact ⟨used, split, layered, loose, fun other e' derived => layered_unique derived layered⟩
  · have behind : Closed (next :: rest) :=
      (split ▸ closed).of_append (List.cons_ne_nil next rest)
    have short : used.length ≤ c.room := by
      have counted := congrArg List.length split
      rw [List.length_append, List.length_cons, Cursor.tokens, List.length_cons] at counted
      exact Nat.le_of_add_le_add_right (b := 1) (by rw [Cursor.room]; omega)
    have read := understands c.room floor c.passed used e (next :: rest) layered short behind
      (Nat.le_trans loose (Nat.min_le_left ..)) (Nat.le_trans loose (Nat.min_le_right ..))
    rw [← split] at read
    exact ⟨_, read, rfl⟩

section

/-- A token on the first line. -/
def tokenAt (kind : Token.Kind) (text : String) (column : Nat) : Token :=
  ⟨kind, text, ⟨⟨1, column⟩, ⟨1, column + text.length⟩⟩⟩

/-- `-a + f(b,)` -/
def mixed : List Token :=
  [tokenAt .dash "-" 1, tokenAt .identifier "a" 2, tokenAt .plus "+" 4,
   tokenAt .identifier "f" 6, tokenAt .openParen "(" 7, tokenAt .identifier "b" 8,
   tokenAt .comma "," 9, tokenAt .closeParen ")" 10]

theorem mixed_layered : ∃ e d, (expression .full .lowest).run (Cursor.ofTokens mixed) = .ok e d ∧
    Closed (Cursor.ofTokens mixed).tokens ∧ ∃ used,
      (Cursor.ofTokens mixed).tokens = used ++ d.tokens ∧
      Layered Denotes .lowest .assignment used e ∧ d.kind.pull ≤ Power.lowest.rank ∧
      ∀ other e', Layered Denotes other .assignment used e' → e' = e := by
  refine ⟨_, _, rfl, Cursor.closed_ofTokens mixed, ?_⟩
  exact (expression_layered (Cursor.closed_ofTokens mixed) .lowest).1 _ _ rfl

/-- `(f)(x)` -/
def groupedCall : List Token :=
  [tokenAt .openParen "(" 1, tokenAt .identifier "f" 2, tokenAt .closeParen ")" 3,
   tokenAt .openParen "(" 4, tokenAt .identifier "x" 5, tokenAt .closeParen ")" 6]

/-- A name in parentheses can be called. -/
theorem groupedCall_not_layered : ∃ e d,
    (expression .full .lowest).run (Cursor.ofTokens groupedCall) = .ok e d ∧
      ∀ used, (Cursor.ofTokens groupedCall).tokens = used ++ d.tokens →
        ¬ Layered Names .lowest .assignment used e := by
  refine ⟨_, _, rfl, fun used split layered => ?_⟩
  obtain rfl : groupedCall = used := List.append_cancel_right (by exact split)
  rcases layered.call_cases rfl with
    ⟨callee, opening, more, same, ⟨t, rfl, name, -⟩, -⟩ | ⟨_, inner, closing, same, -, layered⟩
  · obtain ⟨rfl, -⟩ := List.cons.inj same
    exact nomatch name
  -- Without the outermost tokens no call is left: `f` stands before a closing parenthesis.
  · have inside : groupedCall.tail = inner ++ [closing] := (List.cons.inj same).2
    have inside : inner = groupedCall.tail.dropLast := by rw [inside, List.dropLast_concat]
    subst inside
    rcases layered.call_cases rfl with
      ⟨callee, opening, more, same, ⟨t, rfl, -⟩, opens⟩ | ⟨opening, _, _, same, opens, -⟩
    · have second : tokenAt .closeParen ")" 3 = opening := (List.cons.inj (List.cons.inj same).2).1
      exact nomatch second ▸ opens
    · have first : tokenAt .identifier "f" 2 = opening := (List.cons.inj same).1
      exact nomatch first ▸ opens

end

end Parse
end Curly
