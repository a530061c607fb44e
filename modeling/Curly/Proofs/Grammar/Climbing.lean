import Curly.Proofs.Errors.Expressions
import Curly.Proofs.Grammar.Layers

/-! What the parser of expressions accepts is an expression of the layered grammar. What has been
read so far is an expression of some layer, and the next token is one that leaves it as it is or
takes it as an operand; so the loop over operators climbs down from layer to layer. -/
namespace Curly

/-- The end of the last of some tokens, if there are any. -/
def stopBehind (p : Option Position) : List Token → Option Position
  | [] => p
  | t :: tokens => stopBehind (some t.span.stop) tokens

theorem stopBehind_append (p : Option Position) (front tokens : List Token) :
    stopBehind p (front ++ tokens) = stopBehind (stopBehind p front) tokens := by
  induction front generalizing p with
  | nil => rfl
  | cons t front ih => exact ih _

/-- How tightly the next token takes the expression in front of it. -/
def pullOf (tokens : List Token) : Nat :=
  tokens.head?.elim 0 fun t => t.kind.pull

theorem pullOf_of_closed {tokens : List Token} (closed : Closed tokens)
    (short : tokens.length ≤ 1) : pullOf tokens = 0 := by
  obtain ⟨t, last, ends⟩ := closed
  obtain ⟨u, rfl⟩ : ∃ u, tokens = [u] := by
    cases tokens with
    | nil => exact nomatch last
    | cons u rest => exact ⟨u, by simpa using short⟩
  obtain rfl : u = t := by simpa using last
  simp [pullOf, Token.Kind.pull, ends, Token.Kind.follow?]

theorem pullOf_le_suffix (tokens : List Token) : pullOf tokens ≤ Power.suffix.rank := by
  unfold pullOf
  cases tokens with
  | nil => exact Nat.zero_le _
  | cons t tokens =>
    rw [List.head?_cons, Option.elim_some, Token.Kind.pull]
    cases t.kind <;> decide

namespace Token.Kind

theorem eq_of_unaryOp {k : Kind} {op : UnaryOp} (known : k.unaryOp? = some op) : k = op.kind := by
  cases k <;> simp [unaryOp?] at known <;> subst known <;> rfl

theorem eq_of_binaryOp {k : Kind} {op : BinaryOp} (known : k.binaryOp? = some op) :
    k = op.kind := by
  cases k <;> simp [binaryOp?] at known <;> subst known <;> rfl

end Token.Kind

namespace Parse

section

variable {α β : Type} {parse : Parse α} {p : Option Position} {t : Token} {tokens rest : List Token}
  {Result Other : List Token → List Token → α → Prop} {Next : List Token → List Token → β → Prop}
  {x : α}

/-- Where the parser accepts the tokens it passes some of them, and `Result` holds of these, of
the tokens left and of what the parser gives. -/
def Takes (parse : Parse α) (p : Option Position) (tokens : List Token)
    (Result : List Token → List Token → α → Prop) : Prop :=
  ∀ x d, parse.run (.facing p tokens) = .ok x d → ∃ used rest, tokens = used ++ rest ∧
    Closed rest ∧ d = .facing (stopBehind p used) rest ∧ Result used rest x

namespace Takes

theorem pure (closed : Closed tokens) (result : Result [] tokens x) :
    Takes (pure x) p tokens Result := by
  intro y d run
  obtain ⟨rfl, rfl⟩ := EStateM.Result.ok.inj run
  exact ⟨[], tokens, rfl, closed, rfl, result⟩

theorem throws {error : SyntaxError} : Takes (throw error : Parse α) p tokens Result :=
  nofun

theorem bind {continuation : α → Parse β} (head : Takes parse p tokens Result)
    (tail : ∀ x used rest, tokens = used ++ rest → Closed rest → Result used rest x →
      Takes (continuation x) (stopBehind p used) rest fun more => Next (used ++ more)) :
    Takes (parse >>= continuation) p tokens Next := by
  intro y d run
  rw [EStateM.run_bind] at run
  cases first : parse.run (.facing p tokens) with
  | error error c => simp [first] at run
  | ok x c =>
    rw [first] at run
    obtain ⟨used, rest, same, closed, rfl, result⟩ := head x c first
    obtain ⟨more, rest', rfl, closed', rfl, next⟩ := tail x used rest same closed result y d run
    refine ⟨used ++ more, rest', by simp [same], closed', ?_, next⟩
    rw [stopBehind_append]

theorem mono (takes : Takes parse p tokens Result)
    (weaker : ∀ used rest x, Result used rest x → Other used rest x) :
    Takes parse p tokens Other := by
  intro x d run
  obtain ⟨used, rest, same, closed, there, result⟩ := takes x d run
  exact ⟨used, rest, same, closed, there, weaker used rest x result⟩

theorem kind_bind {continuation : Token.Kind → Parse β}
    (tail : Takes (continuation t.kind) p (t :: rest) Next) :
    Takes (kind >>= continuation) p (t :: rest) Next :=
  tail

theorem current_bind {continuation : Token → Parse β}
    (tail : Takes (continuation t) p (t :: rest) Next) :
    Takes (current >>= continuation) p (t :: rest) Next :=
  tail

theorem start_bind {continuation : Position → Parse β}
    (tail : Takes (continuation t.span.start) p (t :: rest) Next) :
    Takes (start >>= continuation) p (t :: rest) Next :=
  tail

theorem get_bind {continuation : Cursor → Parse β}
    (tail : Takes (continuation (.facing p tokens)) p tokens Next) :
    Takes (get >>= continuation) p tokens Next :=
  tail

theorem spanFrom_bind {begin : Position} {continuation : Span → Parse β}
    (tail : Takes (continuation ⟨begin, p.getD t.span.start⟩) p (t :: rest) Next) :
    Takes (spanFrom begin >>= continuation) p (t :: rest) Next :=
  tail

theorem advance_bind {continuation : Token → Parse β} (closed : Closed (t :: rest))
    (other : t.kind ≠ .eof)
    (tail : Takes (continuation t) (some t.span.stop) rest fun used => Next (t :: used)) :
    Takes (Parse.advance >>= continuation) p (t :: rest) Next := by
  intro y d run
  rw [EStateM.run_bind, run_advance (closed.tail other)] at run
  obtain ⟨used, rest', rfl, closed, there, next⟩ := tail y d run
  exact ⟨t :: used, rest', rfl, closed, there, next⟩

theorem expect {k : Token.Kind} {expectation : String} (closed : Closed tokens)
    (other : k ≠ .eof) :
    Takes (expect k expectation) p tokens fun used _ t => used = [t] ∧ t.kind = k := by
  obtain ⟨t, rest, rfl⟩ := List.exists_cons_of_ne_nil closed.ne_nil
  intro x d run
  rw [Parse.expect, run_current_bind] at run
  by_cases same : t.kind = k
  · rw [if_pos same, run_advance (closed.tail (same ▸ other))] at run
    obtain ⟨rfl, rfl⟩ := EStateM.Result.ok.inj run
    exact ⟨[t], rest, rfl, closed.tail (same ▸ other), rfl, rfl, same⟩
  · rw [if_neg same] at run
    split at run <;> exact nomatch run

end Takes

/-- The parser reads the expressions that the grammar derives, from at most `n` tokens before the
last one. -/
def Climbs (n : Nat) (inner : Inner Parse) : Prop :=
  ∀ floor p tokens, Closed tokens → tokens.length ≤ n + 1 →
    Takes (inner floor) p tokens fun used rest e =>
      Layered Denotes floor .assignment used e ∧ pullOf rest ≤ floor.rank

end

section

variable {n : Nat} {inner : Inner Parse} {p : Option Position} {t : Token}
  {tokens rest : List Token}
  {close : Token.Kind} {floor : Power}

/-- What is read of an expression so far: it is an expression of some layer, which the next token
does not break up. -/
def Stands (floor : Power) (used rest : List Token) (e : Expr) : Prop :=
  ∃ layer, Layered Denotes floor layer used e ∧ pullOf rest ≤ layer.reach

theorem Stands.layered {used : List Token} {e : Expr} {power : Power}
    (stands : Stands floor used (t :: rest) e)
    (pull : t.kind.pull = power.rank) (binds : 1 < power.rank) :
    Layered Denotes floor power used e := by
  obtain ⟨layer, layered, holds⟩ := stands
  have reach := layer.reach_eq
  have here : pullOf (t :: rest) = power.rank := pull
  refine layered.loosen ?_
  split at reach <;> omega

theorem takes_primary (closed : Closed (t :: rest)) (starts : t.kind.start? = some .primary) :
    Takes primary p (t :: rest) fun used _ e => used = [t] ∧ t.atom? = some e := by
  refine .advance_bind closed (Token.Kind.ne_eof_of_start starts) ?_
  have closed := closed.tail (Token.Kind.ne_eof_of_start starts)
  split
  next kind =>
    split
    next value => exact .pure closed ⟨rfl, by simp [Token.atom?, kind, value]⟩
    next => exact .throws
  next kind =>
    split
    next value => exact .pure closed ⟨rfl, by simp [Token.atom?, kind, value]⟩
    next => exact .throws
  next kind => exact .pure closed ⟨rfl, by simp [Token.atom?, kind]⟩
  next kind => exact .pure closed ⟨rfl, by simp [Token.atom?, kind]⟩
  next kind => exact .pure closed ⟨rfl, by simp [Token.atom?, kind]⟩
  next kind => exact .pure closed ⟨rfl, by simp [Token.atom?, kind]⟩
  next => exact .throws

theorem takes_grouped (closed : Closed (t :: rest)) (opens : t.kind = .openParen)
    (size : rest.length ≤ n + 1) (climbs : Climbs n inner) :
    Takes (grouped inner) p (t :: rest) fun used _ e => ∃ tokens closing,
      used = t :: (tokens ++ [closing]) ∧ closing.kind = .closeParen ∧
        Layered Denotes .lowest .assignment tokens e := by
  have other : t.kind ≠ .eof := by simp [opens]
  refine .advance_bind closed other ?_
  refine (climbs .lowest _ rest (closed.tail other) size).bind
    fun e used rest' _ closed ⟨layered, _⟩ => ?_
  refine (Takes.expect closed (by decide)).bind fun closing last rest _ closed ⟨same, kind⟩ => ?_
  subst same
  exact .pure closed ⟨used, closing, by simp, kind, layered⟩

theorem takes_prefixed (closed : Closed (t :: rest)) (starts : t.kind.start? = some .operator)
    (size : rest.length ≤ n + 1) (climbs : Climbs n inner) :
    Takes (prefixed inner) p (t :: rest) fun used rest e =>
      Layered Denotes floor .unary used e ∧ pullOf rest ≤ Power.unary.rank := by
  obtain ⟨op, known⟩ := Token.Kind.unaryOp?_of_start starts
  have other := Token.Kind.ne_eof_of_start starts
  refine .advance_bind closed other ?_
  simp only [known]
  refine (climbs .unary _ rest (closed.tail other) size).bind
    fun e used rest _ closed ⟨layered, loose⟩ => .pure closed ⟨?_, loose⟩
  have operand : Layered Denotes .lowest .unary used e :=
    (layered.tighten (by decide) (by decide) (by decide)).regrade (by decide)
  simpa using Layered.before op (Token.Kind.eq_of_unaryOp known) operand

theorem takes_begun {start : Start} (closed : Closed (t :: rest))
    (starts : t.kind.start? = some start) (size : rest.length ≤ n + 1) (climbs : Climbs n inner) :
    Takes (begun inner start) p (t :: rest) fun used rest e =>
      used ≠ [] ∧ Stands floor used rest e := by
  cases start with
  | primary =>
    refine (takes_primary closed starts).mono fun used rest e taken => ?_
    obtain ⟨same, atom⟩ := taken
    exact ⟨by simp [same], .primary, same ▸ .atom atom, Nat.le_succ_of_le (pullOf_le_suffix rest)⟩
  | operator =>
    have takes : Takes (prefixed inner) p (t :: rest) fun used rest e =>
        Layered Denotes floor .unary used e ∧ pullOf rest ≤ Power.unary.rank :=
      takes_prefixed closed starts size climbs
    refine takes.mono fun used rest e taken => ?_
    obtain ⟨layered, loose⟩ := taken
    exact ⟨layered.starts.ne_nil, .unary, layered, loose⟩
  | group =>
    have opens : t.kind = .openParen := by
      cases kind : t.kind <;> simp_all [Token.Kind.start?]
    refine (takes_grouped closed opens size climbs).mono fun used rest e taken => ?_
    obtain ⟨tokens, closing, same, closes, layered⟩ := taken
    exact ⟨by simp [same], .primary, same ▸ .group opens closes layered,
      Nat.le_succ_of_le (pullOf_le_suffix rest)⟩

variable {left : Expr} {used : List Token} {layer power : Power}

theorem takes_combined {op : BinaryOp} (closed : Closed (t :: rest)) (size : rest.length ≤ n + 1)
    (climbs : Climbs n inner) (known : t.kind.binaryOp? = some op) (other : op ≠ .assign)
    (above : floor.rank < op.power.rank) (layered : Layered Denotes floor op.power used left) :
    Takes (combined inner left op.power) p (t :: rest) fun more rest e =>
      more ≠ [] ∧ Stands floor (used ++ more) rest e := by
  have kind := Token.Kind.eq_of_binaryOp known
  refine .advance_bind closed (by rw [kind]; cases op <;> decide) ?_
  simp only [known]
  have closed := closed.tail (by rw [kind]; cases op <;> decide)
  refine (climbs op.power _ rest closed size).bind
    fun e more rest _ closed ⟨right, loose⟩ => .pure closed ⟨by simp, op.power, ?_, ?_⟩
  · have second := (right.above op.rank_lt_unary).regrade (Nat.le_of_lt above)
    simpa using Layered.binary op other above kind layered second
  · rw [Power.reach_eq, if_neg (Nat.not_le.mpr (BinaryOp.one_lt_rank other))]
    exact loose

theorem takes_assigned (closed : Closed (t :: rest)) (size : rest.length ≤ n + 1)
    (climbs : Climbs n inner) (kind : t.kind = .assignment)
    (above : floor.rank < Power.assignment.rank) (stands : Stands floor used (t :: rest) left) :
    Takes (assigned inner left) p (t :: rest) fun more rest e =>
      more ≠ [] ∧ Stands floor (used ++ more) rest e := by
  have other : t.kind ≠ .eof := by simp [kind]
  refine .advance_bind closed other ?_
  split
  next i =>
    obtain ⟨layer, layered, _⟩ := stands
    refine (climbs .lowest _ rest (closed.tail other) size).bind
      fun e more rest _ closed ⟨value, loose⟩ => .pure closed ⟨by simp, .assignment, ?_, loose⟩
    have lowest : floor = .lowest := Power.rank_injective (Nat.lt_one_iff.mp above)
    subst lowest
    rw [List.append_nil]
    exact Layered.assign above kind (layered.denotes rfl) value
  next => exact .throws

theorem takes_stepped {op : UnaryOp} (closed : Closed (t :: rest))
    (known : t.kind.unaryOp? = some op) (step : op.isStep) (above : floor.rank < Power.suffix.rank)
    (layered : Layered Denotes floor .suffix used left) :
    Takes (stepped left) p (t :: rest) fun more rest e =>
      more ≠ [] ∧ Stands floor (used ++ more) rest e := by
  have kind := Token.Kind.eq_of_unaryOp known
  have other : t.kind ≠ .eof := by rw [kind]; cases op <;> decide
  refine .advance_bind closed other ?_
  simp only [known]
  exact .pure (closed.tail other)
    ⟨by simp, .suffix, .behind op step above kind layered, pullOf_le_suffix rest⟩

theorem takes_comma (closed : Closed tokens) :
    Takes (comma close) p tokens fun used rest _ =>
      (used = [] ∧ ∃ t others, rest = t :: others ∧ t.kind = close) ∨
        ∃ t, used = [t] ∧ t.kind = .comma := by
  obtain ⟨t, rest, rfl⟩ := List.exists_cons_of_ne_nil closed.ne_nil
  refine .kind_bind ?_
  split
  next same => exact .pure closed (.inl ⟨rfl, t, rest, rfl, same⟩)
  next =>
    refine (Takes.expect closed (by decide)).bind fun u used rest _ closed ⟨same, kind⟩ => ?_
    exact .pure closed (.inr ⟨u, by simp [same], kind⟩)

/-- The bound on the number of items is never what ends a list of arguments that is accepted. -/
theorem takes_separated (climbs : Climbs n inner) (bound : Nat) (closed : Closed tokens)
    (size : tokens.length ≤ n + 1) :
    Takes (separated .closeParen (inner .lowest) bound) p tokens fun used _ es =>
      LayeredAll Denotes used es ∧
        ((∃ t others, tokens = t :: others ∧ t.kind = .closeParen) → used = [] ∧ es = []) := by
  induction bound generalizing p tokens with
  | zero => exact .pure closed ⟨.none, fun _ => ⟨rfl, rfl⟩⟩
  | succ bound ih =>
    obtain ⟨t, rest, rfl⟩ := List.exists_cons_of_ne_nil closed.ne_nil
    refine .kind_bind ?_
    split
    next => exact .pure closed ⟨.none, fun _ => ⟨rfl, rfl⟩⟩
    next other =>
      have here : ¬ ∃ u others, t :: rest = u :: others ∧ u.kind = .closeParen := by
        rintro ⟨u, others, same, kind⟩
        obtain ⟨rfl, -⟩ := List.cons.inj same
        exact other kind
      refine (climbs .lowest p _ closed size).bind
        fun e used rest split closed ⟨layered, _⟩ => ?_
      have size : rest.length ≤ n + 1 := by
        rw [split, List.length_append] at size
        omega
      refine (takes_comma closed).bind fun _ comma rest split closed passed => ?_
      have size : rest.length ≤ n + 1 := by
        rw [split, List.length_append] at size
        omega
      refine (ih closed size).bind fun es more rest _ closed ⟨listed, absent⟩ => .pure closed ?_
      refine ⟨?_, fun closes => absurd closes here⟩
      rcases passed with ⟨rfl, ends⟩ | ⟨c, rfl, kind⟩
      · obtain ⟨rfl, rfl⟩ := absent ends
        simpa using LayeredAll.last layered
      · simpa using LayeredAll.cons layered kind listed

theorem takes_arguments (closed : Closed (t :: rest)) (size : rest.length ≤ n + 1)
    (climbs : Climbs n inner) :
    Takes (arguments inner) p (t :: rest) fun used _ es => ∃ args closing,
      used = t :: (args ++ [closing]) ∧ t.kind = .openParen ∧ closing.kind = .closeParen ∧
        LayeredAll Denotes args es := by
  refine (Takes.expect closed (by decide)).bind fun opening used rest' split closed passed => ?_
  obtain ⟨rfl, opens⟩ := passed
  obtain ⟨rfl, rfl⟩ := List.cons.inj split
  refine .get_bind ?_
  refine (takes_separated climbs _ closed size).bind fun es args rest _ closed ⟨listed, _⟩ => ?_
  refine (Takes.expect closed (by decide)).bind fun closing used rest _ closed ⟨same, closes⟩ => ?_
  subst same
  exact .pure closed ⟨args, closing, by simp, opens, closes, listed⟩

theorem takes_called (closed : Closed (t :: rest)) (size : rest.length ≤ n + 1)
    (climbs : Climbs n inner) (above : floor.rank < Power.suffix.rank)
    (stands : Stands floor used (t :: rest) left) :
    Takes (called inner left) p (t :: rest) fun more rest e =>
      more ≠ [] ∧ Stands floor (used ++ more) rest e := by
  cases left with
  | symbol i =>
    obtain ⟨layer, layered, _⟩ := stands
    refine (takes_arguments closed size climbs).bind fun es more rest _ closed passed => ?_
    obtain ⟨args, closing, rfl, opens, closes, listed⟩ := passed
    obtain ⟨u, rest, rfl⟩ := List.exists_cons_of_ne_nil closed.ne_nil
    refine .spanFrom_bind (.pure closed ⟨by simp, .suffix, ?_, pullOf_le_suffix _⟩)
    have stop : stopBehind p (t :: (args ++ [closing])) = some closing.span.stop := by
      rw [stopBehind, stopBehind_append]
      rfl
    rw [stop, List.append_nil]
    exact Layered.call above (layered.denotes rfl) opens closes listed
  | _ => exact .start_bind .throws

theorem takes_followed {follow : Follow} (closed : Closed (t :: rest))
    (size : rest.length ≤ n + 1) (climbs : Climbs n inner)
    (follows : t.kind.follow? = some (power, follow)) (above : floor.rank < power.rank)
    (stands : Stands floor used (t :: rest) left) :
    Takes (followed inner left power follow) p (t :: rest) fun more rest e =>
      more ≠ [] ∧ Stands floor (used ++ more) rest e := by
  have pull : t.kind.pull = power.rank := by rw [Token.Kind.pull, follows]; rfl
  cases follow with
  | assignment =>
    have kind : t.kind = .assignment := by
      cases kind : t.kind <;> simp_all [Token.Kind.follow?]
    obtain rfl : Power.assignment = power := by simpa [kind, Token.Kind.follow?] using follows
    exact takes_assigned closed size climbs kind above stands
  | operand =>
    obtain ⟨op, known⟩ := Token.Kind.binaryOp?_of_operand follows
    have found := op.follow?_kind
    rw [← Token.Kind.eq_of_binaryOp known, follows] at found
    obtain ⟨rfl, same⟩ := Prod.mk.inj (Option.some.inj found)
    have other : op ≠ .assign := by
      rintro rfl
      cases same
    have layered := stands.layered pull (BinaryOp.one_lt_rank other)
    exact takes_combined closed size climbs known other above layered
  | step =>
    obtain ⟨op, known⟩ := Token.Kind.unaryOp?_of_step follows
    obtain ⟨rfl, step⟩ : power = .suffix ∧ op.isStep := by
      cases kind : t.kind <;> simp_all [Token.Kind.follow?, Token.Kind.unaryOp?] <;>
        simp [← known, UnaryOp.isStep]
    exact takes_stepped closed known step above (stands.layered pull (by decide))
  | arguments =>
    obtain rfl : Power.suffix = power := by
      cases kind : t.kind <;> simp_all [Token.Kind.follow?]
    exact takes_called closed size climbs above stands

theorem takes_continued (climbs : Climbs n inner) (room : Nat) (closed : Closed rest)
    (size : rest.length ≤ room + 1) (within : room ≤ n + 1) (stands : Stands floor used rest left) :
    Takes (continued .full inner floor room left) p rest fun more rest e =>
      Layered Denotes floor .assignment (used ++ more) e ∧ pullOf rest ≤ floor.rank := by
  induction room generalizing p used rest left with
  | zero =>
    obtain ⟨layer, layered, _⟩ := stands
    refine .pure closed ⟨?_, by rw [pullOf_of_closed closed size]; exact Nat.zero_le _⟩
    rw [List.append_nil]
    exact layered.whole
  | succ room ih =>
    obtain ⟨t, rest, rfl⟩ := List.exists_cons_of_ne_nil closed.ne_nil
    have whole (loose : t.kind.pull ≤ floor.rank) : Takes (pure left) p (t :: rest)
        fun more rest e =>
          Layered Denotes floor .assignment (used ++ more) e ∧ pullOf rest ≤ floor.rank := by
      obtain ⟨layer, layered, _⟩ := stands
      refine .pure closed ⟨?_, loose⟩
      rw [List.append_nil]
      exact layered.whole
    refine .kind_bind ?_
    split
    next absent =>
      have absent : t.kind.follow? = none := absent
      exact whole (by simp [Token.Kind.pull, absent])
    next power follow follows =>
      have follows : t.kind.follow? = some (power, follow) := follows
      split
      next loose => exact whole (by simpa [Token.Kind.pull, follows] using loose)
      next above =>
        have size : rest.length ≤ room + 1 := Nat.le_of_succ_le_succ size
        have takes : Takes (followed inner left power follow) p (t :: rest) fun more rest e =>
            more ≠ [] ∧ Stands floor (used ++ more) rest e :=
          takes_followed closed (by omega) climbs follows (by omega) stands
        refine takes.bind fun e more rest' split closed taken => ?_
        obtain ⟨nonempty, stands⟩ := taken
        have shorter := congrArg List.length split
        have passed := List.length_pos_iff.mpr nonempty
        rw [List.length_append, List.length_cons] at shorter
        simpa using ih closed (by omega) (by omega) stands

theorem climbs_expressionWithin (room : Nat) : Climbs room (expressionWithin .full room) := by
  induction room with
  | zero =>
    intro floor p tokens closed size
    exact nofun
  | succ room ih =>
    intro floor p tokens closed size
    obtain ⟨t, rest, rfl⟩ := List.exists_cons_of_ne_nil closed.ne_nil
    rw [expressionWithin]
    refine .current_bind ?_
    split
    next => exact .throws
    next start starts =>
      have size : rest.length ≤ room + 1 := Nat.le_of_succ_le_succ size
      have takes : Takes (begun (expressionWithin .full room) start) p (t :: rest)
          fun used rest e => used ≠ [] ∧ Stands floor used rest e :=
        takes_begun closed starts size ih
      refine takes.bind fun e used rest' split closed taken => ?_
      obtain ⟨nonempty, stands⟩ := taken
      have shorter := congrArg List.length split
      have passed := List.length_pos_iff.mpr nonempty
      rw [List.length_append, List.length_cons] at shorter
      exact takes_continued ih room closed (by omega) (Nat.le_succ room) stands

end

end Parse
end Curly
