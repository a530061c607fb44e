import Curly.Grammar.Expression
import Curly.Proofs.Errors.Parts

/-! Expressions decide early. A number that cannot be read, a value for what is no variable and
arguments of what is no name are all found at the token that makes them so. -/
namespace Curly

namespace Token.Kind

/-- No expression goes on with a token of the kind. -/
def Ends (k : Kind) : Prop :=
  k.follow? = none

theorem ne_eof_of_start {k : Kind} {start : Start} (starts : k.start? = some start) :
    k ≠ .eof := by
  rintro rfl
  exact nomatch starts

theorem ne_eof_of_follow {k : Kind} {found : Power × Follow} (follows : k.follow? = some found) :
    k ≠ .eof := by
  rintro rfl
  exact nomatch follows

theorem unaryOp?_of_start {k : Kind} (starts : k.start? = some .operator) :
    ∃ op, k.unaryOp? = some op := by
  cases k <;> simp_all [start?, unaryOp?]

theorem unaryOp?_of_step {k : Kind} {power : Power} (follows : k.follow? = some (power, .step)) :
    ∃ op, k.unaryOp? = some op := by
  cases k <;> simp_all [follow?, unaryOp?]

theorem binaryOp?_of_operand {k : Kind} {power : Power}
    (follows : k.follow? = some (power, .operand)) : ∃ op, k.binaryOp? = some op := by
  cases k <;> simp_all [follow?, binaryOp?]

end Token.Kind

namespace Fuel

theorem room_over : room.Over bound :=
  fun _ _ => Nat.le_of_succ_le_succ

theorem room_of_bound {n length : Nat} (enough : bound.lasts n length) :
    room.lasts (n - 1) length :=
  Nat.le_trans enough (Nat.sub_le_iff_le_add.mp (Nat.le_refl (n - 1)))

/-- Two tokens are not read without room. -/
theorem room_pos {t : Token} {rest : List Token} (closed : Closed rest) :
    ¬ room.lasts 0 (t :: rest).length :=
  fun enough => closed.ne_nil (List.length_eq_zero_iff.mp
    (Nat.le_zero.mp (Nat.le_of_succ_le_succ enough)))

end Fuel

namespace Parse

variable {ι : Type} {R S : Fuel ι} {may : Token.Kind → Prop} {p : Option Position} {t : Token}
  {rest : List Token} {n : Nat}

/-- The parsers read expressions of at most `n` tokens early, each one with its own fuel. -/
def Expressions (S : Fuel ι) (n : Nat) (inner : ι → Inner Parse) : Prop :=
  ∀ floor, Prompt S true Token.Kind.Ends [.sample .identifier] n fun i => inner i floor

/-- A token that is an operand is one by itself, unless it is a number that cannot be read. -/
theorem primary_eq (starts : t.kind.start? = some .primary) :
    ∃ f, primary = advance >>= f ∧ ((∃ e, f t = pure e) ∨
      ∃ error : SyntaxError, f t = throw error ∧ error.position = t.span.start) := by
  refine ⟨_, rfl, ?_⟩
  cases here : t.kind <;>
    simp only [here, Token.Kind.start?, reduceCtorEq, Option.some.injEq] at starts
  case intLiteral =>
    cases readInt? t.value with
    | none => exact .inr ⟨_, rfl, rfl⟩
    | some value => exact .inl ⟨_, rfl⟩
  case floatLiteral =>
    cases Double.read? t.value with
    | none => exact .inr ⟨_, rfl, rfl⟩
    | some value => exact .inl ⟨_, rfl⟩
  all_goals exact .inl ⟨_, rfl⟩

theorem settles_primary (closed : Closed (t :: rest)) (starts : t.kind.start? = some .primary) :
    Settles R true may (fun _ => primary) p (t :: rest) := by
  have other := Token.Kind.ne_eof_of_start starts
  obtain ⟨f, same, ⟨e, read⟩ | ⟨error, failed, position⟩⟩ := primary_eq starts
  · rw [same]
    apply Settles.passing closed other (Nat.le_refl _) R.over_self
    rw [read]
    exact .pure e
  · rw [same]
    exact .passing_throws other (fun _ => failed) position

/-- Before a token that no expression goes on with, nothing more is read. -/
theorem run_continued {inner : Inner Parse} {floor : Power} {left : Expr} (room : Nat)
    (ends : t.kind.Ends) :
    (continued .full inner floor room left).run (.facing p (t :: rest)) =
      .ok left (.facing p (t :: rest)) := by
  cases room with
  | zero => rfl
  | succ room =>
    rw [continued, run_kind_bind, show Grammar.full.follow? t.kind = none from ends]
    rfl

section

variable {inner : ι → Inner Parse} (each : Expressions S n inner) (onward : R.Over S)
  (closed : Closed (t :: rest)) (size : rest.length ≤ n)

include each onward closed size

theorem settles_prefixed (starts : t.kind.start? = some .operator) :
    Settles R true Token.Kind.Ends (fun i => prefixed (inner i)) p (t :: rest) := by
  obtain ⟨op, known⟩ := Token.Kind.unaryOp?_of_start starts
  apply Settles.passing closed (Token.Kind.ne_eof_of_start starts) size onward
  simp only [known]
  exact (each .unary).bind (fun _ => .pure _) fun _ => id

theorem settles_grouped (starts : t.kind.start? = some .group) :
    Settles R true Token.Kind.Ends (fun i => grouped (inner i)) p (t :: rest) := by
  apply Settles.passing closed (Token.Kind.ne_eof_of_start starts) size onward
  exact (each .lowest).bind (fun e => (prompt_expect (by decide)).step fun _ => .pure e)
    fun _ _ => rfl

theorem settles_begun {start : Start} (starts : t.kind.start? = some start) :
    Settles R true Token.Kind.Ends (fun i => begun (inner i) start) p (t :: rest) := by
  cases start with
  | primary => exact settles_primary closed starts
  | operator => exact settles_prefixed each onward closed size starts
  | group => exact settles_grouped each onward closed size starts

variable {left : Expr} {power : Power}

omit each in
theorem settles_stepped (follows : t.kind.follow? = some (power, .step)) :
    Settles R true Token.Kind.Ends (fun _ => stepped left) p (t :: rest) := by
  obtain ⟨op, known⟩ := Token.Kind.unaryOp?_of_step follows
  apply Settles.passing closed (Token.Kind.ne_eof_of_follow follows) size onward
  simp only [known]
  exact .pure _

theorem settles_combined (floor : Power) (follows : t.kind.follow? = some (power, .operand)) :
    Settles R true Token.Kind.Ends (fun i => combined (inner i) left floor) p (t :: rest) := by
  obtain ⟨op, known⟩ := Token.Kind.binaryOp?_of_operand follows
  apply Settles.passing closed (Token.Kind.ne_eof_of_follow follows) size onward
  simp only [known]
  exact (each floor).bind (fun _ => .pure _) fun _ => id

/-- What is no variable is assigned to at the sign of assignment. -/
theorem settles_assigned (other : t.kind ≠ .eof) :
    Settles R true Token.Kind.Ends (fun i => assigned (inner i) left) p (t :: rest) := by
  cases left with
  | symbol i =>
    apply Settles.passing closed other size onward
    exact (each .lowest).bind (fun _ => .pure _) fun _ => id
  | _ => exact .passing_throws other (fun _ => rfl) rfl

/-- What is no name is called at the parenthesis before the arguments. -/
theorem settles_called :
    Settles R true Token.Kind.Ends (fun i => called (inner i) left) p (t :: rest) := by
  cases left with
  | symbol callee =>
    have opening : Settles R true anything (fun _ => expect .openParen) p (t :: rest) :=
      (prompt_expect (by decide)).settles p _ closed (Nat.le_refl _)
    have args : Settles R true anything (fun i => arguments (inner i)) p (t :: rest) :=
      opening.bind (Nat.succ_le_succ size) onward
        (fun _ => prompt_enclosed (by decide) (each .lowest) rfl) fun _ _ => trivial
    exact args.andThen (Nat.le_refl _) (fun _ => (Prompt.spanFrom _).step fun _ => .pure _)
      fun _ _ => trivial
  | _ =>
    have refused : Settles R true Token.Kind.Ends
        (fun _ => Parse.start >>= fun s => (throw ⟨.callTarget, s⟩ : Parse Expr)) p (t :: rest) :=
      .start (.throws rfl fun _ _ _ _ => ⟨_, rfl⟩)
    exact refused

theorem settles_followed {follow : Follow} (follows : t.kind.follow? = some (power, follow))
    (floor : Power) : Settles R true Token.Kind.Ends
      (fun i => followed (inner i) left floor follow) p (t :: rest) := by
  cases follow with
  | assignment =>
    exact settles_assigned each onward closed size (Token.Kind.ne_eof_of_follow follows)
  | operand => exact settles_combined each onward closed size floor follows
  | step => exact settles_stepped onward closed size follows
  | arguments => exact settles_called each onward closed size

end

theorem over_bound : (S.both .room).Over (S.both .bound) :=
  fun _ _ enough => ⟨S.less (Nat.le_succ _) enough.1, Fuel.room_over _ _ enough.2⟩

theorem prompt_continued {inner : ι → Inner Parse} (each : Expressions S n inner) (floor : Power)
    (left : Expr) : Prompt (S.both .room) false Token.Kind.Ends [] (n + 1)
      fun i => continued .full (inner i.1) floor i.2 left := by
  refine .bySize (m := fun left (i : ι × Nat) => continued .full (inner i.1) floor i.2 left)
    (fun left p => ?_) (fun l less shorter left p t rest closed size => ?_) left
  · rintro tokens ⟨_, t, first, ends⟩
    obtain ⟨rest, rfl⟩ := List.head?_eq_some_iff.mp first
    exact ⟨left, p, fun i _ => run_continued i.2 ends⟩
  cases follows : t.kind.follow? with
  | none => exact .stays closed fun i after _ _ => run_continued i.2 follows
  | some found =>
    obtain ⟨power, follow⟩ := found
    have settled : Settles (S.both .room) false Token.Kind.Ends (fun i =>
        if power.rank ≤ floor.rank then pure left else (do
          let left ← followed (inner i.1) left power follow
          continued .full (inner i.1) floor (i.2 - 1) left)) p (t :: rest) := by
      split
      · exact (Prompt.pure left).settles p _ closed (Nat.le_refl _)
      · have within : rest.length ≤ n := Nat.le_trans size (Nat.le_of_lt_succ less)
        have first : Settles (S.both .room) true Token.Kind.Ends
            (fun i => followed (inner i.1) left power follow) p (t :: rest) :=
          (settles_followed each S.over_self closed within follows power).left
        have others (left : Expr) : Prompt (S.both .bound) false Token.Kind.Ends [] l fun i =>
            continued .full (inner i.1) floor (i.2 - 1) left :=
          (shorter left).follow fun p tokens closed i lasts =>
            ⟨(i.1, i.2 - 1), ⟨lasts.1, Fuel.room_of_bound lasts.2⟩, rfl⟩
        exact (first.bind (Nat.succ_le_succ size) over_bound others fun _ => id).weaken
    refine settled.congr fun i after closed lasts => ?_
    obtain ⟨i, _ | room⟩ := i
    · exact absurd lasts.2 (Fuel.room_pos (closed.tail (Token.Kind.ne_eof_of_follow follows)))
    · rw [continued, run_kind_bind,
        show Grammar.full.follow? t.kind = some (power, follow) from follows]
      rfl

theorem run_expressionWithin {start : Start} {floor : Power} (room : Nat)
    (starts : t.kind.start? = some start) :
    (expressionWithin .full (room + 1) floor).run (.facing p (t :: rest)) =
      (begun (expressionWithin .full room) start >>=
        continued .full (expressionWithin .full room) floor room).run (.facing p (t :: rest)) := by
  rw [expressionWithin, run_current_bind, show Grammar.full.start? t.kind = some start from starts]
  rfl

theorem run_expressionWithin_none {floor : Power} (room : Nat) (absent : t.kind.start? = none) :
    (expressionWithin .full room floor).run (.facing p (t :: rest)) =
      .error (.unexpected t) (.facing p (t :: rest)) := by
  cases room with
  | zero => rfl
  | succ room =>
    rw [expressionWithin, run_current_bind, show Grammar.full.start? t.kind = none from absent]
    rfl

theorem completes_expressionWithin (floor : Power) (p : Option Position) :
    Completes .room Token.Kind.Ends (fun i => expressionWithin .full i floor) p
      [.sample .identifier] := by
  rintro tokens ⟨closed, t, first, ends⟩
  obtain ⟨rest, rfl⟩ := List.head?_eq_some_iff.mp first
  refine ⟨.symbol ⟨"", ⟨.unknown, .unknown⟩⟩, some .unknown, fun i lasts => ?_⟩
  cases i with
  | zero => exact absurd lasts (Fuel.room_pos closed)
  | succ room => exact run_continued room ends

theorem prompt_expressionWithin (n : Nat) : Expressions .room n (expressionWithin .full) := by
  refine Prompt.bySize completes_expressionWithin fun l _ shorter floor p t rest closed size => ?_
  cases starts : t.kind.start? with
  | none => exact .throws rfl fun i _ _ _ => ⟨_, run_expressionWithin_none i starts⟩
  | some start =>
    have inside : Expressions .bound l fun i => expressionWithin .full (i - 1) :=
      fun floor => (shorter floor).follow fun _ _ _ i lasts =>
        ⟨i - 1, Fuel.room_of_bound lasts, rfl⟩
    have first : Settles .room true Token.Kind.Ends
        (fun i => begun (expressionWithin .full (i - 1)) start) p (t :: rest) :=
      settles_begun inside Fuel.room_over closed size starts
    have others (left : Expr) : Prompt .bound false Token.Kind.Ends [] l fun i =>
        continued .full (expressionWithin .full (i - 1)) floor (i - 1) left :=
      ((prompt_continued inside floor left).shorten (Nat.le_succ l)).follow fun _ _ _ i lasts =>
        ⟨(i, i - 1), ⟨lasts, Fuel.room_of_bound lasts⟩, rfl⟩
    refine (first.bind (Nat.succ_le_succ size) Fuel.room_over others fun _ => id).congr
      fun i after closed lasts => ?_
    cases i with
    | zero =>
      exact absurd lasts (Fuel.room_pos (closed.tail (Token.Kind.ne_eof_of_start starts)))
    | succ room => exact run_expressionWithin room starts

theorem prompt_expression (floor : Power) :
    Prompt R true Token.Kind.Ends [.sample .identifier] n fun _ => expression .full floor := by
  have within : Prompt (R.both .room) true Token.Kind.Ends [.sample .identifier] n
      fun i => expressionWithin .full i.2 floor :=
    (prompt_expressionWithin n floor).follow fun _ _ _ i lasts => ⟨i.2, lasts.2, rfl⟩
  exact prompt_sized within id fun _ _ lasts => ⟨lasts, Nat.le_refl _⟩

end Parse
end Curly
