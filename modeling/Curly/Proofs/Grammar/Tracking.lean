import Curly.Proofs.Errors.Earliest
import Curly.Proofs.Grammar.Limited

/-! A parser that may be given up beside the one that counts its tokens. What is read takes tokens
from the front of those that are left, and every item of a loop and every layer takes one at least.
So no parser is given up if the limit is the number of tokens, and both come to the same end. -/
namespace Curly.Run

variable {α β : Type} {limit : Nat} {p : Option Position} {t : Token} {tokens rest : List Token}
  {moves : Bool} {n : Nat}

/-- If the parser has success it has passed tokens, one at least if it `moves`, and not the last
one. -/
def Walks (moves : Bool) (m : Parse α) (p : Option Position) (tokens : List Token) : Prop :=
  ∀ x c, m.run (.facing p tokens) = .ok x c →
    ∃ q rest, c = .facing q rest ∧ Closed rest ∧ rest.length + moves.toNat ≤ tokens.length

/-- Wherever it begins, the run comes to what the parser comes to. -/
def Alike (u : Run limit α) (m : Parse α) : Prop :=
  ∀ c, u c = ofParse m c

/-- The run ends as the parser does. -/
structure Ends (moves : Bool) (u : Run limit α) (m : Parse α) (p : Option Position)
    (tokens : List Token) : Prop where
  same : u (.facing p tokens) = ofParse m (.facing p tokens)
  walks : Walks moves m p tokens

/-- On texts of at most `n` tokens the run ends as the parser does. -/
def Tracks (n : Nat) (moves : Bool) (u : Run limit α) (m : Parse α) : Prop :=
  ∀ p tokens, Closed tokens → tokens.length ≤ n → Ends moves u m p tokens

section

variable {u : Run limit α} {k : α → Run limit β} {m : Parse α} {l : α → Parse β} {c d : Cursor}
  {x : α} {error : SyntaxError}

theorem ofParse_of_ok (run : m.run c = .ok x d) : ofParse m c = some (.ok (x, d)) := by
  rw [ofParse, run]

theorem ofParse_of_error (run : m.run c = .error error d) : ofParse m c = some (.error error) := by
  rw [ofParse, run]

theorem run_kind_bind (f : Token.Kind → Run limit α) :
    (Parse.kind >>= f) (.facing p (t :: rest)) = f t.kind (.facing p (t :: rest)) := rfl

theorem run_current_bind (f : Token → Run limit α) :
    (Parse.current >>= f) (.facing p (t :: rest)) = f t (.facing p (t :: rest)) := rfl

theorem bind_of_ok (run : u c = some (.ok (x, d))) : (u >>= k) c = k x d := by
  change Option.bind (u c) _ = _
  rw [run]
  rfl

theorem bind_of_error (run : u c = some (.error error)) : (u >>= k) c = some (.error error) := by
  change Option.bind (u c) _ = _
  rw [run]
  rfl

theorem ofParse_bind_of_ok (run : m.run c = .ok x d) : ofParse (m >>= l) c = ofParse (l x) d := by
  rw [ofParse, EStateM.run_bind, run]
  rfl

theorem ofParse_bind_of_error (run : m.run c = .error error d) :
    ofParse (m >>= l) c = some (.error error) := by
  rw [ofParse, EStateM.run_bind, run]

end

theorem Walks.of_settles {may : Token.Kind → Prop} {m : Parse α} (closed : Closed tokens)
    (settles : Parse.Settles .endless moves may (fun _ => m) p tokens) :
    Walks moves m p tokens := by
  intro x c run
  cases settles with
  | accepts used rest y q same ends accepted =>
    subst same
    have given := accepted.gives rest ends rfl () trivial
    obtain ⟨-, rfl⟩ := EStateM.Result.ok.inj (run.symm.trans given)
    refine ⟨q, rest, rfl, ends, ?_⟩
    have := accepted.toNat_le_length
    rw [List.length_append]
    omega
  | rejects before t after error same rejected =>
    subst same
    have ends : Closed (t :: after) := closed.of_append (List.cons_ne_nil t after)
    obtain ⟨_, failed⟩ := rejected.fails after ends () trivial
    rw [run] at failed
    cases failed

namespace Alike

variable {u v : Run limit α} {m w : Parse α} {c : Prop} [Decidable c]

theorem ite (yes : Alike u m) (no : Alike v w) :
    Alike (if c then u else v) (if c then m else w) := by
  split
  · exact yes
  · exact no

theorem kind {f : Token.Kind → Run limit α} {g : Token.Kind → Parse α}
    (each : ∀ k, Alike (f k) (g k)) : Alike (Parse.kind >>= f) (Parse.kind >>= g) :=
  fun c => each c.kind c

theorem current {f : Token → Run limit α} {g : Token → Parse α} (each : ∀ t, Alike (f t) (g t)) :
    Alike (Parse.current >>= f) (Parse.current >>= g) :=
  fun c => each c.current c

theorem expect {k : Token.Kind} {expectation : String} :
    Alike (Parse.expect k expectation : Run limit Token) (Parse.expect k expectation) :=
  current fun _ => .ite (fun _ => rfl) (.ite (fun _ => rfl) fun _ => rfl)

end Alike

namespace Ends

variable {u : Run limit α} {m : Parse α}

theorem pure (closed : Closed tokens) (x : α) :
    Ends false (pure x : Run limit α) (pure x) p tokens := by
  refine ⟨rfl, fun y c run => ?_⟩
  obtain ⟨-, rfl⟩ := EStateM.Result.ok.inj run
  exact ⟨p, tokens, rfl, closed, Nat.le_refl _⟩

theorem throw (error : SyntaxError) :
    Ends moves (throw error : Run limit α) (throw error) p tokens :=
  ⟨rfl, nofun⟩

theorem weaken (ends : Ends moves u m p tokens) : Ends false u m p tokens := by
  refine ⟨ends.same, fun x c run => ?_⟩
  obtain ⟨q, rest, same, closed, walked⟩ := ends.walks x c run
  exact ⟨q, rest, same, closed, Nat.le_trans (Nat.le_add_right _ _) walked⟩

theorem bind {k : α → Run limit β} {l : α → Parse β} (head : Ends moves u m p tokens)
    (size : tokens.length ≤ n + moves.toNat) (tail : ∀ x, Tracks n false (k x) (l x)) :
    Ends moves (u >>= k) (m >>= l) p tokens := by
  cases run : m.run (.facing p tokens) with
  | error error c =>
    refine ⟨?_, fun y d passed => ?_⟩
    · rw [ofParse_bind_of_error run, bind_of_error (head.same.trans (ofParse_of_error run))]
    · rw [EStateM.run_bind, run] at passed
      cases passed
  | ok x c =>
    obtain ⟨q, rest, rfl, closed, walked⟩ := head.walks x c run
    have behind := tail x q rest closed (by omega)
    refine ⟨?_, fun y d passed => ?_⟩
    · rw [ofParse_bind_of_ok run, bind_of_ok (head.same.trans (ofParse_of_ok run)), behind.same]
    · rw [EStateM.run_bind, run] at passed
      obtain ⟨r, others, same, ends, further⟩ := behind.walks y d passed
      exact ⟨r, others, same, ends, Nat.le_trans (Nat.add_le_add_right further _) walked⟩

/-- Only what the run and the parser do from a given token on matters. -/
theorem congr {v : Run limit α} {w : Parse α} (ends : Ends moves v w p tokens)
    (run : u (.facing p tokens) = v (.facing p tokens))
    (parse : m.run (.facing p tokens) = w.run (.facing p tokens)) : Ends moves u m p tokens := by
  refine ⟨?_, fun x c passed => ends.walks x c (parse ▸ passed)⟩
  rw [run, ends.same, Run.ofParse, Run.ofParse, parse]

section

variable {f : Token.Kind → Run limit α} {g : Token.Kind → Parse α} {h : Token → Run limit α}
  {j : Token → Parse α}

theorem start {f : Position → Run limit α} {g : Position → Parse α}
    (ends : Ends moves (f t.span.start) (g t.span.start) p (t :: rest)) :
    Ends moves (Parse.start >>= f) (Parse.start >>= g) p (t :: rest) :=
  ⟨ends.same, ends.walks⟩

theorem kind (ends : Ends moves (f t.kind) (g t.kind) p (t :: rest)) :
    Ends moves (Parse.kind >>= f) (Parse.kind >>= g) p (t :: rest) :=
  ⟨ends.same, ends.walks⟩

theorem current (ends : Ends moves (h t) (j t) p (t :: rest)) :
    Ends moves (Parse.current >>= h) (Parse.current >>= j) p (t :: rest) :=
  ⟨ends.same, ends.walks⟩

/-- What is read behind the first token. -/
theorem passing (closed : Closed (t :: rest)) (other : t.kind ≠ .eof) (size : rest.length ≤ n)
    (tail : Tracks n false (h t) (j t)) :
    Ends true (Parse.advance >>= h) (Parse.advance >>= j) p (t :: rest) := by
  have here : Ends true (Parse.advance : Run limit Token) Parse.advance p (t :: rest) :=
    ⟨rfl, .of_settles closed (@Parse.Settles.advance _ _ anything _ _ _ closed other)⟩
  have passed := here.bind (Nat.succ_le_succ size) fun _ => tail
  obtain ⟨u, others, rfl⟩ := List.exists_cons_of_ne_nil (closed.tail other).ne_nil
  exact ⟨passed.same, passed.walks⟩

end

end Ends

namespace Tracks

variable {u v : Run limit α} {m w : Parse α} {k : α → Run limit β} {l : α → Parse β} {c : Prop}
  [Decidable c]

/-- There is a first token. -/
theorem of_cons (each : ∀ p t rest, Closed (t :: rest) → rest.length < n →
    Ends moves u m p (t :: rest)) : Tracks n moves u m := by
  intro p tokens closed size
  obtain ⟨t, rest, rfl⟩ := List.exists_cons_of_ne_nil closed.ne_nil
  exact each p t rest closed size

theorem zero : Tracks 0 moves u m :=
  of_cons fun _ _ _ _ size => absurd size (Nat.not_lt_zero _)

theorem pure (x : α) : Tracks n false (pure x : Run limit α) (pure x) :=
  fun _ _ closed _ => .pure closed x

theorem throw (error : SyntaxError) : Tracks n moves (throw error : Run limit α) (throw error) :=
  fun _ _ _ _ => .throw error

theorem weaken (tracks : Tracks n moves u m) : Tracks n false u m :=
  fun p tokens closed size => (tracks p tokens closed size).weaken

theorem any (tracks : Tracks n true u m) : Tracks n moves u m := by
  cases moves with
  | false => exact tracks.weaken
  | true => exact tracks

theorem shorten {n' : Nat} (tracks : Tracks n moves u m) (less : n' ≤ n) : Tracks n' moves u m :=
  fun p tokens closed size => tracks p tokens closed (Nat.le_trans size less)

theorem bind (head : Tracks n moves u m) (tail : ∀ x, Tracks n false (k x) (l x)) :
    Tracks n moves (u >>= k) (m >>= l) := fun p tokens closed size =>
  (head p tokens closed size).bind (Nat.le_add_right_of_le size) tail

theorem ite (yes : Tracks n moves u m) (no : Tracks n moves v w) :
    Tracks n moves (if c then u else v) (if c then m else w) := by
  split
  · exact yes
  · exact no

theorem map {f : α → β} (tracks : Tracks n moves u m) : Tracks n moves (f <$> u) (f <$> m) := by
  have mapped : Tracks n moves (u >>= fun x => Pure.pure (f x)) (m >>= fun x => Pure.pure (f x)) :=
    tracks.bind fun x => .pure (f x)
  intro p tokens closed size
  exact (mapped p tokens closed size).congr rfl rfl

theorem of_prompt {may : Token.Kind → Prop} {fill : List Token} (alike : Alike u m)
    (prompt : Parse.Prompt .endless moves may fill n fun _ => m) : Tracks n moves u m :=
  fun p tokens closed size =>
    ⟨alike _, .of_settles closed (prompt.settles p tokens closed size)⟩

/-- A parser that begins with a look at the place. -/
theorem first {f : Position → Run limit α} {g : Position → Parse α}
    (tail : ∀ begin, Tracks n moves (f begin) (g begin)) :
    Tracks n moves (Parse.start >>= f) (Parse.start >>= g) :=
  of_cons fun p t _ closed size => (tail t.span.start p _ closed size).start

theorem start : Tracks n false (Parse.start : Run limit Position) Parse.start :=
  of_prompt (fun _ => rfl) .start

theorem spanFrom (begin : Position) :
    Tracks n false (Parse.spanFrom begin : Run limit Span) (Parse.spanFrom begin) :=
  of_prompt (fun _ => rfl) (.spanFrom begin)

/-- A parser at its end, where the span is known. -/
theorem spanned (begin : Position) (f : Span → α) :
    Tracks n false (Parse.spanFrom begin >>= fun span => Pure.pure (f span) : Run limit α)
      (Parse.spanFrom begin >>= fun span => Pure.pure (f span)) :=
  (spanFrom begin).bind fun span => .pure (f span)

theorem kind : Tracks n false (Parse.kind : Run limit Token.Kind) Parse.kind :=
  of_prompt (fun _ => rfl) (@Parse.Prompt.looks _ _ _ anything _ _ _ fun _ _ _ => rfl)

theorem expect {k : Token.Kind} {expectation : String} (other : k ≠ .eof) :
    Tracks n moves (Parse.expect k expectation : Run limit Token) (Parse.expect k expectation) :=
  any (of_prompt .expect (Parse.prompt_expect other))

theorem skip {k : Token.Kind} (other : k ≠ .eof) :
    Tracks n false (Parse.skip k : Run limit Bool) (Parse.skip k) :=
  of_prompt (.kind fun _ => .ite (fun _ => rfl) fun _ => rfl) (Parse.prompt_skip other)

theorem behind? {k : Token.Kind} (other : k ≠ .eof) (item : Tracks n false u m) :
    Tracks n false (Parse.behind? k u) (Parse.behind? k m) :=
  (skip other).bind fun _ => .ite (item.bind fun x => .pure (some x)) (.pure none)

theorem before? {k : Token.Kind} (item : Tracks n false u m) :
    Tracks n false (Parse.before? k u) (Parse.before? k m) :=
  kind.bind fun _ => .ite (.pure none) (item.bind fun x => .pure (some x))

theorem comma {close : Token.Kind} :
    Tracks n false (Parse.comma close : Run limit Unit) (Parse.comma close) :=
  kind.bind fun _ => .ite (.pure ()) ((expect (by decide)).bind fun _ => .pure ())

/-- A parser with a bound that is taken from the number of tokens. -/
theorem sized {f : Cursor → Run limit α} {g : Cursor → Parse α}
    (each : ∀ c : Cursor, c.room + 1 ≤ n → Tracks (c.room + 1) moves (f c) (g c)) :
    Tracks n moves (get >>= f) (get >>= g) := by
  refine of_cons fun p t rest closed size => ?_
  have ends := each (.facing p (t :: rest)) size p _ closed (Nat.le_refl _)
  exact ⟨ends.same, ends.walks⟩

/-- A loop over items with commas ends, since every item passes a token. -/
theorem rounds_separated {close : Token.Kind} (each : Tracks n true u m) {length rounds bound : Nat}
    (less : length ≤ n) (allowed : length ≤ rounds) (enough : length ≤ bound) :
    Tracks length false (Parse.separated close u rounds) (Parse.separated close m bound) := by
  induction length generalizing rounds bound with
  | zero => exact zero
  | succ length ih =>
    obtain ⟨rounds, rfl⟩ := Nat.exists_eq_add_one.mpr (show 0 < rounds by omega)
    obtain ⟨bound, rfl⟩ := Nat.exists_eq_add_one.mpr (show 0 < bound by omega)
    refine of_cons fun p t rest closed size => ?_
    rw [Parse.separated, Parse.separated]
    refine .kind ?_
    split
    · exact .pure closed []
    · have here : Ends true u m p (t :: rest) := each p _ closed (Nat.le_trans size less)
      have others := ih (by omega) (Nat.le_of_succ_le_succ allowed) (Nat.le_of_succ_le_succ enough)
      refine (here.bind (n := length) size fun x => ?_).weaken
      exact comma.bind fun _ => others.bind fun xs => .pure (x :: xs)

theorem enclosed {close : Token.Kind} (allowed : n ≤ limit) (other : close ≠ .eof)
    (each : Tracks n true u m) :
    Tracks n false (Parse.enclosed close u) (Parse.enclosed close m) :=
  sized fun _ size => (rounds_separated each size (Nat.le_trans size allowed) (Nat.le_refl _)).bind
    fun items => (expect other).bind fun _ => .pure items

/-- A loop up to a token ends, since every item passes a token. -/
theorem rounds_upTo {stops : Token.Kind → Bool} (each : Tracks n true u m)
    {length rounds bound : Nat} (less : length ≤ n) (allowed : length ≤ rounds)
    (enough : length ≤ bound) :
    Tracks length false (Parse.upTo stops u rounds) (Parse.upTo stops m bound) := by
  induction length generalizing rounds bound with
  | zero => exact zero
  | succ length ih =>
    obtain ⟨rounds, rfl⟩ := Nat.exists_eq_add_one.mpr (show 0 < rounds by omega)
    obtain ⟨bound, rfl⟩ := Nat.exists_eq_add_one.mpr (show 0 < bound by omega)
    refine of_cons fun p t rest closed size => ?_
    rw [Parse.upTo, Parse.upTo]
    refine .current ?_
    split
    · exact .pure closed []
    · split
      · exact .throw _
      · have here : Ends true u m p (t :: rest) := each p _ closed (Nat.le_trans size less)
        have others := ih (by omega) (Nat.le_of_succ_le_succ allowed)
          (Nat.le_of_succ_le_succ enough)
        refine (here.bind (n := length) size fun x => ?_).weaken
        exact others.bind fun xs => .pure (x :: xs)

end Tracks

section

open Token.Kind (ne_eof_of_start ne_eof_of_follow unaryOp?_of_start unaryOp?_of_step
  binaryOp?_of_operand)

variable {bounded : Parse.Inner Parse} {inner : Parse.Inner (Run limit)}
  (each : ∀ floor, Tracks n true (inner floor) (bounded floor))

include each

theorem tracks_arguments (allowed : n ≤ limit) :
    Tracks (n + 1) true (Parse.arguments inner) (Parse.arguments bounded) := by
  intro p tokens closed size
  have opening : Tracks (n + 1) true (Parse.expect .openParen : Run limit Token) _ :=
    .expect (by decide)
  exact (opening p tokens closed size).bind size fun _ =>
    .enclosed allowed (by decide) (each .lowest)

theorem ends_begun {start : Start} (closed : Closed (t :: rest)) (size : rest.length ≤ n)
    (starts : t.kind.start? = some start) :
    Ends true (Parse.begun inner start) (Parse.begun bounded start) p (t :: rest) := by
  have other := ne_eof_of_start starts
  cases start with
  | primary =>
    refine .passing closed other size ?_
    cases here : t.kind <;>
      simp only [here, Token.Kind.start?, reduceCtorEq, Option.some.injEq] at starts
    case intLiteral =>
      cases readInt? t.value with
      | none => exact .throw _
      | some value => exact .pure _
    case floatLiteral =>
      cases Double.read? t.value with
      | none => exact .throw _
      | some value => exact .pure _
    all_goals exact .pure _
  | operator =>
    obtain ⟨op, known⟩ := unaryOp?_of_start starts
    refine .passing closed other size ?_
    simp only [known]
    exact (each .unary).weaken.bind fun _ => .pure _
  | group =>
    refine .passing closed other size ?_
    exact (each .lowest).weaken.bind fun e => (Tracks.expect (by decide)).bind fun _ => .pure e

theorem ends_followed (allowed : n ≤ limit) (left : Expr) {power : Power} {follow : Follow}
    (closed : Closed (t :: rest)) (size : rest.length ≤ n)
    (follows : t.kind.follow? = some (power, follow)) :
    Ends true (Parse.followed inner left power follow) (Parse.followed bounded left power follow) p
      (t :: rest) := by
  have other := ne_eof_of_follow follows
  cases follow with
  | assignment =>
    refine .passing closed other size ?_
    cases left with
    | symbol name => exact (each .lowest).weaken.bind fun _ => .pure _
    | _ => exact .throw _
  | operand =>
    obtain ⟨op, known⟩ := binaryOp?_of_operand follows
    refine .passing closed other size ?_
    simp only [known]
    exact (each power).weaken.bind fun _ => .pure _
  | step =>
    obtain ⟨op, known⟩ := unaryOp?_of_step follows
    refine .passing closed other size ?_
    simp only [known]
    exact .pure _
  | arguments =>
    cases left with
    | symbol callee =>
      have args := tracks_arguments each allowed p _ closed (Nat.succ_le_succ size)
      exact args.bind (Nat.succ_le_succ size) fun args => .spanned _ _
    | _ => exact ⟨rfl, fun _ _ run => by cases run⟩

/-- What goes on behind an expression comes to an end, since every operator is a token. -/
theorem tracks_continued (allowed : n ≤ limit) (floor : Power) (left : Expr)
    {length rounds bound : Nat} (less : length ≤ n + 1) (granted : length ≤ rounds)
    (enough : length ≤ bound + 1) :
    Tracks length false (Parse.continued .full inner floor rounds left)
      (Parse.continued .full bounded floor bound left) := by
  induction length generalizing rounds bound left with
  | zero => exact .zero
  | succ length ih =>
    obtain ⟨rounds, rfl⟩ := Nat.exists_eq_add_one.mpr (show 0 < rounds by omega)
    refine .of_cons fun p t rest closed size => ?_
    rw [Parse.continued]
    cases follows : t.kind.follow? with
    | none =>
      refine (Ends.pure closed left).congr ?_ (Parse.run_continued bound follows)
      rw [run_kind_bind, show Grammar.full.follow? t.kind = none from follows]
    | some found =>
      obtain ⟨power, follow⟩ := found
      have more := (closed.tail (ne_eof_of_follow follows)).length_pos
      obtain ⟨bound, rfl⟩ := Nat.exists_eq_add_one.mpr (show 0 < bound by omega)
      rw [Parse.continued]
      refine .kind ?_
      simp only [show Grammar.full.follow? t.kind = _ from follows]
      split
      · exact .pure closed left
      · have here := ends_followed (p := p) each allowed left closed (by omega) follows
        refine (here.bind (n := length) size fun next => ?_).weaken
        exact ih next (by omega) (by omega) (by omega)

end

theorem tracks_expressionWithin (floor : Power) (layers room : Nat) (allowed : n ≤ limit)
    (granted : n ≤ layers) (enough : n ≤ room + 1) :
    Tracks n true (Parse.expressionWithin .full layers floor : Run limit Expr)
      (Parse.expressionWithin .full room floor) := by
  -- On the tokens that are left: what is begun passes one before it asks for the layer below.
  induction n generalizing floor layers room with
  | zero => exact .zero
  | succ n ih =>
    obtain ⟨layers, rfl⟩ := Nat.exists_eq_add_one.mpr (show 0 < layers by omega)
    refine .of_cons fun p t rest closed size => ?_
    cases starts : t.kind.start? with
    | none =>
      have refused : Ends true (throw (.unexpected t) : Run limit Expr) (throw (.unexpected t)) p
        (t :: rest) := .throw _
      refine refused.congr ?_ (Parse.run_expressionWithin_none room starts)
      rw [Parse.expressionWithin, run_current_bind,
        show Grammar.full.start? t.kind = none from starts]
      rfl
    | some start =>
      have more := (closed.tail (Token.Kind.ne_eof_of_start starts)).length_pos
      obtain ⟨room, rfl⟩ := Nat.exists_eq_add_one.mpr (show 0 < room by omega)
      rw [Parse.expressionWithin, Parse.expressionWithin]
      refine .current ?_
      simp only [show Grammar.full.start? t.kind = _ from starts]
      have fewer : n ≤ room + 1 := by omega
      have each (floor : Power) := ih floor layers room (by omega) (by omega) fewer
      have here := ends_begun (p := p) each closed (Nat.le_of_lt_succ size) starts
      refine here.bind (n := n) size fun left => ?_
      exact tracks_continued each (by omega) floor left (by omega) (Nat.le_of_succ_le allowed) fewer

theorem tracks_expression (allowed : n ≤ limit) (floor : Power) :
    Tracks n moves (Parse.expression .full floor : Run limit Expr)
      (Parse.expression .full floor) :=
  .any (.sized fun _ size => tracks_expressionWithin floor limit _ (Nat.le_trans size allowed)
    (Nat.le_trans size allowed) (Nat.le_refl _))

end Curly.Run
