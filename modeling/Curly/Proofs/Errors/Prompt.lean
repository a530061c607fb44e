import Curly.Grammar.Cursor

/-! Parsers that fail no later than they must. Such a parser decides at each token: it accepts what
it has read as soon as it sees the next token, and when it fails, it does so at the first token
with which no accepted text goes on. The rules follow the operations that parsers are made of. -/
namespace Curly

/-- A cursor before some tokens. -/
def Cursor.facing (passed : Option Position) : List Token → Cursor
  | [] => ⟨passed, default, []⟩
  | t :: ahead => ⟨passed, t, ahead⟩

/-- The tokens end with an end mark. -/
def Closed (tokens : List Token) : Prop :=
  ∃ t, tokens.getLast? = some t ∧ t.kind = .eof

/-- A token of which nothing but the kind counts. -/
def Token.sample (k : Token.Kind) : Token :=
  ⟨k, "", ⟨.unknown, .unknown⟩⟩

/-- The tokens are closed, and the first of them is of a kind that `may` be. -/
structure Opens (may : Token.Kind → Prop) (tokens : List Token) : Prop where
  closed : Closed tokens
  first : ∃ t, tokens.head? = some t ∧ may t.kind

/-- No restriction on what may follow. -/
def anything (_ : Token.Kind) : Prop :=
  True

/-- The kind of the first token when `fill` stands before a token of kind `k`. -/
def lead (fill : List Token) (k : Token.Kind) : Token.Kind :=
  (fill.head?.map Token.kind).getD k

namespace Closed

variable {front tokens rest : List Token} {t : Token}

theorem ne_nil (closed : Closed tokens) : tokens ≠ [] := by
  rintro rfl
  obtain ⟨t, last, _⟩ := closed
  exact nomatch last

theorem length_pos (closed : Closed tokens) : 0 < tokens.length :=
  List.length_pos_iff.mpr closed.ne_nil

theorem append (closed : Closed tokens) : Closed (front ++ tokens) := by
  obtain ⟨t, last, ends⟩ := closed
  exact ⟨t, by rw [List.getLast?_append, last, Option.some_or], ends⟩

theorem of_append (closed : Closed (front ++ tokens)) (some : tokens ≠ []) : Closed tokens := by
  obtain ⟨t, last, ends⟩ := closed
  rw [List.getLast?_append, List.getLast?_eq_some_getLast some, Option.some_or] at last
  exact ⟨t, List.getLast?_eq_some_getLast some ▸ last, ends⟩

theorem tail (closed : Closed (t :: rest)) (other : t.kind ≠ .eof) : Closed rest := by
  cases rest with
  | nil =>
    obtain ⟨_, ⟨⟩, ends⟩ := closed
    exact absurd ends other
  | cons u rest => exact @of_append [t] _ closed (List.cons_ne_nil u rest)

end Closed

theorem Opens.append {may can : Token.Kind → Prop} {fill tokens : List Token}
    (leads : ∀ k, may k → can (lead fill k)) (opens : Opens may tokens) :
    Opens can (fill ++ tokens) := by
  obtain ⟨closed, t, first, holds⟩ := opens
  refine ⟨closed.append, ?_⟩
  cases fill with
  | nil => exact ⟨t, first, leads _ holds⟩
  | cons u fill => exact ⟨u, rfl, leads _ holds⟩

/-- For each member of a family of parsers, the lengths of the texts that it can read. -/
structure Fuel (ι : Type) where
  lasts : ι → Nat → Prop
  less : ∀ {i m n}, m ≤ n → lasts i n → lasts i m

/-- What can read a text can, as a member of another family, read what is behind its first token. -/
def Fuel.Over {ι : Type} (R S : Fuel ι) : Prop :=
  ∀ i n, R.lasts i (n + 1) → S.lasts i n

theorem Fuel.over_self {ι : Type} (R : Fuel ι) : R.Over R :=
  fun _ _ => R.less (Nat.le_succ _)

namespace Parse

variable {ι κ α β : Type} {R S : Fuel ι} {may can : Token.Kind → Prop} {m : ι → Parse α}
  {p q : Option Position} {t : Token} {x : α} {error : SyntaxError}
  {tokens used rest before fill : List Token} {moves : Bool}

/-- Reading `tokens` gives `x` and leaves `rest`. -/
def Gives (R : Fuel ι) (m : ι → Parse α) (p : Option Position) (tokens : List Token) (x : α)
    (q : Option Position) (rest : List Token) : Prop :=
  ∀ i, R.lasts i tokens.length → (m i).run (.facing p tokens) = .ok x (.facing q rest)

def Fails (R : Fuel ι) (m : ι → Parse α) (p : Option Position) (tokens : List Token)
    (error : SyntaxError) : Prop :=
  ∀ i, R.lasts i tokens.length → ∃ c, (m i).run (.facing p tokens) = .error error c

/-- The tokens of `fill` are read as a whole before any token of a kind that `may` follow. -/
def Completes (R : Fuel ι) (may : Token.Kind → Prop) (m : ι → Parse α) (p : Option Position)
    (fill : List Token) : Prop :=
  ∀ tokens, Opens may tokens → ∃ x q, Gives R m p (fill ++ tokens) x q tokens

def Viable (R : Fuel ι) (may : Token.Kind → Prop) (m : ι → Parse α) (p : Option Position)
    (before : List Token) : Prop :=
  ∃ fill, Completes R may m p (before ++ fill)

/-- The parser gives `x` for the tokens `used` as soon as it sees the first token of `rest`. -/
structure Accepts (R : Fuel ι) (moves : Bool) (may : Token.Kind → Prop) (m : ι → Parse α)
    (p : Option Position) (used rest : List Token) (x : α) (q : Option Position) : Prop where
  gives : ∀ tokens, Closed tokens → tokens.head? = rest.head? →
    Gives R m p (used ++ tokens) x q tokens
  passes : moves = true → used ≠ []
  viable : used ≠ [] → Viable R may m p used

/-- The parser fails at the token `t`, whatever comes behind it, and not because of the tokens
before it. -/
structure Rejects (R : Fuel ι) (may : Token.Kind → Prop) (m : ι → Parse α)
    (p : Option Position) (before : List Token) (t : Token) (error : SyntaxError) : Prop where
  position : error.position = t.span.start
  fails : ∀ after, Closed (t :: after) → Fails R m p (before ++ t :: after) error
  viable : before ≠ [] → Viable R may m p before

/-- What the parser makes of some tokens is settled by the first tokens that decide it. -/
inductive Settles (R : Fuel ι) (moves : Bool) (may : Token.Kind → Prop) (m : ι → Parse α)
    (p : Option Position) (tokens : List Token) : Prop
  | accepts (used rest : List Token) (x : α) (q : Option Position) : tokens = used ++ rest →
    Closed rest → Accepts R moves may m p used rest x q → Settles R moves may m p tokens
  | rejects (before : List Token) (t : Token) (after : List Token) (error : SyntaxError) :
    tokens = before ++ t :: after → Rejects R may m p before t error →
    Settles R moves may m p tokens

/-- On texts of at most `size` tokens the parser decides early, and `fill` is one text that it
reads as a whole. -/
structure Prompt (R : Fuel ι) (moves : Bool) (may : Token.Kind → Prop) (fill : List Token)
    (size : Nat) (m : ι → Parse α) : Prop where
  completes : ∀ p, Completes R may m p fill
  settles : ∀ p tokens, Closed tokens → tokens.length ≤ size → Settles R moves may m p tokens

/-! Rules. -/

section

variable {k : α → ι → Parse β} {n : Nat}

theorem Gives.bind {y : β} {between : List Token} {r : Option Position}
    (head : Gives R m p tokens x q between) (tail : Gives S (k x) q between y r rest)
    (enough : ∀ i, R.lasts i tokens.length → S.lasts i between.length) :
    Gives R (fun i => m i >>= fun x => k x i) p tokens y r rest := by
  intro i lasts
  rw [EStateM.run_bind, head i lasts]
  exact tail i (enough i lasts)

theorem Completes.bind (head : Completes R can m p used)
    (tail : ∀ x q, Completes S may (k x) q fill) (leads : ∀ k, may k → can (lead fill k))
    (enough : ∀ i n, R.lasts i (used.length + n) → S.lasts i n) :
    Completes R may (fun i => m i >>= fun x => k x i) p (used ++ fill) := by
  intro tokens opens
  obtain ⟨x, q, first⟩ := head _ (opens.append leads)
  obtain ⟨y, r, second⟩ := tail x q tokens opens
  rw [List.append_assoc]
  refine ⟨y, r, first.bind second fun i lasts => enough i _ ?_⟩
  rwa [← List.length_append]

theorem head?_append_congr {others : List Token} (same : tokens.head? = others.head?) :
    (used ++ tokens).head? = (used ++ others).head? := by
  cases used with
  | nil => exact same
  | cons => rfl

variable {first second : Bool}

theorem toNat_le_length (some : used ≠ []) : first.toNat ≤ used.length :=
  Nat.le_trans first.toNat_le (List.length_pos_iff.mpr some)

theorem Accepts.toNat_le_length (accepted : Accepts R first can m p used rest x q) :
    first.toNat ≤ used.length := by
  cases first with
  | false => exact Nat.zero_le _
  | true => exact Parse.toNat_le_length (accepted.passes rfl)

/-- What was read by the first of two parsers, and by the second one after it, can be completed. -/
theorem Accepts.viable_bind {between others : List Token}
    (accepted : Accepts R first can m p used (between ++ others) x q)
    (enough : ∀ i n, R.lasts i (n + first.toNat) → S.lasts i n)
    (viable : between ≠ [] → Viable S may (k x) q between)
    (tail : ∀ x q, Completes S may (k x) q fill) (leads : ∀ k, may k → can (lead fill k))
    (some : used ++ between ≠ []) :
    Viable R may (fun i => m i >>= fun x => k x i) p (used ++ between) := by
  by_cases none : between = []
  · -- The second parser has not begun, so its own text goes behind what completes the first one.
    subst none
    rw [List.append_nil] at some ⊢
    obtain ⟨more, completes⟩ := accepted.viable some
    refine ⟨more ++ fill, ?_⟩
    rw [← List.append_assoc]
    refine completes.bind tail leads fun i n lasts => enough i n (R.less ?_ lasts)
    have := accepted.toNat_le_length
    rw [List.length_append]
    omega
  · obtain ⟨more, completes⟩ := viable none
    refine ⟨more, fun tokens opens => ?_⟩
    obtain ⟨y, r, behind⟩ := completes tokens opens
    have same : (between ++ more ++ tokens).head? = (between ++ others).head? := by
      obtain ⟨t, between, rfl⟩ := List.exists_cons_of_ne_nil none
      rfl
    have ahead := accepted.gives (between ++ more ++ tokens) opens.closed.append same
    refine ⟨y, r, ?_⟩
    rw [List.append_assoc used, List.append_assoc used]
    refine ahead.bind behind fun i lasts => enough i _ (R.less ?_ lasts)
    have := accepted.toNat_le_length
    simp only [List.length_append]
    omega

theorem Settles.bind (head : Settles R first can m p tokens)
    (size : tokens.length ≤ n + first.toNat)
    (enough : ∀ i n, R.lasts i (n + first.toNat) → S.lasts i n)
    (tail : ∀ x, Prompt S second may fill n (k x)) (leads : ∀ k, may k → can (lead fill k)) :
    Settles R (first || second) may (fun i => m i >>= fun x => k x i) p tokens := by
  have completes (x : α) (q : Option Position) := (tail x).completes q
  cases head with
  | rejects before t after error same rejected =>
    refine .rejects before t after error same ⟨rejected.position, ?_, fun some => ?_⟩
    · intro after closed i lasts
      obtain ⟨c, run⟩ := rejected.fails after closed i lasts
      exact ⟨c, by rw [EStateM.run_bind, run]⟩
    · obtain ⟨more, before⟩ := rejected.viable some
      refine ⟨more ++ fill, ?_⟩
      rw [← List.append_assoc]
      refine before.bind completes leads fun i n lasts => enough i n (R.less ?_ lasts)
      have : first.toNat ≤ _ := toNat_le_length some
      rw [List.length_append]
      omega
  | accepts used rest x q same closed accepted =>
    subst same
    have passed := accepted.toNat_le_length
    have later (i : ι) (l : Nat) (lasts : R.lasts i (used.length + l)) : S.lasts i l :=
      enough i l (R.less (by omega) lasts)
    rw [List.length_append] at size
    cases (tail x).settles q rest closed (by omega) with
    | rejects before t after error same rejected =>
      -- The first parser has accepted by the next token, so another end does not change it.
      subst same
      refine .rejects (used ++ before) t after error (by simp) ⟨rejected.position, ?_,
        accepted.viable_bind enough rejected.viable completes leads⟩
      intro other closed i lasts
      rw [List.append_assoc] at lasts ⊢
      have same : (before ++ t :: other).head? = (before ++ t :: after).head? :=
        head?_append_congr rfl
      have ahead := accepted.gives (before ++ t :: other) closed.append same
      rw [EStateM.run_bind, ahead i lasts]
      rw [List.length_append] at lasts
      exact rejected.fails other closed i (later i _ lasts)
    | accepts others rest y r same ends settled =>
      subst same
      refine .accepts (used ++ others) rest y r (by simp) ends ⟨?_, ?_,
        accepted.viable_bind enough settled.viable completes leads⟩
      · intro tokens closed same
        have ahead := accepted.gives (others ++ tokens) closed.append (head?_append_congr same)
        rw [List.append_assoc]
        refine ahead.bind (settled.gives tokens closed same) fun i lasts => later i _ ?_
        rwa [← List.length_append]
      · intro moves
        rcases Bool.or_eq_true_iff.mp moves with moves | moves
        · simp [accepted.passes moves]
        · simp [settled.passes moves]

end

section

variable {n n' : Nat} {T : Fuel κ} {other : κ → Parse α} {m' : ι → Parse α}

/-- Each member of one family reads the tokens as one of the other family does that lasts as
long. -/
def Imitates (R : Fuel ι) (T : Fuel κ) (m : ι → Parse α) (other : κ → Parse α)
    (p : Option Position) (tokens : List Token) : Prop :=
  ∀ i, R.lasts i tokens.length → ∃ j, T.lasts j tokens.length ∧
    (m i).run (.facing p tokens) = (other j).run (.facing p tokens)

theorem Imitates.gives (follows : Imitates R T m other p tokens)
    (gives : Gives T other p tokens x q rest) : Gives R m p tokens x q rest := by
  intro i lasts
  obtain ⟨j, enough, same⟩ := follows i lasts
  exact same.trans (gives j enough)

theorem Settles.follow (settles : Settles T moves may other p tokens)
    (follows : ∀ others, Closed others → others.head? = tokens.head? →
      Imitates R T m other p others) : Settles R moves may m p tokens := by
  have viable {before after : List Token} (same : tokens = before ++ after) (some : before ≠ [])
      (viable : Viable T may other p before) : Viable R may m p before := by
    obtain ⟨more, completes⟩ := viable
    refine ⟨more, fun others opens => ?_⟩
    obtain ⟨x, q, gives⟩ := completes others opens
    refine ⟨x, q, (follows _ opens.closed.append ?_).gives gives⟩
    obtain ⟨t, before, rfl⟩ := List.exists_cons_of_ne_nil some
    rw [same]
    rfl
  cases settles with
  | accepts used rest x q same closed accepted =>
    refine .accepts used rest x q same closed ⟨fun others closed like => ?_, accepted.passes,
      fun some => viable same some (accepted.viable some)⟩
    refine (follows _ closed.append ?_).gives (accepted.gives others closed like)
    rw [same]
    exact head?_append_congr like
  | rejects before t after error same rejected =>
    refine .rejects before t after error same ⟨rejected.position, fun after closed i lasts => ?_,
      fun some => viable same some (rejected.viable some)⟩
    obtain ⟨j, enough, like⟩ := follows (before ++ t :: after) closed.append
      (by rw [same]; exact head?_append_congr rfl) i lasts
    rw [like]
    exact rejected.fails after closed j enough

/-- Only what the parser does from a given token on matters. -/
theorem Settles.congr (settles : Settles R moves may m' p (t :: rest))
    (same : ∀ i after, Closed (t :: after) → R.lasts i (t :: after).length →
      (m i).run (.facing p (t :: after)) = (m' i).run (.facing p (t :: after))) :
    Settles R moves may m p (t :: rest) := by
  refine settles.follow fun others closed like i lasts => ⟨i, lasts, ?_⟩
  obtain ⟨after, rfl⟩ := List.head?_eq_some_iff.mp like
  exact same i after closed lasts

/-- That a token is passed may be left out. -/
theorem Settles.weaken (settles : Settles R true may m p tokens) :
    Settles R moves may m p tokens := by
  cases settles with
  | accepts used rest x q same closed accepted =>
    exact .accepts used rest x q same closed
      ⟨accepted.gives, fun _ => accepted.passes rfl, accepted.viable⟩
  | rejects before t after error same rejected =>
    exact .rejects before t after error same rejected

/-- A parser that fails at the first token, whatever comes behind it. -/
theorem Settles.throws (position : error.position = t.span.start)
    (fails : ∀ i after, Closed (t :: after) → R.lasts i (t :: after).length →
      ∃ c, (m i).run (.facing p (t :: after)) = .error error c) :
    Settles R moves may m p (t :: rest) :=
  .rejects [] t rest error rfl ⟨position, fun after closed i lasts => fails i after closed lasts,
    fun some => absurd rfl some⟩

/-- A parser that stays before the first token. -/
theorem Settles.stays (closed : Closed (t :: rest))
    (run : ∀ i after, Closed (t :: after) → R.lasts i (t :: after).length →
      (m i).run (.facing p (t :: after)) = .ok x (.facing p (t :: after))) :
    Settles R false may m p (t :: rest) := by
  refine .accepts [] (t :: rest) x p rfl closed ⟨?_, nofun, fun some => absurd rfl some⟩
  intro tokens closed same i lasts
  obtain ⟨others, rfl⟩ := List.head?_eq_some_iff.mp same
  exact run i others closed lasts

theorem run_start_bind (f : Position → Parse α) :
    (start >>= f).run (.facing p (t :: rest)) = (f t.span.start).run (.facing p (t :: rest)) := rfl

theorem run_kind_bind (f : Token.Kind → Parse α) :
    (kind >>= f).run (.facing p (t :: rest)) = (f t.kind).run (.facing p (t :: rest)) := rfl

theorem run_current_bind (f : Token → Parse α) :
    (current >>= f).run (.facing p (t :: rest)) = (f t).run (.facing p (t :: rest)) := rfl

theorem run_advance (closed : Closed tokens) :
    advance.run (.facing p (t :: tokens)) = .ok t (.facing (some t.span.stop) tokens) := by
  obtain ⟨u, others, rfl⟩ := List.exists_cons_of_ne_nil closed.ne_nil
  rfl

theorem Settles.advance (closed : Closed (t :: rest)) (other : t.kind ≠ .eof) :
    Settles R true may (fun _ => advance) p (t :: rest) := by
  refine .accepts [t] rest t (some t.span.stop) rfl (closed.tail other)
    ⟨fun tokens closed _ _ _ => run_advance closed, fun _ => List.cons_ne_nil _ _, fun _ => ?_⟩
  exact ⟨[], fun tokens opens => ⟨t, _, fun _ _ => run_advance opens.closed⟩⟩

/-- The parser that goes on behind the first token. -/
theorem Settles.passing {k : Token → ι → Parse β} (closed : Closed (t :: rest))
    (other : t.kind ≠ .eof) (size : rest.length ≤ n) (onward : R.Over S)
    (tail : Prompt S moves may fill n (k t)) :
    Settles R true may (fun i => Parse.advance >>= fun t => k t i) p (t :: rest) := by
  have here : Settles R true anything (fun _ => Parse.advance) p (t :: rest) :=
    .advance closed other
  refine (here.bind (Nat.succ_le_succ size) onward (fun _ => tail) fun _ _ => trivial).congr
    fun i after closed _ => ?_
  rw [EStateM.run_bind, EStateM.run_bind, run_advance (closed.tail other)]

/-- The parser that passes the first token only to complain about it. -/
theorem Settles.passing_throws {k : Token → ι → Parse β} (other : t.kind ≠ .eof)
    (failed : ∀ i, k t i = throw error) (position : error.position = t.span.start) :
    Settles R moves may (fun i => Parse.advance >>= fun t => k t i) p (t :: rest) := by
  refine .throws position fun i after closed _ => ⟨.facing (some t.span.stop) after, ?_⟩
  rw [EStateM.run_bind, run_advance (closed.tail other)]
  dsimp only
  rw [failed]
  rfl

/-- The parser that goes on where another one stopped. -/
theorem Settles.andThen {first second : Bool} {k : α → ι → Parse β}
    (head : Settles R first can m p tokens) (size : tokens.length ≤ n)
    (tail : ∀ x, Prompt R second may fill n (k x)) (leads : ∀ k, may k → can (lead fill k)) :
    Settles R (first || second) may (fun i => m i >>= fun x => k x i) p tokens :=
  head.bind (Nat.le_add_right_of_le size) (fun _ _ => R.less (Nat.le_add_right _ _)) tail leads

namespace Prompt

theorem bind {first second : Bool} {k : α → ι → Parse β}
    (head : Prompt R first can used n m) (tail : ∀ x, Prompt R second may fill n (k x))
    (leads : ∀ k, may k → can (lead fill k)) :
    Prompt R (first || second) may (used ++ fill) n fun i => m i >>= fun x => k x i := by
  refine ⟨fun p => ?_, fun p tokens closed size => ?_⟩
  · exact (head.completes p).bind (fun x q => (tail x).completes q) leads fun i n lasts =>
      R.less (Nat.le_add_left _ _) lasts
  · exact (head.settles p tokens closed size).andThen size tail leads

theorem follow (prompt : Prompt T moves may fill n other)
    (follows : ∀ p tokens, Closed tokens → Imitates R T m other p tokens) :
    Prompt R moves may fill n m := by
  refine ⟨fun p tokens opens => ?_, fun p tokens closed size => ?_⟩
  · obtain ⟨x, q, gives⟩ := prompt.completes p tokens opens
    exact ⟨x, q, (follows p _ opens.closed.append).gives gives⟩
  · exact (prompt.settles p tokens closed size).follow fun others closed _ =>
      follows p others closed

theorem shorten (prompt : Prompt R moves may fill n m) (le : n' ≤ n) :
    Prompt R moves may fill n' m :=
  ⟨prompt.completes, fun p tokens closed size =>
    prompt.settles p tokens closed (Nat.le_trans size le)⟩

/-- There is a first token to decide at. -/
theorem first (completes : ∀ p, Completes R may m p fill)
    (settles : ∀ p t rest, Closed (t :: rest) → (t :: rest).length ≤ n →
      Settles R moves may m p (t :: rest)) : Prompt R moves may fill n m := by
  refine ⟨completes, fun p tokens closed size => ?_⟩
  obtain ⟨t, rest, rfl⟩ := List.exists_cons_of_ne_nil closed.ne_nil
  exact settles p t rest closed size

/-- Parsers that are prompt behind the first token when they are prompt on shorter texts. -/
theorem bySize {γ : Type} {m : γ → ι → Parse α} (completes : ∀ s p, Completes R may (m s) p fill)
    (settles : ∀ l < n, (∀ s, Prompt R moves may fill l (m s)) → ∀ s p t rest,
      Closed (t :: rest) → rest.length ≤ l → Settles R moves may (m s) p (t :: rest)) (s : γ) :
    Prompt R moves may fill n (m s) := by
  have shorter (l : Nat) (le : l ≤ n) (s : γ) : Prompt R moves may fill l (m s) := by
    induction l generalizing s with
    | zero => exact first (completes s) fun _ _ _ _ size => absurd size (Nat.not_succ_le_zero _)
    | succ l ih =>
      refine first (completes s) fun p t rest closed size => ?_
      exact settles l le (ih (Nat.le_of_succ_le le)) s p t rest closed
        (Nat.le_of_succ_le_succ size)
  exact shorter n (Nat.le_refl n) s

/-- A parser that only looks at the first token and at what was passed. -/
theorem looks {look : Parse α} {f : Option Position → Token → α}
    (run : ∀ p t rest, look.run (.facing p (t :: rest)) = .ok (f p t) (.facing p (t :: rest))) :
    Prompt R false may [] n fun _ => look := by
  refine first (fun p tokens opens => ?_) fun p t rest closed _ => ?_
  · obtain ⟨_, t, first, _⟩ := opens
    obtain ⟨rest, rfl⟩ := List.head?_eq_some_iff.mp first
    exact ⟨f p t, p, fun _ _ => run p t rest⟩
  · exact .stays closed fun _ after _ _ => run p t after

theorem pure (x : α) : Prompt R false may [] n fun _ => pure x :=
  looks fun _ _ _ => rfl

/-- Behind a parser that any token may follow. -/
theorem step {first second : Bool} {k : α → ι → Parse β}
    (head : Prompt R first anything used n m) (tail : ∀ x, Prompt R second may fill n (k x)) :
    Prompt R (first || second) may (used ++ fill) n fun i => m i >>= fun x => k x i :=
  head.bind tail fun _ _ => trivial

theorem start : Prompt R false anything [] n fun _ => start :=
  looks (f := fun _ t => t.span.start) fun _ _ _ => rfl

theorem spanFrom (begin : Position) : Prompt R false anything [] n fun _ => spanFrom begin :=
  looks (f := fun p t => ⟨begin, p.getD t.span.start⟩) fun _ _ _ => rfl

end Prompt

end

end Parse
end Curly
