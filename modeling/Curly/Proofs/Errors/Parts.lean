import Curly.Proofs.Errors.Prompt

/-! The operations on tokens decide early: a token that must be there, what may be left out, lists
in brackets, and items up to a token that ends them. -/
namespace Curly

namespace Fuel

variable {ι κ : Type}

/-- Enough to pass all tokens but the last one. -/
def room : Fuel Nat :=
  ⟨fun n length => length ≤ n + 1, fun less enough => Nat.le_trans less enough⟩

/-- Enough to pass all tokens. -/
def bound : Fuel Nat :=
  ⟨fun n length => length ≤ n, fun less enough => Nat.le_trans less enough⟩

/-- What is left of `bound` when one of the tokens is passed. -/
def fewer : Fuel Nat :=
  ⟨fun n length => length ≤ n - 1, fun less enough => Nat.le_trans less enough⟩

/-- Enough for any number of tokens. -/
def endless : Fuel Unit :=
  ⟨fun _ _ => True, fun _ => id⟩

def both (R : Fuel ι) (S : Fuel κ) : Fuel (ι × κ) :=
  ⟨fun i length => R.lasts i.1 length ∧ S.lasts i.2 length, fun less enough =>
    ⟨R.less less enough.1, S.less less enough.2⟩⟩

end Fuel

namespace Parse

variable {ι α β : Type} {R S : Fuel ι} {may can : Token.Kind → Prop} {m yes no : ι → Parse α}
  {p : Option Position} {t : Token} {rest fill more : List Token} {moves first second : Bool}
  {n : Nat} {k : Token.Kind} {expectation : String}

/-- A parser without fuel is prompt in any family. -/
theorem Prompt.plain {m : Parse α} (prompt : Prompt .endless moves may fill n fun _ => m) :
    Prompt R moves may fill n fun _ => m :=
  prompt.follow fun _ _ _ _ _ => ⟨(), trivial, rfl⟩

theorem Settles.left {κ : Type} {T : Fuel κ} {tokens : List Token}
    (settles : Settles R moves may m p tokens) :
    Settles (R.both T) moves may (fun i => m i.1) p tokens :=
  settles.follow fun _ _ _ i lasts => ⟨i.1, lasts.1, rfl⟩

theorem Prompt.left {κ : Type} {T : Fuel κ} (prompt : Prompt R moves may fill n m) :
    Prompt (R.both T) moves may fill n fun i => m i.1 :=
  prompt.follow fun _ _ _ i lasts => ⟨i.1, lasts.1, rfl⟩

theorem Settles.start {f : Position → ι → Parse α}
    (settles : Settles R moves may (f t.span.start) p (t :: rest)) :
    Settles R moves may (fun i => start >>= fun begin => f begin i) p (t :: rest) :=
  settles.congr fun _ _ _ _ => run_start_bind _

section

variable {f : Token.Kind → ι → Parse α} {h : Token → ι → Parse α}

theorem Settles.kind (settles : Settles R moves may (f t.kind) p (t :: rest)) :
    Settles R moves may (fun i => kind >>= fun k => f k i) p (t :: rest) :=
  settles.congr fun _ _ _ _ => run_kind_bind _

theorem Settles.current (settles : Settles R moves may (h t) p (t :: rest)) :
    Settles R moves may (fun i => current >>= fun t => h t i) p (t :: rest) :=
  settles.congr fun _ _ _ _ => run_current_bind _

theorem Completes.kind (completes : Completes R may m p fill)
    (same : ∀ k, may k → f (lead fill k) = m) :
    Completes R may (fun i => kind >>= fun k => f k i) p fill := by
  intro tokens opens
  obtain ⟨x, q, gives⟩ := completes tokens opens
  obtain ⟨t, rest, k, shows, holds, first⟩ : ∃ t rest k,
      fill ++ tokens = t :: rest ∧ may k ∧ t.kind = lead fill k := by
    obtain ⟨_, t, first, holds⟩ := opens
    obtain ⟨rest, rfl⟩ := List.head?_eq_some_iff.mp first
    cases fill with
    | nil => exact ⟨t, rest, t.kind, rfl, holds, rfl⟩
    | cons u fill => exact ⟨u, _, t.kind, rfl, holds, rfl⟩
  refine ⟨x, q, fun i lasts => ?_⟩
  have read := gives i lasts
  rw [shows, ← same k holds, ← first] at read
  rw [shows]
  exact read

end

section

variable {P : Token.Kind → Prop} [DecidablePred P]

/-- One branch for tokens that have a property and one for the others, where none that have it are
to follow. -/
theorem prompt_unless
    (left : ∀ p t rest, Closed (t :: rest) → (t :: rest).length ≤ n → P t.kind →
      Settles R moves may yes p (t :: rest))
    (right : Prompt R moves may fill n no) (leads : ∀ k, may k → ¬ P (lead fill k)) :
    Prompt R moves may fill n fun i => kind >>= fun k => if P k then yes i else no i := by
  let branch (k : Token.Kind) (i : ι) : Parse α := if P k then yes i else no i
  refine .first (fun p => (right.completes p).kind (f := branch) fun k holds => ?_)
    fun p t rest closed size => ?_
  · funext i
    exact if_neg (leads k holds)
  · refine .kind (f := branch) ?_
    by_cases holds : P t.kind
    · simpa only [branch, if_pos holds] using left p t rest closed size holds
    · simpa only [branch, if_neg holds] using right.settles p _ closed size

theorem prompt_when (left : Prompt R moves may fill n yes)
    (right : ∀ p t rest, Closed (t :: rest) → (t :: rest).length ≤ n → ¬ P t.kind →
      Settles R moves may no p (t :: rest))
    (leads : ∀ k, may k → P (lead fill k)) :
    Prompt R moves may fill n fun i => kind >>= fun k => if P k then yes i else no i := by
  have swapped := prompt_unless (P := fun k => ¬ P k) right left
    fun k holds => not_not_intro (leads k holds)
  simpa only [ite_not] using swapped

end

theorem run_expect (same : t.kind = k) :
    (expect k expectation).run (.facing p (t :: rest)) = advance.run (.facing p (t :: rest)) := by
  change (if t.kind = k then advance else _).run (.facing p (t :: rest)) = _
  rw [if_pos same]

theorem prompt_expect (other : k ≠ .eof) :
    Prompt R true anything [.sample k] n fun _ => expect k expectation := by
  refine .first (fun p tokens opens => ⟨.sample k, some .unknown, fun _ _ => ?_⟩)
    fun p t rest closed _ => ?_
  · exact (run_expect rfl).trans (run_advance opens.closed)
  · refine .current ?_
    by_cases same : t.kind = k
    · simp only [same, if_true]
      exact .advance closed (same ▸ other)
    · simp only [if_neg same]
      split
      · exact .throws rfl fun _ _ _ _ => ⟨_, rfl⟩
      · exact .throws rfl fun _ _ _ _ => ⟨_, rfl⟩

theorem skip_bind (f : Bool → Parse α) :
    skip k >>= f = kind >>= fun here =>
      if here = k then advance >>= fun _ => f true else f false := by
  simp only [skip, bind_assoc]
  congr 1
  funext here
  split <;> simp

/-- A token that may be left out, where none of its kind is to follow. -/
theorem prompt_skipped (other : k ≠ .eof) (left : Prompt R first may more n yes)
    (right : Prompt R moves may fill n no) (leads : ∀ j, may j → lead fill j ≠ k) :
    Prompt R moves may fill n fun i =>
      skip k >>= fun found => if found = true then yes i else no i := by
  simp only [skip_bind]
  refine prompt_unless (fun p t rest closed size same => ?_) right leads
  exact (Settles.passing closed (same ▸ other) (Nat.le_of_succ_le size) R.over_self left).weaken

theorem prompt_skip (other : k ≠ .eof) :
    Prompt R false anything [.sample k] n fun _ => skip k := by
  let branch (here : Token.Kind) (_ : ι) : Parse Bool :=
    if here = k then advance >>= fun _ => pure true else pure false
  have found (p : Option Position) :
      Completes R anything (fun _ => advance >>= fun _ => pure true) p [.sample k] := by
    refine fun tokens opens => ⟨true, some .unknown, fun _ _ => ?_⟩
    change EStateM.run _ (Cursor.facing p (.sample k :: tokens)) = _
    rw [EStateM.run_bind, run_advance opens.closed]
    rfl
  refine .first (fun p => (found p).kind (f := branch) fun _ _ => ?_) fun p t rest closed size => ?_
  · funext i
    exact if_pos rfl
  · refine .kind (f := branch) ?_
    by_cases same : t.kind = k
    · simp only [branch, if_pos same]
      exact (Settles.passing closed (same ▸ other) (Nat.le_of_succ_le size) R.over_self
        (.pure true)).weaken
    · simp only [branch, if_neg same]
      exact (Prompt.pure false).settles p _ closed size

theorem prompt_behind (other : k ≠ .eof) (item : Prompt R moves can fill n m)
    (leads : ∀ j, may j → can j ∧ j ≠ k) :
    Prompt R false may [] n fun i => behind? k (m i) :=
  prompt_skipped other (item.bind (fun x => .pure (some x)) fun j holds => (leads j holds).1)
    (.pure none) fun j holds => (leads j holds).2

theorem prompt_before (item : Prompt R true can fill n m) (leads : ∀ j, may j → j = k ∧ can j) :
    Prompt R false may [] n fun i => before? k (m i) := by
  have read := item.bind (fun x => .pure (some x)) fun j holds => (leads j holds).2
  refine prompt_when (.pure none) (fun p t rest closed size _ => ?_)
    fun j holds => (leads j holds).1
  exact (read.settles p _ closed size).weaken

/-- A loop whose bound is taken from the number of tokens that are left. -/
theorem prompt_sized {T : Fuel (ι × Nat)} {each : ι × Nat → Parse α}
    (prompt : Prompt T moves may fill n each) (f : Nat → Nat)
    (enough : ∀ i l, R.lasts i (l + 1) → T.lasts (i, f l) (l + 1)) :
    Prompt R moves may fill n fun i => get >>= fun c => each (i, f c.room) := by
  refine prompt.follow fun p tokens closed i lasts => ?_
  obtain ⟨t, rest, rfl⟩ := List.exists_cons_of_ne_nil closed.ne_nil
  exact ⟨(i, f rest.length), enough i _ lasts, rfl⟩

theorem prompt_comma {close : Token.Kind} :
    Prompt R false (· = close) [] n fun _ => comma close := by
  refine prompt_when (.pure ()) (fun p t rest closed size _ => ?_) fun _ => id
  have passed : Prompt R true (· = close) _ n fun _ => expect .comma >>= fun _ => pure () :=
    (prompt_expect (by decide)).step fun _ => .pure ()
  exact (passed.settles p _ closed size).weaken

theorem over_fewer : (R.both .bound).Over (R.both .fewer) :=
  fun _ _ enough => ⟨R.less (Nat.le_succ _) enough.1, Nat.le_sub_one_of_lt enough.2⟩

/-- A loop with a bound on its rounds, each of which passes a token. It can stop before whatever
`may` follow. -/
theorem prompt_rounds {γ : Type} (each : γ → ι → Nat → Parse α)
    (completes : ∀ s p, Completes (R.both .bound) may (fun i => each s i.1 (i.2 - 1 + 1)) p [])
    (round : ∀ l < n, (∀ s, Prompt (R.both .fewer) false may [] l fun i => each s i.1 (i.2 - 1)) →
      ∀ s p t rest, Closed (t :: rest) → rest.length ≤ l →
        Settles (R.both .bound) false may (fun i => each s i.1 (i.2 - 1 + 1)) p (t :: rest)) :
    ∀ s, Prompt (R.both .bound) false may [] n fun i => each s i.1 i.2 := by
  have reach (tokens : List Token) (closed : Closed tokens) (s : γ) (i : ι) (b : Nat)
      (enough : tokens.length ≤ b) : each s i b = each s i (b - 1 + 1) := by
    have some : 0 < tokens.length := closed.length_pos
    rw [Nat.sub_add_cancel (by omega)]
  have opened (s : γ) :
      Prompt (R.both .bound) false may [] n fun i => each s i.1 (i.2 - 1 + 1) := by
    refine .bySize completes (fun l less shorter => round l less fun s => ?_) s
    refine (shorter s).follow fun p tokens closed i lasts => ⟨(i.1, i.2 - 1), lasts, ?_⟩
    dsimp only
    rw [reach tokens closed s _ _ lasts.2]
  refine fun s => (opened s).follow fun p tokens closed i lasts => ⟨i, lasts, ?_⟩
  dsimp only
  rw [reach tokens closed s _ _ lasts.2]

theorem prompt_separated {close : Token.Kind} (item : Prompt R true can fill n m)
    (follows : can close) :
    Prompt (R.both .bound) false (· = close) [] n fun i => separated close (m i.1) i.2 := by
  refine prompt_rounds (fun (_ : Unit) i b => separated close (m i) b) ?_ ?_ ()
  · rintro _ p tokens ⟨_, t, first, rfl⟩
    obtain ⟨rest, rfl⟩ := List.head?_eq_some_iff.mp first
    refine ⟨[], p, fun i _ => ?_⟩
    change (if t.kind = t.kind then pure [] else _ : Parse _).run _ = _
    rw [if_pos rfl]
    rfl
  · intro l less others _ p t rest closed size
    refine .kind (f := fun k (i : ι × Nat) => if k = close then pure [] else (do
        let first ← m i.1
        comma close
        let others ← separated close (m i.1) (i.2 - 1)
        return first :: others)) ?_
    by_cases same : t.kind = close
    · simp only [same, if_true]
      exact (Prompt.pure []).settles p _ closed (Nat.le_refl _)
    · simp only [if_neg same]
      have here : Settles (R.both .bound) true can (fun i => m i.1) p (t :: rest) :=
        (item.settles p _ closed (Nat.le_trans (Nat.succ_le_succ size) less)).left
      have goesOn (x : α) : Prompt (R.both .fewer) false (· = close) [] l fun i => do
          comma close
          let others ← separated close (m i.1) (i.2 - 1)
          return x :: others :=
        prompt_comma.bind (fun _ => (others ()).bind (fun xs => .pure (x :: xs)) fun _ => id)
          fun _ => id
      refine (here.bind (Nat.succ_le_succ size) over_fewer goesOn ?_).weaken
      rintro _ rfl
      exact follows

theorem prompt_enclosed {close : Token.Kind} (other : close ≠ .eof)
    (item : Prompt R true can fill n m) (follows : can close) :
    Prompt R true may [.sample close] n fun i => enclosed close (m i) := by
  have lists : Prompt (R.both .bound) true may [.sample close] n fun i => do
      let items ← separated close (m i.1) i.2
      let _ ← expect close
      return items :=
    (prompt_separated item follows).bind
      (fun items => (prompt_expect other).step fun _ => .pure items) fun _ _ => rfl
  exact prompt_sized lists (· + 1) fun i l lasts => ⟨lasts, Nat.le_refl _⟩

/-- Items up to a token that `stops` them, where only such tokens are to follow. -/
theorem prompt_upTo {stops : Token.Kind → Bool} (item : Prompt R true can fill n m)
    (follows : ∀ k, may k → stops k = true ∧ can k) :
    Prompt (R.both .bound) false may [] n fun i => upTo stops (m i.1) i.2 := by
  refine prompt_rounds (fun (_ : Unit) i b => upTo stops (m i) b) ?_ ?_ ()
  · rintro _ p tokens ⟨_, t, first, holds⟩
    obtain ⟨rest, rfl⟩ := List.head?_eq_some_iff.mp first
    refine ⟨[], p, fun i _ => ?_⟩
    change (if stops t.kind = true then pure [] else _ : Parse _).run _ = _
    rw [if_pos (follows t.kind holds).1]
    rfl
  · intro l less others _ p t rest closed size
    refine .current (h := fun t (i : ι × Nat) => if stops t.kind = true then pure [] else
      if t.kind = .eof then throw ⟨.unterminatedBlock, t.span.start⟩ else (do
        let first ← m i.1
        let others ← upTo stops (m i.1) (i.2 - 1)
        return first :: others)) ?_
    by_cases stop : stops t.kind = true
    · simp only [stop, if_true]
      exact (Prompt.pure []).settles p _ closed (Nat.le_refl _)
    · simp only [if_neg stop]
      split
      · exact .throws rfl fun _ _ _ _ => ⟨_, rfl⟩
      · have here : Settles (R.both .bound) true can (fun i => m i.1) p (t :: rest) :=
          (item.settles p _ closed (Nat.le_trans (Nat.succ_le_succ size) less)).left
        have goesOn (x : α) : Prompt (R.both .fewer) false may [] l fun i => do
            let others ← upTo stops (m i.1) (i.2 - 1)
            return x :: others :=
          (others ()).bind (fun xs => .pure (x :: xs)) fun _ => id
        exact (here.bind (Nat.succ_le_succ size) over_fewer goesOn
          fun k holds => (follows k holds).2).weaken

end Parse
end Curly
