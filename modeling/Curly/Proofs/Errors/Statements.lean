import Curly.Grammar.Statement
import Curly.Proofs.Errors.Expressions

/-! Statements decide early. -/
namespace Curly

namespace Token.Kind

/-- A statement before a token of the kind is complete. -/
def Apart (k : Kind) : Prop :=
  k ≠ .elseWord

theorem ne_eof_of_ty {k : Kind} {ty : Ty} (known : k.ty? = some ty) : k ≠ .eof := by
  rintro rfl
  exact nomatch known

theorem ne_eof_of_form {k : Kind} {form : Form} (known : k.form? = some form) : k ≠ .eof := by
  rintro rfl
  exact nomatch known

end Token.Kind

namespace Parse

variable {ι : Type} {R S : Fuel ι} {may : Token.Kind → Prop} {p q : Option Position} {t u : Token}
  {rest : List Token} {n : Nat}

theorem prompt_arguments {can : Token.Kind → Prop} {fill : List Token} {inner : ι → Inner Parse}
    (each : Prompt R true can fill n fun i => inner i .lowest) (follows : can .closeParen) :
    Prompt R true may [.sample .openParen, .sample .closeParen] n fun i => arguments (inner i) :=
  (prompt_expect (by decide)).step fun _ => prompt_enclosed (by decide) each follows

theorem run_ty {found : Ty} (known : t.kind.ty? = some found) :
    (ty .full).run (.facing p (t :: rest)) =
      (advance >>= fun _ => pure found).run (.facing p (t :: rest)) := by
  rw [ty, run_current_bind, show Grammar.full.ty? t.kind = some found from known]

theorem run_ty_none (absent : t.kind.ty? = none) :
    (ty .full).run (.facing p (t :: rest)) =
      .error (.unfitting t "expected a type name") (.facing p (t :: rest)) := by
  rw [ty, run_current_bind, show Grammar.full.ty? t.kind = none from absent]
  rfl

theorem prompt_ty : Prompt R true anything [.sample .intType] n fun _ => ty .full := by
  refine .first (fun p tokens opens => ⟨.int, some .unknown, fun _ _ => ?_⟩)
    fun p t rest closed size => ?_
  · rw [List.singleton_append, run_ty rfl, EStateM.run_bind, run_advance opens.closed]
    rfl
  · cases known : t.kind.ty? with
    | none => exact .throws rfl fun _ _ _ _ => ⟨_, run_ty_none known⟩
    | some ty =>
      have read : Settles R true anything (fun _ => advance >>= fun _ => pure ty) p (t :: rest) :=
        .passing closed (Token.Kind.ne_eof_of_ty known) (Nat.le_of_succ_le size) R.over_self
          (.pure ty)
      exact read.congr fun _ _ _ _ => run_ty known

theorem prompt_condition : Prompt R true may
    [.sample .openParen, .sample .identifier, .sample .closeParen] n fun _ => condition .full :=
  (prompt_expect (by decide)).step fun _ => (prompt_expression .lowest).bind
    (fun e => (prompt_expect (by decide)).step fun _ => .pure e) fun _ _ => rfl

theorem prompt_initialized (begin : Position) (ty : Ty) (name : String) :
    Prompt R true may [.sample .semicolon] n fun _ => initialized .full begin ty name := by
  have initial : Prompt R false (· = .semicolon) [] n
      fun _ => behind? .assignment (expression .full .lowest) := by
    refine prompt_behind (by decide) (prompt_expression .lowest) ?_
    rintro _ rfl
    exact ⟨rfl, by decide⟩
  exact initial.bind (fun _ => (prompt_expect (by decide)).step fun _ =>
    (Prompt.spanFrom begin).step fun _ => .pure _) fun _ _ => rfl

theorem prompt_variableStatement : Prompt R true may
    [.sample .intType, .sample .identifier, .sample .semicolon] n
      fun _ => variableStatement .full :=
  Prompt.start.step fun _ => prompt_ty.step fun _ => (prompt_expect (by decide)).step fun _ =>
    prompt_initialized ..

theorem prompt_param : Prompt R true may [.sample .intType, .sample .identifier] n
    fun _ => param .full :=
  Prompt.start.step fun _ => prompt_ty.step fun _ => (prompt_expect (by decide)).step fun _ =>
    (Prompt.spanFrom _).step fun _ => .pure _

theorem prompt_evaluate : Prompt R true may [.sample .identifier, .sample .semicolon] n
    fun _ => evaluate .full :=
  (prompt_expression .lowest).bind (fun _ => (prompt_expect (by decide)).step fun _ =>
    (Prompt.spanFrom _).step fun _ => .pure _) fun _ _ => rfl

/-! The word `void` in place of parameters is known by the token behind it. -/

/-- The parameters and the parenthesis behind them. -/
def parameters : Parse (List Param) :=
  enclosed .closeParen (param .full)

theorem prompt_parameters : Prompt R true may [.sample .closeParen] n fun _ => parameters :=
  prompt_enclosed (by decide) prompt_param rfl

theorem run_parameters_none (closes : u.kind = .closeParen) (closed : Closed rest) :
    parameters.run (.facing p (u :: rest)) = .ok [] (.facing (some u.span.stop) rest) := by
  obtain ⟨v, others, rfl⟩ := List.exists_cons_of_ne_nil closed.ne_nil
  obtain ⟨_, value, span⟩ := u
  subst closes
  rfl

/-- Two tokens of which the second one shows that there are no parameters. -/
def Void (t u : Token) : Prop :=
  t.kind = .voidType ∧ u.kind = .closeParen

theorem run_noParams_void (void : Void t u) (closed : Closed rest) :
    (noParams >>= fun _ => parameters).run (.facing p (t :: u :: rest)) =
      .ok [] (.facing (some u.span.stop) rest) := by
  have passes : noParams.run (.facing p (t :: u :: rest)) =
      .ok () (.facing (some t.span.stop) (u :: rest)) := by
    change EStateM.run (if t.kind = Token.Kind.voidType ∧ u.kind = Token.Kind.closeParen then
      (do let _ ← advance) else _) _ = _
    rw [if_pos (show t.kind = .voidType ∧ u.kind = .closeParen from void)]
    rfl
  rw [EStateM.run_bind, passes]
  exact run_parameters_none void.2 closed

theorem run_noParams (other : ∀ u ∈ rest.head?, ¬ Void t u) :
    (noParams >>= fun _ => parameters).run (.facing p (t :: rest)) =
      parameters.run (.facing p (t :: rest)) := by
  have absent : ¬ (t.kind = .voidType ∧ (Cursor.facing p (t :: rest)).peek 1 = .closeParen) := by
    cases rest with
    | nil =>
      rintro ⟨void, closes⟩
      have same : t.kind = .closeParen := closes
      rw [void] at same
      exact nomatch same
    | cons u rest => exact other u rfl
  have stays : noParams.run (.facing p (t :: rest)) = .ok () (.facing p (t :: rest)) := by
    change EStateM.run (if t.kind = Token.Kind.voidType ∧
      (Cursor.facing p (t :: rest)).peek 1 = Token.Kind.closeParen then _ else pure ()) _ = _
    rw [if_neg absent]
    rfl
  rw [EStateM.run_bind, stays]

/-- What begins with `void` can still be completed. -/
theorem viable_void (void : t.kind = .voidType) :
    Viable R may (fun _ => noParams >>= fun _ => parameters) p [t] :=
  ⟨[.sample .closeParen], fun _ opens =>
    ⟨[], some .unknown, fun _ _ => run_noParams_void ⟨void, rfl⟩ opens.closed⟩⟩

/-- How the first of two tokens, or both, stand at the front of a text. -/
theorem pair_of_prefix {used others : List Token} (shows : t :: u :: rest = used ++ others)
    (some : used ≠ []) : used = [t] ∧ others = u :: rest ∨ ∃ more, used = t :: u :: more := by
  rcases used with _ | ⟨a, _ | ⟨b, used⟩⟩
  · exact absurd rfl some
  · obtain ⟨rfl, rfl⟩ := List.cons.inj shows
    exact .inl ⟨rfl, rfl⟩
  · simp only [List.cons_append, List.cons.injEq] at shows
    obtain ⟨rfl, rfl, _⟩ := shows
    exact .inr ⟨used, rfl⟩

/-- A parser that looks at two tokens and reads on from them as another one does, where the other
one does not fail at the first. -/
theorem Settles.congr_pair {α : Type} {m other : ι → Parse α}
    (settles : Settles R true may other p (t :: u :: rest))
    (same : ∀ i after, (m i).run (.facing p (t :: u :: after)) =
      (other i).run (.facing p (t :: u :: after)))
    (later : ∀ error, ¬ ∀ after, Closed (t :: after) → Fails R other p (t :: after) error)
    (viable : Viable R may m p [t]) : Settles R true may m p (t :: u :: rest) := by
  have extended {before others : List Token} (shows : t :: u :: rest = before ++ others)
      (some : before ≠ []) (known : Viable R may other p before) : Viable R may m p before := by
    rcases pair_of_prefix shows some with ⟨rfl, _⟩ | ⟨before, rfl⟩
    · exact viable
    · obtain ⟨more, completes⟩ := known
      refine ⟨more, fun tokens opens => ?_⟩
      obtain ⟨x, q, gives⟩ := completes tokens opens
      exact ⟨x, q, fun i lasts => (same i _).trans (gives i lasts)⟩
  have alike {before others tokens : List Token} (shows : t :: u :: rest = before ++ others)
      (some : before ≠ []) (like : tokens.head? = others.head?) (i : ι) :
      (m i).run (.facing p (before ++ tokens)) = (other i).run (.facing p (before ++ tokens)) := by
    rcases pair_of_prefix shows some with ⟨rfl, rfl⟩ | ⟨before, rfl⟩
    · obtain ⟨after, rfl⟩ := List.head?_eq_some_iff.mp like
      exact same i after
    · exact same i _
  cases settles with
  | accepts used rest x q shows closed accepted =>
    have some := accepted.passes rfl
    refine .accepts used rest x q shows closed ⟨fun tokens ends like i lasts => ?_,
      accepted.passes, fun some => extended shows some (accepted.viable some)⟩
    rw [alike shows some like]
    exact accepted.gives tokens ends like i lasts
  | rejects before v after error shows rejected =>
    have some : before ≠ [] := by
      rintro rfl
      obtain ⟨rfl, _⟩ := List.cons.inj shows
      exact later error rejected.fails
    refine .rejects before v after error shows ⟨rejected.position, fun after closed i lasts => ?_,
      fun some => extended shows some (rejected.viable some)⟩
    obtain ⟨c, failed⟩ := rejected.fails after closed i lasts
    have like := alike shows some (show (v :: after).head? = _ from rfl) i
    exact ⟨c, like.trans failed⟩

/-- A word `void` is not refused where parameters stand: it may be the type of one. -/
theorem not_fails_void (void : t.kind = .voidType) (error : SyntaxError) :
    ¬ ∀ after, Closed (t :: after) →
      Fails .endless (fun _ => parameters) p (t :: after) error := by
  obtain ⟨_, value, span⟩ := t
  subst void
  intro fails
  obtain ⟨c, failed⟩ := fails [.sample .identifier, .sample .closeParen, .sample .eof]
    ⟨_, rfl, rfl⟩ () trivial
  exact nomatch failed

theorem prompt_noParams : Prompt R true may [.sample .closeParen] n
    fun _ => noParams >>= fun _ => parameters := by
  have given {n : Nat} : Prompt .endless true may [.sample .closeParen] n fun _ => parameters :=
    prompt_parameters
  refine Prompt.plain ⟨fun p tokens opens => ?_, fun p tokens closed size => ?_⟩
  · obtain ⟨x, q, gives⟩ := (prompt_parameters (n := n)).completes p tokens opens
    have other : ∀ u ∈ tokens.head?, ¬ Void (.sample .closeParen) u := by
      rintro u _ ⟨⟨⟩, _⟩
    exact ⟨x, q, fun i lasts => (run_noParams other).trans (gives i lasts)⟩
  · have settles := given.settles p tokens closed size
    obtain ⟨t, rest, rfl⟩ := List.exists_cons_of_ne_nil closed.ne_nil
    by_cases void : t.kind = .voidType
    · have behind := closed.tail (by rw [void]; decide)
      obtain ⟨u, others, rfl⟩ := List.exists_cons_of_ne_nil behind.ne_nil
      -- Only the second token tells whether the word is the type of a parameter.
      by_cases closes : u.kind = .closeParen
      · have run {tokens : List Token} (closed : Closed tokens) :=
          run_noParams_void (p := p) ⟨void, closes⟩ closed
        refine .accepts [t, u] others [] _ rfl (behind.tail (by rw [closes]; decide))
          ⟨fun tokens closed _ _ _ => run closed, fun _ => List.cons_ne_nil _ _, fun _ => ?_⟩
        exact ⟨[], fun tokens opens => ⟨[], _, fun _ _ => run opens.closed⟩⟩
      · refine settles.congr_pair (fun _ after => run_noParams ?_) (not_fails_void void)
          (viable_void void)
        rintro _ ⟨⟩ both
        exact closes both.2
    · exact settles.congr fun _ after _ _ => run_noParams fun u _ both => void both.1

theorem prompt_params : Prompt R true may [.sample .openParen, .sample .closeParen] n
    fun _ => params .full :=
  (prompt_expect (by decide)).step fun _ => prompt_noParams

theorem prompt_initial : Prompt R true anything [.sample .identifier, .sample .semicolon] n
    fun _ => initial .full := by
  have assigned : Prompt R true anything [.sample .identifier, .sample .semicolon] n fun _ => do
      let e ← expression .full .lowest
      let _ ← expect .semicolon
      return some (Stmt.evaluate e e.span) :=
    (prompt_expression .lowest).bind (fun _ => (prompt_expect (by decide)).step fun _ => .pure _)
      fun _ _ => rfl
  refine prompt_skipped (by decide) (.pure none) (prompt_unless (fun p _ _ closed size _ => ?_)
    assigned fun _ _ => Bool.false_ne_true) fun _ _ =>
      (by decide : Token.Kind.identifier ≠ .semicolon)
  have declared : Settles R true anything (fun _ => variableStatement .full) p _ :=
    prompt_variableStatement.settles p _ closed size
  simp only [map_eq_pure_bind]
  exact declared.andThen (Nat.le_refl _) (fun _ => .pure _) fun _ => id

/-! Constructs with statements inside. -/

/-- The shortest statement. -/
def shortest : List Token :=
  [.sample .breakWord, .sample .semicolon]

/-- The parsers read statements of at most `n` tokens early, each one with its own fuel. -/
def Sentences (S : Fuel ι) (n : Nat) (inner : ι → Parse Stmt) : Prop :=
  Prompt S true Token.Kind.Apart shortest n inner

variable {inner : ι → Parse Stmt} (each : Sentences S n inner)

section

include each

theorem prompt_statements {stops : Token.Kind → Bool}
    (follows : ∀ k, may k → stops k = true ∧ k.Apart) :
    Prompt S false may [] n fun i => statements (inner i) stops :=
  prompt_sized (prompt_upTo each follows) (· + 1) fun _ _ lasts => ⟨lasts, Nat.le_refl _⟩

/-- What stands behind the brace that opens a block. -/
theorem prompt_blockBody (brace : Token) : Prompt S true may [.sample .closeCurly] n fun i => do
    let body ← statements (inner i) (· = .closeCurly)
    let _ ← expect .closeCurly
    return (⟨body, ← spanFrom brace.span.start⟩ : Block) := by
  have body : Prompt S false (· = .closeCurly) [] n
      fun i => statements (inner i) (· = .closeCurly) := by
    refine prompt_statements each ?_
    rintro _ rfl
    exact ⟨rfl, by simp [Token.Kind.Apart]⟩
  exact body.bind (fun _ => (prompt_expect (by decide)).step fun _ =>
    (Prompt.spanFrom _).step fun _ => .pure _) fun _ _ => rfl

theorem prompt_block :
    Prompt S true may [.sample .openCurly, .sample .closeCurly] n fun i => block (inner i) :=
  (prompt_expect (by decide)).step (prompt_blockBody each)

theorem prompt_body : Prompt S true Token.Kind.Apart [.sample .openCurly, .sample .closeCurly] n
    fun i => body (inner i) :=
  prompt_when (prompt_block each)
    (fun p _ _ closed size _ => (each.bind (fun _ => .pure _) fun _ => id).settles p _ closed size)
    fun _ _ => rfl

theorem prompt_arm : Prompt S true (· = .closeCurly) [.sample .openCurly, .sample .closeCurly] n
    fun i => arm (inner i) := by
  refine prompt_when (prompt_block each) (fun p _ _ closed size _ => ?_) fun _ _ => rfl
  have body : Prompt S false (· = .closeCurly) [] n fun i => statements (inner i)
      fun k => k = .caseWord || k = .defaultWord || k = .closeCurly := by
    refine prompt_statements each ?_
    rintro _ rfl
    exact ⟨rfl, by simp [Token.Kind.Apart]⟩
  have colon : Prompt S true anything [.sample .colon] n fun _ => expect .colon :=
    prompt_expect (by decide)
  exact (colon.step fun _ => body.bind
    (fun _ => (Prompt.spanFrom _).step fun _ => .pure _) fun _ => id).settles p _ closed size

theorem prompt_arms (fallback : Option Block) : Prompt (S.both .bound) false (· = .closeCurly) [] n
    fun i => arms .full (inner i.1) i.2 fallback := by
  refine prompt_rounds (fun fallback (i : ι) b => arms .full (inner i) b fallback) ?_ ?_ fallback
  · rintro fallback p tokens ⟨_, t, first, closes⟩
    obtain ⟨rest, rfl⟩ := List.head?_eq_some_iff.mp first
    refine ⟨([], fallback), p, fun i _ => ?_⟩
    change EStateM.run (if t.kind = Token.Kind.closeCurly then pure ([], fallback) else _) _ = _
    rw [if_pos closes]
    rfl
  · intro l less others fallback p t rest closed size
    have arm : Prompt (S.both .fewer) true (· = .closeCurly) _ l fun i => arm (inner i.1) :=
      ((prompt_arm each).shorten (Nat.le_of_lt less)).left
    refine .current (h := fun t (i : ι × Nat) =>
      if t.kind = .closeCurly then pure ([], fallback)
      else if t.kind = .caseWord then do
        let _ ← advance
        let value ← expression .full .lowest
        let body ← Parse.arm (inner i.1)
        let first : Case := ⟨value, body, ← spanFrom t.span.start⟩
        let others ← arms .full (inner i.1) (i.2 - 1) fallback
        return (first :: others.1, others.2)
      else if t.kind = .defaultWord ∧ fallback.isNone then do
        let _ ← advance
        let body ← Parse.arm (inner i.1)
        arms .full (inner i.1) (i.2 - 1) (some body)
      else if t.kind = .eof then throw ⟨.unterminatedBlock, t.span.start⟩
      else throw (.unfitting t "expected `case` or `default` inside switch")) ?_
    by_cases closes : t.kind = .closeCurly
    · simp only [if_pos closes]
      exact (Prompt.pure _).settles p _ closed (Nat.le_refl _)
    by_cases isCase : t.kind = .caseWord
    · simp only [if_neg closes, if_pos isCase]
      apply Settles.weaken
      apply Settles.passing closed (by rw [isCase]; decide) size over_fewer
      exact (prompt_expression .lowest).bind (fun value => arm.bind (fun body =>
        (Prompt.spanFrom _).step fun span => (others fallback).bind (fun _ => .pure _)
          fun _ => id) fun _ => id) fun _ _ => rfl
    by_cases isDefault : t.kind = .defaultWord ∧ fallback.isNone
    · simp only [if_neg closes, if_neg isCase, if_pos isDefault]
      apply Settles.weaken
      apply Settles.passing closed (by rw [isDefault.1]; decide) size over_fewer
      exact arm.bind (fun body => others (some body)) fun _ => id
    simp only [if_neg closes, if_neg isCase, if_neg isDefault]
    split
    · exact .throws rfl fun _ _ _ _ => ⟨_, rfl⟩
    · exact .throws rfl fun _ _ _ _ => ⟨_, rfl⟩

variable (onward : R.Over S) (closed : Closed (t :: rest)) (size : rest.length ≤ n)

include onward closed size

theorem settles_mainFunction (other : t.kind ≠ .eof) :
    Settles R true may (fun i => mainFunction (inner i)) p (t :: rest) := by
  apply Settles.passing closed other size onward
  have parens : Prompt S false (· = .openCurly) [] n
      fun _ => behind? .openParen (expect .closeParen) := by
    refine prompt_behind (by decide) (prompt_expect (by decide)) ?_
    rintro _ rfl
    exact ⟨trivial, by decide⟩
  exact parens.bind (fun _ => (prompt_block each).step fun _ =>
    (Prompt.spanFrom _).step fun _ => .pure _) fun _ _ => rfl

theorem settles_branch (other : t.kind ≠ .eof) :
    Settles R true Token.Kind.Apart (fun i => branch .full (inner i)) p (t :: rest) := by
  apply Settles.passing closed other size onward
  have no : Prompt S false Token.Kind.Apart [] n fun i => behind? .elseWord (body (inner i)) :=
    prompt_behind (by decide) (prompt_body each) fun _ apart => ⟨apart, apart⟩
  exact prompt_condition.step fun _ => (prompt_body each).bind (fun _ => no.bind
    (fun _ => (Prompt.spanFrom _).step fun _ => .pure _) fun _ => id) fun _ => id

theorem settles_whileLoop (other : t.kind ≠ .eof) :
    Settles R true Token.Kind.Apart (fun i => whileLoop .full (inner i)) p (t :: rest) := by
  apply Settles.passing closed other size onward
  exact prompt_condition.step fun _ => (prompt_body each).bind
    (fun _ => (Prompt.spanFrom _).step fun _ => .pure _) fun _ => id

theorem settles_doLoop (other : t.kind ≠ .eof) :
    Settles R true may (fun i => doLoop .full (inner i)) p (t :: rest) := by
  apply Settles.passing closed other size onward
  have behind : Token.Kind.Apart .whileWord := by simp [Token.Kind.Apart]
  exact (prompt_body each).bind (fun _ => (prompt_expect (by decide)).step fun _ =>
    prompt_condition.step fun _ => (prompt_expect (by decide)).step fun _ =>
      (Prompt.spanFrom _).step fun _ => .pure _) fun _ _ => behind

theorem settles_switch (other : t.kind ≠ .eof) :
    Settles R true may (fun i => switch .full (inner i)) p (t :: rest) := by
  apply Settles.passing closed other size onward
  have body (subject : Expr) : Prompt S true may [.sample .closeCurly] n fun i => do
      let found ← arms .full (inner i) ((← get).room + 1) none
      let _ ← expect .closeCurly
      return Stmt.switch subject found.1 found.2 (← spanFrom t.span.start) := by
    have listed : Prompt (S.both .bound) true may [.sample .closeCurly] n fun i => do
        let found ← arms .full (inner i.1) i.2 none
        let _ ← expect .closeCurly
        return Stmt.switch subject found.1 found.2 (← spanFrom t.span.start) :=
      (prompt_arms each none).bind (fun _ => (prompt_expect (by decide)).step fun _ =>
        (Prompt.spanFrom _).step fun _ => .pure _) fun _ _ => rfl
    exact prompt_sized listed (· + 1) fun _ _ lasts => ⟨lasts, Nat.le_refl _⟩
  exact prompt_condition.step fun subject => (prompt_expect (by decide)).step fun _ => body subject

theorem settles_block :
    Settles R true may (fun i => Stmt.block <$> block (inner i)) p (t :: rest) := by
  have brace : Settles R true anything (fun _ => expect .openCurly) p (t :: rest) :=
    (prompt_expect (by decide)).settles p _ closed (Nat.le_refl _)
  have block : Settles R true may (fun i => block (inner i)) p (t :: rest) :=
    brace.bind (Nat.succ_le_succ size) onward (prompt_blockBody each) fun _ _ => trivial
  simp only [map_eq_pure_bind]
  exact block.andThen (Nat.le_refl _) (fun _ => .pure _) fun _ => id

theorem settles_forLoop (other : t.kind ≠ .eof) :
    Settles R true Token.Kind.Apart (fun i => forLoop .full (inner i)) p (t :: rest) := by
  apply Settles.passing closed other size onward
  have optional (k : Token.Kind) (ends : k.Ends) : Prompt S false (· = k) [] n
      fun _ => before? k (expression .full .lowest) := by
    refine prompt_before (prompt_expression .lowest) ?_
    rintro _ rfl
    exact ⟨rfl, ends⟩
  exact (prompt_expect (by decide)).step fun _ => prompt_initial.step fun _ =>
    (optional .semicolon rfl).bind (fun _ => (prompt_expect (by decide)).step fun _ =>
      (optional .closeParen rfl).bind (fun _ => (prompt_expect (by decide)).step fun _ =>
        (prompt_body each).bind (fun _ => (Prompt.spanFrom _).step fun _ => .pure _) fun _ => id)
        fun _ _ => rfl) fun _ _ => rfl

omit onward closed size in
/-- What stands behind the type and the name of a function. -/
theorem prompt_function (begin : Position) (ty : Ty) (name : String) : Prompt S true may
    [.sample .openParen, .sample .closeParen, .sample .openCurly, .sample .closeCurly] n fun i => do
      let params ← params .full
      if ← skip .semicolon then
        return Stmt.prototype ty name params (← spanFrom begin)
      let body ← block (inner i)
      return Stmt.function ty name params body (← spanFrom begin) :=
  prompt_params.step fun _ => prompt_skipped (by decide)
    ((Prompt.spanFrom _).step fun _ => .pure _)
    ((prompt_block each).step fun _ => (Prompt.spanFrom _).step fun _ => .pure _)
    fun _ _ => (by decide : Token.Kind.openCurly ≠ .semicolon)

omit onward closed size in
/-- What stands behind the type that a declaration begins with. -/
theorem prompt_declared (begin : Position) (ty : Ty) : Prompt S true may
    [.sample .identifier, .sample .semicolon] n fun i => do
      if ← skip .mainWord then
        let _ ← expect .openParen
        let _ ← expect .closeParen
        let body ← block (inner i)
        return Stmt.main body (← spanFrom begin)
      let name ← expect .identifier "expected identifier after type name"
      if (← kind) ≠ .openParen then initialized .full begin ty name.value
      else
        let params ← params .full
        if ← skip .semicolon then
          return Stmt.prototype ty name.value params (← spanFrom begin)
        let body ← block (inner i)
        return Stmt.function ty name.value params body (← spanFrom begin) :=
  prompt_skipped (by decide)
    ((prompt_expect (by decide)).step fun _ => (prompt_expect (by decide)).step fun _ =>
      (prompt_block each).step fun _ => (Prompt.spanFrom _).step fun _ => .pure _)
    ((prompt_expect (by decide)).step fun name => prompt_when (prompt_initialized begin ty _)
      (fun p _ _ closed size _ => (prompt_function each begin ty _).settles p _ closed size)
      fun _ _ => (by decide : Token.Kind.semicolon ≠ .openParen))
    fun _ _ => (by decide : Token.Kind.identifier ≠ .mainWord)

theorem settles_declaration :
    Settles R true may (fun i => declaration .full (inner i)) p (t :: rest) := by
  have typed : Settles R true anything (fun _ => Parse.ty .full) p (t :: rest) :=
    prompt_ty.settles p _ closed (Nat.le_refl _)
  exact .start (typed.bind (Nat.succ_le_succ size) onward (fun ty => prompt_declared each _ ty)
    fun _ _ => trivial)

omit each

theorem settles_enumeration (other : t.kind ≠ .eof) :
    Settles R true may (fun _ => enumeration) p (t :: rest) := by
  apply Settles.passing closed other size onward
  have value : Prompt S true anything [.sample .identifier] n fun _ => do
      let t ← expect .identifier
      return Identifier.mk t.value t.span :=
    (prompt_expect (by decide)).step fun _ => .pure _
  exact (prompt_expect (by decide)).step fun _ => (prompt_expect (by decide)).step fun _ =>
    (prompt_enclosed (by decide) value trivial).step fun _ => (Prompt.spanFrom _).step fun _ =>
      (prompt_skip (by decide)).step fun _ => (Prompt.spanFrom _).step fun _ => .pure _

theorem settles_giveBack (other : t.kind ≠ .eof) :
    Settles R true may (fun _ => giveBack .full) p (t :: rest) := by
  apply Settles.passing closed other size onward
  have value : Prompt S false (· = .semicolon) [] n
      fun _ => before? .semicolon (expression .full .lowest) := by
    refine prompt_before (prompt_expression .lowest) ?_
    rintro _ rfl
    exact ⟨rfl, rfl⟩
  exact value.bind (fun _ => (prompt_expect (by decide)).step fun _ =>
    (Prompt.spanFrom _).step fun _ => .pure _) fun _ _ => rfl

theorem settles_leave (other : t.kind ≠ .eof) :
    Settles R true may (fun _ => leave) p (t :: rest) := by
  apply Settles.passing closed other size onward
  exact (prompt_expect (by decide)).step fun _ => (Prompt.spanFrom _).step fun _ => .pure _

theorem settles_print (other : t.kind ≠ .eof) :
    Settles R true may (fun _ => print .full) p (t :: rest) := by
  apply Settles.passing closed other size onward
  exact (prompt_arguments (prompt_expression .lowest) rfl).step fun _ =>
    (prompt_expect (by decide)).step fun _ => (Prompt.spanFrom _).step fun _ => .pure _

theorem settles_inclusion (other : t.kind ≠ .eof) :
    Settles R true may (fun _ => inclusion) p (t :: rest) := by
  apply Settles.passing closed other size onward
  exact .pure _

end

theorem settles_formed (each : Sentences S n inner) (onward : R.Over S)
    (closed : Closed (t :: rest)) (size : rest.length ≤ n) {form : Form}
    (known : t.kind.form? = some form) :
    Settles R true Token.Kind.Apart (fun i => formed .full (inner i) form) p (t :: rest) := by
  have other := Token.Kind.ne_eof_of_form known
  cases form with
  | declaration => exact settles_declaration each onward closed size
  | main => exact settles_mainFunction each onward closed size other
  | enumeration => exact settles_enumeration onward closed size other
  | inclusion => exact settles_inclusion onward closed size other
  | block => exact settles_block each onward closed size
  | branch => exact settles_branch each onward closed size other
  | whileLoop => exact settles_whileLoop each onward closed size other
  | doLoop => exact settles_doLoop each onward closed size other
  | forLoop => exact settles_forLoop each onward closed size other
  | switch => exact settles_switch each onward closed size other
  | giveBack => exact settles_giveBack onward closed size other
  | leave => exact settles_leave onward closed size other
  | print => exact settles_print onward closed size other

end Parse
end Curly
