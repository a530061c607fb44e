import Curly.Proofs.Grammar.Tracking

/-! Parsing ends, at the first end mark at the latest. Statements are tracked as expressions are, by
the tokens that are left. -/
namespace Curly.Run

variable {p : Option Position} {t : Token} {tokens rest : List Token} {moves : Bool} {limit n : Nat}

theorem tracks_ty : Tracks n moves (Parse.ty .full : Run limit Ty) (Parse.ty .full) := by
  refine .any (.of_prompt (.current fun t => ?_) Parse.prompt_ty)
  cases Grammar.full.ty? t.kind with
  | none => exact fun _ => rfl
  | some ty => exact fun _ => rfl

theorem tracks_noParams : Tracks n false (Parse.noParams : Run limit Unit) Parse.noParams := by
  refine .of_cons fun p t rest closed size => ?_
  have look : Ends false (if t.kind = .voidType ∧
        (Cursor.facing p (t :: rest)).peek 1 = .closeParen then
      Parse.advance >>= fun _ => pure () else pure () : Run limit Unit)
      (if t.kind = .voidType ∧ (Cursor.facing p (t :: rest)).peek 1 = .closeParen then
        Parse.advance >>= fun _ => pure () else pure ()) p (t :: rest) := by
    split
    next alone => exact (Ends.passing closed (by simp [alone.1]) (Nat.le_refl _) (.pure ())).weaken
    next => exact .pure closed ()
  exact ⟨look.same, look.walks⟩

section

variable (allowed : n ≤ limit)

include allowed

theorem tracks_condition :
    Tracks n moves (Parse.condition .full : Run limit Expr) (Parse.condition .full) :=
  (Tracks.expect (by decide)).bind fun _ => (tracks_expression allowed .lowest).bind fun e =>
    (Tracks.expect (by decide)).bind fun _ => .pure e

theorem tracks_initialized (begin : Position) (ty : Ty) (name : String) :
    Tracks n false (Parse.initialized .full begin ty name : Run limit Stmt)
      (Parse.initialized .full begin ty name) :=
  (Tracks.behind? (by decide) (tracks_expression allowed .lowest)).bind fun _ =>
    (Tracks.expect (by decide)).bind fun _ => .spanned _ _

theorem tracks_variableStatement :
    Tracks n false (Parse.variableStatement .full : Run limit Stmt)
      (Parse.variableStatement .full) :=
  Tracks.start.bind fun begin => tracks_ty.bind fun ty => (Tracks.expect (by decide)).bind
    fun name => tracks_initialized allowed begin ty name.value

theorem tracks_params :
    Tracks n false (Parse.params .full : Run limit (List Param)) (Parse.params .full) := by
  have param : Tracks n true (Parse.param .full : Run limit Param) (Parse.param .full) :=
    .first fun _ => tracks_ty.bind fun _ => (Tracks.expect (by decide)).bind fun _ => .spanned _ _
  exact (Tracks.expect (by decide)).bind fun _ => tracks_noParams.bind fun _ =>
    .enclosed allowed (by decide) param

theorem tracks_evaluate :
    Tracks n moves (Parse.evaluate .full : Run limit Stmt) (Parse.evaluate .full) :=
  (tracks_expression allowed .lowest).bind fun _ => (Tracks.expect (by decide)).bind fun _ =>
    .spanned _ _

theorem tracks_initial :
    Tracks n false (Parse.initial .full : Run limit (Option Stmt)) (Parse.initial .full) :=
  (Tracks.skip (by decide)).bind fun _ => .ite (.pure none) (Tracks.kind.bind fun _ =>
    .ite (tracks_variableStatement allowed).map
      ((tracks_expression allowed .lowest).bind fun _ => (Tracks.expect (by decide)).bind
        fun _ => .pure _))

section

variable {inner : Run limit Stmt} {bounded : Parse Stmt} (each : Tracks n true inner bounded)

include each

theorem tracks_statements (stops : Token.Kind → Bool) :
    Tracks n false (Parse.statements inner stops) (Parse.statements bounded stops) :=
  .sized fun _ size => .rounds_upTo each size (Nat.le_trans size allowed) (Nat.le_refl _)

theorem tracks_block : Tracks (n + 1) true (Parse.block inner) (Parse.block bounded) := by
  intro p tokens closed size
  have opening : Tracks (n + 1) true (Parse.expect .openCurly : Run limit Token) _ :=
    .expect (by decide)
  exact (opening p tokens closed size).bind size fun brace =>
    (tracks_statements allowed each _).bind fun body => (Tracks.expect (by decide)).bind fun _ =>
      .spanned _ _

theorem tracks_body : Tracks n false (Parse.body inner) (Parse.body bounded) :=
  Tracks.kind.bind fun _ => .ite ((tracks_block allowed each).shorten (Nat.le_succ n)).weaken
    (each.weaken.bind fun _ => .pure _)

theorem tracks_arm : Tracks n false (Parse.arm inner) (Parse.arm bounded) :=
  Tracks.kind.bind fun _ => .ite ((tracks_block allowed each).shorten (Nat.le_succ n)).weaken
    ((Tracks.expect (by decide)).bind fun _ => (tracks_statements allowed each _).bind fun _ =>
      .spanned _ _)

theorem rounds_arms (fallback : Option Block) {length rounds bound : Nat} (less : length ≤ n)
    (granted : length ≤ rounds) (enough : length ≤ bound) :
    Tracks length false (Parse.arms .full inner rounds fallback)
      (Parse.arms .full bounded bound fallback) := by
  induction length generalizing fallback rounds bound with
  | zero => exact .zero
  | succ length ih =>
    obtain ⟨rounds, rfl⟩ := Nat.exists_eq_add_one.mpr (show 0 < rounds by omega)
    obtain ⟨bound, rfl⟩ := Nat.exists_eq_add_one.mpr (show 0 < bound by omega)
    have others (fallback : Option Block) : Tracks length false
        (Parse.arms .full inner rounds fallback) (Parse.arms .full bounded bound fallback) :=
      ih fallback (by omega) (by omega) (by omega)
    have arm : Tracks length false (Parse.arm inner) (Parse.arm bounded) :=
      (tracks_arm allowed each).shorten (Nat.le_of_succ_le less)
    have value : Tracks length false (Parse.expression .full .lowest : Run limit Expr) _ :=
      tracks_expression (by omega) .lowest
    refine .of_cons fun p t rest closed size => ?_
    rw [Parse.arms, Parse.arms]
    refine .current ?_
    by_cases closes : t.kind = .closeCurly
    · simp only [if_pos closes]
      exact .pure closed _
    by_cases valued : t.kind = .caseWord
    · simp only [if_neg closes, if_pos valued]
      refine Ends.weaken (.passing closed (by simp [valued]) (Nat.le_of_lt_succ size) ?_)
      exact value.bind fun value => arm.bind fun body =>
        (Tracks.spanFrom _).bind fun span => (others fallback).bind fun _ => .pure _
    by_cases unvalued : t.kind = .defaultWord ∧ fallback.isNone
    · simp only [if_neg closes, if_neg valued, if_pos unvalued]
      refine Ends.weaken (.passing closed (by simp [unvalued.1]) (Nat.le_of_lt_succ size) ?_)
      exact arm.bind fun body => others (some body)
    simp only [if_neg closes, if_neg valued, if_neg unvalued]
    split
    · exact .throw _
    · exact .throw _

/-- A statement of each form ends, since it has a first token and what stands inside is shorter. -/
theorem ends_formed {form : Form} (closed : Closed (t :: rest)) (size : rest.length ≤ n)
    (known : t.kind.form? = some form) :
    Ends true (Parse.formed .full inner form) (Parse.formed .full bounded form) p (t :: rest) := by
  have other := Token.Kind.ne_eof_of_form known
  have block := ((tracks_block allowed each).shorten (Nat.le_succ n)).weaken
  have body := tracks_body allowed each
  have condition : Tracks n false (Parse.condition .full : Run limit Expr) _ :=
    tracks_condition allowed
  have value : Tracks n false (Parse.expression .full .lowest : Run limit Expr) _ :=
    tracks_expression allowed .lowest
  cases form with
  | declaration =>
    refine .start ?_
    refine (tracks_ty p _ closed (Nat.le_refl _)).bind (Nat.succ_le_succ size) fun ty => ?_
    refine (Tracks.skip (by decide)).bind fun _ => .ite ?_ ?_
    · exact (Tracks.expect (by decide)).bind fun _ => (Tracks.expect (by decide)).bind fun _ =>
        block.bind fun _ => .spanned _ _
    · refine (Tracks.expect (by decide)).bind fun name => Tracks.kind.bind fun _ =>
        .ite (tracks_initialized allowed _ ty _) ((tracks_params allowed).bind fun _ => ?_)
      exact (Tracks.skip (by decide)).bind fun _ => .ite (.spanned _ _)
        (block.bind fun _ => .spanned _ _)
  | main =>
    refine .passing closed other size ?_
    exact (Tracks.behind? (by decide) (.expect (by decide))).bind fun _ =>
      block.bind fun _ => .spanned _ _
  | enumeration =>
    refine .passing closed other size ?_
    have name : Tracks n true (do
        let t ← Parse.expect .identifier
        return Identifier.mk t.value t.span : Run limit Identifier) _ :=
      (Tracks.expect (by decide)).bind fun _ => .pure _
    exact (Tracks.expect (by decide)).bind fun _ => (Tracks.expect (by decide)).bind fun _ =>
      (Tracks.enclosed allowed (by decide) name).bind fun _ => (Tracks.spanFrom _).bind fun _ =>
        (Tracks.skip (by decide)).bind fun _ => .spanned _ _
  | inclusion =>
    refine .passing closed other size ?_
    exact .pure _
  | block =>
    have whole : Tracks (n + 1) true (Stmt.block <$> Parse.block inner) _ :=
      (tracks_block allowed each).map
    exact whole p _ closed (Nat.succ_le_succ size)
  | branch =>
    refine .passing closed other size ?_
    exact condition.bind fun _ => body.bind fun _ =>
      (Tracks.behind? (by decide) body).bind fun _ => .spanned _ _
  | whileLoop =>
    refine .passing closed other size ?_
    exact condition.bind fun _ => body.bind fun _ => .spanned _ _
  | doLoop =>
    refine .passing closed other size ?_
    exact body.bind fun _ => (Tracks.expect (by decide)).bind fun _ =>
      condition.bind fun _ => (Tracks.expect (by decide)).bind fun _ => .spanned _ _
  | forLoop =>
    refine .passing closed other size ?_
    exact (Tracks.expect (by decide)).bind fun _ => (tracks_initial allowed).bind fun _ =>
      (Tracks.before? value).bind fun _ => (Tracks.expect (by decide)).bind fun _ =>
        (Tracks.before? value).bind fun _ => (Tracks.expect (by decide)).bind fun _ =>
          body.bind fun _ => .spanned _ _
  | switch =>
    refine .passing closed other size ?_
    exact condition.bind fun _ => (Tracks.expect (by decide)).bind fun _ => .sized fun c size =>
      (rounds_arms allowed each none size (Nat.le_trans size allowed) (Nat.le_refl _)).bind
        fun _ => (Tracks.expect (by decide)).bind fun _ => .spanned _ _
  | giveBack =>
    refine .passing closed other size ?_
    exact (Tracks.before? value).bind fun _ =>
      (Tracks.expect (by decide)).bind fun _ => .spanned _ _
  | leave =>
    refine .passing closed other size ?_
    exact (Tracks.expect (by decide)).bind fun _ => .spanned _ _
  | print =>
    refine .passing closed other size ?_
    have args := (tracks_arguments (fun floor => tracks_expression allowed floor) allowed).shorten
      (Nat.le_succ n)
    exact args.weaken.bind fun _ => (Tracks.expect (by decide)).bind fun _ => .spanned _ _

end

theorem tracks_statementWithin (layers room : Nat) (granted : n ≤ layers) (enough : n ≤ room + 1) :
    Tracks n true (Parse.statementWithin .full layers : Run limit Stmt)
      (Parse.statementWithin .full room) := by
  induction n generalizing layers room with
  | zero => exact .zero
  | succ n ih =>
    obtain ⟨layers, rfl⟩ := Nat.exists_eq_add_one.mpr (show 0 < layers by omega)
    refine .of_cons fun p t rest closed size => ?_
    cases known : t.kind.form? with
    | none =>
      have evaluated : Tracks (n + 1) true (Parse.evaluate .full : Run limit Stmt) _ :=
        tracks_evaluate allowed
      refine (evaluated p _ closed size).congr ?_ (Parse.run_statementWithin_none room known)
      rw [Parse.statementWithin, run_kind_bind, show Grammar.full.form? t.kind = none from known]
    | some form =>
      have more := (closed.tail (Token.Kind.ne_eof_of_form known)).length_pos
      obtain ⟨room, rfl⟩ := Nat.exists_eq_add_one.mpr (show 0 < room by omega)
      have each := ih (Nat.le_of_succ_le allowed) layers room (by omega) (by omega)
      have here := ends_formed (p := p) (Nat.le_of_succ_le allowed) each closed
        (Nat.le_of_lt_succ size) known
      refine here.congr ?_ (Parse.run_statementWithin room known)
      rw [Parse.statementWithin, run_kind_bind,
        show Grammar.full.form? t.kind = some form from known]

theorem tracks_statement : Tracks n true (statement limit) (Parse.statement .full) :=
  .sized fun _ size => tracks_statementWithin (Nat.le_trans size allowed) limit _
    (Nat.le_trans size allowed) (Nat.le_refl _)

theorem tracks_program : Tracks n false (program limit) (Parse.program .full) :=
  Tracks.start.bind fun _ => (tracks_statements allowed (tracks_statement allowed) _).bind fun _ =>
    Tracks.start.bind fun _ => .pure _

end

end Curly.Run

namespace Curly

theorem split_before {α : Type} {front back first : List α} {last : α} (some : back ≠ [])
    (same : first ++ [last] = front ++ back) :
    ∃ between, back = between ++ [last] ∧ first = front ++ between := by
  obtain ⟨between, final, rfl⟩ := back.eq_nil_or_concat.resolve_left some
  rw [List.concat_eq_append] at same ⊢
  rw [← List.append_assoc] at same
  obtain ⟨rfl, ending⟩ := List.append_inj' same rfl
  obtain rfl := List.singleton_inj.mp ending
  exact ⟨between, rfl, rfl⟩

/-- What a parser that decides early makes of tokens before an end mark. What stands behind the mark
does not matter. -/
theorem Parse.Prompt.before_mark {α : Type} {moves : Bool} {may : Token.Kind → Prop}
    {fill ts : List Token} {m : Parse α} {mark : Token} (ends : mark.kind = .eof)
    (prompt : Parse.Prompt .endless moves may fill (ts.length + 1) fun _ => m)
    (p : Option Position) :
    (∃ error, ∀ rest, Closed (mark :: rest) →
      ∃ c, m.run (.facing p (ts ++ mark :: rest)) = .error error c) ∨
    ∃ x q used left, (moves = true → used ≠ []) ∧ ts = used ++ left ∧ ∀ rest,
      Closed (mark :: rest) →
        m.run (.facing p (ts ++ mark :: rest)) = .ok x (.facing q (left ++ mark :: rest)) := by
  have closed : Closed (ts ++ [mark]) := Closed.append ⟨mark, rfl, ends⟩
  cases prompt.settles p _ closed (by simp) with
  | accepts used others x q same closed accepted =>
    obtain ⟨left, rfl, rfl⟩ := split_before closed.ne_nil same
    refine .inr ⟨x, q, used, left, accepted.passes, rfl, fun rest ending => ?_⟩
    have given := accepted.gives (left ++ mark :: rest) ending.append (Parse.head?_append_congr rfl)
    rw [List.append_assoc]
    exact given () trivial
  | rejects before t after error same rejected =>
    obtain ⟨between, shows, rfl⟩ := split_before (List.cons_ne_nil t after) same
    refine .inl ⟨error, fun rest ending => ?_⟩
    cases between with
    | nil =>
      obtain ⟨rfl, -⟩ := List.cons.inj shows
      rw [List.append_nil]
      exact rejected.fails rest ending () trivial
    | cons u between =>
      obtain ⟨rfl, -⟩ := List.cons.inj shows
      have later : Closed (t :: between ++ mark :: rest) := ending.append
      rw [List.append_assoc]
      exact rejected.fails (between ++ mark :: rest) later () trivial

theorem Cursor.room_ofTokens_le (tokens : List Token) : (ofTokens tokens).room ≤ tokens.length := by
  cases tokens with
  | nil => exact Nat.le_refl 0
  | cons t others =>
    rw [ofTokens, room]
    split
    · exact Nat.le_succ _
    · rw [List.length_append]
      exact Nat.le_refl _

theorem Cursor.exists_facing (tokens : List Token) : ∃ text, Closed text ∧
    text.length ≤ tokens.length + 1 ∧ ofTokens tokens = .facing none text := by
  cases tokens with
  | nil => exact ⟨[Token.eof .unknown], ⟨_, rfl, rfl⟩, Nat.le_refl _, rfl⟩
  | cons t others =>
    obtain ⟨more, closed, walk⟩ := Parse.ofTokens_facing (List.cons_ne_nil t others)
    refine ⟨t :: others ++ more, closed, ?_, walk⟩
    have size : (ofTokens (t :: others)).room + 1 = (t :: others ++ more).length := by
      rw [walk]
      rfl
    exact size ▸ Nat.succ_le_succ (room_ofTokens_le _)

theorem Run.onTokens_program {tokens : List Token} {limit : Nat} (allowed : tokens.length < limit) :
    (program limit).onTokens tokens = some (Parse.ofTokens tokens) := by
  obtain ⟨text, closed, size, walk⟩ := Cursor.exists_facing tokens
  have ends := (tracks_program (Nat.le_refl _) none text closed (Nat.le_trans size allowed)).same
  have run : (program limit).onTokens tokens =
      Option.map (Except.map Prod.fst) (ofParse (Parse.program .full) (.facing none text)) := by
    rw [← ends, ← walk]
    rfl
  rw [run, Parse.ofTokens, Parse.read, walk, ofParse]
  cases (Parse.program .full).run (.facing none text) with
  | ok x c => rfl
  | error e c => rfl

/-- What stands behind the first end mark is not read. -/
theorem Parse.ofTokens_before_mark {ts : List Token} {mark : Token} (ends : mark.kind = .eof)
    (rest : List Token) : ofTokens (ts ++ mark :: rest) = ofTokens (ts ++ [mark]) := by
  have walk (rest : List Token) : ∃ more, Closed (mark :: more) ∧
      Cursor.ofTokens (ts ++ mark :: rest) = .facing none (ts ++ mark :: more) := by
    obtain ⟨more, closed, walk⟩ := ofTokens_facing (List.append_ne_nil_of_right_ne_nil ts
      (List.cons_ne_nil mark rest))
    rw [List.append_assoc, List.cons_append] at closed walk
    exact ⟨rest ++ more, closed.of_append (List.cons_ne_nil _ _), walk⟩
  obtain ⟨more, closed, here⟩ := walk rest
  obtain ⟨others, ending, there⟩ := walk []
  rw [ofTokens, ofTokens, read, read, here, there]
  obtain ⟨error, fails⟩ | ⟨x, q, used, left, -, -, gives⟩ :=
    prompt_program.before_mark ends none
  · obtain ⟨c, run⟩ := fails more closed
    obtain ⟨d, same⟩ := fails others ending
    rw [run, same]
  · rw [gives more closed, gives others ending]

/-- A run is not given up on texts within its limit, and ends as the parser does. If there is an end
mark and the parser succeeds, it has passed tokens, and none of them is the mark or stands behind
it. -/
structure Run.Progresses {α : Type} (u : (limit : Nat) → Run limit α) (m : Parse α) : Prop where
  same : ∀ limit p text, Closed text → text.length ≤ limit →
    u limit (.facing p text) = ofParse m (.facing p text)
  passes : ∀ p ts mark rest, mark.kind = .eof → Closed (mark :: rest) →
    (∃ error c, m.run (.facing p (ts ++ mark :: rest)) = .error error c) ∨
      ∃ x q used left, used ≠ [] ∧ ts = used ++ left ∧
        m.run (.facing p (ts ++ mark :: rest)) = .ok x (.facing q (left ++ mark :: rest))

theorem Run.progresses {α : Type} {u : (limit : Nat) → Run limit α} {m : Parse α}
    {may : Token.Kind → Prop} {fill : List Token} (tracks : ∀ limit, Tracks limit true (u limit) m)
    (prompt : ∀ n, Parse.Prompt .endless true may fill n fun _ => m) : Progresses u m := by
  refine ⟨fun limit p text closed size => (tracks limit p text closed size).same,
    fun p ts mark rest ends closed => ?_⟩
  obtain ⟨error, fails⟩ | ⟨x, q, used, left, passes, shows, gives⟩ :=
    (prompt (ts.length + 1)).before_mark ends p
  · exact .inl ⟨error, fails rest closed⟩
  · exact .inr ⟨x, q, used, left, passes rfl, shows, gives rest closed⟩

/-- Parsing ends on all tokens: it is not given up if the limit is more than their number, and ends
as the parser that counts them does. So do statements and expressions, which pass a token at least
and no end mark. What stands behind an end mark changes nothing. -/
theorem parsing_ends :
    (∀ tokens limit, tokens.length < limit →
        (Run.program limit).onTokens tokens = some (Parse.ofTokens tokens)) ∧
      Run.Progresses Run.statement (Parse.statement .full) ∧
      (∀ floor, Run.Progresses (Run.expression · floor) (Parse.expression .full floor)) ∧
      ∀ ts mark rest, mark.kind = .eof →
        Parse.ofTokens (ts ++ mark :: rest) = Parse.ofTokens (ts ++ [mark]) :=
  ⟨fun _ _ allowed => Run.onTokens_program allowed,
    Run.progresses (fun _ => Run.tracks_statement (Nat.le_refl _)) fun _ => Parse.prompt_statement,
    fun floor => Run.progresses (fun _ => Run.tracks_expression (Nat.le_refl _) floor) fun _ =>
      Parse.prompt_expression floor,
    fun _ _ rest ends => Parse.ofTokens_before_mark ends rest⟩

/-- A statement with an end mark behind it, and what is not read any more. -/
def overlong : List Token :=
  [.sample .identifier, .sample .semicolon] ++
    .sample .eof :: [.sample .closeCurly, .sample .identifier, .sample .eof]

theorem overlong_ends :
    (Run.program 7).onTokens overlong =
        some (Parse.ofTokens [.sample .identifier, .sample .semicolon, .sample .eof]) ∧
      (Parse.ofTokens overlong).toOption.isSome ∧
      ∃ x q used left, used ≠ [] ∧ [.sample .identifier, .sample .semicolon] = used ++ left ∧
        Run.statement 6 (.facing none overlong) = some (.ok (x, .facing q (left ++
          .sample .eof :: [.sample .closeCurly, .sample .identifier, .sample .eof]))) := by
  have closed : Closed [.sample .eof, .sample .closeCurly, .sample .identifier, .sample .eof] :=
    ⟨_, rfl, rfl⟩
  obtain ⟨ends, statement, -, before⟩ := parsing_ends
  refine ⟨(ends overlong 7 (by decide)).trans (congrArg some (before _ _ _ rfl)),
    by decide +kernel, ?_⟩
  have read : (match (Parse.statement .full).run (.facing none overlong) with
      | .ok _ _ => true
      | .error _ _ => false) = true := by decide +kernel
  obtain ⟨error, c, failed⟩ | ⟨x, q, used, left, passed, shows, run⟩ :=
    statement.passes none _ _ _ rfl closed
  · have same : (Parse.statement .full).run (.facing none overlong) = .error error c := failed
    rw [same] at read
    cases read
  · exact ⟨x, q, used, left, passed, shows,
      (statement.same 6 none overlong closed.append (by decide)).trans (Run.ofParse_of_ok run)⟩

end Curly
