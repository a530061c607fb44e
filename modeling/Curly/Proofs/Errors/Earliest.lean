import Curly.Proofs.Errors.Statements

/-! A program with an error in its form is refused at the earliest token that makes it one: what
stands before this token begins a program that is accepted, and nothing that begins with it and the
token is. -/
namespace Curly.Parse

variable {ι : Type} {R : Fuel ι} {n : Nat} {p : Option Position} {t : Token}
  {tokens rest : List Token}

theorem run_statementWithin {form : Form} (room : Nat) (known : t.kind.form? = some form) :
    (statementWithin .full (room + 1)).run (.facing p (t :: rest)) =
      (formed .full (statementWithin .full room) form).run (.facing p (t :: rest)) := by
  rw [statementWithin, run_kind_bind, show Grammar.full.form? t.kind = some form from known]

theorem run_statementWithin_none (room : Nat) (absent : t.kind.form? = none) :
    (statementWithin .full room).run (.facing p (t :: rest)) =
      (evaluate .full).run (.facing p (t :: rest)) := by
  cases room with
  | zero => rfl
  | succ room =>
    rw [statementWithin, run_kind_bind, show Grammar.full.form? t.kind = none from absent]

theorem completes_statementWithin (p : Option Position) :
    Completes .room Token.Kind.Apart (statementWithin .full) p shortest := by
  rintro tokens ⟨closed, t, first, _⟩
  obtain ⟨rest, rfl⟩ := List.head?_eq_some_iff.mp first
  refine ⟨.leave ⟨.unknown, .unknown⟩, some .unknown, fun i lasts => ?_⟩
  cases i with
  | zero => exact absurd lasts (Fuel.room_pos (t := .sample .breakWord) closed.append)
  | succ room => rfl

theorem prompt_statementWithin (n : Nat) : Sentences .room n (statementWithin .full) := by
  refine Prompt.bySize (fun _ : Unit => completes_statementWithin)
    (fun l _ shorter _ p t rest closed size => ?_) ()
  cases known : t.kind.form? with
  | none =>
    exact (prompt_evaluate.settles p _ closed (Nat.succ_le_succ size)).congr fun i _ _ _ =>
      run_statementWithin_none i known
  | some form =>
    have inside : Sentences .bound l fun i => statementWithin .full (i - 1) :=
      (shorter ()).follow fun _ _ _ i lasts => ⟨i - 1, Fuel.room_of_bound lasts, rfl⟩
    refine (settles_formed inside Fuel.room_over closed size known).congr
      fun i after closed lasts => ?_
    cases i with
    | zero => exact absurd lasts (Fuel.room_pos (closed.tail (Token.Kind.ne_eof_of_form known)))
    | succ room => exact run_statementWithin room known

theorem prompt_statement : Sentences R n fun _ => statement .full := by
  have within : Sentences (R.both .room) n fun i => statementWithin .full i.2 :=
    (prompt_statementWithin n).follow fun _ _ _ i lasts => ⟨i.2, lasts.2, rfl⟩
  exact prompt_sized within id fun _ _ lasts => ⟨lasts, Nat.le_refl _⟩

theorem prompt_program : Prompt R false (· = .eof) [] n fun _ => program .full := by
  have body : Prompt R false (· = .eof) [] n fun _ => statements (statement .full) (· = .eof) := by
    refine prompt_statements prompt_statement ?_
    rintro _ rfl
    exact ⟨rfl, by simp [Token.Kind.Apart]⟩
  exact Prompt.start.step fun _ => body.bind (fun _ => Prompt.start.step fun _ => .pure _)
    fun _ => id

/-- The walk over tokens is one over closed tokens. -/
theorem ofTokens_facing (some : tokens ≠ []) :
    ∃ more, Closed (tokens ++ more) ∧ Cursor.ofTokens tokens = .facing none (tokens ++ more) := by
  obtain ⟨first, others, rfl⟩ := List.exists_cons_of_ne_nil some
  have last : (first :: others).getLast? = Option.some (others.getLastD first) := by
    rw [List.getLast?_cons, List.getLastD_eq_getLast?]
  by_cases ends : (others.getLastD first).kind = .eof
  · refine ⟨[], ⟨_, by rw [List.append_nil]; exact last, ends⟩, ?_⟩
    rw [Cursor.ofTokens, if_pos ends, List.append_nil]
    rfl
  · refine ⟨[Token.eof (others.getLastD first).span.stop], ⟨_, List.getLast?_concat, rfl⟩, ?_⟩
    rw [Cursor.ofTokens, if_neg ends]
    rfl

theorem ofTokens_closed (closed : Closed tokens) :
    Cursor.ofTokens tokens = .facing none tokens := by
  obtain ⟨last, shows, ends⟩ := closed
  obtain ⟨first, others, rfl⟩ : ∃ first others, tokens = first :: others := by
    cases tokens with
    | nil => exact nomatch shows
    | cons first others => exact ⟨first, others, rfl⟩
  have same : others.getLastD first = last := by
    rw [List.getLast?_cons, Option.some_inj] at shows
    rw [List.getLastD_eq_getLast?, shows]
  rw [Cursor.ofTokens, if_pos (same ▸ ends)]
  rfl

theorem ofTokens_of_fails {error : SyntaxError} (some : tokens ≠ [])
    (fails : ∀ more, Closed (tokens ++ more) →
      Fails .endless (fun _ => program .full) none (tokens ++ more) error) :
    ofTokens tokens = .error error := by
  obtain ⟨more, closed, walk⟩ := ofTokens_facing some
  obtain ⟨c, run⟩ := fails more closed () trivial
  rw [ofTokens, read, walk, run]

/-- Where parsing fails, it does so at some token of which it reports the place: all tokens that
begin in the same way up to this one fail alike, and those before it begin a program. -/
theorem fails_at_earliest {tokens : List Token} {error : SyntaxError} (closed : Closed tokens)
    (fails : ofTokens tokens = .error error) :
    ∃ k t, tokens[k]? = some t ∧ error.position = t.span.start ∧
      (∀ others, others.take (k + 1) = tokens.take (k + 1) → ofTokens others = .error error) ∧
      ∃ more p, ofTokens (tokens.take k ++ more) = .ok p := by
  have prompt : Prompt .endless false (· = .eof) [] tokens.length fun _ => program .full :=
    prompt_program
  rw [ofTokens, read, ofTokens_closed closed] at fails
  cases prompt.settles none tokens closed (Nat.le_refl _) with
  | accepts used rest p q same ends accepted =>
    have run := accepted.gives rest ends rfl () trivial
    rw [same, run] at fails
    exact nomatch fails
  | rejects before t after found same rejected =>
    subst same
    obtain ⟨c, run⟩ := rejected.fails after (closed.of_append (List.cons_ne_nil _ _)) () trivial
    rw [run] at fails
    obtain rfl := Except.error.inj fails
    refine ⟨before.length, t, by simp, rejected.position, fun others alike => ?_, ?_⟩
    · have shows : others = before ++ t :: others.drop (before.length + 1) := by
        have front : others.take (before.length + 1) = before ++ [t] := by
          rw [alike, List.take_length_add_append]
          rfl
        have split := List.take_append_drop (before.length + 1) others
        rwa [front, List.append_assoc, List.singleton_append, eq_comm] at split
      rw [shows]
      refine ofTokens_of_fails (by simp) fun more closed => ?_
      rw [List.append_assoc] at closed ⊢
      exact rejected.fails _ (closed.of_append (List.cons_ne_nil _ _))
    · -- No tokens begin the empty program, and others were found to begin one as they were read.
      have viable : Viable .endless (· = .eof) (fun _ => program .full) none before := by
        by_cases some : before = []
        · exact ⟨[], by simpa [some] using prompt.completes none⟩
        · exact rejected.viable some
      obtain ⟨fill, completes⟩ := viable
      have ends : Closed [Token.sample .eof] := ⟨_, rfl, rfl⟩
      obtain ⟨p, q, gives⟩ := completes [.sample .eof] ⟨ends, _, rfl, rfl⟩
      refine ⟨fill ++ [.sample .eof], p, ?_⟩
      rw [List.take_left, ← List.append_assoc, ofTokens, read, ofTokens_closed ends.append,
        gives () trivial]

/-- `int x = ;` -/
def unfinished : List Token :=
  let token (kind : Token.Kind) (text : String) (column width : Nat) : Token :=
    ⟨kind, text, ⟨⟨1, column⟩, ⟨1, column + width⟩⟩⟩
  [token .intType "int" 1 3, token .identifier "x" 5 1, token .assignment "=" 7 1,
   token .semicolon ";" 9 1, Token.eof ⟨1, 10⟩]

/-- The value is missed at the semicolon. -/
theorem unfinished_fails_at_earliest :
    Closed unfinished ∧ ofTokens unfinished = .error ⟨.unexpected ";", ⟨1, 9⟩⟩ ∧
      ∃ k t, unfinished[k]? = some t ∧ (⟨1, 9⟩ : Position) = t.span.start ∧
        (∀ others, others.take (k + 1) = unfinished.take (k + 1) →
          ofTokens others = .error ⟨.unexpected ";", ⟨1, 9⟩⟩) ∧
        ∃ more p, ofTokens (unfinished.take k ++ more) = .ok p := by
  have closed : Closed unfinished := ⟨_, rfl, rfl⟩
  have fails : ofTokens unfinished = .error ⟨.unexpected ";", ⟨1, 9⟩⟩ := rfl
  exact ⟨closed, fails, fails_at_earliest closed fails⟩

end Curly.Parse
