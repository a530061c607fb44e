import Curly.Proofs.Lowering.Simulation

/-! Lowering keeps the meaning of statements. Whatever constants, operators and calls mean, a list
of plain statements that declares nothing twice does the same before and after it. -/
namespace Curly

namespace Piece

variable {Value : Type}

def plain (ordinary : String → Bool) : Piece Value → Prop
  | .stmt s => s.plain ordinary
  | .stmts body => bodyPlain ordinary body
  | .block body => body.plain ordinary
  | .loop condition update body =>
    condition.all (Expr.plain ordinary) ∧ update.all (Expr.plain ordinary) ∧ body.plain ordinary
  | .arms _ cases fallback =>
    armsPlain ordinary cases ∧ ∀ body ∈ fallback, body.plain ordinary

end Piece

section

variable {ordinary : String → Bool} {e : Expr} {yes body : Block} {no fallback : Option Block}
  {initial : Option Stmt} {condition update : Option Expr} {cases : List Case} {span : Span}

theorem plain_branch (plain : (Stmt.branch e yes no span).plain ordinary) :
    e.plain ordinary ∧ yes.plain ordinary ∧ ∀ body ∈ no, body.plain ordinary := by
  cases no <;> simp_all [Stmt.plain]

theorem plain_forLoop (plain : (Stmt.forLoop initial condition update body span).plain ordinary) :
    bodyPlain ordinary initial.toList ∧ condition.all (Expr.plain ordinary) ∧
      update.all (Expr.plain ordinary) ∧ body.plain ordinary := by
  cases initial <;> simp_all [Stmt.plain, bodyPlain]

theorem plain_switch (plain : (Stmt.switch e cases fallback span).plain ordinary) :
    (e.plain ordinary ∧ e.outlasts (cases.map Case.value)) ∧ armsPlain ordinary cases ∧
      ∀ body ∈ fallback, body.plain ordinary := by
  cases fallback <;> simp_all [Stmt.plain]

end

namespace Lowering

variable {Value World : Type} {m : Meaning Value World}

section

variable {front code : List Instruction} {ordinary : String → Bool}

variable (m front code ordinary) in
def Simulated : Piece Value → Situation Value World → Ending Value → Situation Value World → Prop
  | .stmt s => Simulates m front code ordinary (stmt s)
  | .stmts body => Simulates m front code ordinary (stmts body)
  | .block body => Simulates m front code ordinary (block body)
  | .loop condition update body => SimulatesLoop m front code ordinary condition update body
  | .arms subject cases fallback => SimulatesArms m front code ordinary subject cases fallback

theorem simulated_of_exec (once : ∀ l, code.count (.label l) ≤ 1) {piece : Piece Value}
    {s after : Situation Value World} {ending : Ending Value}
    (run : Exec m piece s ending after) : piece.plain ordinary → piece.fresh s.vars.names →
    Simulated m front code ordinary piece s ending after := by
  induction run with
  | empty s => exact fun _ _ b memory _ agrees => ⟨memory, agrees, .refl⟩
  | next first others s middle after ending head _ ihHead ihTail =>
    intro plain fresh
    simp only [Piece.plain, bodyPlain, Piece.fresh, bodyFresh, Bool.and_eq_true] at plain fresh
    have grows := (head.grows fresh.1).done
    exact simulates_next plain.1 (ihHead plain.1 fresh.1)
      (ihTail plain.2 (grows.names ▸ fresh.2))
  | stop first others s after ending _ early ih =>
    intro plain fresh
    simp only [Piece.plain, bodyPlain, Piece.fresh, bodyFresh, Bool.and_eq_true] at plain fresh
    exact simulates_stop others early (ih plain.1 fresh.1)
  | scope body span s after ending inside ih =>
    intro plain fresh b memory written agrees
    obtain ⟨added, grows, -⟩ := inside.grows fresh
    obtain ⟨final, outer, reaches⟩ := ih plain fresh b memory written agrees
    exact ⟨final, outer.leave grows, reaches⟩
  | declare ty name span s =>
    exact fun _ _ => simulates_variable none rfl ⟨rfl, rfl⟩
  | define ty name e span s value after evaluated =>
    exact fun plain _ => simulates_variable (some e) plain evaluated
  | evaluate e span s value after evaluated =>
    exact fun plain _ => simulates_effect plain evaluated
  | print args span s values middle value world evaluated called =>
    exact fun plain _ => simulates_call plain evaluated called
  | block body s after ending _ ih => exact ih
  | yes e yes no span s value middle after ending evaluated holds _ ih =>
    intro plain fresh
    obtain ⟨tested, inside, -⟩ := plain_branch plain
    have same := m.names_eval e s value middle evaluated
    exact simulates_yes once span tested evaluated holds
      (ih inside (same ▸ (fresh_branch fresh).1))
  | no e yes no span s value middle after ending evaluated fails _ ih =>
    intro plain fresh
    obtain ⟨tested, passed, inside⟩ := plain_branch plain
    have same := m.names_eval e s value middle evaluated
    exact simulates_no once span tested passed evaluated fails
      (ih (inside no rfl) (same ▸ (fresh_branch fresh).2 no rfl))
  | skip e yes span s value after evaluated fails =>
    intro plain _
    exact simulates_skip once span (plain_branch plain).1 evaluated fails
  | whileLoop e body span s after ending _ ih =>
    intro plain fresh
    simp only [Piece.plain, Stmt.plain, Bool.and_eq_true] at plain
    exact simulates_whileLoop once span (ih ⟨plain.1, rfl, plain.2⟩ fresh)
  | doLoop body e span s middle after ending first _ ihFirst ihLoop =>
    intro plain fresh
    simp only [Piece.plain, Stmt.plain, Bool.and_eq_true] at plain
    have grows := (first.grows fresh).closed trivial
    exact simulates_doLoop once span (ihFirst plain.1 fresh)
      (ihLoop ⟨plain.2, rfl, plain.1⟩ (grows.names ▸ fresh))
  | doOnce body e span s after ending _ early ih =>
    intro plain fresh
    simp only [Piece.plain, Stmt.plain, Bool.and_eq_true] at plain
    exact simulates_doOnce once span early plain.1 (ih plain.1 fresh)
  | forLoop initial e update body span s middle after ending start looped ihStart ihLoop =>
    intro plain fresh b memory written agrees
    obtain ⟨begins, proper⟩ := plain_forLoop plain
    obtain ⟨new, inside⟩ := fresh_forLoop fresh
    have first := (start.grows new).done
    have visible := first.names ▸ inside
    have second := (looped.grows visible).closed trivial
    obtain ⟨final, outer, reaches⟩ := simulates_forLoop once span begins
      (ihStart begins new) (ihLoop proper visible) b memory written agrees
    exact ⟨final, outer.leave (first.trans second), reaches⟩
  | forNever initial e update body span s after ending start early ih =>
    intro plain fresh b memory written agrees
    obtain ⟨begins, -⟩ := plain_forLoop plain
    obtain ⟨new, -⟩ := fresh_forLoop fresh
    obtain ⟨added, grows, -⟩ := start.grows new
    obtain ⟨final, outer, reaches⟩ :=
      simulates_forNever span early (ih begins new) b memory written agrees
    exact ⟨final, outer.leave grows, reaches⟩
  | finish condition update body s after tested =>
    exact fun plain _ => simulates_finish once plain.1 plain.2.2 tested
  | quit condition update body s middle after ending tested _ early ih =>
    intro plain fresh
    exact simulates_quit once plain.1 plain.2.2 tested early
      (ih plain.2.2 (m.names_test tested ▸ fresh))
  | again condition update body s tried middle updated after ending tested inside advanced _ ihBody
      ihRest =>
    intro plain fresh
    have same := m.names_test tested
    have visible : body.fresh tried.vars.names := same ▸ fresh
    have grows := (inside.grows visible).closed trivial
    have turned := (m.names_effect advanced).trans (grows.names.trans same)
    exact simulates_again once plain.1 plain.2.2 plain.2.1 tested advanced
      (ihBody plain.2.2 visible) (ihRest plain (turned ▸ fresh))
  | switch e cases fallback span s subject middle after ending evaluated _ ih =>
    intro plain fresh
    obtain ⟨tested, inside⟩ := plain_switch plain
    have same := m.names_eval e s subject middle evaluated
    exact simulates_switch once span tested.1 tested.2 evaluated
      (ih inside (same ▸ fresh_switch fresh))
  | hit subject e body span others fallback s value middle after ending evaluated same _ ih =>
    intro plain fresh
    simp only [Piece.plain, armsPlain, Piece.fresh, armsFresh, Bool.and_eq_true] at plain fresh
    exact simulates_hit once plain.1.1.1 evaluated same
      (ih plain.1.1.2 (m.names_eval e s value middle evaluated ▸ fresh.1.1))
  | miss subject e body span others fallback s value middle after ending evaluated different _ ih =>
    intro plain fresh
    simp only [Piece.plain, armsPlain, Piece.fresh, armsFresh, Bool.and_eq_true] at plain fresh
    exact simulates_miss once plain.1.1.1 plain.1.1.2 evaluated different
      (ih ⟨plain.1.2, plain.2⟩ (m.names_eval e s value middle evaluated ▸ ⟨fresh.1.2, fresh.2⟩))
  | none subject s => exact fun _ _ => simulates_noArm
  | fallback subject body s after ending _ ih =>
    exact fun plain fresh => simulates_fallback once (ih (plain.2 body rfl) (fresh.2 body rfl))
  | giveBack e span s value after evaluated =>
    exact fun plain _ => simulates_giveBack plain evaluated
  | giveNothing span s => exact fun _ _ => simulates_giveNothing
  | leave span s => exact fun _ _ => simulates_leave

end

def emitted (body : List Stmt) (b : Builder) : List Instruction :=
  (stmts body b).code.toList.drop b.code.size

theorem append_emitted (body : List Stmt) (b : Builder) :
    b.code.toList ++ emitted body b = (stmts body b).code.toList := by
  obtain ⟨rest, whole⟩ := (follows_stmts body b).code
  rw [emitted, ← whole, ← Array.length_toList, List.drop_left]

theorem count_emitted (body : List Stmt) (b : Builder) (l : Label) :
    (emitted body b).count (.label l) ≤ 1 := by
  obtain ⟨index⟩ := l
  have placed := placed_stmts body b index
  simp only [Builder.placed, ← append_emitted, List.count_append] at placed
  split at placed <;> omega

/-- An execution that ends normally or by a return is matched by a run of the instructions from the
first one on, and by no other. It ends in the same way, and every variable in force holds the same
value. -/
theorem runs_emitted {body : List Stmt} {b : Builder}
    (plain : bodyPlain (fun name => (b.ordinal? name).isNone) body)
    {s after : Situation Value World} {ending : Ending Value}
    (fresh : bodyFresh s.vars.names body) {memory : Memory Value World} (agrees : Agrees s memory)
    (run : Exec m (.stmts body) s ending after) (inside : ending ≠ .left) :
    ∃ final, Agrees after final ∧ Runs m (emitted body b) (0, memory) ending final ∧
      ∀ other result, Runs m (emitted body b) (0, memory) other result →
        other = ending ∧ result = final := by
  have written : Written b.code.toList (emitted body b) (fun name => (b.ordinal? name).isNone) b
      (stmts body b) := by
    refine ⟨⟨by simp, ?_⟩, ⟨?_, ?_⟩, fun n known => by simpa using known⟩
    · exact List.prefix_append _ _
    · simpa using (follows_stmts body b).code.length_le
    · exact append_emitted body b ▸ List.prefix_refl _
  obtain ⟨final, outer, reaches⟩ :=
    simulated_of_exec (count_emitted body b) run plain fresh b memory written agrees
  have start : b.place b.code.toList = 0 := by simp [Builder.place]
  have finish : (stmts body b).place b.code.toList = (emitted body b).length := by
    simp [Builder.place, emitted]
  rw [start, finish] at reaches
  have whole : Runs m (emitted body b) (0, memory) ending final := by
    cases ending with
    | done => exact reaches.runs (.finish final)
    | left => contradiction
    | gaveBack value => exact reaches
  exact ⟨final, outer, whole, fun other result again => again.unique whole⟩

/-- Whole numbers, of which those but zero are true. What is printed is kept, newest first. -/
def wholeNumbers : Meaning Int (List Int) where
  constant text := if text = "true" then 1 else (readInt? text).getD 0
  binary op left right :=
    match op with
    | "+" => some (left + right)
    | "-" => some (left - right)
    | "==" => some (if left = right then 1 else 0)
    | _ => none
  unary _ _ := none
  truth value := value ≠ 0
  equal left right := left = right
  call callee values world := if callee = "print" then some (0, values ++ world) else none

/-- A countdown from one, whose loop is left by a break at zero. -/
def countdown (span : Span) : List Stmt :=
  let n : Expr := .symbol ⟨"n", span⟩
  [.variable .int "n" (some (.int 1 span)) span,
   .whileLoop (.bool true span) ⟨[
     .branch (.binary .equals n (.int 0 span) span) ⟨[.leave span], span⟩ none span,
     .print [n] span,
     .evaluate (.unary .decrement n .behind span) span], span⟩ span,
   .giveBack (some n) span]

theorem exec_countdown (span : Span) :
    Exec wholeNumbers (.stmts (countdown span)) ⟨[], []⟩ (.gaveBack (some 0))
      ⟨[("n", 0)], [1]⟩ := by
  let before : Situation Int (List Int) := ⟨[("n", 1)], []⟩
  let behind : Situation Int (List Int) := ⟨[("n", 0)], [1]⟩
  refine .next _ _ _ before _ _ (.define _ _ _ _ _ 1 ⟨[], []⟩ rfl) ?_
  refine .next _ _ _ behind _ _ (.whileLoop _ _ _ _ _ _ ?_) ?_
  · -- The first turn prints and counts; the second one breaks.
    refine .again _ _ _ _ before behind behind _ _ rfl (.scope _ _ _ behind _ ?_) rfl ?_
    · refine .next _ _ _ before _ _ (.skip _ _ _ _ 0 _ rfl rfl) ?_
      refine .next _ _ _ ⟨[("n", 1)], [1]⟩ _ _ (.print _ _ _ [1] before 0 [1] rfl rfl) ?_
      exact .next _ _ _ behind _ _ (.evaluate _ _ _ 1 _ rfl) (.empty _)
    · refine .quit _ _ _ _ behind behind .left rfl (.scope _ _ _ behind _ ?_) (by decide)
      refine .stop _ _ _ _ _ (.yes _ _ _ _ _ 1 behind _ _ rfl rfl (.scope _ _ _ behind _ ?_))
        (by decide)
      exact .stop _ _ _ _ _ (.leave _ _) (by decide)
  · exact .stop _ _ _ _ _ (.giveBack _ _ _ 0 _ rfl) (by decide)

theorem runs_countdown :
    ∃ final : Memory Int (List Int), Agrees ⟨[("n", 0)], [1]⟩ final ∧
      Runs wholeNumbers (emitted (countdown default) .empty) (0, ⟨fun _ => 0, fun _ => 0, []⟩)
        (.gaveBack (some 0)) final ∧
      ∀ other result, Runs wholeNumbers (emitted (countdown default) .empty)
        (0, ⟨fun _ => 0, fun _ => 0, []⟩) other result →
          other = .gaveBack (some 0) ∧ result = final :=
  runs_emitted (by rfl) (by rfl) ⟨by simp, rfl⟩ (exec_countdown default)
    (by decide)

end Lowering
end Curly
