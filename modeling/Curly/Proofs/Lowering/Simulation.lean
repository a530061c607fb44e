import Curly.Proofs.Execution.Scopes
import Curly.Proofs.Lowering.Evaluation

/-! The code of statements does what their execution does. Wherever the code stands, it leads from
its first instruction to the place behind it, to the place of a break, or out by a return. -/
namespace Curly

section

variable {Value World : Type} {m : Meaning Value World}

/-- At the end of a scope, the memory holds what is around it, of which nothing was hidden. -/
theorem Agrees.leave {s after : Situation Value World} {memory : Memory Value World}
    {added : List String} (agrees : Agrees after memory) (grows : s.vars.Grows after.vars added) :
    Agrees (s.leave after) memory := by
  obtain ⟨inner, outer, whole, same, rfl, apart⟩ := grows
  refine ⟨fun name value found => agrees.vars name value ?_, agrees.world⟩
  rw [whole]
  simp only [Situation.leave, whole, Environment.leave_append _ inner outer same] at found
  exact Environment.lookup_append_of_apart inner outer name value (same ▸ apart) found

variable (m) in
/-- From a place to the place behind the code, or to the exit, or to the end of the run. -/
def Reaches (code : List Instruction) (here : Nat × Memory Value World) (there : Nat)
    (exit : Option Nat) (final : Memory Value World) : Ending Value → Prop
  | .done => Steps m code here (there, final)
  | .left => ∀ place, exit = some place → Steps m code here (place, final)
  | .gaveBack value => Runs m code here (.gaveBack value) final

namespace Reaches

variable {code : List Instruction} {here middle : Nat × Memory Value World} {there : Nat}
  {exit : Option Nat} {final : Memory Value World} {ending : Ending Value}

theorem before (steps : Steps m code here middle)
    (reaches : Reaches m code middle there exit final ending) :
    Reaches m code here there exit final ending := by
  cases ending with
  | done => exact steps.trans reaches
  | left => exact fun place found => steps.trans (reaches place found)
  | gaveBack value => exact steps.runs reaches

/-- Broken off, the code behind does not matter. -/
theorem early (early : ending ≠ .done) (reaches : Reaches m code here there exit final ending)
    (other : Nat) : Reaches m code here other exit final ending := by
  cases ending with
  | done => contradiction
  | left => exact reaches
  | gaveBack value => exact reaches

theorem extend {other : Nat} (reaches : Reaches m code here there exit final ending)
    (pass : Steps m code (there, final) (other, final)) :
    Reaches m code here other exit final ending := by
  cases ending with
  | done => exact Relation.ReflTransGen.trans reaches pass
  | left => exact reaches
  | gaveBack value => exact reaches

/-- A loop or switch that both its end and a break lead to the end of. -/
theorem outside {finish : Nat} (reaches : Reaches m code here finish (some finish) final ending)
    (pass : Steps m code (finish, final) (there, final)) :
    Reaches m code here there exit final ending.outside := by
  cases ending with
  | done => exact Relation.ReflTransGen.trans reaches pass
  | left => exact (reaches finish rfl).trans pass
  | gaveBack value => exact reaches

end Reaches

/-- Where a break leads, if it leads anywhere. -/
def Builder.exit (code : List Instruction) (b : Builder) : Option Nat :=
  b.break?.bind (labelPlace? code)

namespace Lowering

open Builder

theorem Alike.exit {b c : Builder} (alike : Alike b c) (code : List Instruction) :
    c.exit code = b.exit code := by
  simp only [Builder.exit, Builder.break?, alike.breaks]

/-- What was lowered between two builders stands in the code, and the names in it are variables. -/
structure Written (front code : List Instruction) (ordinary : String → Bool) (b c : Builder) :
    Prop where
  first : b.Stands front code
  last : c.Stands front code
  names : ∀ n, ordinary n → b.ordinal? n = none

namespace Written

variable {front code : List Instruction} {ordinary : String → Bool} {b c d : Builder}

theorem before (written : Written front code ordinary b d) (follows : Follows b c)
    (behind : Follows c d) : Written front code ordinary b c :=
  ⟨written.first, written.first.between written.last follows behind, written.names⟩

theorem behind (written : Written front code ordinary b d) (follows : Follows b c)
    (behind : Follows c d) (alike : Alike b c) : Written front code ordinary c d :=
  ⟨written.first.between written.last follows behind, written.last,
    fun n plain => (alike.ordinal? n).trans (written.names n plain)⟩

theorem computes {e : Expr} (written : Written front code ordinary b (expr e b).2)
    (plain : e.plain ordinary) {s after : Situation Value World} {memory : Memory Value World}
    {value : Value} (agrees : Agrees s memory) (evaluated : m.eval e s = some (value, after)) :
    ∃ final, Computes m front code b (expr e b).2 e.changed memory final after ∧
      final.read m (expr e b).1 = value := by
  simp only [Expr.plain, Bool.and_eq_true, List.all_eq_true] at plain
  exact computes_expr e b s memory value after plain.1
    (fun n member => written.names n (plain.2 n member)) written.first written.last agrees evaluated

theorem computesAll {es : List Expr} (written : Written front code ordinary b (exprs es b).2)
    (plain : allPlain ordinary es) {s after : Situation Value World}
    {memory : Memory Value World} {values : List Value} (agrees : Agrees s memory)
    (evaluated : m.evals es s = some (values, after)) :
    ∃ final, Computes m front code b (exprs es b).2 (changedBy es) memory final after ∧
      (exprs es b).1.map (final.read m) = values := by
  simp only [allPlain, Bool.and_eq_true, List.all_eq_true] at plain
  exact computes_exprs es b s memory values after plain.1
    (fun n member => written.names n (plain.2 n member)) written.first written.last agrees evaluated

end Written

section

variable {front code : List Instruction} {ordinary : String → Bool}

theorem steps_emit {b : Builder} {i : Instruction} {memory after : Memory Value World}
    (above : front.length ≤ b.code.size) (stands : (b.emit i).Stands front code)
    (acted : i.act m memory = some (.next, after)) :
    Steps m code (b.place front, memory) ((b.emit i).place front, after) := by
  rw [Stands.place_emit i above]
  exact Steps.next (stands.fetch above) acted

/-- A label that stands in the code once is where a jump leads. -/
theorem steps_jump (once : ∀ l, code.count (.label l) ≤ 1) {b c : Builder} {i : Instruction}
    {l : Label} {memory : Memory Value World} (above : front.length ≤ b.code.size)
    (stands : (b.emit i).Stands front code) (acted : i.act m memory = some (.goto l, memory))
    (there : front.length ≤ c.code.size) (landing : (c.emit (.label l)).Stands front code) :
    Steps m code (b.place front, memory) (c.place front, memory) :=
  Steps.goto (stands.fetch above) acted (labelPlace?_of_once (once l) (landing.fetch there))

theorem steps_goto (once : ∀ l, code.count (.label l) ≤ 1) {b c : Builder} {i : Instruction}
    {l : Label} {memory : Memory Value World} (above : front.length ≤ b.code.size)
    (stands : (b.emit i).Stands front code) (acted : i.act m memory = some (.goto l, memory))
    (there : front.length ≤ c.code.size) (landing : (c.emit (.label l)).Stands front code) :
    Steps m code (b.place front, memory) ((c.emit (.label l)).place front, memory) :=
  (steps_jump once above stands acted there landing).trans (steps_emit there landing rfl)

theorem follows_test (loop : Loop) (b : Builder) :
    Follows ((loop.advanced b).emit (.label loop.test)) (loop.lowered b) :=
  (straight_repeatWhile _ _ _).follows.emit _

/-- The test of a loop leads back to its start, or behind it. -/
theorem steps_test (once : ∀ l, code.count (.label l) ≤ 1) {loop : Loop} {b : Builder}
    (above : front.length ≤ b.code.size)
    (start : (b.emit (.label loop.start)).Stands front code)
    (written : Written front code ordinary (loop.advanced (b.emit (.label loop.start)))
      (loop.lowered (b.emit (.label loop.start))))
    (plain : loop.condition.all (Expr.plain ordinary)) {s after : Situation Value World}
    {memory : Memory Value World} (agrees : Agrees s memory) {holds : Bool}
    (tested : m.test loop.condition s = some (holds, after)) :
    ∃ final, Agrees after final ∧
      Steps m code ((loop.advanced (b.emit (.label loop.start))).place front, memory)
        (if holds then (b.emit (.label loop.start)).place front
          else (loop.lowered (b.emit (.label loop.start))).place front, final) := by
  generalize began : loop.advanced (b.emit (.label loop.start)) = c at *
  have shape : loop.lowered (b.emit (.label loop.start)) =
      (repeatWhile loop.condition loop.start (c.emit (.label loop.test))).emit
        (.label loop.finish) := by
    rw [← began]
    rfl
  rw [shape] at written ⊢
  have inside :=
    (straight_repeatWhile loop.condition loop.start (c.emit (.label loop.test))).follows
  have label := written.before ((Follows.refl c).emit (.label loop.test)) (inside.emit _)
  have passed : Steps m code (c.place front, memory)
      ((c.emit (.label loop.test)).place front, memory) :=
    steps_emit label.first.above label.last rfl
  have rest := written.behind ((Follows.refl c).emit (.label loop.test)) (inside.emit _)
    ((Alike.refl c).emit _)
  cases condition : loop.condition with
  | none =>
    rw [condition] at tested rest
    obtain ⟨rfl, rfl⟩ := Prod.mk.inj (Option.some.inj tested)
    have jump := rest.before ((Follows.refl _).emit (.jump loop.start)) ((Follows.refl _).emit _)
    exact ⟨memory, agrees, passed.trans
      (steps_goto once rest.first.above jump.last rfl above start)⟩
  | some e =>
    rw [condition] at tested rest plain
    simp only [Meaning.test, Option.map_eq_some_iff, Prod.mk.injEq] at tested
    obtain ⟨⟨value, _⟩, evaluated, rfl, rfl⟩ := tested
    have computed := (straight_expr e (c.emit (.label loop.test))).follows
    have known := rest.before computed ((Follows.refl _).emit _ |>.emit _)
    obtain ⟨final, computes, read⟩ := known.computes plain agrees evaluated
    refine ⟨final, computes.agrees, passed.trans (computes.steps.trans ?_)⟩
    have jump := rest.before (computed.emit (.jumpIfTrue _ loop.start)) ((Follows.refl _).emit _)
    cases holds : m.truth value with
    | true =>
      exact steps_goto once known.last.above jump.last
        (by simp [Instruction.act, read, holds]) above start
    | false =>
      exact (steps_emit known.last.above jump.last
        (by simp [Instruction.act, read, holds])).trans
          (steps_emit jump.last.above rest.last rfl)

/-- The update of a loop, if it has one, leads from the end of a turn to the test. -/
theorem steps_update {loop : Loop} {b : Builder}
    (written : Written front code ordinary (loop.turned b) (loop.advanced b))
    (plain : loop.update.all (Expr.plain ordinary))
    (labelled : loop.advance = none → loop.update = none) {s after : Situation Value World}
    {memory : Memory Value World} (agrees : Agrees s memory)
    (done : m.effect loop.update s = some after) :
    ∃ final, Agrees after final ∧
      Steps m code ((loop.turned b).place front, memory)
        ((loop.advanced b).place front, final) := by
  unfold Loop.advanced at written ⊢
  cases label : loop.advance with
  | none =>
    rw [labelled label] at done
    obtain rfl := Option.some.inj done
    exact ⟨memory, agrees, .refl⟩
  | some l =>
    cases update : loop.update with
    | none =>
      simp only [label, update] at written done ⊢
      obtain rfl := Option.some.inj done
      exact ⟨memory, agrees, steps_emit written.first.above written.last rfl⟩
    | some e =>
      simp only [label, update] at written done plain ⊢
      simp only [Meaning.effect, Option.map_eq_some_iff] at done
      obtain ⟨⟨value, _⟩, evaluated, rfl⟩ := done
      have computed := (straight_expr e ((loop.turned b).emit (.label l))).follows
      have passed := written.before ((Follows.refl _).emit (.label l)) computed
      have rest := written.behind ((Follows.refl _).emit (.label l)) computed
        ((Alike.refl _).emit _)
      obtain ⟨final, computes, -⟩ := rest.computes plain agrees evaluated
      exact ⟨final, computes.agrees,
        (steps_emit passed.first.above passed.last rfl).trans computes.steps⟩

variable (m front code ordinary) in
/-- Code from a lowering does what an execution did, wherever it stands. -/
def Simulates (lower : Builder → Builder) (s : Situation Value World) (ending : Ending Value)
    (after : Situation Value World) : Prop :=
  ∀ b memory, Written front code ordinary b (lower b) → Agrees s memory →
    ∃ final, Agrees after final ∧
      Reaches m code (b.place front, memory) ((lower b).place front) (b.exit code) final ending

section

variable {s middle after : Situation Value World} {ending : Ending Value}

theorem simulates_next {first : Stmt} {others : List Stmt} (plain : first.plain ordinary)
    (head : Simulates m front code ordinary (stmt first) s .done middle)
    (tail : Simulates m front code ordinary (stmts others) middle ending after) :
    Simulates m front code ordinary (stmts (first :: others)) s ending after := by
  intro b memory written agrees
  have begun := follows_stmt first b
  have ended := follows_stmts others (stmt first b)
  have alike := alike_stmt first plain b
  obtain ⟨held, inner, steps⟩ := head b memory (written.before begun ended) agrees
  obtain ⟨final, outer, reaches⟩ := tail _ held (written.behind begun ended alike) inner
  rw [alike.exit] at reaches
  exact ⟨final, outer, reaches.before steps⟩

theorem simulates_stop {first : Stmt} (others : List Stmt) (early : ending ≠ .done)
    (head : Simulates m front code ordinary (stmt first) s ending after) :
    Simulates m front code ordinary (stmts (first :: others)) s ending after := by
  intro b memory written agrees
  obtain ⟨final, outer, reaches⟩ :=
    head b memory (written.before (follows_stmt first b) (follows_stmts others _)) agrees
  exact ⟨final, outer, reaches.early early _⟩

theorem simulates_variable {name : String} {value : Value} (initial : Option Expr)
    (plain : initial.all (Expr.plain ordinary))
    (given : match initial with
      | none => value = m.whole 0 ∧ after = s
      | some e => m.eval e s = some (value, after)) :
    Simulates m front code ordinary (variableStatement name initial) s .done
      (after.declare name value) := by
  intro b memory written agrees
  cases initial with
  | none =>
    obtain ⟨rfl, rfl⟩ := given
    exact ⟨_, agrees.declare name _, steps_emit written.first.above written.last rfl⟩
  | some e =>
    have computed := (straight_expr e b).follows
    have known := written.before computed ((Follows.refl _).emit _)
    obtain ⟨final, computes, read⟩ := known.computes plain agrees given
    refine ⟨_, computes.agrees.declare name value, ?_⟩
    apply computes.steps.trans (steps_emit known.last.above written.last _)
    simp [Instruction.act, read]

theorem simulates_call {callee : String} {args : List Expr} (plain : allPlain ordinary args)
    {values : List Value} (evaluated : m.evals args s = some (values, middle)) {value : Value}
    {world : World} (called : m.call callee values middle.world = some (value, world)) :
    Simulates m front code ordinary (fun b => (call callee args false b).2) s .done
      { middle with world } := by
  intro b memory written agrees
  have computed := (straight_exprs args b).follows
  have known := written.before computed ((Follows.refl _).emit _)
  obtain ⟨final, computes, read⟩ := known.computesAll plain agrees evaluated
  refine ⟨_, computes.agrees.call world, computes.steps.trans ?_⟩
  refine steps_emit known.last.above written.last ?_
  simp [Instruction.act, read, computes.agrees.world, called]

theorem simulates_effect {e : Expr} (plain : e.plain ordinary) {value : Value}
    (evaluated : m.eval e s = some (value, after)) :
    Simulates m front code ordinary (effect e) s .done after := by
  match e with
  | .call callee args _ =>
    simp only [Meaning.eval, Option.bind_eq_bind, Option.bind_eq_some_iff, Option.pure_def,
      Option.some.injEq, Prod.mk.injEq] at evaluated
    obtain ⟨⟨values, middle⟩, before, ⟨result, world⟩, called, rfl, rfl⟩ := evaluated
    exact simulates_call plain before called
  | .int .. | .float .. | .string .. | .char .. | .bool .. | .symbol _ | .binary .. | .unary .. =>
    intro b memory written agrees
    obtain ⟨final, computes, -⟩ := written.computes plain agrees evaluated
    exact ⟨final, computes.agrees, computes.steps⟩

theorem simulates_giveBack {e : Expr} (plain : e.plain ordinary) {value : Value}
    (evaluated : m.eval e s = some (value, after)) :
    Simulates m front code ordinary (giveBack (some e)) s (.gaveBack (some value)) after := by
  intro b memory written agrees
  have known := written.before (straight_expr e b).follows ((Follows.refl _).emit _)
  obtain ⟨final, computes, read⟩ := known.computes plain agrees evaluated
  refine ⟨final, computes.agrees, computes.steps.runs ?_⟩
  exact .halt _ _ _ _ _ (written.last.fetch known.last.above) (by simp [Instruction.act, read])

theorem simulates_giveNothing :
    Simulates m front code ordinary (giveBack none) s (.gaveBack none) s := by
  intro b memory written agrees
  exact ⟨memory, agrees, .halt _ _ _ _ _ (written.last.fetch written.first.above) rfl⟩

theorem simulates_leave : Simulates m front code ordinary leave s .left s := by
  intro b memory written agrees
  refine ⟨memory, agrees, fun place found => ?_⟩
  cases way : b.break? with
  | none => simp [Builder.exit, way] at found
  | some l =>
    have target : leave b = b.emit (.jump l) := by simp [leave, way]
    rw [target] at written
    simp only [Builder.exit, way, Option.bind_some] at found
    exact Steps.goto (written.last.fetch written.first.above) rfl found

theorem steps_condition (once : ∀ l, code.count (.label l) ≤ 1) {e : Expr} {b c : Builder}
    {l : Label} (plain : e.plain ordinary)
    (written : Written front code ordinary b ((expr e b).2.newLabel.2.emit
      (.jumpIfFalse (expr e b).1 l)))
    (there : front.length ≤ c.code.size) (landing : (c.emit (.label l)).Stands front code)
    {memory : Memory Value World} (agrees : Agrees s memory) {value : Value}
    (evaluated : m.eval e s = some (value, after)) :
    ∃ final, Agrees after final ∧ Steps m code (b.place front, memory)
      (if m.truth value then
        ((expr e b).2.newLabel.2.emit (.jumpIfFalse (expr e b).1 l)).place front
       else (c.emit (.label l)).place front, final) := by
  have known := written.before (straight_expr e b).follows ((Follows.refl _).newLabel.emit _)
  obtain ⟨final, computes, read⟩ := known.computes plain agrees evaluated
  refine ⟨final, computes.agrees, computes.steps.trans ?_⟩
  cases holds : m.truth value with
  | true =>
    exact steps_emit (b := (expr e b).2.newLabel.2) known.last.above written.last
      (by simp [Instruction.act, read, holds])
  | false =>
    exact steps_goto once (b := (expr e b).2.newLabel.2) known.last.above written.last
      (by simp [Instruction.act, read, holds]) there landing

theorem simulates_yes (once : ∀ l, code.count (.label l) ≤ 1) {e : Expr} {yes : Block}
    {no : Option Block} (span : Span) (plain : e.plain ordinary) {value : Value}
    (evaluated : m.eval e s = some (value, middle)) (holds : m.truth value = true)
    (run : Simulates m front code ordinary (block yes) middle ending after) :
    Simulates m front code ordinary (stmt (.branch e yes no span)) s ending after := by
  intro b memory written agrees
  let c := (expr e b).2.newLabel.2.emit (.jumpIfFalse (expr e b).1 ⟨(expr e b).2.labels⟩)
  have tested : Follows b c := (straight_expr e b).follows.newLabel.emit _
  have alike : Alike b c := (straight_expr e b).alike.newLabel.emit _
  have grown := follows_block yes c
  cases no with
  | none =>
    have last : Follows (block yes c) ((block yes c).emit (.label ⟨(expr e b).2.labels⟩)) :=
      (Follows.refl _).emit _
    have whole := written.behind tested (grown.trans last) alike
    have part := whole.before grown last
    obtain ⟨held, inner, steps⟩ := steps_condition once plain
      (written.before tested (grown.trans last)) part.last.above whole.last agrees evaluated
    obtain ⟨final, outer, reaches⟩ := run c held part inner
    rw [alike.exit] at reaches
    rw [if_pos holds] at steps
    exact ⟨final, outer, (reaches.before steps).extend (steps_emit part.last.above whole.last rfl)⟩
  | some no =>
    let d := (block yes c).newLabel.2.emit (.jump ⟨(block yes c).labels⟩)
    let f := d.emit (.label ⟨(expr e b).2.labels⟩)
    have jump : Follows (block yes c) d := (Follows.refl _).newLabel.emit _
    have label : Follows d f := (Follows.refl _).emit _
    have rest := follows_block no f
    have last : Follows (block no f) ((block no f).emit (.label ⟨(block yes c).labels⟩)) :=
      (Follows.refl _).emit _
    have behind := jump.trans (label.trans (rest.trans last))
    have whole := written.behind tested (grown.trans behind) alike
    have part := whole.before grown behind
    have jumps := whole.before (grown.trans jump) (label.trans (rest.trans last))
    have lands := whole.before (grown.trans (jump.trans label)) (rest.trans last)
    have ends := whole.before (grown.trans (jump.trans (label.trans rest))) last
    obtain ⟨held, inner, steps⟩ := steps_condition once plain
      (written.before tested (grown.trans behind)) jumps.last.above lands.last agrees evaluated
    obtain ⟨final, outer, reaches⟩ := run c held part inner
    rw [alike.exit] at reaches
    rw [if_pos holds] at steps
    exact ⟨final, outer, (reaches.before steps).extend (steps_goto once
      (b := (block yes c).newLabel.2) part.last.above jumps.last rfl ends.last.above whole.last)⟩

theorem simulates_no (once : ∀ l, code.count (.label l) ≤ 1) {e : Expr} {yes no : Block}
    (span : Span) (plain : e.plain ordinary) (inside : yes.plain ordinary)
    {value : Value} (evaluated : m.eval e s = some (value, middle))
    (fails : m.truth value = false)
    (run : Simulates m front code ordinary (block no) middle ending after) :
    Simulates m front code ordinary (stmt (.branch e yes (some no) span)) s ending after := by
  intro b memory written agrees
  let c := (expr e b).2.newLabel.2.emit (.jumpIfFalse (expr e b).1 ⟨(expr e b).2.labels⟩)
  let d := (block yes c).newLabel.2.emit (.jump ⟨(block yes c).labels⟩)
  let f := d.emit (.label ⟨(expr e b).2.labels⟩)
  have tested : Follows b c := (straight_expr e b).follows.newLabel.emit _
  have between : Follows c d := (follows_block yes c).newLabel.emit _
  have label : Follows d f := (Follows.refl _).emit _
  have rest := follows_block no f
  have last : Follows (block no f) ((block no f).emit (.label ⟨(block yes c).labels⟩)) :=
    (Follows.refl _).emit _
  have alike : Alike b f :=
    (((straight_expr e b).alike.newLabel.emit _).trans (alike_block yes inside c)).newLabel.emit _
      |>.emit _
  have behind := between.trans (label.trans (rest.trans last))
  have jumps := written.before (tested.trans between) (label.trans (rest.trans last))
  have lands := written.before (tested.trans (between.trans label)) (rest.trans last)
  have whole := written.behind (tested.trans (between.trans label)) (rest.trans last) alike
  have part := whole.before rest last
  obtain ⟨held, inner, steps⟩ := steps_condition once plain (written.before tested behind)
    jumps.last.above lands.last agrees evaluated
  obtain ⟨final, outer, reaches⟩ := run f held part inner
  rw [alike.exit] at reaches
  rw [if_neg (by simp [fails])] at steps
  exact ⟨final, outer, (reaches.before steps).extend (steps_emit part.last.above whole.last rfl)⟩

theorem simulates_skip (once : ∀ l, code.count (.label l) ≤ 1) {e : Expr} {yes : Block}
    (span : Span) (plain : e.plain ordinary) {value : Value}
    (evaluated : m.eval e s = some (value, after)) (fails : m.truth value = false) :
    Simulates m front code ordinary (stmt (.branch e yes none span)) s .done after := by
  intro b memory written agrees
  let c := (expr e b).2.newLabel.2.emit (.jumpIfFalse (expr e b).1 ⟨(expr e b).2.labels⟩)
  have tested : Follows b c := (straight_expr e b).follows.newLabel.emit _
  have grown := follows_block yes c
  have last : Follows (block yes c) ((block yes c).emit (.label ⟨(expr e b).2.labels⟩)) :=
    (Follows.refl _).emit _
  have part := written.before (tested.trans grown) last
  obtain ⟨final, outer, steps⟩ := steps_condition once plain
    (written.before tested (grown.trans last)) part.last.above written.last agrees evaluated
  rw [if_neg (by simp [fails])] at steps
  exact ⟨final, outer, steps⟩

variable (m front code ordinary) in
/-- The code of a loop does what an execution from its test on did. -/
def SimulatesLoop (condition update : Option Expr) (body : Block) (s : Situation Value World)
    (ending : Ending Value) (after : Situation Value World) : Prop :=
  ∀ (loop : Loop) (b : Builder) (memory : Memory Value World), loop.condition = condition →
    loop.update = update → loop.body = body → (loop.advance = none → update = none) →
    front.length ≤ b.code.size →
    Written front code ordinary (b.emit (.label loop.start))
      (loop.lowered (b.emit (.label loop.start))) → Agrees s memory →
    ∃ final, Agrees after final ∧
      Reaches m code ((loop.advanced (b.emit (.label loop.start))).place front, memory)
        ((loop.lowered (b.emit (.label loop.start))).place front) (b.exit code) final ending

/-- A turn of a loop leads to the end of its body, and a break to the end of the loop. -/
theorem reaches_turned (once : ∀ l, code.count (.label l) ≤ 1) {loop : Loop} {b : Builder}
    (written : Written front code ordinary b (loop.lowered b))
    (run : Simulates m front code ordinary (block loop.body) s ending after)
    {memory : Memory Value World} (agrees : Agrees s memory) :
    ∃ final, Agrees after final ∧ Reaches m code (b.place front, memory)
      ((loop.turned b).place front) (some ((loop.tested b).place front)) final ending := by
  have turned := follows_turned loop (follows_block loop.body) b
  have tested := (turned.trans (follows_advanced loop b)).emit (.label loop.test)
    |>.trans (straight_repeatWhile loop.condition loop.start _).follows
  have known := written.before turned (follows_lowered loop b)
  have above := (written.before tested ((Follows.refl _).emit (.label loop.finish))).last.above
  have inside : Written front code ordinary (b.pushBreak loop.finish)
      (block loop.body (b.pushBreak loop.finish)) :=
    ⟨⟨known.first.above, known.first.written⟩, ⟨known.last.above, known.last.written⟩, known.names⟩
  obtain ⟨final, outer, reaches⟩ := run _ memory inside agrees
  have exit : (b.pushBreak loop.finish).exit code = some ((loop.tested b).place front) :=
    labelPlace?_of_once (once loop.finish) (written.last.fetch above)
  exact ⟨final, outer, exit ▸ reaches⟩

section

variable {condition update : Option Expr} {body : Block}

theorem Written.loop {loop : Loop} {b : Builder} (plain : loop.body.plain ordinary)
    (written : Written front code ordinary b (loop.lowered b)) :
    Written front code ordinary (loop.turned b) (loop.advanced b) ∧
      Written front code ordinary (loop.advanced b) (loop.lowered b) := by
  have turned := follows_turned loop (follows_block loop.body) b
  have advanced := follows_advanced loop b
  have rest :=
    (Follows.refl (loop.advanced b)).emit (.label loop.test) |>.trans (follows_test loop b)
  have alike := alike_turned loop (alike_block loop.body plain) b
  exact ⟨(written.before (turned.trans advanced) rest).behind turned advanced alike,
    written.behind (turned.trans advanced) rest (alike.trans (alike_advanced loop b))⟩

/-- The end of a loop lies right behind its test. -/
theorem steps_finish {loop : Loop} {b : Builder} (inside : loop.body.plain ordinary)
    (written : Written front code ordinary b (loop.lowered b)) {memory : Memory Value World} :
    Steps m code ((loop.tested b).place front, memory) ((loop.lowered b).place front, memory) := by
  have finish : Follows (loop.tested b) (loop.lowered b) :=
    (Follows.refl _).emit (.label loop.finish)
  have tests := (written.loop inside).2.before ((Follows.refl _).emit (.label loop.test) |>.trans
    (straight_repeatWhile loop.condition loop.start _).follows) finish
  exact steps_emit tests.last.above written.last rfl

theorem simulates_finish (once : ∀ l, code.count (.label l) ≤ 1)
    (plain : condition.all (Expr.plain ordinary)) (inside : body.plain ordinary)
    (tested : m.test condition s = some (false, after)) :
    SimulatesLoop m front code ordinary condition update body s .done after := by
  rintro loop b memory rfl rfl rfl - above written agrees
  exact steps_test once above written.first (written.loop inside).2 plain agrees tested

theorem simulates_quit (once : ∀ l, code.count (.label l) ≤ 1)
    (plain : condition.all (Expr.plain ordinary)) (inside : body.plain ordinary)
    (tested : m.test condition s = some (true, middle)) (early : ending ≠ .done)
    (run : Simulates m front code ordinary (block body) middle ending after) :
    SimulatesLoop m front code ordinary condition update body s ending.outside after := by
  rintro loop b memory rfl rfl rfl - above written agrees
  obtain ⟨held, inner, steps⟩ :=
    steps_test once above written.first (written.loop inside).2 plain agrees tested
  obtain ⟨final, outer, reaches⟩ := reaches_turned once written run inner
  exact ⟨final, outer, ((reaches.early early _).before steps).outside (steps_finish inside written)⟩

theorem simulates_again (once : ∀ l, code.count (.label l) ≤ 1)
    (plain : condition.all (Expr.plain ordinary)) (inside : body.plain ordinary)
    (changes : update.all (Expr.plain ordinary)) {tried updated : Situation Value World}
    (tested : m.test condition s = some (true, tried))
    (advanced : m.effect update middle = some updated)
    (turn : Simulates m front code ordinary (block body) tried .done middle)
    (rest : SimulatesLoop m front code ordinary condition update body updated ending after) :
    SimulatesLoop m front code ordinary condition update body s ending after := by
  rintro loop b memory rfl rfl rfl labelled above written agrees
  obtain ⟨parts, tail⟩ := written.loop inside
  obtain ⟨first, agreed, steps⟩ := steps_test once above written.first tail plain agrees tested
  obtain ⟨second, inner, turned⟩ := reaches_turned once written turn agreed
  obtain ⟨third, changed, stepped⟩ := steps_update parts changes labelled inner advanced
  obtain ⟨final, outer, reaches⟩ := rest loop b third rfl rfl rfl labelled above written changed
  exact ⟨final, outer, reaches.before (steps.trans (Relation.ReflTransGen.trans turned stepped))⟩

theorem follows_loop (loop : Loop) (b : Builder) : Follows b (loop.lowered b) :=
  (follows_turned loop (follows_block loop.body) b).trans (follows_lowered loop b)

theorem simulates_entry (once : ∀ l, code.count (.label l) ≤ 1) (loop : Loop)
    (labelled : loop.advance = none → loop.update = none)
    (run : SimulatesLoop m front code ordinary loop.condition loop.update loop.body s ending
      after) :
    Simulates m front code ordinary
      (fun b => loop.lowered ((b.emit (.jump loop.test)).emit (.label loop.start))) s ending
      after := by
  intro b memory written agrees
  let c := (b.emit (.jump loop.test)).emit (.label loop.start)
  have jump : Follows b (b.emit (.jump loop.test)) := (Follows.refl b).emit _
  have start : Follows (b.emit (.jump loop.test)) c := (Follows.refl _).emit _
  have advanced := (follows_turned loop (follows_block loop.body) c).trans (follows_advanced loop c)
  have known := written.behind (jump.trans start) (follows_loop loop c)
    (((Alike.refl b).emit _).emit _)
  have jumps := written.before jump (start.trans (follows_loop loop c))
  have ahead := known.before advanced ((Follows.refl _).emit (.label loop.test) |>.trans
    (follows_test loop c))
  have tests := known.before (advanced.emit (.label loop.test)) (follows_test loop c)
  obtain ⟨final, outer, reaches⟩ :=
    run loop _ memory rfl rfl rfl labelled jumps.last.above known agrees
  exact ⟨final, outer, reaches.before
    (steps_jump once written.first.above jumps.last rfl ahead.last.above tests.last)⟩

theorem simulates_whileLoop (once : ∀ l, code.count (.label l) ≤ 1) {e : Expr} (span : Span)
    (run : SimulatesLoop m front code ordinary (some e) none body s ending after) :
    Simulates m front code ordinary (stmt (.whileLoop e body span)) s ending after := by
  intro b memory written agrees
  have known : Written front code ordinary b.newLabel.2.newLabel.2.newLabel.2 _ :=
    ⟨⟨written.first.above, written.first.written⟩, written.last, written.names⟩
  exact simulates_entry once (whileLoop e body b.labels) (fun _ => rfl) run _ memory known agrees

theorem simulates_forLoop (once : ∀ l, code.count (.label l) ≤ 1) {initial : Option Stmt}
    (span : Span) (begins : bodyPlain ordinary initial.toList)
    (start : Simulates m front code ordinary (stmts initial.toList) s .done middle)
    (run : SimulatesLoop m front code ordinary condition update body middle ending after) :
    Simulates m front code ordinary (stmt (.forLoop initial condition update body span)) s ending
      after := by
  intro b memory written agrees
  rw [stmt_forLoop] at written ⊢
  let c := stmts initial.toList b
  let d := c.newLabel.2.newLabel.2.newLabel.2.newLabel.2
  let loop := forLoop condition update body c.labels
  have begun := follows_stmts initial.toList b
  have alike := alike_stmts initial.toList begins b
  have rest : Follows c (loop.lowered ((d.emit (.jump loop.test)).emit (.label loop.start))) :=
    ((Follows.refl c).newLabel.newLabel.newLabel.newLabel.emit _ |>.emit _).trans
      (follows_loop loop _)
  have behind := written.behind begun rest alike
  have known : Written front code ordinary d _ :=
    ⟨⟨behind.first.above, behind.first.written⟩, behind.last, behind.names⟩
  obtain ⟨held, inner, steps⟩ := start b memory (written.before begun rest) agrees
  obtain ⟨final, outer, reaches⟩ :=
    simulates_entry once loop (fun none => nomatch none) run d held known inner
  have exit : d.exit code = b.exit code := alike.exit code
  rw [exit] at reaches
  exact ⟨final, outer, reaches.before steps⟩

theorem simulates_forNever {initial : Option Stmt} (span : Span) (early : ending ≠ .done)
    (start : Simulates m front code ordinary (stmts initial.toList) s ending after) :
    Simulates m front code ordinary (stmt (.forLoop initial condition update body span)) s ending
      after := by
  intro b memory written agrees
  rw [stmt_forLoop] at written ⊢
  let c := stmts initial.toList b
  let d := c.newLabel.2.newLabel.2.newLabel.2.newLabel.2
  let loop := forLoop condition update body c.labels
  have rest : Follows c (loop.lowered ((d.emit (.jump loop.test)).emit (.label loop.start))) :=
    ((Follows.refl c).newLabel.newLabel.newLabel.newLabel.emit _ |>.emit _).trans
      (follows_loop loop _)
  obtain ⟨final, outer, reaches⟩ :=
    start b memory (written.before (follows_stmts initial.toList b) rest) agrees
  exact ⟨final, outer, reaches.early early _⟩

theorem simulates_doLoop (once : ∀ l, code.count (.label l) ≤ 1) {e : Expr} (span : Span)
    (first : Simulates m front code ordinary (block body) s .done middle)
    (run : SimulatesLoop m front code ordinary (some e) none body middle ending after) :
    Simulates m front code ordinary (stmt (.doLoop body e span)) s ending after := by
  intro b memory written agrees
  rw [stmt_doLoop] at written ⊢
  let c := b.newLabel.2.newLabel.2.newLabel.2
  let loop := whileLoop e body b.labels
  have start : Follows c (c.emit (.label loop.start)) := (Follows.refl c).emit _
  have known : Written front code ordinary c _ :=
    ⟨⟨written.first.above, written.first.written⟩, written.last, written.names⟩
  have turns := known.behind start (follows_loop loop _) ((Alike.refl c).emit _)
  have enters := known.before start (follows_loop loop _)
  obtain ⟨held, inner, turned⟩ := reaches_turned once turns first agrees
  obtain ⟨final, outer, reaches⟩ :=
    run loop c held rfl rfl rfl (fun _ => rfl) known.first.above turns inner
  exact ⟨final, outer, reaches.before
    ((steps_emit known.first.above enters.last rfl).trans turned)⟩

theorem simulates_doOnce (once : ∀ l, code.count (.label l) ≤ 1) {e : Expr} (span : Span)
    (early : ending ≠ .done) (inside : body.plain ordinary)
    (first : Simulates m front code ordinary (block body) s ending after) :
    Simulates m front code ordinary (stmt (.doLoop body e span)) s ending.outside after := by
  intro b memory written agrees
  rw [stmt_doLoop] at written ⊢
  let c := b.newLabel.2.newLabel.2.newLabel.2
  let loop := whileLoop e body b.labels
  have start : Follows c (c.emit (.label loop.start)) := (Follows.refl c).emit _
  have known : Written front code ordinary c _ :=
    ⟨⟨written.first.above, written.first.written⟩, written.last, written.names⟩
  have turns := known.behind start (follows_loop loop _) ((Alike.refl c).emit _)
  have enters := known.before start (follows_loop loop _)
  obtain ⟨final, outer, reaches⟩ := reaches_turned once turns first agrees
  have enter : Steps m code (c.place front, memory)
      ((c.emit (.label loop.start)).place front, memory) :=
    steps_emit known.first.above enters.last rfl
  exact ⟨final, outer, ((reaches.early early _).before enter).outside (steps_finish inside turns)⟩

end

theorem follows_choices (cases : List Case) (fallback : Option Block) (finish l : Label)
    (labels : List Label) (b : Builder) :
    Follows b (lastArm fallback l (arms finish labels cases b)) :=
  (follows_arms cases finish labels b).trans (follows_lastArm fallback l _)

variable (front code ordinary) in
/-- The tests of a switch, the jump behind them and the arms, wherever they stand. -/
structure Arranged (operand : Operand) (cases : List Case) (fallback : Option Block)
    (finish l : Label) (b c : Builder) : Prop where
  tested : Written front code ordinary b (tests operand cases b).2
  jumps : code[(tests operand cases b).2.place front]? = some (.jump l)
  armed : Written front code ordinary c
    (lastArm fallback l (arms finish (tests operand cases b).1 cases c))
  way : c.break? = some finish
  finished : labelPlace? code finish =
    some ((lastArm fallback l (arms finish (tests operand cases b).1 cases c)).place front)
  closed : fallback = none → l = finish

variable (m front code ordinary) in
/-- The code of a switch does what an execution from its tests on did. The subject is kept for as
long as there are tests. -/
def SimulatesArms (subject : Value) (cases : List Case) (fallback : Option Block)
    (s : Situation Value World) (ending : Ending Value) (after : Situation Value World) : Prop :=
  ∀ (operand : Operand) (holder : Option String) (finish l : Label) (b c : Builder)
    (memory : Memory Value World),
    Arranged front code ordinary operand cases fallback finish l b c →
    operand.Settled b.temps holder →
    (∀ name, holder = some name → name ∉ changedBy (cases.map Case.value)) →
    memory.read m operand = subject → Agrees s memory → ∃ final, Agrees after final ∧
      ∀ there, labelPlace? code finish = some there →
        Reaches m code (b.place front, memory) there (some there) final ending

section

variable {subject : Value} {e : Expr} {body : Block} {caseSpan : Span} {others : List Case}
  {fallback : Option Block}

/-- The test of an arm leads to the arm, or to the next test. -/
theorem steps_arm (once : ∀ l, code.count (.label l) ≤ 1) {operand : Operand} {finish l : Label}
    {b c : Builder} (plain : e.plain ordinary)
    (arranged : Arranged front code ordinary operand (⟨e, body, caseSpan⟩ :: others) fallback finish
      l b c) {holder : Option String} (settled : operand.Settled b.temps holder)
    (lasting : ∀ name, holder = some name → name ∉ e.changed) {memory : Memory Value World}
    (read : memory.read m operand = subject) (agrees : Agrees s memory) {value : Value}
    (evaluated : m.eval e s = some (value, after)) :
    ∃ final, Agrees after final ∧ final.read m operand = subject ∧
      Steps m code (b.place front, memory)
        (if m.equal subject value then (c.emit (.label ⟨(expr e b).2.labels⟩)).place front
          else ((expr e b).2.newLabel.2.emit
            (.jumpIfEqual operand (expr e b).1 ⟨(expr e b).2.labels⟩)).place front, final) := by
  let d := (expr e b).2.newLabel.2.emit (.jumpIfEqual operand (expr e b).1 ⟨(expr e b).2.labels⟩)
  have first := (straight_expr e b).follows
  have jump : Follows (expr e b).2 d := (Follows.refl _).newLabel.emit _
  have rest : Follows d (tests operand (⟨e, body, caseSpan⟩ :: others) b).2 :=
    follows_tests operand others d
  have known := arranged.tested.before first (jump.trans rest)
  have decides := arranged.tested.before (first.trans jump) rest
  have label := arranged.armed.before ((Follows.refl c).emit (.label ⟨(expr e b).2.labels⟩))
    ((follows_block body _).emit (.jump finish) |>.trans
      (follows_choices others fallback finish l _ _))
  obtain ⟨final, computes, found⟩ := known.computes plain agrees evaluated
  have kept := (computes.keeps.read (m := m) settled lasting).trans read
  refine ⟨final, computes.agrees, kept, computes.steps.trans ?_⟩
  cases same : m.equal subject value with
  | true =>
    exact steps_goto once (b := (expr e b).2.newLabel.2) known.last.above decides.last
      (by simp [Instruction.act, kept, found, same]) arranged.armed.first.above label.last
  | false =>
    exact steps_emit (b := (expr e b).2.newLabel.2) known.last.above decides.last
      (by simp [Instruction.act, kept, found, same])

theorem simulates_hit (once : ∀ l, code.count (.label l) ≤ 1) (plain : e.plain ordinary)
    {value : Value} (evaluated : m.eval e s = some (value, middle))
    (same : m.equal subject value = true)
    (run : Simulates m front code ordinary (block body) middle ending after) :
    SimulatesArms m front code ordinary subject (⟨e, body, caseSpan⟩ :: others) fallback s ending
      after := by
  intro operand holder finish l b c memory arranged settled lasting read agrees
  obtain ⟨held, inner, -, steps⟩ := steps_arm once plain arranged settled
    (fun name known member => lasting name known (List.mem_append_left _ member)) read agrees
    evaluated
  rw [if_pos same] at steps
  let d := c.emit (.label ⟨(expr e b).2.labels⟩)
  have label : Follows c d := (Follows.refl c).emit _
  have grown := follows_block body d
  have jump : Follows (block body d) ((block body d).emit (.jump finish)) := (Follows.refl _).emit _
  have rest := follows_choices others fallback finish l
    (tests operand others ((expr e b).2.newLabel.2.emit
      (.jumpIfEqual operand (expr e b).1 ⟨(expr e b).2.labels⟩))).1
    ((block body d).emit (.jump finish))
  have part := (arranged.armed.before (label.trans grown) (jump.trans rest)).behind label grown
    ((Alike.refl c).emit _)
  have jumps := arranged.armed.before (label.trans (grown.trans jump)) rest
  obtain ⟨final, outer, reaches⟩ := run d held part inner
  refine ⟨final, outer, fun there found => ?_⟩
  have exit : d.exit code = some there := by
    have way : d.break? = some finish := arranged.way
    simp only [Builder.exit, way, Option.bind_some, found]
  rw [exit] at reaches
  exact (reaches.before steps).extend (Steps.goto (jumps.last.fetch part.last.above) rfl found)

theorem simulates_miss (once : ∀ l, code.count (.label l) ≤ 1) (plain : e.plain ordinary)
    (inside : body.plain ordinary) {value : Value}
    (evaluated : m.eval e s = some (value, middle)) (different : m.equal subject value = false)
    (run : SimulatesArms m front code ordinary subject others fallback middle ending after) :
    SimulatesArms m front code ordinary subject (⟨e, body, caseSpan⟩ :: others) fallback s ending
      after := by
  intro operand holder finish l b c memory arranged settled lasting read agrees
  obtain ⟨held, inner, kept, steps⟩ := steps_arm once plain arranged settled
    (fun name known member => lasting name known (List.mem_append_left _ member)) read agrees
    evaluated
  rw [if_neg (by simp [different])] at steps
  let d := (expr e b).2.newLabel.2.emit (.jumpIfEqual operand (expr e b).1 ⟨(expr e b).2.labels⟩)
  let f := (block body (c.emit (.label ⟨(expr e b).2.labels⟩))).emit (.jump finish)
  have first : Follows b d := (straight_expr e b).follows.newLabel.emit _
  have behind : Follows d (tests operand others d).2 := follows_tests operand others d
  have arm : Follows c f := ((Follows.refl c).emit _).trans (follows_block body _) |>.emit _
  have alike : Alike c f := ((Alike.refl c).emit _).trans (alike_block body inside _) |>.emit _
  have rest := follows_choices others fallback finish l (tests operand others d).1 f
  have next : Arranged front code ordinary operand others fallback finish l d f :=
    { tested := arranged.tested.behind first behind ((straight_expr e b).alike.newLabel.emit _)
      jumps := arranged.jumps
      armed := arranged.armed.behind arm rest alike
      way := (congrArg List.head? alike.breaks).trans arranged.way
      finished := arranged.finished
      closed := arranged.closed }
  obtain ⟨final, outer, reaches⟩ := run operand holder finish l d f held next
    (settled.mono first.temps) (fun name known member => lasting name known
      (List.mem_append_right _ member)) kept inner
  exact ⟨final, outer, fun there found => (reaches there found).before steps⟩

theorem simulates_noArm : SimulatesArms m front code ordinary subject [] none s .done s := by
  intro operand holder finish l b c memory arranged _ _ _ agrees
  refine ⟨memory, agrees, fun there found => ?_⟩
  obtain rfl := arranged.closed rfl
  exact Steps.goto arranged.jumps rfl found

theorem simulates_fallback (once : ∀ l, code.count (.label l) ≤ 1)
    (run : Simulates m front code ordinary (block body) s ending after) :
    SimulatesArms m front code ordinary subject [] (some body) s ending after := by
  intro operand holder finish l b c memory arranged _ _ _ agrees
  have label : Follows c (c.emit (.label l)) := (Follows.refl c).emit _
  have grown := follows_block body (c.emit (.label l))
  have enters := arranged.armed.before label grown
  have part := arranged.armed.behind label grown ((Alike.refl c).emit _)
  have landing := labelPlace?_of_once (once l) (enters.last.fetch enters.first.above)
  have entered : Steps m code (b.place front, memory) ((c.emit (.label l)).place front, memory) :=
    (Steps.goto arranged.jumps rfl landing).trans
      (steps_emit enters.first.above enters.last rfl)
  obtain ⟨final, outer, reaches⟩ := run _ memory part agrees
  refine ⟨final, outer, fun there found => ?_⟩
  obtain rfl : there = (block body (c.emit (.label l))).place front :=
    Option.some.inj (found.symm.trans arranged.finished)
  have exit : (c.emit (.label l)).exit code =
      some ((block body (c.emit (.label l))).place front) := by
    have way : (c.emit (.label l)).break? = some finish := arranged.way
    simp only [Builder.exit, way, Option.bind_some, found]
  rw [exit] at reaches
  exact reaches.before entered

theorem simulates_switch (once : ∀ l, code.count (.label l) ≤ 1) {cases : List Case} (span : Span)
    (plain : e.plain ordinary) (lasting : e.outlasts (cases.map Case.value))
    (evaluated : m.eval e s = some (subject, middle))
    (run : SimulatesArms m front code ordinary subject cases fallback middle ending after) :
    Simulates m front code ordinary (stmt (.switch e cases fallback span)) s ending.outside
      after := by
  intro b memory written agrees
  rw [stmt_switch] at written ⊢
  let c := (expr e b).2.newLabel.2
  let finish : Label := ⟨(expr e b).2.labels⟩
  let tested := tests (expr e b).1 cases c
  let l := (otherwise fallback finish tested.2).1
  let d := (otherwise fallback finish tested.2).2
  let f := (d.emit (.jump l)).pushBreak finish
  let last := lastArm fallback l (arms finish tested.1 cases f)
  have first : Follows b (expr e b).2 := (straight_expr e b).follows
  have numbered : Follows (expr e b).2 c := (Follows.refl _).newLabel
  have tests := follows_tests (expr e b).1 cases c
  have same : d.code = tested.2.code ∧ Alike tested.2 d := by
    cases fallback with
    | none => exact ⟨rfl, .refl _⟩
    | some body => exact ⟨rfl, (Alike.refl _).newLabel⟩
  obtain ⟨kept, alike⟩ := same
  have chooses := follows_otherwise fallback finish tested.2
  have jump : Follows d f := ((Follows.refl _).emit _).pushBreak _
  have rest : Follows f last := follows_choices cases fallback finish l tested.1 f
  have ends : Follows last (last.popBreak.emit (.label finish)) := (Follows.refl _).popBreak.emit _
  have behind := tests.trans (chooses.trans (jump.trans (rest.trans ends)))
  have known := written.before first (numbered.trans behind)
  have choices := written.behind (first.trans numbered) behind ((straight_expr e b).alike.newLabel)
  have arrives := written.before (first.trans (numbered.trans
    (tests.trans (chooses.trans (jump.trans rest))))) ends
  have jumps := written.before (first.trans (numbered.trans (tests.trans (chooses.trans jump))))
    (rest.trans ends)
  have decides := choices.before tests (chooses.trans (jump.trans (rest.trans ends)))
  have finished : labelPlace? code finish = some (last.place front) :=
    labelPlace?_of_once (once finish) (written.last.fetch (b := last.popBreak) arrives.last.above)
  have arranged : Arranged front code ordinary (expr e b).1 cases fallback finish l c f :=
    { tested := decides
      jumps := by
        have above : front.length ≤ d.code.size := kept ▸ decides.last.above
        have stands : (d.emit (.jump l)).Stands front code := ⟨jumps.last.above, jumps.last.written⟩
        have here := stands.fetch above
        rwa [Builder.place, kept] at here
      armed := ⟨jumps.last, arrives.last, fun n held =>
        ((((straight_expr e b).alike.newLabel.trans (alike_tests (expr e b).1 cases c)).trans
          alike).ordinal? n).trans (written.names n held)⟩
      way := rfl
      finished := finished
      closed := fun bare => by simp only [l, bare, otherwise] }
  obtain ⟨held, computes, read⟩ := known.computes plain agrees evaluated
  obtain ⟨final, outer, reaches⟩ := run (expr e b).1 e.holder? finish l c f held arranged
    (settled_expr b evaluated) (fun name holds => by simpa [Expr.outlasts, holds] using lasting)
    read computes.agrees
  refine ⟨final, outer, ((reaches _ finished).before computes.steps).outside ?_⟩
  exact steps_emit (b := last.popBreak) arrives.last.above written.last rfl

end

end

end

end Lowering
end
end Curly
