import Curly.Proofs.Lowering.Breaks
import Curly.Proofs.Lowering.Temporaries
import Curly.Proofs.Scope.Visits

/-! The stops of lowering on its way over a program: every expression that it comes to, with what
the analyzer and the type checker know there. What is emitted at the stops, and what the statements
put around it, is all of the code. -/
namespace Curly

/-- The parameters of the functions around a place. -/
structure Parameters where
  /-- Those of all functions around, from the outside in. -/
  around : List String
  /-- Those of the innermost one, unless a function was defined in it before. -/
  known : List String

namespace Parameters

def none : Parameters :=
  ⟨[], []⟩

def enter (names : List String) (ps : Parameters) : Parameters :=
  ⟨ps.around ++ names, names⟩

/-- Behind statements, in which a function is defined or is not. -/
def behind (defines : Bool) (ps : Parameters) : Parameters :=
  if defines then { ps with known := [] } else ps

@[simp] theorem around_behind (defines : Bool) (ps : Parameters) :
    (ps.behind defines).around = ps.around := by
  cases defines <;> rfl

theorem behind_behind (first second : Bool) (ps : Parameters) :
    (ps.behind first).behind second = ps.behind (first || second) := by
  cases first <;> cases second <;> rfl

end Parameters

/-- What becomes of the value of an expression. -/
inductive Role where
  | wanted
  /-- It is a statement. -/
  | dropped
  /-- It stands behind the turns of a loop. -/
  | update
deriving DecidableEq, Repr

/-- An expression that lowering comes to, with the builder before it and the parameters of the
functions around. -/
structure Stop where
  visit : Visit
  params : Parameters
  before : Builder
  role : Role

namespace Stop

def operand (x : Stop) : Operand :=
  (Lowering.expr x.visit.expr x.before).1

/-- The builder behind the expression. -/
def after (x : Stop) : Builder :=
  if x.role = .dropped then Lowering.effect x.visit.expr x.before
  else (Lowering.expr x.visit.expr x.before).2

end Stop

namespace Lowering

def optionalStops (role : Role) (ps : Parameters) :
    Option Expr → Analysis → Checker → Builder → List Stop
  | none, _, _, _ => []
  | some e, a, c, b => [⟨⟨e, a.table, c.table⟩, ps, b, role⟩]

section

variable (declared : String → Bool)

def allStops (ps : Parameters) : List Expr → Analysis → Checker → Builder → List Stop
  | [], _, _, _ => []
  | e :: others, a, c, b =>
    ⟨⟨e, a.table, c.table⟩, ps, b, .wanted⟩ ::
      allStops ps others (Analysis.expr declared e a) (Checker.value e c) (expr e b).2

mutual

/-- The stops in a statement, in the order of the visits. The head of a loop is lowered behind its
body, and the arms of a switch behind its values. -/
def stmtStops : Stmt → Parameters → Analysis → Checker → Builder → List Stop
  | .variable _ _ initial _, ps, a, c, b => optionalStops .wanted ps initial a c b
  | .function ty name params body span, ps, a, c, b =>
    let a := a.obey name span.start
      (.onFunction a.table ty name (signature params) span.start)
    let c := Checker.declareFunction name ty (signature params) span.start c
    let names := params.map Param.name
    blockStops body (ps.enter names) (Analysis.params [] params a.enter)
      (Checker.begin ⟨name, ty, false, false⟩ (Checker.params params c.enter)) (head name names b)
  | .main body span, ps, a, c, b =>
    blockStops body (ps.enter []) (a.obey "main" span.start (.onMain a.table span.start)).enter
      (Checker.begin ⟨"main", .int, true, false⟩
        (Checker.declareFunction "main" .int [] span.start c).enter) (head "main" [] b)
  | .block body, ps, a, c, b => blockStops body ps a.enter c.enter b
  | .branch e yes no span, ps, a, c, b =>
    let tried := Analysis.expr declared e a
    let checked := Checker.condition "if" span.start e c
    ⟨⟨e, a.table, c.table⟩, ps, b, .wanted⟩ ::
      blockStops yes ps tried.enter checked.enter (branched e b) ++
      match no with
      | none => []
      | some no =>
        blockStops no (ps.behind yes.definesFunction) (Analysis.block declared yes tried).enter
          (Checker.block yes checked).enter (turnedAway e yes b)
  | .whileLoop e body span, ps, a, c, b =>
    let loop := whileLoop e body b.labels
    let d := (b.newLabel.2.newLabel.2.newLabel.2.emit (.jump loop.test)).emit (.label loop.start)
    ⟨⟨e, a.table, c.table⟩, ps.behind body.definesFunction,
        (loop.advanced d).emit (.label loop.test), .wanted⟩ ::
      blockStops body ps (Analysis.expr declared e a).enter
        (Checker.condition "while" span.start e c).deeper.enter (d.pushBreak loop.finish)
  | .doLoop body e _, ps, a, c, b =>
    let loop := whileLoop e body b.labels
    let d := b.newLabel.2.newLabel.2.newLabel.2.emit (.label loop.start)
    blockStops body ps a.enter c.deeper.enter (d.pushBreak loop.finish) ++
      [⟨⟨e, (Analysis.block declared body a).table, (Checker.block body c.deeper).shallower.table⟩,
        ps.behind body.definesFunction, (loop.advanced d).emit (.label loop.test), .wanted⟩]
  | .forLoop initial e update body span, ps, a, c, b =>
    let begun := match initial with
      | none => a.enter
      | some initial => Analysis.stmt declared initial a.enter
    let checked := match initial with
      | none => c.enter
      | some initial => Checker.stmt initial c.enter
    let inside := match initial with
      | none => ps
      | some initial => ps.behind initial.definesFunction
    let tried := Analysis.optional declared e begun
    let tested := match e with
      | none => checked
      | some e => Checker.condition "for" span.start e checked
    let changed := match update with
      | none => tested
      | some update => Checker.expr update tested
    let begin := stmts initial.toList b
    let loop := forLoop e update body begin.labels
    let d := (begin.newLabel.2.newLabel.2.newLabel.2.newLabel.2.emit (.jump loop.test)).emit
      (.label loop.start)
    -- The update and then the test are lowered behind the body, by the builder that it leaves.
    (match initial with
      | none => []
      | some initial => stmtStops initial ps a.enter c.enter b) ++
      optionalStops .wanted (inside.behind body.definesFunction) e begun checked
        ((loop.advanced d).emit (.label loop.test)) ++
      optionalStops .update (inside.behind body.definesFunction) update tried tested
        ((loop.turned d).emit (.label ⟨begin.labels + 1⟩)) ++
      blockStops body inside (Analysis.optional declared update tried).enter changed.deeper.enter
        (d.pushBreak loop.finish)
  | .switch e cases fallback _, ps, a, c, b =>
    let tried := Analysis.expr declared e a
    let (ty, checked) := Checker.subject e c
    let switch := switched e cases fallback b
    ⟨⟨e, a.table, c.table⟩, ps, b, .wanted⟩ ::
      armsStops (expr e b).1 switch.finish ps cases ty ps tried checked.deeper
        (expr e b).2.newLabel.2 switch.labels switch.begun ++
      match fallback with
      | none => []
      | some fallback =>
        blockStops fallback (ps.behind (armsDefineFunction cases))
          (Analysis.arms declared cases tried).enter
          (Checker.arms ty cases checked.deeper).enter (fallbackBegun e cases fallback b)
  | .giveBack value _, ps, a, c, b => optionalStops .wanted ps value a c b
  | .print args _, ps, a, c, b => allStops declared ps args a c b
  | .evaluate e _, ps, a, c, b => [⟨⟨e, a.table, c.table⟩, ps, b, .dropped⟩]
  | .prototype .., _, _, _, _ | .enumeration .., _, _, _, _ | .leave _, _, _, _, _
  | .inclusion .., _, _, _, _ => []
termination_by structural s => s

def blockStops : Block → Parameters → Analysis → Checker → Builder → List Stop
  | ⟨body, _⟩, ps, a, c, b => stmtsStops body ps a c b
termination_by structural body => body

def stmtsStops : List Stmt → Parameters → Analysis → Checker → Builder → List Stop
  | [], _, _, _, _ => []
  | s :: others, ps, a, c, b =>
    stmtStops s ps a c b ++
      stmtsStops others (ps.behind s.definesFunction) (Analysis.stmt declared s a)
        (Checker.stmt s c) (stmt s b)
termination_by structural body => body

/-- The values are lowered by one builder, and the bodies by another one behind it. -/
def armsStops (subject : Operand) (finish : Label) (tested : Parameters) :
    List Case → Ty → Parameters → Analysis → Checker → Builder → List Label → Builder → List Stop
  | ⟨value, body, _⟩ :: others, ty, ps, a, c, b, l :: labels, d =>
    let tried := Analysis.expr declared value a
    let checked := Checker.caseValue ty value c
    let (operand, e) := expr value b
    ⟨⟨value, a.table, c.table⟩, tested, b, .wanted⟩ ::
      blockStops body ps tried.enter checked.enter (d.emit (.label l)) ++
      armsStops subject finish tested others ty (ps.behind body.definesFunction)
        (Analysis.block declared body tried) (Checker.block body checked)
        (e.newLabel.2.emit (.jumpIfEqual subject operand e.newLabel.1)) labels
        ((block body (d.emit (.label l))).emit (.jump finish))
  | _, _, _, _, _, _, _, _ => []
termination_by structural cases => cases

end

theorem visit_optional (role : Role) (ps : Parameters) (e : Option Expr) (a : Analysis)
    (c : Checker) (b : Builder) :
    (optionalStops role ps e a c b).map Stop.visit = Visit.ofOptional e a c := by
  cases e <;> rfl

theorem visit_all (ps : Parameters) (es : List Expr) (a : Analysis) (c : Checker) (b : Builder) :
    (allStops declared ps es a c b).map Stop.visit = Visit.ofAll declared es a c := by
  induction es generalizing a c b with
  | nil => rfl
  | cons e others ih => simp [allStops, Visit.ofAll, ih]

mutual

/-- Lowering stops where the analyzer and the type checker do. -/
theorem visit_stmt : (s : Stmt) → (ps : Parameters) → (a : Analysis) → (c : Checker) →
    (b : Builder) → (stmtStops declared s ps a c b).map Stop.visit = s.visits declared a c
  | .variable .., _, _, _, _ | .giveBack .., _, _, _, _ => visit_optional ..
  | .print .., _, _, _, _ => visit_all ..
  | .evaluate .., _, _, _, _ | .prototype .., _, _, _, _ | .enumeration .., _, _, _, _
  | .leave _, _, _, _, _ | .inclusion .., _, _, _, _ => rfl
  | .function _ _ _ body _, _, _, _, _ | .main body _, _, _, _, _ | .block body, _, _, _, _ =>
    visit_block body ..
  | .branch e yes none _, _, _, _, _ => by
    simp [stmtStops, Stmt.visits, visit_block yes]
  | .branch e yes (some no) _, _, _, _, _ => by
    simp [stmtStops, Stmt.visits, visit_block yes, visit_block no]
  | .whileLoop e body _, _, _, _, _ | .doLoop body e _, _, _, _, _ => by
    simp [stmtStops, Stmt.visits, visit_block body]
  | .forLoop none e update body _, _, _, _, _ => by
    simp only [stmtStops, Stmt.visits, List.map_append]
    refine congr (congrArg _ (congr (congrArg _ ?_) ?_)) (visit_block body ..)
    · exact visit_optional ..
    · exact visit_optional ..
  | .forLoop (some initial) e update body _, _, _, _, _ => by
    simp only [stmtStops, Stmt.visits, List.map_append]
    refine congr (congrArg _ (congr (congrArg _ (congr (congrArg _ ?_) ?_)) ?_))
      (visit_block body ..)
    · exact visit_stmt initial ..
    · exact visit_optional ..
    · exact visit_optional ..
  | .switch e cases none _, _, _, _, _ => by
    simp [stmtStops, Stmt.visits, visit_arms _ _ _ cases _ _ _ _ _ _ _ (switched_labels ..)]
  | .switch e cases (some fallback) _, _, _, _, _ => by
    simp [stmtStops, Stmt.visits, visit_arms _ _ _ cases _ _ _ _ _ _ _ (switched_labels ..),
      visit_block fallback]
termination_by structural s => s

theorem visit_block : (body : Block) → (ps : Parameters) → (a : Analysis) → (c : Checker) →
    (b : Builder) → (blockStops declared body ps a c b).map Stop.visit = body.visits declared a c
  | ⟨body, _⟩, ps, a, c, b => visit_stmts body ps a c b
termination_by structural body => body

theorem visit_stmts : (body : List Stmt) → (ps : Parameters) → (a : Analysis) → (c : Checker) →
    (b : Builder) →
    (stmtsStops declared body ps a c b).map Stop.visit = bodyVisits declared body a c
  | [], _, _, _, _ => rfl
  | s :: others, _, _, _, _ => by
    rw [stmtsStops, bodyVisits, List.map_append, visit_stmt s, visit_stmts others]
termination_by structural body => body

theorem visit_arms (subject : Operand) (finish : Label) (tested : Parameters) :
    (cases : List Case) → (ty : Ty) → (ps : Parameters) → (a : Analysis) → (c : Checker) →
    (b : Builder) → (labels : List Label) → (d : Builder) → labels.length = cases.length →
    (armsStops declared subject finish tested cases ty ps a c b labels d).map Stop.visit =
      armsVisits declared cases ty a c
  | [], _, _, _, _, _, _, _, _ => rfl
  | ⟨value, body, _⟩ :: others, ty, _, _, _, _, _ :: labels, _, same => by
    have rest := visit_arms subject finish tested others ty
    simp [armsStops, armsVisits, visit_block body, rest _ _ _ _ labels _ (Nat.succ.inj same)]
termination_by structural cases => cases

end

open Builder

theorem written_optional {role : Role} {ps : Parameters} {e : Option Expr} {a : Analysis}
    {c : Checker} {b d : Builder} (counts : role ≠ .dropped)
    (behind : ∀ value ∈ e, Follows (expr value b).2 d) :
    ∀ x ∈ optionalStops role ps e a c b, Follows x.after d := by
  cases e with
  | none => exact nofun
  | some e =>
    refine List.forall_mem_singleton.mpr ?_
    rw [Stop.after, if_neg counts]
    exact behind e rfl

theorem written_all (ps : Parameters) (es : List Expr) (a : Analysis) (c : Checker) (b : Builder) :
    ∀ x ∈ allStops declared ps es a c b, Follows x.after (exprs es b).2 := by
  induction es generalizing a c b with
  | nil => exact nofun
  | cons e others ih =>
    exact List.forall_mem_cons.mpr ⟨(straight_exprs others _).follows, ih _ _ _⟩

/-- The test of a loop stands behind its body. -/
theorem follows_condition (loop : Loop) (b : Builder) : ∀ e ∈ loop.condition,
    Follows (expr e ((loop.advanced b).emit (.label loop.test))).2 (loop.lowered b) := by
  intro e known
  unfold Loop.lowered Loop.tested
  rw [known]
  exact ((Follows.refl _).emit _).emit _

/-- The update of a loop stands between its body and its test. -/
theorem follows_update (loop : Loop) (b : Builder) : ∀ l ∈ loop.advance, ∀ e ∈ loop.update,
    Follows (expr e ((loop.turned b).emit (.label l))).2 (loop.lowered b) := by
  intro l leads e known
  have advanced : (expr e ((loop.turned b).emit (.label l))).2 = loop.advanced b := by
    simp [Loop.advanced, Option.mem_def.mp leads, Option.mem_def.mp known]
  rw [advanced]
  exact (((Follows.refl _).emit _).trans (straight_repeatWhile ..).follows).emit _

theorem follows_branched (e : Expr) (b : Builder) : Follows (expr e b).2 (branched e b) :=
  (Follows.refl _).newLabel.emit _

/-- The arms of a switch stand behind the tests of its values. -/
theorem follows_switched (e : Expr) (cases : List Case) (fallback : Option Block) (span : Span)
    (b : Builder) :
    let switch := switched e cases fallback b
    Follows (tests (expr e b).1 cases (expr e b).2.newLabel.2).2 switch.begun ∧
      Follows (arms switch.finish switch.labels cases switch.begun)
        (stmt (.switch e cases fallback span) b) := by
  refine ⟨((follows_otherwise fallback _ _).emit _).pushBreak _, ?_⟩
  rw [stmt_switched]
  exact (follows_lastArm fallback _ _).popBreak.emit _

/-- The subject of a switch is lowered before everything else. -/
theorem follows_subject (e : Expr) (cases : List Case) (fallback : Option Block) (span : Span)
    (b : Builder) : Follows (expr e b).2 (stmt (.switch e cases fallback span) b) := by
  obtain ⟨begun, last⟩ := follows_switched e cases fallback span b
  have tested := (Follows.refl (expr e b).2).newLabel.trans (follows_tests (expr e b).1 cases _)
  exact ((tested.trans begun).trans (follows_arms cases ..)).trans last

mutual

/-- What is emitted at a stop has its place in the code of the statement. -/
theorem written_stmt : (s : Stmt) → (ps : Parameters) → (a : Analysis) → (c : Checker) →
    (b : Builder) → ∀ x ∈ stmtStops declared s ps a c b, Follows x.after (stmt s b)
  | .variable _ name initial _, ps, a, c, b =>
    written_optional nofun fun e known => by cases known; exact (Follows.refl _).emit _
  | .function _ name params body _, ps, a, c, b => fun x member =>
    (written_block body _ _ _ _ x member).trans (follows_foot name _ _)
  | .main body _, ps, a, c, b => fun x member =>
    (written_block body _ _ _ _ x member).trans (follows_foot "main" _ _)
  | .block body, ps, a, c, b => written_block body _ _ _ b
  | .branch e yes none _, ps, a, c, b => by
    refine List.forall_mem_append.mpr ⟨List.forall_mem_cons.mpr ⟨?_, fun x member => ?_⟩, nofun⟩
    · exact ((follows_branched e b).trans (follows_block yes _)).emit _
    · exact (written_block yes _ _ _ _ x member).emit _
  | .branch e yes (some no) span, ps, a, c, b => by
    have turned : Follows (block yes (branched e b)) (turnedAway e yes b) :=
      ((Follows.refl _).newLabel.emit _).emit _
    have behind : Follows (block yes (branched e b)) (stmt (.branch e yes (some no) span) b) :=
      (turned.trans (follows_block no _)).emit _
    refine List.forall_mem_append.mpr ⟨List.forall_mem_cons.mpr ⟨?_, fun x member => ?_⟩,
      fun x member => ?_⟩
    · exact ((follows_branched e b).trans (follows_block yes _)).trans behind
    · exact (written_block yes _ _ _ _ x member).trans behind
    · exact (written_block no _ _ _ _ x member).emit _
  | .whileLoop e body span, ps, a, c, b => by
    let loop := whileLoop e body b.labels
    rw [stmt_whileLoop]
    refine List.forall_mem_cons.mpr
      ⟨follows_condition loop _ e rfl, fun x member => ?_⟩
    exact (written_block body _ _ _ _ x member).popBreak.trans (follows_lowered loop _)
  | .doLoop body e span, ps, a, c, b => by
    let loop := whileLoop e body b.labels
    rw [stmt_doLoop]
    refine List.forall_mem_append.mpr ⟨fun x member => ?_,
      List.forall_mem_singleton.mpr (follows_condition loop _ e rfl)⟩
    exact (written_block body _ _ _ _ x member).popBreak.trans (follows_lowered loop _)
  | .forLoop none e update body span, ps, a, c, b => by
    rw [stmt_forLoop]
    let loop := forLoop e update body b.labels
    refine List.forall_mem_append.mpr ⟨List.forall_mem_append.mpr
      ⟨written_optional nofun (follows_condition loop _),
        written_optional nofun (follows_update loop _ _ rfl)⟩, fun x member => ?_⟩
    exact (written_block body _ _ _ _ x member).popBreak.trans (follows_lowered loop _)
  | .forLoop (some initial) e update body span, ps, a, c, b => by
    rw [stmt_forLoop]
    let loop := forLoop e update body (stmt initial b).labels
    refine List.forall_mem_append.mpr ⟨List.forall_mem_append.mpr
      ⟨List.forall_mem_append.mpr ⟨fun x member => ?_,
        written_optional nofun (follows_condition loop _)⟩,
        written_optional nofun (follows_update loop _ _ rfl)⟩, fun x member => ?_⟩
    · have started := (written_stmt initial _ _ _ b x member).newLabel.newLabel.newLabel.newLabel
      exact (((started.emit (.jump loop.test)).emit (.label loop.start)).trans
        (follows_turned loop (follows_block body) _)).trans (follows_lowered loop _)
    · exact (written_block body _ _ _ _ x member).popBreak.trans (follows_lowered loop _)
  | .switch e cases none span, ps, a, c, b => by
    have last := follows_switched e cases none span b
    refine List.forall_mem_append.mpr ⟨List.forall_mem_cons.mpr
      ⟨follows_subject e cases none span b, fun x member => ?_⟩, nofun⟩
    exact (written_arms _ _ ps cases _ _ _ _ _ _ _ last.1 x member).trans last.2
  | .switch e cases (some fallback) span, ps, a, c, b => by
    have last := follows_switched e cases (some fallback) span b
    refine List.forall_mem_append.mpr ⟨List.forall_mem_cons.mpr
      ⟨follows_subject e cases (some fallback) span b, fun x member => ?_⟩, fun x member => ?_⟩
    · exact (written_arms _ _ ps cases _ _ _ _ _ _ _ last.1 x member).trans last.2
    · rw [stmt_switched]
      exact (written_block fallback _ _ _ _ x member).popBreak.emit _
  | .giveBack value _, ps, a, c, b =>
    written_optional nofun fun e known => by cases known; exact (Follows.refl _).emit _
  | .print args _, ps, a, c, b => fun x member =>
    (written_all declared ps args a c b x member).emit _
  | .evaluate e _, ps, a, c, b => List.forall_mem_singleton.mpr (.refl _)
  | .prototype .., _, _, _, _ | .enumeration .., _, _, _, _ | .leave _, _, _, _, _
  | .inclusion .., _, _, _, _ => nofun
termination_by structural s => s

theorem written_block : (body : Block) → (ps : Parameters) → (a : Analysis) → (c : Checker) →
    (b : Builder) → ∀ x ∈ blockStops declared body ps a c b, Follows x.after (block body b)
  | ⟨body, _⟩, ps, a, c, b => written_stmts body ps a c b
termination_by structural body => body

theorem written_stmts : (body : List Stmt) → (ps : Parameters) → (a : Analysis) →
    (c : Checker) → (b : Builder) → ∀ x ∈ stmtsStops declared body ps a c b,
      Follows x.after (stmts body b)
  | [], _, _, _, _ => nofun
  | s :: others, _, _, _, _ => List.forall_mem_append.mpr
    ⟨fun x member => (written_stmt s _ _ _ _ x member).trans (follows_stmts others _),
      written_stmts others _ _ _ _⟩
termination_by structural body => body

/-- The values of a switch are tested before its arms. -/
theorem written_arms (subject : Operand) (finish : Label) (tested : Parameters) :
    (cases : List Case) → (ty : Ty) → (ps : Parameters) → (a : Analysis) → (c : Checker) →
    (b : Builder) → (labels : List Label) → (d : Builder) → Follows (tests subject cases b).2 d →
    ∀ x ∈ armsStops declared subject finish tested cases ty ps a c b labels d,
      Follows x.after (arms finish labels cases d)
  | [], _, _, _, _, _, _, _, _ => nofun
  | ⟨_, _, _⟩ :: _, _, _, _, _, _, [], _, _ => nofun
  | ⟨value, body, _⟩ :: others, ty, ps, a, c, b, l :: labels, d, before => by
    have next : Follows d ((block body (d.emit (.label l))).emit (.jump finish)) :=
      (((Follows.refl d).emit _).trans (follows_block body _)).emit _
    refine List.forall_mem_append.mpr ⟨List.forall_mem_cons.mpr ⟨?_, fun x member => ?_⟩, ?_⟩
    · have tried := (Follows.refl (expr value b).2).newLabel.emit
        (.jumpIfEqual subject (expr value b).1 (expr value b).2.newLabel.1)
      exact (((tried.trans (follows_tests subject others _)).trans before).trans next).trans
        (follows_arms others finish labels _)
    · exact ((written_block body _ _ _ _ x member).emit _).trans
        (follows_arms others finish labels _)
    · exact written_arms subject finish tested others _ _ _ _ _ labels _ (before.trans next)
termination_by structural cases => cases

end

end

end Lowering

namespace Program

/-- Every expression that lowering comes to. -/
def stops (p : Program) : List Stop :=
  Lowering.stmtsStops (isDeclared (declarations p.body)) p.body .none .empty .empty .empty

theorem visit_stops (p : Program) : p.stops.map Stop.visit = p.visits :=
  Lowering.visit_stmts _ p.body ..

theorem visit_mem {p : Program} {x : Stop} (member : x ∈ p.stops) : x.visit ∈ p.visits :=
  p.visit_stops ▸ List.mem_map_of_mem member

/-- What is emitted at a stop has its place in the code of the program. -/
theorem written_stops {p : Program} {x : Stop} (member : x ∈ p.stops) :
    x.after.code.toList <+: Lowering.program p :=
  (Lowering.written_stmts _ p.body .none .empty .empty .empty x member).code

end Program
end Curly
