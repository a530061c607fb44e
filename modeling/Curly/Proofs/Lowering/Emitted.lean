import Curly.Proofs.Lowering.Stops
import Curly.Proofs.Scope.Occurrences

/-! What all instructions of a program have in common. It is shown at every stop of lowering for the
instructions of the expression, and once for those that statements put around. -/
namespace Curly

/-- The variables and parameters that a statement declares itself. -/
def Stmt.variables : Stmt → List String
  | .variable _ name _ _ => [name]
  | .function _ _ ps _ _ => ps.map Param.name
  | _ => []

def Instruction.isCall : Instruction → Bool
  | .call .. => true
  | _ => false

namespace Builder

variable {Q : Instruction → Prop} {b : Builder} {i : Instruction}

/-- All instructions so far have a property. -/
def All (Q : Instruction → Prop) (b : Builder) : Prop :=
  ∀ i ∈ b.code.toList, Q i

theorem All.emit (all : b.All Q) (new : Q i) : (b.emit i).All Q := by
  rw [All, Builder.emit, Array.toList_push]
  exact List.forall_mem_append.mpr ⟨all, List.forall_mem_singleton.mpr new⟩

theorem All.newTemp (all : b.All Q) : b.newTemp.2.All Q :=
  all

theorem All.newLabel (all : b.All Q) : b.newLabel.2.All Q :=
  all

theorem All.pushBreak (all : b.All Q) (l : Label) : (b.pushBreak l).All Q :=
  all

theorem All.popBreak (all : b.All Q) : b.popBreak.All Q :=
  all

end Builder

/-- A property that instructions have as soon as their operands have one. The calls of functions are
left out, and so are the operands that names are lowered to. -/
structure Suits (Q : Instruction → Prop) (O : Operand → Prop) : Prop where
  plain : ∀ i, i.isCall = false → (∀ o ∈ i.operands, O o) → Q i
  print : ∀ args, (∀ o ∈ args, O o) → Q (.call none "print" args)
  number : ∀ n : Nat, O (Lowering.intOperand n)
  temp : ∀ k, O (.temp k)

namespace Suits

variable {Q : Instruction → Prop} {O : Operand → Prop} {b : Builder}

/-- All operands have a property. -/
theorem operands (number : ∀ n : Nat, O (Lowering.intOperand n)) (temp : ∀ k, O (.temp k)) :
    Suits (fun i => ∀ o ∈ i.operands, O o) O where
  plain := fun _ _ holds => holds
  print := fun _ holds => holds
  number := number
  temp := temp

theorem bare (suits : Suits Q O) {i : Instruction} (plain : i.isCall = false)
    (none : i.operands = []) : Q i :=
  suits.plain i plain (none ▸ nofun)

theorem label (suits : Suits Q O) (all : b.All Q) (l : Label) : (b.emit (.label l)).All Q :=
  all.emit (suits.bare rfl rfl)

theorem jump (suits : Suits Q O) (all : b.All Q) (l : Label) : (b.emit (.jump l)).All Q :=
  all.emit (suits.bare rfl rfl)

end Suits

namespace Lowering

variable {Q : Instruction → Prop} {O : Operand → Prop}

/-- The instructions of an expression keep their property, and its value has its own. -/
def Keeps (Q : Instruction → Prop) (O : Operand → Prop) (e : Expr) (b : Builder) : Prop :=
  b.All Q → O (expr e b).1 ∧ (expr e b).2.All Q

end Lowering

/-- What is emitted at the stop keeps the property of the instructions, and a value that is wanted
has its own. -/
def Stop.Keeps (Q : Instruction → Prop) (O : Operand → Prop) (x : Stop) : Prop :=
  x.before.All Q → (x.role = .wanted → O x.operand) ∧ x.after.All Q

namespace Lowering

section

variable {Q : Instruction → Prop} {O : Operand → Prop} {ps : Parameters} {a : Analysis}
  {c : Checker} {b : Builder}

theorem keeps_wanted {v : Visit} (keeps : Stop.Keeps Q O ⟨v, ps, b, .wanted⟩) :
    Keeps Q O v.expr b :=
  fun before => ⟨(keeps before).1 rfl, (keeps before).2⟩

theorem keeps_optional {e : Option Expr}
    (keeps : ∀ x ∈ optionalStops .wanted ps e a c b, x.Keeps Q O) :
    ∀ value ∈ e, Keeps Q O value b := by
  rintro value ⟨⟩
  exact keeps_wanted (keeps _ (.head _))

theorem keeps_all {declared : String → Bool} {es : List Expr}
    (keeps : ∀ x ∈ allStops declared ps es a c b, x.Keeps Q O) (before : b.All Q) :
    (∀ o ∈ (exprs es b).1, O o) ∧ (exprs es b).2.All Q := by
  induction es generalizing a c b with
  | nil => exact ⟨nofun, before⟩
  | cons e others ih =>
    obtain ⟨here, rest⟩ := List.forall_mem_cons.mp keeps
    obtain ⟨value, between⟩ := keeps_wanted here before
    obtain ⟨values, behind⟩ := ih rest between
    exact ⟨List.forall_mem_cons.mpr ⟨value, values⟩, behind⟩

/-- The update of a loop is evaluated for its instructions only. -/
theorem updates_optional {e : Option Expr}
    (keeps : ∀ x ∈ optionalStops .update ps e a c b, x.Keeps Q O) :
    ∀ value ∈ e, b.All Q → (expr value b).2.All Q := by
  rintro value ⟨⟩ before
  exact (keeps _ (.head _) before).2

end

section

variable {Q : Instruction → Prop} {O : Operand → Prop} (suits : Suits Q O) {b : Builder}

include suits

theorem all_intoTemp {instruction : Operand → Instruction} (new : ∀ k, Q (instruction (.temp k)))
    (before : b.All Q) : O (intoTemp instruction b).1 ∧ (intoTemp instruction b).2.All Q :=
  ⟨suits.temp _, before.newTemp.emit (new _)⟩

theorem all_store {target : Expr} (named : ∀ name ∈ target.symbol?, O (.variable name.name))
    {value : Operand} (holds : O value) (before : b.All Q) :
    O (store target value b).1 ∧ (store target value b).2.All Q := by
  cases target with
  | symbol name =>
    have held := named name rfl
    refine ⟨held, before.emit (suits.plain _ rfl (List.forall_mem_cons.mpr ⟨held, ?_⟩))⟩
    exact List.forall_mem_singleton.mpr holds
  | _ => exact ⟨holds, before⟩

theorem all_before (op : UnaryOp) {operand : Operand} (holds : O operand) (before : b.All Q) :
    O (step op .before operand b).1 ∧ (step op .before operand b).2.All Q := by
  have updated : (intoTemp (.binary · (stepSpelling op) operand (intOperand 1)) b).2.All Q := by
    refine (all_intoTemp suits (fun k => suits.plain _ rfl ?_) before).2
    exact List.forall_mem_cons.mpr ⟨suits.temp k,
      List.forall_mem_cons.mpr ⟨holds, List.forall_mem_singleton.mpr (suits.number 1)⟩⟩
  rw [step_before]
  cases operand with
  | «variable» name =>
    refine ⟨holds, updated.emit (suits.plain _ rfl (List.forall_mem_cons.mpr ⟨holds, ?_⟩))⟩
    exact List.forall_mem_singleton.mpr (suits.temp _)
  | _ => exact ⟨suits.temp _, updated⟩

theorem all_step (op : UnaryOp) (side : Side) {operand : Operand} (holds : O operand)
    (before : b.All Q) : O (step op side operand b).1 ∧ (step op side operand b).2.All Q := by
  cases side with
  | before => exact all_before suits op holds before
  | behind =>
    rw [step_behind]
    have copied (k : Nat) : Q (.assign (.temp k) operand) := suits.plain _ rfl
      (List.forall_mem_cons.mpr ⟨suits.temp k, List.forall_mem_singleton.mpr holds⟩)
    have saved : O (intoTemp (.assign · operand) b).1 ∧ (intoTemp (.assign · operand) b).2.All Q :=
      all_intoTemp suits copied before
    exact ⟨saved.1, (all_before suits op holds saved.2).2⟩

/-- An instruction with the value of an expression as its only operand. -/
theorem all_reading {e : Expr} (keeps : Keeps Q O e b) (before : b.All Q)
    {i : Instruction} (plain : i.isCall = false) (operands : i.operands = [(expr e b).1]) :
    ((expr e b).2.emit i).All Q := by
  obtain ⟨value, behind⟩ := keeps before
  exact behind.emit (suits.plain i plain (operands ▸ List.forall_mem_singleton.mpr value))

theorem all_variableStatement {name : String} {initial : Option Expr}
    (named : O (.variable name)) (keeps : ∀ e ∈ initial, Keeps Q O e b)
    (before : b.All Q) : (variableStatement name initial b).All Q := by
  have assigned {d : Builder} {value : Operand} (behind : d.All Q) (holds : O value) :
      (d.emit (.assign (.variable name) value)).All Q :=
    behind.emit (suits.plain _ rfl
      (List.forall_mem_cons.mpr ⟨named, List.forall_mem_singleton.mpr holds⟩))
  cases initial with
  | none => exact assigned before (suits.number 0)
  | some e =>
    obtain ⟨value, behind⟩ := keeps e rfl before
    exact assigned behind value

theorem all_giveBack {value : Option Expr} (keeps : ∀ e ∈ value, Keeps Q O e b)
    (before : b.All Q) : (giveBack value b).All Q := by
  cases value with
  | none => exact before.emit (suits.bare rfl rfl)
  | some e => exact all_reading suits (keeps e rfl) before rfl rfl

theorem all_repeatWhile {condition : Option Expr} (start : Label)
    (keeps : ∀ e ∈ condition, Keeps Q O e b) (before : b.All Q) :
    (repeatWhile condition start b).All Q := by
  cases condition with
  | none => exact suits.jump before start
  | some e => exact all_reading suits (keeps e rfl) before rfl rfl

theorem all_leave (before : b.All Q) : (leave b).All Q := by
  unfold leave
  split
  · exact before
  · exact suits.jump before _

theorem all_head (name : String) {params : List String} (named : ∀ p ∈ params, O (.variable p))
    (before : b.All Q) : (head name params b).All Q := by
  have listed (d : Builder) (begun : d.All Q) :
      (params.foldl (fun b param => b.emit (.param param)) d).All Q := by
    induction params generalizing d with
    | nil => exact begun
    | cons first others ih =>
      obtain ⟨one, rest⟩ := List.forall_mem_cons.mp named
      exact ih rest _ (begun.emit (suits.plain _ rfl (List.forall_mem_singleton.mpr one)))
  have begun : (b.emit (.beginFunction name)).All Q := before.emit (suits.bare rfl rfl)
  exact listed _ begun

theorem all_foot (name : String) {value : Option Operand} (holds : ∀ o ∈ value, O o)
    (before : b.All Q) : (foot name value b).All Q := by
  have returned (returns : Bool) :
      (if returns = true then b else b.emit (.giveBack value)).All Q := by
    cases returns with
    | true => exact before
    | false =>
      exact before.emit (suits.plain _ rfl
        (by simpa [Instruction.operands, Instruction.target?, Instruction.reads] using holds))
  have left (returns : Bool) :
      (if returns = true then b else b.emit (.giveBack value)).leaveFunction.All Q :=
    returned returns
  exact (left _).emit (suits.bare rfl rfl)

theorem all_defaultOperand (ty : Ty) :
    ∀ o ∈ (if ty = .void then none else some defaultOperand), O o := by
  split
  · exact nofun
  · rintro o ⟨⟩
    exact suits.number 0

theorem all_lowered (loop : Loop)
    (condition : ∀ e ∈ loop.condition,
      Keeps Q O e ((loop.advanced b).emit (.label loop.test)))
    (update : ∀ l ∈ loop.advance, ∀ e ∈ loop.update, ((loop.turned b).emit (.label l)).All Q →
      (expr e ((loop.turned b).emit (.label l))).2.All Q)
    (inside : (b.pushBreak loop.finish).All Q →
      (block loop.body (b.pushBreak loop.finish)).All Q) (before : b.All Q) :
    (loop.lowered b).All Q := by
  have turned : (loop.turned b).All Q := (inside (before.pushBreak loop.finish)).popBreak
  have advanced : (loop.advanced b).All Q := by
    unfold Loop.advanced
    split
    · exact turned
    next l leads =>
      split
      next => exact suits.label turned l
      next e same => exact update l leads e same (suits.label turned l)
  have tested := all_repeatWhile suits loop.start condition (suits.label advanced loop.test)
  exact suits.label tested loop.finish

/-- Before the first block of a branch. -/
theorem all_branched {e : Expr} (keeps : Keeps Q O e b) (before : b.All Q) :
    (branched e b).All Q := by
  obtain ⟨value, behind⟩ := keeps before
  exact behind.newLabel.emit (suits.plain _ rfl (List.forall_mem_singleton.mpr value))

theorem all_tests {declared : String → Bool} {subject : Operand} (holds : O subject)
    {finish : Label} {tested ps : Parameters} {cases : List Case} {ty : Ty} {a : Analysis}
    {c : Checker} {labels : List Label} {d : Builder} (sized : labels.length = cases.length)
    (keeps : ∀ x ∈ armsStops declared subject finish tested cases ty ps a c b labels d,
      x.Keeps Q O) (before : b.All Q) : (tests subject cases b).2.All Q := by
  induction cases generalizing ps a c b labels d with
  | nil => exact before
  | cons arm others ih =>
    obtain ⟨e, body, span⟩ := arm
    cases labels with
    | nil => exact nomatch sized
    | cons l labels =>
      obtain ⟨first, rest⟩ := List.forall_mem_append.mp keeps
      obtain ⟨value, between⟩ := keeps_wanted (List.forall_mem_cons.mp first).1 before
      refine ih (Nat.succ.inj sized) rest (between.newLabel.emit (suits.plain _ rfl ?_))
      exact List.forall_mem_cons.mpr ⟨holds, List.forall_mem_singleton.mpr value⟩

/-- Before the first arm of a switch. -/
theorem all_switched {declared : String → Bool} {e : Expr} {cases : List Case}
    (fallback : Option Block) {ty : Ty} {tested ps : Parameters} {a : Analysis} {c : Checker}
    (subject : Keeps Q O e b)
    (values : let switch := switched e cases fallback b
      ∀ x ∈ armsStops declared (expr e b).1 switch.finish tested cases ty ps a c
        (expr e b).2.newLabel.2 switch.labels switch.begun, x.Keeps Q O)
    (before : b.All Q) : (switched e cases fallback b).begun.All Q := by
  obtain ⟨value, behind⟩ := subject before
  have tried := all_tests suits value (switched_labels ..) values behind.newLabel
  have led (l : Label) : (otherwise fallback l
      (tests (expr e b).1 cases (expr e b).2.newLabel.2).2).2.All Q := by
    cases fallback with
    | none => exact tried
    | some _ => exact tried.newLabel
  exact (suits.jump (led _) _).pushBreak _

end

section

variable {Q : Instruction → Prop} {O : Operand → Prop} (declared : String → Bool)

mutual

theorem all_stmt (suits : Suits Q O) : (s : Stmt) →
    (∀ t ∈ s :: s.inner, ∀ name ∈ t.variables, O (.variable name)) →
    {ps : Parameters} → {a : Analysis} → {c : Checker} → {b : Builder} →
    (∀ x ∈ stmtStops declared s ps a c b, x.Keeps Q O) → b.All Q → (stmt s b).All Q
  | .variable _ name initial _, named, _, _, _, _, keeps, before =>
    all_variableStatement suits (named _ (.head _) name (.head _)) (keeps_optional keeps) before
  | .prototype .., _, _, _, _, _, _, before | .enumeration .., _, _, _, _, _, _, before
  | .inclusion .., _, _, _, _, _, _, before => before
  | .function ty name params body _, named, _, _, _, _, keeps, before => by
    obtain ⟨own, inner⟩ := List.forall_mem_cons.mp named
    exact all_foot suits name (all_defaultOperand suits ty)
      (all_block suits body inner keeps (all_head suits name own before))
  | .main body _, named, _, _, _, _, keeps, before => by
    have inner := (List.forall_mem_cons.mp named).2
    exact all_foot suits "main" (all_defaultOperand suits .int)
      (all_block suits body inner keeps (all_head suits "main" nofun before))
  | .block body, named, _, _, _, _, keeps, before =>
    all_block suits body (List.forall_mem_cons.mp named).2 keeps before
  | .branch e yes none _, named, _, _, _, _, keeps, before => by
    have inner := (List.forall_mem_append.mp (List.forall_mem_cons.mp named).2).1
    obtain ⟨condition, first⟩ := List.forall_mem_cons.mp (List.forall_mem_append.mp keeps).1
    have begun := all_branched suits (keeps_wanted condition) before
    exact suits.label (all_block suits yes inner first begun) _
  | .branch e yes (some no) _, named, _, _, _, _, keeps, before => by
    obtain ⟨one, two⟩ := List.forall_mem_append.mp (List.forall_mem_cons.mp named).2
    obtain ⟨head, second⟩ := List.forall_mem_append.mp keeps
    obtain ⟨condition, first⟩ := List.forall_mem_cons.mp head
    have begun := all_branched suits (keeps_wanted condition) before
    have passed := (all_block suits yes one first begun).newLabel
    exact suits.label (all_block suits no two second (suits.label (suits.jump passed _) _)) _
  | .whileLoop e body span, named, _, _, _, b, keeps, before => by
    obtain ⟨condition, first⟩ := List.forall_mem_cons.mp keeps
    have inner := (List.forall_mem_cons.mp named).2
    rw [stmt_whileLoop]
    refine all_lowered suits _ ?_ nofun (all_block suits body inner first)
      (suits.label (suits.jump before.newLabel.newLabel.newLabel _) _)
    rintro e ⟨⟩
    exact keeps_wanted condition
  | .doLoop body e span, named, _, _, _, b, keeps, before => by
    obtain ⟨first, condition⟩ := List.forall_mem_append.mp keeps
    have inner := (List.forall_mem_cons.mp named).2
    rw [stmt_doLoop]
    refine all_lowered suits _ ?_ nofun (all_block suits body inner first)
      (suits.label before.newLabel.newLabel.newLabel _)
    rintro e ⟨⟩
    exact keeps_wanted (List.forall_mem_singleton.mp condition)
  | .forLoop none e update body span, named, _, _, _, b, keeps, before => by
    obtain ⟨heads, first⟩ := List.forall_mem_append.mp keeps
    obtain ⟨condition, change⟩ := List.forall_mem_append.mp heads
    rw [stmt_forLoop]
    refine all_lowered suits _ (keeps_optional condition) ?_
      (all_block suits body (List.forall_mem_cons.mp named).2 first)
      (suits.label (suits.jump before.newLabel.newLabel.newLabel.newLabel _) _)
    rintro l ⟨⟩
    exact updates_optional change
  | .forLoop (some initial) e update body span, named, _, _, _, b, keeps, before => by
    obtain ⟨heads, first⟩ := List.forall_mem_append.mp keeps
    obtain ⟨starts, change⟩ := List.forall_mem_append.mp heads
    obtain ⟨start, condition⟩ := List.forall_mem_append.mp starts
    obtain ⟨own, inner⟩ := List.forall_mem_append.mp (List.forall_mem_cons.mp named).2
    have begun : (stmt initial b).All Q := all_stmt suits initial own start before
    rw [stmt_forLoop]
    refine all_lowered suits _ (keeps_optional condition) ?_ (all_block suits body inner first)
      (suits.label (suits.jump begun.newLabel.newLabel.newLabel.newLabel _) _)
    rintro l ⟨⟩
    exact updates_optional change
  | .switch e cases none _, named, _, _, _, _, keeps, before => by
    have inner := (List.forall_mem_append.mp (List.forall_mem_cons.mp named).2).1
    obtain ⟨subject, chosen⟩ := List.forall_mem_cons.mp (List.forall_mem_append.mp keeps).1
    have begun := all_switched suits none (keeps_wanted subject) chosen before
    rw [stmt_switched]
    exact suits.label (all_arms suits cases inner chosen begun).popBreak _
  | .switch e cases (some fallback) _, named, _, _, _, _, keeps, before => by
    obtain ⟨one, two⟩ := List.forall_mem_append.mp (List.forall_mem_cons.mp named).2
    obtain ⟨head, last⟩ := List.forall_mem_append.mp keeps
    obtain ⟨subject, chosen⟩ := List.forall_mem_cons.mp head
    have begun := all_switched suits (some fallback) (keeps_wanted subject) chosen before
    have behind := all_arms suits cases one chosen begun
    rw [stmt_switched]
    exact suits.label (all_block suits fallback two last (suits.label behind _)).popBreak _
  | .giveBack .., _, _, _, _, _, keeps, before =>
    all_giveBack suits (keeps_optional keeps) before
  | .leave _, _, _, _, _, _, _, before => all_leave suits before
  | .print args _, _, _, _, _, _, keeps, before => by
    obtain ⟨values, behind⟩ := keeps_all keeps before
    exact behind.emit (suits.print _ values)
  | .evaluate .., _, _, _, _, _, keeps, before => (keeps _ (.head _) before).2
termination_by structural s => s

theorem all_block (suits : Suits Q O) : (body : Block) →
    (∀ t ∈ body.statements, ∀ name ∈ t.variables, O (.variable name)) →
    {ps : Parameters} → {a : Analysis} → {c : Checker} → {b : Builder} →
    (∀ x ∈ blockStops declared body ps a c b, x.Keeps Q O) → b.All Q → (block body b).All Q
  | ⟨body, _⟩, named, _, _, _, _, keeps, before => all_stmts suits body named keeps before
termination_by structural body => body

theorem all_stmts (suits : Suits Q O) : (body : List Stmt) →
    (∀ t ∈ bodyStatements body, ∀ name ∈ t.variables, O (.variable name)) →
    {ps : Parameters} → {a : Analysis} → {c : Checker} → {b : Builder} →
    (∀ x ∈ stmtsStops declared body ps a c b, x.Keeps Q O) → b.All Q → (stmts body b).All Q
  | [], _, _, _, _, _, _, before => before
  | s :: others, named, _, _, _, _, keeps, before => by
    obtain ⟨one, two⟩ := List.forall_mem_append.mp named
    obtain ⟨first, rest⟩ := List.forall_mem_append.mp keeps
    exact all_stmts suits others two rest (all_stmt suits s one first before)
termination_by structural body => body

theorem all_arms (suits : Suits Q O) : (cases : List Case) →
    (∀ t ∈ armsStatements cases, ∀ name ∈ t.variables, O (.variable name)) →
    {subject : Operand} → {finish : Label} → {tested ps : Parameters} → {ty : Ty} →
    {a : Analysis} → {c : Checker} → {b : Builder} → {labels : List Label} → {d : Builder} →
    (∀ x ∈ armsStops declared subject finish tested cases ty ps a c b labels d, x.Keeps Q O) →
    d.All Q → (arms finish labels cases d).All Q
  | [], _, _, _, _, _, _, _, _, _, _, _, _, before
  | ⟨_, _, _⟩ :: _, _, _, _, _, _, _, _, _, _, [], _, _, before => before
  | ⟨_, body, _⟩ :: others, named, _, _, _, _, _, _, _, _, l :: labels, _, keeps, before => by
    obtain ⟨one, two⟩ := List.forall_mem_append.mp named
    obtain ⟨head, rest⟩ := List.forall_mem_append.mp keeps
    have first := (List.forall_mem_cons.mp head).2
    exact all_arms suits others two rest
      (suits.jump (all_block suits body one first (suits.label before l)) _)
termination_by structural cases => cases

end

end

end Lowering

/-- A property of all instructions of a program. -/
theorem Program.all_lowered {Q : Instruction → Prop} {O : Operand → Prop} (suits : Suits Q O)
    {p : Program} (named : ∀ s ∈ p.statements, ∀ name ∈ s.variables, O (.variable name))
    (keeps : ∀ x ∈ p.stops, x.Keeps Q O) : ∀ i ∈ Lowering.program p, Q i :=
  Lowering.all_stmts _ suits p.body named keeps (b := .empty) nofun

end Curly
