import Curly.Code.Lowering
import Mathlib.Tactic.SplitIfs

/-! Lowering only adds: instructions behind those there are, and numbers above those in use. What
it adds places every label it has numbered, once. -/
namespace Curly

/-- What stands in the second builder continues the first. -/
structure Builder.Follows (b c : Builder) : Prop where
  code : b.code.toList <+: c.code.toList
  temps : b.temps ≤ c.temps
  labels : b.labels ≤ c.labels

def Builder.placed (b : Builder) (index : Nat) : Nat :=
  b.code.toList.count (.label ⟨index⟩)

namespace Builder.Follows

theorem refl (b : Builder) : Follows b b :=
  ⟨List.prefix_refl _, Nat.le_refl _, Nat.le_refl _⟩

variable {b c d : Builder}

theorem trans (first : Follows b c) (second : Follows c d) : Follows b d :=
  ⟨first.code.trans second.code, Nat.le_trans first.temps second.temps,
    Nat.le_trans first.labels second.labels⟩

theorem emit (before : Follows b c) (i : Instruction) : Follows b (c.emit i) := by
  refine before.trans ⟨?_, Nat.le_refl _, Nat.le_refl _⟩
  simp [Builder.emit]

theorem newTemp (before : Follows b c) : Follows b c.newTemp.2 :=
  before.trans ⟨List.prefix_refl _, Nat.le_succ _, Nat.le_refl _⟩

theorem newLabel (before : Follows b c) : Follows b c.newLabel.2 :=
  before.trans ⟨List.prefix_refl _, Nat.le_refl _, Nat.le_succ _⟩

theorem of_same (before : Follows b c) (code : d.code = c.code) (temps : d.temps = c.temps)
    (labels : d.labels = c.labels) : Follows b d :=
  ⟨code ▸ before.code, temps ▸ before.temps, labels ▸ before.labels⟩

theorem pushBreak (before : Follows b c) (l : Label) : Follows b (c.pushBreak l) :=
  before.of_same rfl rfl rfl

theorem popBreak (before : Follows b c) : Follows b c.popBreak :=
  before.of_same rfl rfl rfl

end Builder.Follows

namespace Builder

@[simp] theorem placed_emit (b : Builder) (i : Instruction) (index : Nat) :
    (b.emit i).placed index = b.placed index + if i = .label ⟨index⟩ then 1 else 0 := by
  simp [placed, emit, List.count_append, List.count_singleton]

@[simp] theorem placed_newTemp (b : Builder) (index : Nat) :
    b.newTemp.2.placed index = b.placed index := rfl

@[simp] theorem placed_newLabel (b : Builder) (index : Nat) :
    b.newLabel.2.placed index = b.placed index := rfl

@[simp] theorem placed_pushBreak (b : Builder) (l : Label) (index : Nat) :
    (b.pushBreak l).placed index = b.placed index := rfl

@[simp] theorem placed_popBreak (b : Builder) (index : Nat) :
    b.popBreak.placed index = b.placed index := rfl

@[simp] theorem labels_emit (b : Builder) (i : Instruction) : (b.emit i).labels = b.labels := rfl

@[simp] theorem labels_newTemp (b : Builder) : b.newTemp.2.labels = b.labels := rfl

@[simp] theorem labels_newLabel (b : Builder) : b.newLabel.2.labels = b.labels + 1 := rfl

@[simp] theorem newLabel_fst (b : Builder) : b.newLabel.1 = ⟨b.labels⟩ := rfl

@[simp] theorem labels_pushBreak (b : Builder) (l : Label) :
    (b.pushBreak l).labels = b.labels := rfl

@[simp] theorem labels_popBreak (b : Builder) : b.popBreak.labels = b.labels := rfl

end Builder

namespace Lowering

open Builder

/-- Lowering that needs no label and leaves the meaning of names and breaks as it is. -/
structure Straight (b c : Builder) : Prop where
  follows : Follows b c
  labels : c.labels = b.labels
  placed : ∀ index, c.placed index = b.placed index
  breaks : c.breaks = b.breaks
  ordinals : c.ordinals = b.ordinals
  params : c.params = b.params

namespace Straight

theorem refl (b : Builder) : Straight b b :=
  ⟨Follows.refl b, rfl, fun _ => rfl, rfl, rfl, rfl⟩

variable {b c d : Builder}

theorem trans (first : Straight b c) (second : Straight c d) : Straight b d :=
  ⟨first.follows.trans second.follows, second.labels.trans first.labels,
    fun index => (second.placed index).trans (first.placed index),
    second.breaks.trans first.breaks, second.ordinals.trans first.ordinals,
    second.params.trans first.params⟩

theorem emit (before : Straight b c) (i : Instruction) (plain : ∀ l, i ≠ .label l) :
    Straight b (c.emit i) :=
  before.trans ⟨(Follows.refl c).emit i, rfl, fun index => by simp [plain], rfl, rfl, rfl⟩

theorem newTemp (before : Straight b c) : Straight b c.newTemp.2 :=
  before.trans ⟨(Follows.refl c).newTemp, rfl, fun _ => rfl, rfl, rfl, rfl⟩

theorem intoTemp (before : Straight b c) (instruction : Operand → Instruction)
    (plain : ∀ o l, instruction o ≠ .label l) : Straight b (intoTemp instruction c).2 :=
  before.newTemp.emit _ (plain _)

end Straight

theorem straight_store (target : Expr) (value : Operand) (b : Builder) :
    Straight b (store target value b).2 := by
  cases target with
  | symbol name => exact (Straight.refl b).emit _ (by simp)
  | _ => exact Straight.refl b

/-- A step before its operand: the operand and one are put together, and stored if the operand is a
variable. -/
theorem step_before (op : UnaryOp) (operand : Operand) (b : Builder) :
    step op .before operand b =
      let (updated, c) := intoTemp (.binary · (stepSpelling op) operand (intOperand 1)) b
      if operand.isVariable then (operand, c.emit (.assign operand updated)) else (updated, c) := by
  cases operand <;> rfl

/-- A step behind its operand saves it first. -/
theorem step_behind (op : UnaryOp) (operand : Operand) (b : Builder) :
    step op .behind operand b =
      let (saved, c) := intoTemp (.assign · operand) b
      (saved, (step op .before operand c).2) := by
  cases operand <;> rfl

theorem straight_step (op : UnaryOp) (side : Side) (operand : Operand) (b : Builder) :
    Straight b (step op side operand b).2 := by
  have before (c : Builder) : Straight c (step op .before operand c).2 := by
    have updated : Straight c
        (intoTemp (.binary · (stepSpelling op) operand (intOperand 1)) c).2 :=
      (Straight.refl c).intoTemp _ (by simp)
    rw [step_before]
    dsimp only
    split
    · exact updated.emit _ (by simp)
    · exact updated
  cases side with
  | before => exact before b
  | behind =>
    rw [step_behind]
    exact ((Straight.refl b).intoTemp (.assign · operand) (by simp)).trans (before _)

mutual

theorem straight_expr : (e : Expr) → (b : Builder) → Straight b (expr e b).2
  | .int .., b | .float .., b | .string .., b | .char .., b | .bool .., b | .symbol _, b =>
    Straight.refl b
  | .binary op left right _, b => by
    simp only [expr]
    split
    · exact (straight_expr right b).trans (straight_store _ _ _)
    · exact ((straight_expr left b).trans (straight_expr right _)).intoTemp _ (by simp)
  | .unary op operand side _, b => by
    simp only [expr]
    split
    · exact (straight_expr operand b).trans (straight_step _ _ _ _)
    · exact (straight_expr operand b).intoTemp _ (by simp)
  | .call callee args _, b => (straight_exprs args b).intoTemp _ (by simp)
termination_by structural e => e

theorem straight_exprs : (es : List Expr) → (b : Builder) → Straight b (exprs es b).2
  | [], b => Straight.refl b
  | e :: others, b => (straight_expr e b).trans (straight_exprs others _)
termination_by structural es => es

end
theorem straight_repeatWhile (condition : Option Expr) (start : Label) (b : Builder) :
    Straight b (repeatWhile condition start b) := by
  cases condition with
  | none => exact (Straight.refl b).emit _ (by simp)
  | some e => exact (straight_expr e b).emit _ (by simp)

theorem straight_variableStatement (name : String) (initial : Option Expr) (b : Builder) :
    Straight b (variableStatement name initial b) := by
  cases initial with
  | none => exact (Straight.refl b).emit _ (by simp)
  | some e => exact (straight_expr e b).emit _ (by simp)

theorem straight_giveBack (value : Option Expr) (b : Builder) :
    Straight b (giveBack value b) := by
  cases value with
  | none => exact (Straight.refl b).emit _ (by simp)
  | some e => exact (straight_expr e b).emit _ (by simp)

theorem straight_leave (b : Builder) : Straight b (leave b) := by
  unfold leave
  split
  · exact Straight.refl b
  · exact (Straight.refl b).emit _ (by simp)

theorem straight_print (args : List Expr) (b : Builder) : Straight b (print args b) :=
  (straight_exprs args b).emit _ (by simp)

theorem straight_effect (e : Expr) (b : Builder) : Straight b (effect e b) := by
  cases e with
  | call callee args _ => exact (straight_exprs args b).emit _ (by simp)
  | _ => exact straight_expr _ b

theorem follows_head (name : String) (params : List String) (b : Builder) :
    Follows b (head name params b) := by
  have listed (names : List String) (c : Builder) (before : Follows b c) :
      Follows b (names.foldl (fun b param => b.emit (.param param)) c) := by
    induction names generalizing c with
    | nil => exact before
    | cons first others ih => exact ih _ (before.emit _)
  exact listed params _ (((Follows.refl b).emit _).of_same rfl rfl rfl)

theorem follows_foot (name : String) (value : Option Operand) (b : Builder) :
    Follows b (foot name value b) := by
  have returned (returns : Bool) :
      Follows b (if returns = true then b else b.emit (.giveBack value)).leaveFunction := by
    cases returns with
    | true => exact (Follows.refl b).of_same rfl rfl rfl
    | false => exact ((Follows.refl b).emit _).of_same rfl rfl rfl
  exact (returned _).emit _

theorem follows_tests (subject : Operand) (cases : List Case) (b : Builder) :
    Follows b (tests subject cases b).2 := by
  induction cases generalizing b with
  | nil => exact Follows.refl b
  | cons arm others ih =>
    exact ((straight_expr arm.value b).follows.newLabel.emit _).trans (ih _)

/-- A loop with its labels. Behind each turn comes its update, if it has one, then its test. -/
structure Loop where
  condition : Option Expr
  update : Option Expr
  body : Block
  start : Label
  advance : Option Label
  test : Label
  finish : Label

namespace Loop

variable (loop : Loop)

def turned (b : Builder) : Builder :=
  (block loop.body (b.pushBreak loop.finish)).popBreak

def advanced (b : Builder) : Builder :=
  match loop.advance with
  | none => loop.turned b
  | some l =>
    match loop.update with
    | none => (loop.turned b).emit (.label l)
    | some e => (expr e ((loop.turned b).emit (.label l))).2

def tested (b : Builder) : Builder :=
  repeatWhile loop.condition loop.start ((loop.advanced b).emit (.label loop.test))

def lowered (b : Builder) : Builder :=
  (loop.tested b).emit (.label loop.finish)

end Loop

def whileLoop (e : Expr) (body : Block) (n : Nat) : Loop :=
  ⟨some e, none, body, ⟨n⟩, none, ⟨n + 1⟩, ⟨n + 2⟩⟩

def forLoop (e update : Option Expr) (body : Block) (n : Nat) : Loop :=
  ⟨e, update, body, ⟨n⟩, some ⟨n + 1⟩, ⟨n + 2⟩, ⟨n + 3⟩⟩

theorem stmt_whileLoop (e : Expr) (body : Block) (span : Span) (b : Builder) :
    stmt (.whileLoop e body span) b =
      let loop := whileLoop e body b.labels
      loop.lowered ((b.newLabel.2.newLabel.2.newLabel.2.emit (.jump loop.test)).emit
        (.label loop.start)) := rfl

theorem stmt_doLoop (e : Expr) (body : Block) (span : Span) (b : Builder) :
    stmt (.doLoop body e span) b =
      let loop := whileLoop e body b.labels
      loop.lowered (b.newLabel.2.newLabel.2.newLabel.2.emit (.label loop.start)) := rfl

theorem stmt_forLoop (initial : Option Stmt) (e update : Option Expr) (body : Block) (span : Span)
    (b : Builder) :
    stmt (.forLoop initial e update body span) b =
      let c := stmts initial.toList b
      let loop := forLoop e update body c.labels
      loop.lowered ((c.newLabel.2.newLabel.2.newLabel.2.newLabel.2.emit (.jump loop.test)).emit
        (.label loop.start)) := by
  cases initial <;> cases update <;> rfl

/-- Where a switch leads if no arm is chosen: to its fallback or, if it has none, to its end. -/
def otherwise (fallback : Option Block) (finish : Label) (b : Builder) : Label × Builder :=
  match fallback with
  | none => (finish, b)
  | some _ => b.newLabel

def lastArm (fallback : Option Block) (l : Label) (b : Builder) : Builder :=
  match fallback with
  | none => b
  | some body => block body (b.emit (.label l))

theorem stmt_switch (e : Expr) (cases : List Case) (fallback : Option Block) (span : Span)
    (b : Builder) :
    stmt (.switch e cases fallback span) b =
      let (subject, c) := expr e b
      let (finish, c) := c.newLabel
      let (labels, c) := tests subject cases c
      let (l, c) := otherwise fallback finish c
      let d := (c.emit (.jump l)).pushBreak finish
      (lastArm fallback l (arms finish labels cases d)).popBreak.emit (.label finish) := by
  cases fallback <;> rfl

theorem follows_otherwise (fallback : Option Block) (finish : Label) (b : Builder) :
    Follows b (otherwise fallback finish b).2 := by
  cases fallback with
  | none => exact Follows.refl b
  | some _ => exact (Follows.refl b).newLabel

theorem follows_lastArm_of (fallback : Option Block)
    (inside : ∀ body ∈ fallback, ∀ b, Follows b (block body b)) (l : Label) (b : Builder) :
    Follows b (lastArm fallback l b) := by
  cases fallback with
  | none => exact Follows.refl b
  | some body => exact ((Follows.refl b).emit _).trans (inside body rfl _)

theorem follows_turned (loop : Loop)
    (inside : ∀ b, Follows b (block loop.body b)) (b : Builder) : Follows b (loop.turned b) :=
  (((Follows.refl b).pushBreak _).trans (inside _)).popBreak

theorem follows_advanced (loop : Loop) (b : Builder) :
    Follows (loop.turned b) (loop.advanced b) := by
  unfold Loop.advanced
  split
  · exact Follows.refl _
  · split
    · exact (Follows.refl _).emit _
    · exact ((Follows.refl _).emit _).trans (straight_expr _ _).follows

theorem follows_lowered (loop : Loop) (b : Builder) :
    Follows (loop.turned b) (loop.lowered b) :=
  (((follows_advanced loop b).emit _).trans (straight_repeatWhile _ _ _).follows).emit _

mutual

theorem follows_stmt : (s : Stmt) → (b : Builder) → Follows b (stmt s b)
  | .variable _ name initial _, b => (straight_variableStatement name initial b).follows
  | .prototype .., b | .inclusion .., b => Follows.refl b
  | .enumeration .., b => (Follows.refl b).of_same rfl rfl rfl
  | .function _ name params body _, b =>
    ((follows_head name _ b).trans (follows_block body _)).trans (follows_foot name _ _)
  | .main body _, b =>
    ((follows_head "main" [] b).trans (follows_block body _)).trans (follows_foot "main" _ _)
  | .block body, b => follows_block body b
  | .branch e yes no _, b => by
    cases no with
    | none =>
      exact (((straight_expr e b).follows.newLabel.emit _).trans (follows_block yes _)).emit _
    | some no =>
      exact (((((((straight_expr e b).follows.newLabel.emit _).trans
        (follows_block yes _)).newLabel).emit _).emit _).trans (follows_block no _)).emit _
  | .whileLoop e body _, b => by
    rw [stmt_whileLoop]
    exact ((((Follows.refl b).newLabel.newLabel.newLabel.emit _).emit _).trans
      (follows_turned _ (follows_block body) _)).trans (follows_lowered _ _)
  | .doLoop body e _, b => by
    rw [stmt_doLoop]
    exact (((Follows.refl b).newLabel.newLabel.newLabel.emit _).trans
      (follows_turned _ (follows_block body) _)).trans (follows_lowered _ _)
  | .forLoop initial e update body _, b => by
    rw [stmt_forLoop]
    have start : Follows b (stmts initial.toList b) := by
      cases initial with
      | none => exact Follows.refl b
      | some initial => exact follows_stmt initial b
    exact ((((start.newLabel.newLabel.newLabel.newLabel).emit _).emit _).trans
      (follows_turned _ (follows_block body) _)).trans (follows_lowered _ _)
  | .switch e cases fallback _, b => by
    have begun := (straight_expr e b).follows.newLabel.trans (follows_tests (expr e b).1 cases _)
    have inside : ∀ body ∈ fallback, ∀ b, Follows b (block body b) := by
      cases fallback with
      | none => exact fun _ member => nomatch member
      | some fallback => exact fun _ member => Option.some.inj member ▸ follows_block fallback
    rw [stmt_switch]
    exact ((((begun.trans (follows_otherwise fallback _ _)).emit _).pushBreak _).trans
      (follows_arms cases _ _ _) |>.trans (follows_lastArm_of fallback inside _ _)).popBreak.emit _
  | .giveBack value _, b => (straight_giveBack value b).follows
  | .leave _, b => (straight_leave b).follows
  | .print args _, b => (straight_print args b).follows
  | .evaluate e _, b => (straight_effect e b).follows
termination_by structural s => s

theorem follows_block : (body : Block) → (b : Builder) → Follows b (block body b)
  | ⟨body, _⟩, b => follows_stmts body b
termination_by structural body => body

theorem follows_stmts : (body : List Stmt) → (b : Builder) → Follows b (stmts body b)
  | [], b => Follows.refl b
  | s :: others, b => (follows_stmt s b).trans (follows_stmts others _)
termination_by structural body => body

theorem follows_arms : (cases : List Case) → (finish : Label) → (labels : List Label) →
    (b : Builder) → Follows b (arms finish labels cases b)
  | [], _, _, b => Follows.refl b
  | ⟨_, _, _⟩ :: _, _, [], b => Follows.refl b
  | ⟨_, body, _⟩ :: others, finish, _ :: labels, b =>
    ((((Follows.refl b).emit _).trans (follows_block body _)).emit _).trans
      (follows_arms others finish labels _)
termination_by structural cases => cases

end

theorem follows_lastArm (fallback : Option Block) (l : Label) (b : Builder) :
    Follows b (lastArm fallback l b) :=
  follows_lastArm_of fallback (fun body _ => follows_block body) l b

/-- The second builder places the labels that it has numbered beyond the first, and no others. -/
def Places (b c : Builder) : Prop :=
  ∀ index, c.placed index = b.placed index + if b.labels ≤ index ∧ index < c.labels then 1 else 0

theorem Straight.places {b c : Builder} (straight : Straight b c) : Places b c := by
  intro index
  have empty : ¬(b.labels ≤ index ∧ index < c.labels) := by
    rw [straight.labels]
    omega
  rw [straight.placed, if_neg empty, Nat.add_zero]

theorem Places.trans {b c d : Builder} (first : Places b c) (second : Places c d)
    (below : b.labels ≤ c.labels) (above : c.labels ≤ d.labels) : Places b d := by
  intro index
  rw [second, first]
  split_ifs <;> omega

theorem placed_turned (loop : Loop) (inside : ∀ b, Places b (block loop.body b)) (b : Builder) :
    Places b (loop.turned b) :=
  inside (b.pushBreak loop.finish)

theorem labels_advanced (loop : Loop) (b : Builder) :
    (loop.advanced b).labels = (loop.turned b).labels := by
  unfold Loop.advanced
  split
  · rfl
  · split
    · rfl
    · exact (straight_expr _ _).labels

theorem labels_lowered (loop : Loop) (b : Builder) :
    (loop.lowered b).labels = (loop.turned b).labels :=
  (straight_repeatWhile _ _ _).labels.trans (labels_advanced loop b)

theorem placed_advanced (loop : Loop) (b : Builder) (index : Nat) :
    (loop.advanced b).placed index =
      (loop.turned b).placed index + if loop.advance = some ⟨index⟩ then 1 else 0 := by
  unfold Loop.advanced
  cases loop.advance with
  | none => simp
  | some l =>
    cases loop.update with
    | none => simp
    | some e => simp [(straight_expr e _).placed]

theorem placed_lowered (loop : Loop) (b : Builder) (index : Nat) :
    (loop.lowered b).placed index =
      (loop.turned b).placed index + (if loop.advance = some ⟨index⟩ then 1 else 0) +
        (if loop.test = ⟨index⟩ then 1 else 0) + (if loop.finish = ⟨index⟩ then 1 else 0) := by
  simp [Loop.lowered, Loop.tested, (straight_repeatWhile _ _ _).placed, placed_advanced]

/-- A loop numbers labels of its own first, places its start, and then lowers its body. -/
theorem placed_whileLoop (e : Expr) (body : Block) (inside : ∀ b, Places b (block body b))
    (grown : ∀ b, Follows b (block body b)) (b c : Builder) (labels : c.labels = b.labels + 3)
    (same : ∀ index, c.placed index = b.placed index) :
    Places b ((whileLoop e body b.labels).lowered (c.emit (.label ⟨b.labels⟩))) := by
  intro index
  have turned := placed_turned (whileLoop e body b.labels) inside (c.emit (.label ⟨b.labels⟩)) index
  have above :=
    (follows_turned (whileLoop e body b.labels) grown (c.emit (.label ⟨b.labels⟩))).labels
  rw [placed_lowered, labels_lowered, turned]
  generalize ((whileLoop e body b.labels).turned (c.emit (.label ⟨b.labels⟩))).labels = top at *
  simp only [labels_emit, labels] at above
  simp only [placed_emit, labels_emit, labels, same, whileLoop, reduceCtorEq, if_false,
    Instruction.label.injEq, Label.mk.injEq]
  split_ifs <;> omega

theorem placed_forLoop (e update : Option Expr) (body : Block)
    (inside : ∀ b, Places b (block body b)) (grown : ∀ b, Follows b (block body b))
    (b c : Builder) (labels : c.labels = b.labels + 4)
    (same : ∀ index, c.placed index = b.placed index) :
    Places b ((forLoop e update body b.labels).lowered (c.emit (.label ⟨b.labels⟩))) := by
  intro index
  have turned :=
    placed_turned (forLoop e update body b.labels) inside (c.emit (.label ⟨b.labels⟩)) index
  have above :=
    (follows_turned (forLoop e update body b.labels) grown (c.emit (.label ⟨b.labels⟩))).labels
  rw [placed_lowered, labels_lowered, turned]
  generalize ((forLoop e update body b.labels).turned (c.emit (.label ⟨b.labels⟩))).labels = top
    at *
  simp only [labels_emit, labels] at above
  simp only [placed_emit, labels_emit, labels, same, forLoop, Instruction.label.injEq,
    Label.mk.injEq, Option.some.injEq]
  split_ifs <;> omega

theorem placed_head (name : String) (params : List String) (b : Builder) :
    Places b (head name params b) := by
  have listed (names : List String) (c : Builder) (index : Nat) :
      (names.foldl (fun b param => b.emit (.param param)) c).placed index = c.placed index ∧
        (names.foldl (fun b param => b.emit (.param param)) c).labels = c.labels := by
    induction names generalizing c with
    | nil => exact ⟨rfl, rfl⟩
    | cons first others ih => simpa using ih (c.emit (.param first))
  intro index
  obtain ⟨placed, labels⟩ :=
    listed params ((b.emit (.beginFunction name)).enterFunction params) index
  have empty : ¬(b.labels ≤ index ∧ index < (head name params b).labels) := by
    have same : (head name params b).labels = b.labels := labels
    omega
  rw [if_neg empty, Nat.add_zero]
  exact placed.trans ((placed_emit b _ index).trans (by simp))

theorem labels_foot (name : String) (value : Option Operand) (b : Builder) :
    (foot name value b).labels = b.labels := by
  have returned (returns : Bool) :
      (if returns = true then b else b.emit (.giveBack value)).labels = b.labels := by
    cases returns <;> rfl
  exact returned _

theorem placed_foot (name : String) (value : Option Operand) (b : Builder) (index : Nat) :
    (foot name value b).placed index = b.placed index := by
  have returned (returns : Bool) :
      (if returns = true then b else b.emit (.giveBack value)).placed index = b.placed index := by
    cases returns <;> simp
  refine (placed_emit _ _ index).trans ?_
  simp only [reduceCtorEq, if_false, Nat.add_zero]
  exact returned _

theorem tests_fst (subject : Operand) (cases : List Case) (b : Builder) :
    (tests subject cases b).1 = (List.range' b.labels cases.length).map Label.mk := by
  induction cases generalizing b with
  | nil => rfl
  | cons arm others ih =>
    have numbered := (straight_expr arm.value b).labels
    simp [tests, ih, numbered, List.range'_succ]

theorem labels_tests (subject : Operand) (cases : List Case) (b : Builder) :
    (tests subject cases b).2.labels = b.labels + cases.length := by
  induction cases generalizing b with
  | nil => rfl
  | cons arm others ih =>
    have numbered := (straight_expr arm.value b).labels
    simp [tests, ih, numbered]
    omega

theorem placed_tests (subject : Operand) (cases : List Case) (b : Builder) (index : Nat) :
    (tests subject cases b).2.placed index = b.placed index := by
  induction cases generalizing b with
  | nil => rfl
  | cons arm others ih => simp [tests, ih, (straight_expr arm.value b).placed]

theorem count_labels (n size index : Nat) :
    ((List.range' n size).map Label.mk).count ⟨index⟩ =
      if n ≤ index ∧ index < n + size then 1 else 0 := by
  induction size generalizing n with
  | zero =>
    have empty : ¬(n ≤ index ∧ index < n + 0) := by omega
    rw [if_neg empty]
    rfl
  | succ size ih =>
    rw [List.range'_succ, List.map_cons, List.count_cons, ih]
    simp only [beq_iff_eq, Label.mk.injEq]
    split_ifs <;> omega

theorem placed_function (name : String) (params : List String) (value : Option Operand)
    {body : Block} (inside : ∀ b, Places b (block body b)) (grown : ∀ b, Follows b (block body b))
    (b : Builder) : Places b (foot name value (block body (head name params b))) := by
  have whole := (placed_head name params b).trans (inside _) (follows_head name params b).labels
    (grown _).labels
  intro index
  rw [placed_foot, labels_foot]
  exact whole index

theorem placed_branch (e : Expr) {yes : Block} (span : Span)
    (inside : ∀ b, Places b (block yes b)) (grown : ∀ b, Follows b (block yes b)) (b : Builder) :
    Places b (stmt (.branch e yes none span) b) := by
  intro index
  have condition := straight_expr e b
  let c := (expr e b).2.newLabel.2.emit (.jumpIfFalse (expr e b).1 ⟨b.labels⟩)
  have above := (grown c).labels
  have numbered : c.labels = b.labels + 1 := by simp [c, condition.labels]
  have kept : c.placed index = b.placed index := by simp [c, condition.placed]
  have shape : stmt (.branch e yes none span) b = (block yes c).emit (.label ⟨b.labels⟩) := by
    simp only [stmt, newLabel_fst, condition.labels, c]
  rw [shape, placed_emit, labels_emit, inside, kept]
  simp only [Instruction.label.injEq, Label.mk.injEq]
  split_ifs <;> omega

theorem placed_branchElse (e : Expr) {yes no : Block} (span : Span)
    (inside : ∀ b, Places b (block yes b)) (grown : ∀ b, Follows b (block yes b))
    (second : ∀ b, Places b (block no b)) (larger : ∀ b, Follows b (block no b)) (b : Builder) :
    Places b (stmt (.branch e yes (some no) span) b) := by
  intro index
  have condition := straight_expr e b
  let c := (expr e b).2.newLabel.2.emit (.jumpIfFalse (expr e b).1 ⟨b.labels⟩)
  let d := ((block yes c).newLabel.2.emit (.jump ⟨(block yes c).labels⟩)).emit (.label ⟨b.labels⟩)
  have above := (grown c).labels
  have higher := (larger d).labels
  have numbered : c.labels = b.labels + 1 := by simp [c, condition.labels]
  have passed : d.labels = (block yes c).labels + 1 := by simp [d]
  have kept : c.placed index = b.placed index := by simp [c, condition.placed]
  have between : d.placed index =
      (block yes c).placed index + if b.labels = index then 1 else 0 := by simp [d]
  have shape : stmt (.branch e yes (some no) span) b =
      (block no d).emit (.label ⟨(block yes c).labels⟩) := by
    simp only [stmt, newLabel_fst, condition.labels, c, d]
  rw [shape, placed_emit, labels_emit, second, between, inside, kept]
  simp only [Instruction.label.injEq, Label.mk.injEq]
  generalize (block yes c).labels = middle at *
  generalize (block no d).labels = top at *
  grind -ring

/-- The arms of a switch place the labels they are given and those that they number. -/
def PlacesArms (cases : List Case) : Prop :=
  ∀ (finish : Label) (labels : List Label) (b : Builder), labels.length = cases.length →
    ∀ index, (arms finish labels cases b).placed index =
      b.placed index + labels.count ⟨index⟩ +
        if b.labels ≤ index ∧ index < (arms finish labels cases b).labels then 1 else 0

theorem labels_otherwise (fallback : Option Block) (finish : Label) (b : Builder) :
    (otherwise fallback finish b).2.labels = b.labels + if fallback.isSome then 1 else 0 := by
  cases fallback <;> rfl

theorem placed_lastArm {fallback : Option Block} (finish : Label) (b c : Builder)
    (inside : ∀ body ∈ fallback, ∀ b, Places b (block body b)) (index : Nat) :
    (lastArm fallback (otherwise fallback finish b).1 c).placed index =
      c.placed index + (if fallback.isSome ∧ b.labels = index then 1 else 0) +
        if c.labels ≤ index ∧
          index < (lastArm fallback (otherwise fallback finish b).1 c).labels then 1 else 0 := by
  cases fallback with
  | none =>
    have empty : ¬(c.labels ≤ index ∧ index < c.labels) := by omega
    simp [lastArm, empty]
  | some body =>
    have placed := inside body rfl (c.emit (.label ⟨b.labels⟩)) index
    rw [placed_emit, labels_emit] at placed
    simp only [Option.isSome_some, true_and, Instruction.label.injEq, Label.mk.injEq] at placed ⊢
    exact placed

theorem placed_switch (e : Expr) {cases : List Case} {fallback : Option Block} (span : Span)
    (chosen : PlacesArms cases) (grown : ∀ finish labels b, Follows b (arms finish labels cases b))
    (inside : ∀ body ∈ fallback, ∀ b, Places b (block body b))
    (larger : ∀ l b, Follows b (lastArm fallback l b)) (b : Builder) :
    Places b (stmt (.switch e cases fallback span) b) := by
  intro index
  have subject := straight_expr e b
  let c := tests (expr e b).1 cases (expr e b).2.newLabel.2
  have sized : c.1.length = cases.length := by simp [c, tests_fst]
  have numbered : c.2.labels = b.labels + 1 + cases.length := by
    simp [c, labels_tests, subject.labels]
  have counted : c.1.count ⟨index⟩ =
      if b.labels + 1 ≤ index ∧ index < b.labels + 1 + cases.length then 1 else 0 := by
    simp [c, tests_fst, subject.labels, count_labels]
  let l := otherwise fallback ⟨b.labels⟩ c.2
  let d := (l.2.emit (.jump l.1)).pushBreak ⟨b.labels⟩
  have kept : d.placed index = b.placed index := by
    cases fallback <;> simp [d, l, otherwise, c, placed_tests, subject.placed]
  have passed : d.labels = c.2.labels + if fallback.isSome then 1 else 0 :=
    labels_otherwise fallback ⟨b.labels⟩ c.2
  let last := arms ⟨b.labels⟩ c.1 cases d
  have above := (grown ⟨b.labels⟩ c.1 d).labels
  have higher := (larger l.1 last).labels
  have shape : stmt (.switch e cases fallback span) b =
      (lastArm fallback l.1 last).popBreak.emit (.label ⟨b.labels⟩) := by
    simp only [stmt_switch, newLabel_fst, subject.labels, c, l, d, last]
  have behind : (lastArm fallback l.1 last).placed index = _ :=
    placed_lastArm ⟨b.labels⟩ c.2 last inside index
  have before : last.placed index = _ := chosen ⟨b.labels⟩ c.1 d sized index
  rw [shape, placed_emit, labels_emit, placed_popBreak, labels_popBreak, behind, before, counted,
    kept]
  simp only [Instruction.label.injEq, Label.mk.injEq]
  generalize (lastArm fallback l.1 last).labels = top at *
  generalize last.labels = middle at *
  grind -ring

mutual

theorem placed_stmt : (s : Stmt) → (b : Builder) → Places b (stmt s b)
  | .variable _ name initial _, b => (straight_variableStatement name initial b).places
  | .prototype .., b | .inclusion .., b => (Straight.refl b).places
  | .enumeration .., b => fun index => (Straight.refl b).places index
  | .function _ name _ body _, b =>
    placed_function name _ _ (placed_block body) (follows_block body) b
  | .main body _, b => placed_function "main" [] _ (placed_block body) (follows_block body) b
  | .block body, b => placed_block body b
  | .branch e yes no span, b => by
    cases no with
    | none => exact placed_branch e span (placed_block yes) (follows_block yes) b
    | some no =>
      exact placed_branchElse e span (placed_block yes) (follows_block yes) (placed_block no)
        (follows_block no) b
  | .whileLoop e body _, b => by
    intro index
    rw [stmt_whileLoop]
    exact placed_whileLoop e body (placed_block body) (follows_block body) b
      (b.newLabel.2.newLabel.2.newLabel.2.emit (.jump ⟨b.labels + 1⟩)) rfl (fun _ => by simp) index
  | .doLoop body e _, b => by
    intro index
    rw [stmt_doLoop]
    exact placed_whileLoop e body (placed_block body) (follows_block body) b
      b.newLabel.2.newLabel.2.newLabel.2 rfl (fun _ => rfl) index
  | .forLoop initial e update body _, b => by
    have start : Places b (stmts initial.toList b) ∧ Follows b (stmts initial.toList b) := by
      cases initial with
      | none => exact ⟨(Straight.refl b).places, Follows.refl b⟩
      | some initial => exact ⟨placed_stmt initial b, follows_stmt initial b⟩
    rw [stmt_forLoop]
    generalize stmts initial.toList b = c at *
    let d := c.newLabel.2.newLabel.2.newLabel.2.newLabel.2.emit (.jump ⟨c.labels + 2⟩)
    refine start.1.trans ?_ start.2.labels ?_
    · exact placed_forLoop e update body (placed_block body) (follows_block body) c d rfl
        (fun _ => by simp [d])
    · have above := (follows_turned (forLoop e update body c.labels) (follows_block body)
        (d.emit (.label ⟨c.labels⟩))).labels
      have lowered := labels_lowered (forLoop e update body c.labels) (d.emit (.label ⟨c.labels⟩))
      have numbered : (d.emit (.label ⟨c.labels⟩)).labels = c.labels + 4 := rfl
      exact lowered ▸ (by omega)
  | .switch e cases fallback span, b => by
    refine placed_switch e span (placed_arms cases) (follows_arms cases) ?_
      (follows_lastArm fallback) b
    cases fallback with
    | none => exact fun _ member => nomatch member
    | some fallback => exact fun _ member => Option.some.inj member ▸ placed_block fallback
  | .giveBack value _, b => (straight_giveBack value b).places
  | .leave _, b => (straight_leave b).places
  | .print args _, b => (straight_print args b).places
  | .evaluate e _, b => (straight_effect e b).places
termination_by structural s => s

theorem placed_block : (body : Block) → (b : Builder) → Places b (block body b)
  | ⟨body, _⟩, b => placed_stmts body b
termination_by structural body => body

theorem placed_stmts : (body : List Stmt) → (b : Builder) → Places b (stmts body b)
  | [], b => (Straight.refl b).places
  | s :: others, b =>
    (placed_stmt s b).trans (placed_stmts others _) (follows_stmt s b).labels
      (follows_stmts others _).labels
termination_by structural body => body

theorem placed_arms : (cases : List Case) → PlacesArms cases
  | [], _, [], b, _, index => by
    have empty : ¬(b.labels ≤ index ∧ index < b.labels) := by omega
    simp [arms, empty]
  | ⟨_, body, _⟩ :: others, finish, l :: labels, b, same, index => by
    have first := placed_block body (b.emit (.label l)) index
    have grown := (follows_block body (b.emit (.label l))).labels
    have rest := placed_arms others finish labels
      ((block body (b.emit (.label l))).emit (.jump finish)) (Nat.succ.inj same) index
    have larger := (follows_arms others finish labels
      ((block body (b.emit (.label l))).emit (.jump finish))).labels
    simp only [arms, rest, placed_emit, first, labels_emit, List.count_cons, reduceCtorEq, if_false,
      Instruction.label.injEq, beq_iff_eq] at *
    grind -ring
termination_by structural cases => cases

end

end Lowering
end Curly
