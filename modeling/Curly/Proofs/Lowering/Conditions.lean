import Curly.Proofs.Lowering.Growth

/-! Plain statements, in which no operand is changed between its evaluation and its use. Lowering
them leaves the meaning of names and breaks as it is. -/
namespace Curly

/-- The variable that stands for the value of an expression, if it is not put anywhere else. -/
def Expr.holder? : Expr → Option String
  | .symbol name => some name.name
  | .binary op target _ _ => if op = .assign then target.symbol?.map Identifier.name else none
  | .unary op target side _ =>
    if op.isStep && side = .before then target.symbol?.map Identifier.name else none
  | _ => none

def Expr.targets (target : Expr) : List String :=
  (target.symbol?.map Identifier.name).toList

mutual

def Expr.changed : Expr → List String
  | .binary op left right _ =>
    (if op = .assign then left.targets else []) ++ left.changed ++ right.changed
  | .unary op operand _ _ => (if op.isStep then operand.targets else []) ++ operand.changed
  | .call _ args _ => changedBy args
  | _ => []
termination_by structural e => e

def changedBy : List Expr → List String
  | [] => []
  | e :: others => e.changed ++ changedBy others
termination_by structural es => es

end

/-- Whether the value of an expression is still there behind others. -/
def Expr.outlasts (e : Expr) (others : List Expr) : Bool :=
  e.holder?.all fun name => !(changedBy others).contains name

mutual

/-- Whether every operand and argument in an expression outlasts those behind it. -/
def Expr.steady : Expr → Bool
  | .binary op left right _ =>
    left.steady && right.steady && (op = .assign || left.outlasts [right])
  | .unary _ operand _ _ => operand.steady
  | .call _ args _ => allSteady args
  | _ => true
termination_by structural e => e

def allSteady : List Expr → Bool
  | [] => true
  | e :: others => e.steady && e.outlasts others && allSteady others
termination_by structural es => es

end

mutual

def Expr.names : Expr → List String
  | .symbol name => [name.name]
  | .binary _ left right _ => left.names ++ right.names
  | .unary _ operand _ _ => operand.names
  | .call _ args _ => namesIn args
  | _ => []
termination_by structural e => e

def namesIn : List Expr → List String
  | [] => []
  | e :: others => e.names ++ namesIn others
termination_by structural es => es

end

section

-- Whether a name stands for a variable.
variable (ordinary : String → Bool)

def Expr.plain (e : Expr) : Bool :=
  e.steady && e.names.all ordinary

def allPlain (es : List Expr) : Bool :=
  allSteady es && (namesIn es).all ordinary

mutual

/-- Whether a statement declares, evaluates, prints or directs, and its expressions are plain. The
subject of a switch outlasts the values of the arms. -/
def Stmt.plain : Stmt → Bool
  | .variable _ _ initial _ => initial.all (Expr.plain ordinary)
  | .block body => body.plain
  | .branch e yes no _ =>
    e.plain ordinary && yes.plain &&
      match no with
      | none => true
      | some no => no.plain
  | .whileLoop e body _ => e.plain ordinary && body.plain
  | .doLoop body e _ => body.plain && e.plain ordinary
  | .forLoop initial e update body _ =>
    (match initial with
      | none => true
      | some initial => initial.plain) &&
      e.all (Expr.plain ordinary) && update.all (Expr.plain ordinary) && body.plain
  | .switch e cases fallback _ =>
    e.plain ordinary && e.outlasts (cases.map Case.value) && armsPlain cases &&
      match fallback with
      | none => true
      | some fallback => fallback.plain
  | .giveBack value _ => value.all (Expr.plain ordinary)
  | .leave _ => true
  | .print args _ => allPlain ordinary args
  | .evaluate e _ => e.plain ordinary
  | .prototype .. | .function .. | .main .. | .enumeration .. | .inclusion .. => false
termination_by structural s => s

def Block.plain : Block → Bool
  | ⟨body, _⟩ => bodyPlain body
termination_by structural body => body

def bodyPlain : List Stmt → Bool
  | [] => true
  | s :: others => s.plain && bodyPlain others
termination_by structural body => body

def armsPlain : List Case → Bool
  | [] => true
  | ⟨value, body, _⟩ :: others => value.plain ordinary && body.plain && armsPlain others
termination_by structural cases => cases

end

end

namespace Lowering

/-- Names and breaks mean the same in both builders. -/
structure Alike (b c : Builder) : Prop where
  breaks : c.breaks = b.breaks
  ordinals : c.ordinals = b.ordinals
  params : c.params = b.params

namespace Alike

variable {b c d : Builder}

theorem refl (b : Builder) : Alike b b :=
  ⟨rfl, rfl, rfl⟩

theorem trans (first : Alike b c) (second : Alike c d) : Alike b d :=
  ⟨second.breaks.trans first.breaks, second.ordinals.trans first.ordinals,
    second.params.trans first.params⟩

theorem emit (before : Alike b c) (i : Instruction) : Alike b (c.emit i) :=
  before.trans ⟨rfl, rfl, rfl⟩

theorem newLabel (before : Alike b c) : Alike b c.newLabel.2 :=
  before.trans ⟨rfl, rfl, rfl⟩

/-- What is lowered inside a loop or switch leaves no trace of the way out of it. -/
theorem inside {l : Label} (before : Alike b c) (within : Alike (c.pushBreak l) d) :
    Alike b d.popBreak := by
  refine before.trans ⟨?_, within.ordinals, within.params⟩
  simp [Builder.popBreak, within.breaks, Builder.pushBreak]

theorem ordinal? (alike : Alike b c) (name : String) : c.ordinal? name = b.ordinal? name := by
  simp only [Builder.ordinal?, alike.ordinals, alike.params]

end Alike

theorem nameOperand_of_none {name : String} {b : Builder} (ordinary : b.ordinal? name = none) :
    nameOperand name b = .variable name := by
  rw [nameOperand, ordinary]

theorem Straight.alike {b c : Builder} (straight : Straight b c) : Alike b c :=
  ⟨straight.breaks, straight.ordinals, straight.params⟩

theorem alike_tests (subject : Operand) (cases : List Case) (b : Builder) :
    Alike b (tests subject cases b).2 := by
  induction cases generalizing b with
  | nil => exact Alike.refl b
  | cons arm others ih =>
    exact ((straight_expr arm.value b).alike.newLabel.emit _).trans (ih _)

theorem alike_turned (loop : Loop) (inside : ∀ b, Alike b (block loop.body b)) (b : Builder) :
    Alike b (loop.turned b) :=
  (Alike.refl b).inside (inside _)

theorem alike_advanced (loop : Loop) (b : Builder) : Alike (loop.turned b) (loop.advanced b) := by
  unfold Loop.advanced
  split
  · exact Alike.refl _
  · split
    · exact (Alike.refl _).emit _
    · exact ((Alike.refl _).emit _).trans (straight_expr _ _).alike

theorem alike_lowered (loop : Loop) (inside : ∀ b, Alike b (block loop.body b)) (b : Builder) :
    Alike b (loop.lowered b) :=
  (((alike_turned loop inside b).trans (alike_advanced loop b)).emit _).trans
    (straight_repeatWhile _ _ _).alike |>.emit _

section

variable {ordinary : String → Bool}

mutual

theorem alike_stmt : (s : Stmt) → s.plain ordinary → (b : Builder) → Alike b (stmt s b)
  | .variable _ name initial _, _, b => (straight_variableStatement name initial b).alike
  | .block body, plain, b => alike_block body plain b
  | .branch e yes none _, plain, b => by
    simp only [Stmt.plain, Bool.and_eq_true] at plain
    exact (((straight_expr e b).alike.newLabel.emit _).trans (alike_block yes plain.1.2 _)).emit _
  | .branch e yes (some no) _, plain, b => by
    simp only [Stmt.plain, Bool.and_eq_true] at plain
    exact ((((((straight_expr e b).alike.newLabel.emit _).trans
      (alike_block yes plain.1.2 _)).newLabel.emit _).emit _).trans
        (alike_block no plain.2 _)).emit _
  | .whileLoop e body _, plain, b => by
    simp only [Stmt.plain, Bool.and_eq_true] at plain
    rw [stmt_whileLoop]
    exact (((Alike.refl b).newLabel.newLabel.newLabel.emit _).emit _).trans
      (alike_lowered _ (alike_block body plain.2) _)
  | .doLoop body e _, plain, b => by
    simp only [Stmt.plain, Bool.and_eq_true] at plain
    rw [stmt_doLoop]
    exact ((Alike.refl b).newLabel.newLabel.newLabel.emit _).trans
      (alike_lowered _ (alike_block body plain.1) _)
  | .forLoop none e update body _, plain, b => by
    simp only [Stmt.plain, Bool.and_eq_true] at plain
    rw [stmt_forLoop]
    exact (((Alike.refl b).newLabel.newLabel.newLabel.newLabel.emit _).emit _).trans
      (alike_lowered _ (alike_block body plain.2) _)
  | .forLoop (some initial) e update body _, plain, b => by
    simp only [Stmt.plain, Bool.and_eq_true] at plain
    rw [stmt_forLoop]
    exact (((alike_stmt initial plain.1.1.1 b).newLabel.newLabel.newLabel.newLabel.emit _).emit
      _).trans (alike_lowered _ (alike_block body plain.2) _)
  | .switch e cases none _, plain, b => by
    simp only [Stmt.plain, Bool.and_eq_true] at plain
    have tested := (straight_expr e b).alike.newLabel.trans (alike_tests (expr e b).1 cases _)
    exact ((tested.emit _).inside (alike_arms cases plain.1.2 _ _ _)).emit _
  | .switch e cases (some fallback) _, plain, b => by
    simp only [Stmt.plain, Bool.and_eq_true] at plain
    have tested := (straight_expr e b).alike.newLabel.trans (alike_tests (expr e b).1 cases _)
    exact ((tested.newLabel.emit _).inside (((alike_arms cases plain.1.2 _ _ _).emit _).trans
      (alike_block fallback plain.2 _))).emit _
  | .giveBack value _, _, b => (straight_giveBack value b).alike
  | .leave _, _, b => (straight_leave b).alike
  | .print args _, _, b => (straight_print args b).alike
  | .evaluate e _, _, b => (straight_effect e b).alike
termination_by structural s => s

theorem alike_block : (body : Block) → body.plain ordinary → (b : Builder) → Alike b (block body b)
  | ⟨body, _⟩, plain, b => alike_stmts body plain b
termination_by structural body => body

theorem alike_stmts : (body : List Stmt) → bodyPlain ordinary body → (b : Builder) →
    Alike b (stmts body b)
  | [], _, b => Alike.refl b
  | s :: others, plain, b => by
    simp only [bodyPlain, Bool.and_eq_true] at plain
    exact (alike_stmt s plain.1 b).trans (alike_stmts others plain.2 _)
termination_by structural body => body

theorem alike_arms : (cases : List Case) → armsPlain ordinary cases → (finish : Label) →
    (labels : List Label) → (b : Builder) → Alike b (arms finish labels cases b)
  | [], _, _, _, b => Alike.refl b
  | ⟨_, _, _⟩ :: _, _, _, [], b => Alike.refl b
  | ⟨_, body, _⟩ :: others, plain, finish, _ :: labels, b => by
    simp only [armsPlain, Bool.and_eq_true] at plain
    exact ((((Alike.refl b).emit _).trans (alike_block body plain.1.2 _)).emit _).trans
      (alike_arms others plain.2 finish labels _)
termination_by structural cases => cases

end

end
end Lowering
end Curly
