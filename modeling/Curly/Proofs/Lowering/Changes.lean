import Curly.Proofs.Execution.Machine
import Curly.Proofs.Lowering.Stores

/-! Which variable holds the value of an expression, and which variables the evaluation of an
expression changes. Both are found without the code, and the code bears them out. What no
instruction changes is as it was behind them. -/
namespace Curly

/-- The name of a variable. -/
def Operand.name? : Operand → Option String
  | .variable name => some name
  | .temp _ | .constant _ => none

/-- The variables that an instruction changes: one that it assigns and, if it is a call, those that
the function with that name changes. -/
def Instruction.changes (called : String → List String) (i : Instruction) : List String :=
  (match i with
    | .call _ callee _ => called callee
    | _ => []) ++ (i.target?.bind Operand.name?).toList

namespace Instruction

variable {called : String → List String} {code : List Instruction} {i : Instruction} {o : Operand}

/-- Without calls that change something, an instruction changes what it assigns. -/
theorem mem_changes_iff {name : String} :
    name ∈ i.changes (fun _ => []) ↔ i.target? = some (.variable name) := by
  have target : (i.target?.bind Operand.name?) = some name ↔ i.target? = some (.variable name) := by
    rcases i.target? with _ | ⟨_ | _ | _⟩ <;> simp [Operand.name?]
  unfold changes
  rw [List.mem_append, Option.mem_toList, target]
  cases i <;> exact or_iff_right List.not_mem_nil

/-- Whether an instruction can give an operand another value. -/
def Touches (called : String → List String) (i : Instruction) : Operand → Prop
  | .variable name => name ∈ i.changes called
  | .temp k => i.assigns k
  | .constant _ => False

theorem touches_of_target (target : i.target? = some o)
    (held : ∀ spelling, o ≠ .constant spelling) : i.Touches called o := by
  cases o with
  | «variable» name => exact List.mem_append_right _ (by simp [target, Operand.name?])
  | temp k => simp [Touches, assigns, target]
  | constant spelling => exact absurd rfl (held spelling)

/-- An execution of instructions one behind the other, as the values of the operands before it and
behind it. Whatever else the instructions do, they touch no operands but their own. -/
inductive Executes {Value : Type} (called : String → List String) :
    List Instruction → (Operand → Value) → (Operand → Value) → Prop
  | nil (values) : Executes called [] values values
  | cons {i code before between after} (others : ∀ o, ¬i.Touches called o → between o = before o)
      (rest : Executes called code between after) : Executes called (i :: code) before after

theorem Executes.kept {Value : Type} {before after : Operand → Value}
    (executes : Executes called code before after) (untouched : ∀ i ∈ code, ¬i.Touches called o) :
    after o = before o := by
  induction executes with
  | nil => rfl
  | cons others _ ih =>
    obtain ⟨first, rest⟩ := List.forall_mem_cons.mp untouched
    rw [ih rest, others o first]

theorem read_write_of_untouched {Value World : Type} (m : Meaning Value World)
    (memory : Memory Value World) {target : Operand} (value : Value) (own : i.target? = some target)
    (untouched : ¬i.Touches called o) : (memory.write target value).read m o = memory.read m o := by
  by_cases same : o = target
  · obtain rfl := same
    cases o with
    | constant _ => rfl
    | «variable» _ | temp _ => exact absurd (touches_of_target own nofun) untouched
  · exact memory.read_write_of_ne m same value

/-- An instruction of the machine, whose calls change no variable. -/
theorem read_of_act {Value World : Type} {m : Meaning Value World}
    {memory after : Memory Value World} {control : Control Value}
    (acted : i.act m memory = some (control, after)) (untouched : ¬i.Touches called o) :
    after.read m o = memory.read m o := by
  cases i with
  | assign target value =>
    obtain ⟨-, rfl⟩ := Prod.mk.inj (Option.some.inj acted)
    exact read_write_of_untouched m memory _ rfl untouched
  | binary target | unary target =>
    obtain ⟨value, -, made⟩ := Option.map_eq_some_iff.mp acted
    obtain ⟨-, rfl⟩ := Prod.mk.inj made
    exact read_write_of_untouched m memory value rfl untouched
  | call target callee args =>
    obtain ⟨⟨value, world⟩, -, made⟩ := Option.map_eq_some_iff.mp acted
    obtain ⟨-, rfl⟩ := Prod.mk.inj made
    have outside : ({ memory with world } : Memory Value World).read m o = memory.read m o := by
      cases o <;> rfl
    cases target with
    | none => exact outside
    | some target => exact (read_write_of_untouched m _ value rfl untouched).trans outside
  | jumpIfFalse | jumpIfTrue | jumpIfEqual | jump | label | giveBack =>
    obtain ⟨-, rfl⟩ := Prod.mk.inj (Option.some.inj acted)
    rfl
  | beginFunction | endFunction | param => cases acted

/-- The machine executes instructions so. -/
theorem Executes.act {Value World : Type} {m : Meaning Value World} {memory : Memory Value World}
    {next : Memory Value World} {control : Control Value} {after : Operand → Value}
    (acted : i.act m memory = some (control, next))
    (rest : Executes called code (next.read m) after) :
    Executes called (i :: code) (memory.read m) after :=
  .cons (fun _ => read_of_act acted) rest

end Instruction

/-- Whether a name is lowered to a variable. -/
def Builder.varies (b : Builder) (name : String) : Bool :=
  (b.ordinal? name).isNone

namespace Expr

/-- The variable that holds the value of an expression, unless a temporary does. -/
def holding? (varies : String → Bool) : Expr → Option String
  | .symbol name => if varies name.name then some name.name else none
  | .binary op target value _ =>
    if op = .assign then
      match target with
      | .symbol name => some name.name
      | _ => value.holding? varies
    else none
  | .unary op operand side _ =>
    if op.isStep ∧ side = .before then operand.holding? varies else none
  | .int .. | .float .. | .string .. | .char .. | .bool .. | .call .. => none
termination_by structural e => e

end Expr

section

variable (varies : String → Bool) (called : String → List String)

mutual

/-- The variables that the evaluation of an expression changes, in this order. -/
def Expr.alters : Expr → List String
  | .binary op left right _ =>
    if op = .assign then right.alters ++ left.targets else left.alters ++ right.alters
  | .unary op operand _ _ =>
    operand.alters ++ if op.isStep then (operand.holding? varies).toList else []
  | .call callee args _ => altersIn args ++ called callee.name
  | .int .. | .float .. | .string .. | .char .. | .bool .. | .symbol _ => []
termination_by structural e => e

def altersIn : List Expr → List String
  | [] => []
  | e :: others => e.alters ++ altersIn others
termination_by structural es => es

end

theorem altersIn_append (first second : List Expr) : altersIn varies called (first ++ second) =
    altersIn varies called first ++ altersIn varies called second := by
  induction first with
  | nil => rfl
  | cons e others ih => rw [List.cons_append, altersIn, altersIn, ih, List.append_assoc]

end

namespace Lowering

open Builder

/-- What the instructions from one builder to another one change. -/
def changesBetween (called : String → List String) (b c : Builder) : List String :=
  (b.since c).flatMap (Instruction.changes called)

section

variable {b c d : Builder} (called : String → List String)

theorem Straight.varies (straight : Straight b c) : c.varies = b.varies := by
  funext name
  rw [Builder.varies, Builder.varies, straight.alike.ordinal? name]

@[simp] theorem changesBetween_self (b : Builder) : changesBetween called b b = [] := by
  simp [changesBetween]

theorem changesBetween_trans (first : Follows b c) (second : Follows c d) :
    changesBetween called b d = changesBetween called b c ++ changesBetween called c d := by
  rw [changesBetween, since_trans first second, List.flatMap_append]
  rfl

theorem changesBetween_emit (i : Instruction) (b : Builder) :
    changesBetween called b (b.emit i) = i.changes called := by
  simp [changesBetween, since_emit (Follows.refl b)]

theorem follows_intoTemp (instruction : Operand → Instruction) (b : Builder) :
    Follows b (intoTemp instruction b).2 :=
  (Follows.refl b).newTemp.emit _

theorem changesBetween_intoTemp (instruction : Operand → Instruction) (b : Builder) :
    changesBetween called b (intoTemp instruction b).2 =
      (instruction (.temp b.temps)).changes called := by
  simp [changesBetween, since_intoTemp]

theorem changesBetween_store (target : Expr) (value : Operand) (b : Builder) :
    changesBetween called b (store target value b).2 = target.targets := by
  cases target with
  | symbol name => exact changesBetween_emit called _ b
  | _ => exact changesBetween_self called b

theorem changesBetween_before (op : UnaryOp) (operand : Operand) (b : Builder) :
    changesBetween called b (step op .before operand b).2 = operand.name?.toList := by
  have quiet := changesBetween_intoTemp called
    (.binary · (stepSpelling op) operand (intOperand 1)) b
  rw [step_before]
  cases operand with
  | «variable» name =>
    simp only [Operand.isVariable, if_true]
    rw [changesBetween_trans called (follows_intoTemp ..) ((Follows.refl _).emit _), quiet,
      changesBetween_emit]
    rfl
  | _ => exact quiet

theorem changesBetween_step (op : UnaryOp) (side : Side) (operand : Operand) (b : Builder) :
    changesBetween called b (step op side operand b).2 = operand.name?.toList := by
  cases side with
  | before => exact changesBetween_before called op operand b
  | behind =>
    rw [step_behind]
    dsimp only
    have updated := straight_step op .before operand (intoTemp (.assign · operand) b).2
    rw [changesBetween_trans called (follows_intoTemp ..) updated.follows,
      changesBetween_intoTemp, changesBetween_before]
    rfl

theorem name?_store (target : Expr) (value : Operand) (b : Builder) :
    (store target value b).1.name? = match target with
      | .symbol name => some name.name
      | _ => value.name? := by
  cases target <;> rfl

theorem name?_step (op : UnaryOp) (side : Side) (operand : Operand) (b : Builder) :
    (step op side operand b).1.name? = if side = .before then operand.name? else none := by
  cases side with
  | before => cases operand <;> rfl
  | behind => rfl

end

/-- The operand is a variable just if one holds the value. -/
theorem name?_expr : (e : Expr) → (b : Builder) → (expr e b).1.name? = e.holding? b.varies
  | .int .., _ | .float .., _ | .string .., _ | .char .., _ | .bool .., _ | .call .., _ => rfl
  | .symbol name, b => by
    rw [expr, nameOperand, Expr.holding?, Builder.varies]
    cases b.ordinal? name.name <;> rfl
  | .binary op target value _, b => by
    by_cases assigns : op = .assign
    · simp only [expr, Expr.holding?, if_pos assigns]
      rw [name?_store, name?_expr value b]
    · simp only [expr, Expr.holding?, if_neg assigns]
      rfl
  | .unary op operand side _, b => by
    cases steps : op.isStep with
    | true =>
      simp only [expr, Expr.holding?, steps, if_true, true_and]
      rw [name?_step, name?_expr operand b]
    | false => simp [expr, Expr.holding?, steps, intoTemp, newTemp, Operand.name?]
termination_by structural e => e

section

variable (called : String → List String)

mutual

theorem changes_expr : (e : Expr) → (b : Builder) →
    changesBetween called b (expr e b).2 = e.alters b.varies called
  | .int .., b | .float .., b | .string .., b | .char .., b | .bool .., b | .symbol _, b =>
    changesBetween_self called b
  | .binary op left right _, b => by
    -- The first operand declares nothing, so the same names are variables for the second one.
    by_cases assigns : op = .assign
    · have first := straight_expr right b
      simp only [expr, Expr.alters, if_pos assigns]
      rw [changesBetween_trans called first.follows (straight_store left _ _).follows,
        changes_expr right b, changesBetween_store]
    · have first := straight_expr left b
      have second := straight_expr right (expr left b).2
      simp only [expr, Expr.alters, if_neg assigns]
      rw [changesBetween_trans called (first.follows.trans second.follows) (follows_intoTemp ..),
        changesBetween_trans called first.follows second.follows, changes_expr left b,
        changes_expr right _, first.varies, changesBetween_intoTemp]
      exact List.append_nil _
  | .unary op operand side _, b => by
    have first := straight_expr operand b
    cases steps : op.isStep with
    | true =>
      simp only [expr, Expr.alters, steps, if_true]
      rw [changesBetween_trans called first.follows (straight_step op side _ _).follows,
        changes_expr operand b, changesBetween_step, name?_expr]
    | false =>
      simp only [expr, Expr.alters, steps, Bool.false_eq_true, if_false]
      rw [changesBetween_trans called first.follows (follows_intoTemp ..),
        changes_expr operand b, changesBetween_intoTemp]
      rfl
  | .call callee args _, b => by
    simp only [expr, Expr.alters]
    rw [changesBetween_trans called (straight_exprs args b).follows (follows_intoTemp ..),
      changes_exprs args b, changesBetween_intoTemp]
    simp [Instruction.changes, Instruction.target?, Operand.name?]
termination_by structural e => e

theorem changes_exprs : (es : List Expr) → (b : Builder) →
    changesBetween called b (exprs es b).2 = altersIn b.varies called es
  | [], b => changesBetween_self called b
  | e :: others, b => by
    have first := straight_expr e b
    simp only [exprs, altersIn]
    rw [changesBetween_trans called first.follows (straight_exprs others _).follows,
      changes_expr e b, changes_exprs others _, first.varies]
termination_by structural es => es

end

end
end Lowering
end Curly
