import Curly.Code.Instruction
import Curly.Proofs.Execution.Structured
import Mathlib.Logic.Relation

/-! A machine for three-address code. Every source variable and every temporary holds a value, and
a jump leads to the first place of its label. What is run has no marks of functions in it. -/
namespace Curly

structure Memory (Value World : Type) where
  vars : String → Value
  temps : Nat → Value
  world : World

section

variable {Value World : Type}

namespace Memory

def read (m : Meaning Value World) (memory : Memory Value World) : Operand → Value
  | .temp index => memory.temps index
  | .variable name => memory.vars name
  | .constant spelling => m.constant spelling

/-- Puts a value into a temporary or a variable; a constant keeps its own. -/
def write (memory : Memory Value World) (target : Operand) (value : Value) : Memory Value World :=
  match target with
  | .temp index => { memory with temps := fun i => if i = index then value else memory.temps i }
  | .variable name => { memory with vars := fun n => if n = name then value else memory.vars n }
  | .constant _ => memory

@[simp] theorem write_world (memory : Memory Value World) (target : Operand) (value : Value) :
    (memory.write target value).world = memory.world := by
  cases target <;> rfl

@[simp] theorem write_temp_vars (memory : Memory Value World) (index : Nat) (value : Value) :
    (memory.write (.temp index) value).vars = memory.vars := rfl

@[simp] theorem write_variable_temps (memory : Memory Value World) (name : String)
    (value : Value) : (memory.write (.variable name) value).temps = memory.temps := rfl

theorem write_temp_temps (memory : Memory Value World) (index other : Nat) (value : Value) :
    (memory.write (.temp index) value).temps other =
      if other = index then value else memory.temps other := rfl

theorem write_variable_vars (memory : Memory Value World) (name other : String) (value : Value) :
    (memory.write (.variable name) value).vars other =
      if other = name then value else memory.vars other := rfl

/-- Every other operand is read as before. -/
theorem read_write_of_ne (m : Meaning Value World) (memory : Memory Value World)
    {target o : Operand} (other : o ≠ target) (value : Value) :
    (memory.write target value).read m o = memory.read m o := by
  cases target with
  | temp index =>
    cases o with
    | temp k => exact if_neg fun same => other (congrArg Operand.temp same)
    | _ => rfl
  | «variable» name =>
    cases o with
    | «variable» n => exact if_neg fun same => other (congrArg Operand.variable same)
    | _ => rfl
  | constant _ => rfl

end Memory

/-- Where an instruction leads: to the one behind it, to a label, or out of the code. -/
inductive Control (Value : Type) where
  | next
  | goto (target : Label)
  | halt (value : Option Value)

variable (m : Meaning Value World)

def Instruction.act (memory : Memory Value World) :
    Instruction → Option (Control Value × Memory Value World)
  | .assign target value => some (.next, memory.write target (memory.read m value))
  | .binary target op left right =>
    (m.binary op (memory.read m left) (memory.read m right)).map fun value =>
      (.next, memory.write target value)
  | .unary target op operand =>
    (m.unary op (memory.read m operand)).map fun value => (.next, memory.write target value)
  | .jumpIfFalse condition target =>
    some (if m.truth (memory.read m condition) then .next else .goto target, memory)
  | .jumpIfTrue condition target =>
    some (if m.truth (memory.read m condition) then .goto target else .next, memory)
  | .jumpIfEqual left right target =>
    some (if m.equal (memory.read m left) (memory.read m right) then .goto target else .next,
      memory)
  | .jump target => some (.goto target, memory)
  | .label _ => some (.next, memory)
  | .call target callee args =>
    (m.call callee (args.map (memory.read m)) memory.world).map fun (value, world) =>
      let memory := { memory with world }
      (.next, match target with
        | none => memory
        | some target => memory.write target value)
  | .giveBack value => some (.halt (value.map (memory.read m)), memory)
  | .beginFunction _ | .endFunction _ | .param _ => none

def labelPlace? (code : List Instruction) (l : Label) : Option Nat :=
  code.idxOf? (.label l)

def machineStep (code : List Instruction) (here : Nat × Memory Value World) :
    Option (Nat × Memory Value World) := do
  let i ← code[here.1]?
  let (control, memory) ← i.act m here.2
  match control with
  | .next => return (here.1 + 1, memory)
  | .goto target => (labelPlace? code target).map (·, memory)
  | .halt _ => none

def Steps (code : List Instruction) :
    Nat × Memory Value World → Nat × Memory Value World → Prop :=
  Relation.ReflTransGen fun here there => machineStep m code here = some there

/-- A whole run: to the end of the code, or to a return. -/
inductive Runs (code : List Instruction) :
    Nat × Memory Value World → Ending Value → Memory Value World → Prop
  | finish (memory) : Runs code (code.length, memory) .done memory
  | halt (place memory i value after) (here : code[place]? = some i)
      (acted : i.act m memory = some (.halt value, after)) :
      Runs code (place, memory) (.gaveBack value) after
  | step (here there ending after) (stepped : machineStep m code here = some there)
      (rest : Runs code there ending after) : Runs code here ending after

variable {m} {code : List Instruction}

theorem machineStep_next {place : Nat} {i : Instruction} {memory after : Memory Value World}
    (here : code[place]? = some i) (acted : i.act m memory = some (.next, after)) :
    machineStep m code (place, memory) = some (place + 1, after) := by
  simp [machineStep, here, acted]

theorem machineStep_goto {place there : Nat} {i : Instruction} {l : Label}
    {memory after : Memory Value World} (here : code[place]? = some i)
    (acted : i.act m memory = some (.goto l, after)) (found : labelPlace? code l = some there) :
    machineStep m code (place, memory) = some (there, after) := by
  simp [machineStep, here, acted, found]

theorem machineStep_halt {place : Nat} {i : Instruction} {value : Option Value}
    {memory after : Memory Value World} (here : code[place]? = some i)
    (acted : i.act m memory = some (.halt value, after)) :
    machineStep m code (place, memory) = none := by
  simp [machineStep, here, acted]

theorem Steps.next {place : Nat} {i : Instruction} {memory after : Memory Value World}
    (here : code[place]? = some i) (acted : i.act m memory = some (.next, after)) :
    Steps m code (place, memory) (place + 1, after) :=
  .single (machineStep_next here acted)

theorem Steps.goto {place there : Nat} {i : Instruction} {l : Label}
    {memory after : Memory Value World} (here : code[place]? = some i)
    (acted : i.act m memory = some (.goto l, after)) (found : labelPlace? code l = some there) :
    Steps m code (place, memory) (there, after) :=
  .single (machineStep_goto here acted found)

theorem Steps.runs {here there : Nat × Memory Value World} {ending : Ending Value}
    {after : Memory Value World} (steps : Steps m code here there)
    (rest : Runs m code there ending after) : Runs m code here ending after := by
  induction steps using Relation.ReflTransGen.head_induction_on with
  | refl => exact rest
  | head first _ ih => exact .step _ _ _ _ first ih

/-- A machine has no choice, so it ends in one way only. -/
theorem Runs.unique {here : Nat × Memory Value World} {first second : Ending Value}
    {after other : Memory Value World} (run : Runs m code here first after)
    (again : Runs m code here second other) : first = second ∧ after = other := by
  induction run with
  | finish memory =>
    cases again with
    | finish => exact ⟨rfl, rfl⟩
    | halt _ _ _ _ _ here => simp at here
    | step _ _ _ _ stepped => simp [machineStep] at stepped
  | halt place memory i value after here acted =>
    cases again with
    | finish => simp at here
    | halt _ _ _ _ _ there decided =>
      obtain rfl := Option.some.inj (here.symm.trans there)
      obtain ⟨same, rfl⟩ := Prod.mk.inj (Option.some.inj (acted.symm.trans decided))
      exact ⟨congrArg Ending.gaveBack (Control.halt.inj same), rfl⟩
    | step _ _ _ _ stepped => simp [machineStep_halt here acted] at stepped
  | step here there ending after stepped _ ih =>
    cases again with
    | finish => simp [machineStep] at stepped
    | halt _ _ _ _ _ there decided => simp [machineStep_halt there decided] at stepped
    | step _ _ _ _ other rest =>
      obtain rfl := Option.some.inj (stepped.symm.trans other)
      exact ih rest

/-- A label that stands once in the code is found where it stands. -/
theorem labelPlace?_of_once {place : Nat} {l : Label} (once : code.count (.label l) ≤ 1)
    (here : code[place]? = some (.label l)) : labelPlace? code l = some place := by
  obtain ⟨bound, found⟩ := List.getElem?_eq_some_iff.mp here
  have split : code = code.take place ++ .label l :: code.drop (place + 1) := by
    rw [← found, List.getElem_cons_drop, List.take_append_drop]
  have absent : Instruction.label l ∉ code.take place := by
    intro member
    have before := List.count_pos_iff.mpr member
    rw [split, List.count_append, List.count_cons_self] at once
    omega
  rw [labelPlace?, List.idxOf?_eq_some_iff]
  refine ⟨bound, found, ?_⟩
  intro j before same
  exact absent (List.mem_take_iff_getElem.mpr ⟨j, by omega, same⟩)

end
end Curly
