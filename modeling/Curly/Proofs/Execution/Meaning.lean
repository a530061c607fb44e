import Curly.Decimal.Numeral
import Curly.Syntax
import Curly.Text.Quoted

/-! What expressions do to variables. A meaning is given to constants and operators as they are
spelled, and to calls, which act on a world of their own but on no variable. Variables live in an
environment that grows inside a scope and is cut back at its end. -/
namespace Curly

/-- Operators and calls may fail to give a value. -/
structure Meaning (Value World : Type) where
  constant : String → Value
  binary : String → Value → Value → Option Value
  unary : String → Value → Option Value
  truth : Value → Bool
  equal : Value → Value → Bool
  call : String → List Value → World → Option (Value × World)

/-- The variables in force, newest first. -/
abbrev Environment (Value : Type) : Type := List (String × Value)

namespace Environment

variable {Value : Type}

def names (env : Environment Value) : List String :=
  env.map Prod.fst

def update (name : String) (value : Value) : Environment Value → Environment Value
  | [] => []
  | (other, old) :: around =>
    if other = name then (other, value) :: around else (other, old) :: update name value around

/-- The environment at the end of a scope that began in `outer`. -/
def leave (outer inner : Environment Value) : Environment Value :=
  inner.drop (inner.length - outer.length)

@[simp] theorem names_nil : names ([] : Environment Value) = [] := rfl

@[simp] theorem names_cons (name : String) (value : Value) (env : Environment Value) :
    names ((name, value) :: env) = name :: names env := rfl

@[simp] theorem names_append (inner outer : Environment Value) :
    names (inner ++ outer) = names inner ++ names outer :=
  List.map_append ..

@[simp] theorem names_update (name : String) (value : Value) (env : Environment Value) :
    names (update name value env) = names env := by
  induction env with
  | nil => rfl
  | cons first around ih =>
    unfold update
    split <;> simp_all [names]

theorem lookup_update (name other : String) (value : Value) (env : Environment Value) :
    (update name value env).lookup other =
      if other = name then (env.lookup name).map fun _ => value else env.lookup other := by
  induction env with
  | nil => simp [update]
  | cons first around ih =>
    obtain ⟨here, old⟩ := first
    by_cases found : here = name
    · subst here
      by_cases same : other = name
      · simp [update, same]
      · simp [update, List.lookup_cons, beq_eq_false_iff_ne.mpr same, same]
    · by_cases same : other = here
      · subst other
        simp [update, found]
      · have away : (other == here) = false := beq_eq_false_iff_ne.mpr same
        have apart : (name == here) = false := beq_eq_false_iff_ne.mpr (Ne.symm found)
        simp only [update, if_neg found, List.lookup_cons, away, apart, ih]

/-- Names declared in a scope hide nothing of what is around it. -/
theorem lookup_append_of_apart (inner outer : Environment Value) (name : String) (value : Value)
    (apart : ∀ n ∈ names inner, n ∉ names outer) (found : outer.lookup name = some value) :
    (inner ++ outer).lookup name = some value := by
  induction inner with
  | nil => exact found
  | cons first inner ih =>
    obtain ⟨here, old⟩ := first
    have present : name ∈ names outer := by
      obtain ⟨before, behind, split, _⟩ := List.lookup_eq_some_iff.mp found
      simp [split, names]
    have different : name ≠ here := by
      intro same
      exact apart here (by simp) (same ▸ present)
    have rest := ih fun n member => apart n (by simp [member])
    simpa [List.lookup_cons, beq_eq_false_iff_ne.mpr different] using rest

theorem leave_append (start inner outer : Environment Value)
    (same : names outer = names start) : leave start (inner ++ outer) = outer := by
  have size : outer.length = start.length := by simpa [names] using congrArg List.length same
  simp [leave, size]

end Environment

structure Situation (Value World : Type) where
  vars : Environment Value
  world : World

namespace Situation

variable {Value World : Type}

def declare (s : Situation Value World) (name : String) (value : Value) : Situation Value World :=
  { s with vars := (name, value) :: s.vars }

/-- Gives a value to a variable in force; nothing else can be given one. -/
def assign? (s : Situation Value World) (target : Expr) (value : Value) :
    Option (Situation Value World) :=
  match target with
  | .symbol name =>
    if (s.vars.lookup name.name).isSome then
      some { s with vars := s.vars.update name.name value }
    else none
  | _ => none

def leave (outer inner : Situation Value World) : Situation Value World :=
  { inner with vars := outer.vars.leave inner.vars }

theorem assign?_eq_some (s after : Situation Value World) (target : Expr) (value : Value)
    (assigned : s.assign? target value = some after) :
    ∃ name old, target = .symbol name ∧ s.vars.lookup name.name = some old ∧
      after = { s with vars := s.vars.update name.name value } := by
  unfold assign? at assigned
  split at assigned
  case h_1 name =>
    split at assigned
    case isTrue visible =>
      obtain ⟨old, found⟩ := Option.isSome_iff_exists.mp visible
      exact ⟨name, old, rfl, found, (Option.some.inj assigned).symm⟩
    case isFalse => contradiction
  case h_2 => contradiction

end Situation

namespace Meaning

variable {Value World : Type} (m : Meaning Value World)

def whole (n : Int) : Value :=
  m.constant (toString n)

def stepOp : UnaryOp → BinaryOp
  | .decrement => .subtract
  | _ => .add

mutual

/-- The value of an expression and the situation behind it. Operands are evaluated from left to
right, all of them. -/
def eval : Expr → Situation Value World → Option (Value × Situation Value World)
  | .int value _, s => some (m.whole value, s)
  | .float value _, s => some (m.constant value.text, s)
  | .string value _, s => some (m.constant (Text.quotedString value), s)
  | .char value _, s => some (m.constant (Text.quotedCharacter value), s)
  | .bool value _, s => some (m.constant (if value then "true" else "false"), s)
  | .symbol name, s => (s.vars.lookup name.name).map (·, s)
  | .binary op left right _, s =>
    if op = .assign then do
      let (value, s) ← eval right s
      let s ← s.assign? left value
      return (value, s)
    else do
      let (first, s) ← eval left s
      let (second, s) ← eval right s
      let value ← m.binary op.spelling first second
      return (value, s)
  | .unary op operand side _, s => do
    let (value, s) ← eval operand s
    if op.isStep then
      let stepped ← m.binary (stepOp op).spelling value (m.whole 1)
      let s ← s.assign? operand stepped
      return (if side = .before then stepped else value, s)
    else
      let value ← m.unary op.spelling value
      return (value, s)
  | .call callee args _, s => do
    let (values, s) ← evals args s
    let (value, world) ← m.call callee.name values s.world
    return (value, { s with world })
termination_by structural e => e

def evals : List Expr → Situation Value World → Option (List Value × Situation Value World)
  | [], s => some ([], s)
  | e :: others, s => do
    let (value, s) ← eval e s
    let (values, s) ← evals others s
    return (value :: values, s)
termination_by structural es => es

end

mutual

theorem names_eval : (e : Expr) → (s : Situation Value World) → (value : Value) →
    (after : Situation Value World) → m.eval e s = some (value, after) →
    after.vars.names = s.vars.names
  | .int .., s, value, after | .float .., s, value, after | .string .., s, value, after
  | .char .., s, value, after | .bool .., s, value, after => by
    intro evaluated
    obtain ⟨-, rfl⟩ := Prod.mk.inj (Option.some.inj evaluated)
    rfl
  | .symbol name, s, value, after => by
    intro evaluated
    simp only [eval, Option.map_eq_some_iff, Prod.mk.injEq] at evaluated
    obtain ⟨_, -, -, rfl⟩ := evaluated
    rfl
  | .binary op left right _, s, value, after => by
    intro evaluated
    by_cases assignment : op = .assign
    · simp only [eval, if_pos assignment, Option.bind_eq_bind, Option.bind_eq_some_iff,
        Option.pure_def, Option.some.injEq, Prod.mk.injEq] at evaluated
      obtain ⟨⟨held, middle⟩, computed, changed, assigned, -, rfl⟩ := evaluated
      obtain ⟨name, old, -, -, rfl⟩ := middle.assign?_eq_some _ _ _ assigned
      rw [Environment.names_update]
      exact names_eval right s held middle computed
    · simp only [eval, if_neg assignment, Option.bind_eq_bind, Option.bind_eq_some_iff,
        Option.pure_def, Option.some.injEq, Prod.mk.injEq] at evaluated
      obtain ⟨⟨one, middle⟩, before, ⟨two, _⟩, behind, _, -, -, rfl⟩ := evaluated
      exact (names_eval right middle two _ behind).trans (names_eval left s one middle before)
  | .unary op operand _ _, s, value, after => by
    intro evaluated
    by_cases stepped : op.isStep
    · simp only [eval, if_pos stepped, Option.bind_eq_bind, Option.bind_eq_some_iff,
        Option.pure_def, Option.some.injEq, Prod.mk.injEq] at evaluated
      obtain ⟨⟨old, middle⟩, before, next, -, _, assigned, -, rfl⟩ := evaluated
      obtain ⟨name, old, -, -, rfl⟩ := middle.assign?_eq_some _ _ _ assigned
      rw [Environment.names_update]
      exact names_eval operand s _ middle before
    · simp only [eval, if_neg stepped, Option.bind_eq_bind, Option.bind_eq_some_iff,
        Option.pure_def, Option.some.injEq, Prod.mk.injEq] at evaluated
      obtain ⟨⟨one, _⟩, before, _, -, -, rfl⟩ := evaluated
      exact names_eval operand s one _ before
  | .call _ args _, s, value, after => by
    intro evaluated
    simp only [eval, Option.bind_eq_bind, Option.bind_eq_some_iff, Option.pure_def,
      Option.some.injEq, Prod.mk.injEq] at evaluated
    obtain ⟨⟨values, middle⟩, before, _, -, -, rfl⟩ := evaluated
    exact names_evals args s values middle before
termination_by structural e => e

theorem names_evals : (es : List Expr) → (s : Situation Value World) → (values : List Value) →
    (after : Situation Value World) → m.evals es s = some (values, after) →
    after.vars.names = s.vars.names
  | [], s, values, after => by
    intro evaluated
    obtain ⟨-, rfl⟩ := Prod.mk.inj (Option.some.inj evaluated)
    rfl
  | e :: others, s, values, after => by
    intro evaluated
    simp only [evals, Option.bind_eq_bind, Option.bind_eq_some_iff, Option.pure_def,
      Option.some.injEq, Prod.mk.injEq] at evaluated
    obtain ⟨⟨one, middle⟩, before, ⟨rest, _⟩, behind, -, rfl⟩ := evaluated
    exact (names_evals others middle rest _ behind).trans (names_eval e s one middle before)
termination_by structural es => es

end

/-- Whether a loop goes on: its condition holds, or it has none. -/
def test (condition : Option Expr) (s : Situation Value World) :
    Option (Bool × Situation Value World) :=
  match condition with
  | none => some (true, s)
  | some e => (m.eval e s).map fun (value, s) => (m.truth value, s)

/-- The effect of an expression, if there is one, whose value is not wanted. -/
def effect (e : Option Expr) (s : Situation Value World) : Option (Situation Value World) :=
  match e with
  | none => some s
  | some e => (m.eval e s).map Prod.snd

theorem names_test {condition : Option Expr} {s after : Situation Value World} {holds : Bool}
    (tested : m.test condition s = some (holds, after)) : after.vars.names = s.vars.names := by
  cases condition with
  | none =>
    obtain ⟨-, rfl⟩ := Prod.mk.inj (Option.some.inj tested)
    rfl
  | some e =>
    simp only [test, Option.map_eq_some_iff, Prod.mk.injEq] at tested
    obtain ⟨⟨value, _⟩, evaluated, -, rfl⟩ := tested
    exact m.names_eval e s value _ evaluated

theorem names_effect {e : Option Expr} {s after : Situation Value World}
    (done : m.effect e s = some after) : after.vars.names = s.vars.names := by
  cases e with
  | none =>
    obtain rfl := Option.some.inj done
    rfl
  | some e =>
    simp only [effect, Option.map_eq_some_iff] at done
    obtain ⟨⟨value, _⟩, evaluated, rfl⟩ := done
    exact m.names_eval e s value _ evaluated

end Meaning
end Curly
