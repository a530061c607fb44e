import Curly.Proofs.Execution.Machine
import Curly.Proofs.Lowering.Conditions

/-! The code of an expression computes its value: it runs to its end, leaves the value where the
operand says, changes the variables that the expression changes, and keeps what is in use. -/
namespace Curly

/-- What lies behind `front` in the builder is the beginning of the code. -/
structure Builder.Stands (front code : List Instruction) (b : Builder) : Prop where
  above : front.length ≤ b.code.size
  written : b.code.toList <+: front ++ code

/-- The place in the code that comes next in the builder. -/
def Builder.place (front : List Instruction) (b : Builder) : Nat :=
  b.code.size - front.length

namespace Builder.Stands

variable {front code : List Instruction} {b c d : Builder}

/-- What comes between two builders stands where they stand. -/
theorem between (first : Stands front code b) (last : Stands front code d) (before : Follows b c)
    (behind : Follows c d) : Stands front code c :=
  ⟨Nat.le_trans first.above (by simpa using before.code.length_le),
    behind.code.trans last.written⟩

theorem fetch {i : Instruction} (above : front.length ≤ b.code.size)
    (stands : Stands front code (b.emit i)) : code[b.place front]? = some i := by
  have inside : b.code.size < (b.emit i).code.toList.length := by simp [emit]
  have here : (front ++ code)[b.code.size]? = some i := by
    rw [List.prefix_iff_getElem?.mp stands.written _ inside]
    simp [emit]
  rwa [List.getElem?_append_right above] at here

theorem place_emit (i : Instruction) (above : front.length ≤ b.code.size) :
    (b.emit i).place front = b.place front + 1 := by
  simp only [place, emit, Array.size_push]
  omega

end Builder.Stands

section

variable {Value World : Type}

/-- The memory holds the variables in force and the world. -/
structure Agrees (s : Situation Value World) (memory : Memory Value World) : Prop where
  vars : ∀ name value, s.vars.lookup name = some value → memory.vars name = value
  world : memory.world = s.world

namespace Agrees

variable {s : Situation Value World} {memory : Memory Value World}

theorem temp (agrees : Agrees s memory) (index : Nat) (value : Value) :
    Agrees s (memory.write (.temp index) value) :=
  ⟨agrees.vars, agrees.world⟩

theorem call (agrees : Agrees s memory) (world : World) :
    Agrees { s with world } { memory with world } :=
  ⟨agrees.vars, rfl⟩

theorem declare (agrees : Agrees s memory) (name : String) (value : Value) :
    Agrees (s.declare name value) (memory.write (.variable name) value) := by
  refine ⟨fun other held found => ?_, agrees.world⟩
  rw [Memory.write_variable_vars]
  by_cases same : other = name
  · subst other
    rw [if_pos rfl]
    simpa [Situation.declare] using found
  · rw [if_neg same]
    refine agrees.vars other held ?_
    simpa [Situation.declare, List.lookup_cons, beq_eq_false_iff_ne.mpr same] using found

theorem assign (agrees : Agrees s memory) {after : Situation Value World} {name : Identifier}
    {value : Value} (assigned : s.assign? (.symbol name) value = some after) :
    Agrees after (memory.write (.variable name.name) value) := by
  obtain ⟨target, old, same, present, rfl⟩ := s.assign?_eq_some after _ value assigned
  obtain rfl := Expr.symbol.inj same
  refine ⟨fun other held found => ?_, agrees.world⟩
  rw [Memory.write_variable_vars]
  rw [Environment.lookup_update] at found
  split at found
  case isTrue same =>
    rw [if_pos same]
    simpa [present] using found
  case isFalse different =>
    rw [if_neg different]
    exact agrees.vars other held found

end Agrees

/-- Temporaries below a number and variables other than those listed are as they were. -/
structure Keeps (temps : Nat) (changed : List String) (memory after : Memory Value World) :
    Prop where
  temps : ∀ index < temps, after.temps index = memory.temps index
  vars : ∀ name, name ∉ changed → after.vars name = memory.vars name

namespace Keeps

variable {memory middle after : Memory Value World} {temps more : Nat}
  {changed others : List String}

theorem refl (temps : Nat) (changed : List String) (memory : Memory Value World) :
    Keeps temps changed memory memory :=
  ⟨fun _ _ => rfl, fun _ _ => rfl⟩

theorem trans (first : Keeps temps changed memory middle) (second : Keeps more others middle after)
    (grown : temps ≤ more) : Keeps temps (changed ++ others) memory after := by
  refine ⟨fun index below => ?_, fun name absent => ?_⟩
  · rw [second.temps index (Nat.lt_of_lt_of_le below grown), first.temps index below]
  · simp only [List.mem_append, not_or] at absent
    rw [second.vars name absent.2, first.vars name absent.1]

theorem temp (keeps : Keeps temps changed memory after) {index : Nat} (above : temps ≤ index)
    (value : Value) : Keeps temps changed memory (after.write (.temp index) value) := by
  refine ⟨fun other below => ?_, keeps.vars⟩
  have different : other ≠ index := by omega
  rw [Memory.write_temp_temps, if_neg different, keeps.temps other below]

theorem assign (keeps : Keeps temps changed memory after) (name : String) (value : Value) :
    Keeps temps (name :: changed) memory (after.write (.variable name) value) := by
  refine ⟨keeps.temps, fun other absent => ?_⟩
  simp only [List.mem_cons, not_or] at absent
  rw [Memory.write_variable_vars, if_neg absent.1, keeps.vars other absent.2]

theorem world (keeps : Keeps temps changed memory after) (world : World) :
    Keeps temps changed memory { after with world } :=
  ⟨keeps.temps, keeps.vars⟩

theorem mono (keeps : Keeps temps changed memory after) (included : changed ⊆ others) :
    Keeps temps others memory after :=
  ⟨keeps.temps, fun name absent => keeps.vars name fun member => absent (included member)⟩

end Keeps

/-- An operand that is no temporary from a number on, and no variable but the one given. -/
def Operand.Settled (temps : Nat) (holder : Option String) : Operand → Prop
  | .temp index => index < temps
  | .variable name => holder = some name
  | .constant _ => True

theorem Operand.Settled.mono {temps more : Nat} {holder : Option String} {operand : Operand}
    (settled : operand.Settled temps holder) (grown : temps ≤ more) :
    operand.Settled more holder := by
  match operand, settled with
  | .temp _, below => exact Nat.lt_of_lt_of_le below grown
  | .variable _, held => exact held
  | .constant _, _ => trivial

theorem Keeps.read {m : Meaning Value World} {memory after : Memory Value World} {temps : Nat}
    {changed : List String} {holder : Option String} {operand : Operand}
    (keeps : Keeps temps changed memory after) (settled : operand.Settled temps holder)
    (lasting : ∀ name, holder = some name → name ∉ changed) :
    after.read m operand = memory.read m operand := by
  match operand, settled with
  | .temp index, below => exact keeps.temps index below
  | .variable name, held => exact keeps.vars name (lasting name held)
  | .constant _, _ => rfl

variable (m : Meaning Value World) (front code : List Instruction)

/-- The code between two builders leads from one memory to another, which agrees with the
situation. -/
structure Computes (b c : Builder) (changed : List String) (memory after : Memory Value World)
    (s : Situation Value World) : Prop where
  steps : Steps m code (b.place front, memory) (c.place front, after)
  agrees : Agrees s after
  keeps : Keeps b.temps changed memory after

variable {m front code}

namespace Computes

variable {b c d : Builder} {changed others : List String}
  {memory middle after : Memory Value World} {s t : Situation Value World}

theorem refl (agrees : Agrees s memory) : Computes m front code b b [] memory memory s :=
  ⟨.refl, agrees, Keeps.refl _ _ _⟩

theorem trans (first : Computes m front code b c changed memory middle s)
    (second : Computes m front code c d others middle after t) (grown : b.temps ≤ c.temps) :
    Computes m front code b d (changed ++ others) memory after t :=
  ⟨first.steps.trans second.steps, second.agrees, first.keeps.trans second.keeps grown⟩

theorem mono (first : Computes m front code b c changed memory after s)
    (included : changed ⊆ others) : Computes m front code b c others memory after s :=
  ⟨first.steps, first.agrees, first.keeps.mono included⟩

theorem emit {i : Instruction} (first : Computes m front code b c changed memory middle s)
    (above : front.length ≤ c.code.size) (stands : (c.emit i).Stands front code)
    (acted : i.act m middle = some (.next, after)) (agrees : Agrees t after)
    (keeps : Keeps b.temps others memory after) :
    Computes m front code b (c.emit i) others memory after t := by
  refine ⟨first.steps.trans ?_, agrees, keeps⟩
  rw [Builder.Stands.place_emit i above]
  exact Steps.next (stands.fetch above) acted

theorem intoTemp (instruction : Operand → Instruction) (value : Value)
    (first : Computes m front code b c changed memory middle s) (grown : b.temps ≤ c.temps)
    (above : front.length ≤ c.code.size)
    (stands : (Lowering.intoTemp instruction c).2.Stands front code)
    (acted : (instruction (.temp c.temps)).act m middle =
      some (.next, middle.write (.temp c.temps) value)) :
    Computes m front code b (Lowering.intoTemp instruction c).2 changed memory
      (middle.write (.temp c.temps) value) s := by
  have numbered : Computes m front code b c.newTemp.2 changed memory middle s :=
    ⟨first.steps, first.agrees, first.keeps⟩
  exact numbered.emit above stands acted (first.agrees.temp _ _) (first.keeps.temp grown _)

theorem assign {operand : Operand} {name : Identifier} {value : Value}
    (first : Computes m front code b c changed memory middle s)
    (above : front.length ≤ c.code.size)
    (stands : (c.emit (.assign (.variable name.name) operand)).Stands front code)
    (read : middle.read m operand = value)
    (assigned : s.assign? (.symbol name) value = some t) :
    Computes m front code b (c.emit (.assign (.variable name.name) operand))
      (name.name :: changed) memory (middle.write (.variable name.name) value) t := by
  subst value
  exact first.emit above stands rfl (first.agrees.assign assigned) (first.keeps.assign _ _)

end Computes

namespace Lowering

open Builder

theorem stepSpelling_eq (op : UnaryOp) : stepSpelling op = (Meaning.stepOp op).spelling := by
  cases op <;> rfl

/-- What stands for a value is a new temporary, a constant, or the variable that holds it. -/
theorem settled_expr {e : Expr} {s after : Situation Value World} {value : Value} (b : Builder)
    (evaluated : m.eval e s = some (value, after)) :
    (expr e b).1.Settled (expr e b).2.temps e.holder? := by
  have named (name : Identifier) : (nameOperand name.name b).Settled b.temps (some name.name) := by
    unfold nameOperand
    split <;> trivial
  cases e with
  | symbol name => exact named name
  | call callee args span => exact Nat.lt_succ_self _
  | binary op left right span =>
    by_cases assignment : op = .assign
    · simp only [Meaning.eval, if_pos assignment, Option.bind_eq_bind, Option.bind_eq_some_iff,
        Option.pure_def] at evaluated
      obtain ⟨⟨held, middle⟩, -, changed, assigned, -⟩ := evaluated
      obtain ⟨name, old, rfl, -, -⟩ := middle.assign?_eq_some _ _ _ assigned
      simp only [expr, if_pos assignment, Expr.holder?]
      rfl
    · simp only [expr, if_neg assignment]
      exact Nat.lt_succ_self _
  | unary op operand side span =>
    by_cases stepped : op.isStep
    · simp only [Meaning.eval, if_pos stepped, Option.bind_eq_bind, Option.bind_eq_some_iff,
        Option.pure_def] at evaluated
      obtain ⟨⟨held, middle⟩, -, next, -, changed, assigned, -⟩ := evaluated
      obtain ⟨name, old, rfl, -, -⟩ := middle.assign?_eq_some _ _ _ assigned
      simp only [expr, if_pos stepped]
      cases side with
      | before =>
        have held : Expr.holder? (.unary op (.symbol name) .before span) = some name.name := by
          simp [Expr.holder?, stepped, Expr.symbol?]
        rw [held, step_before]
        have operand := named name
        generalize nameOperand name.name b = shown at operand ⊢
        cases shown with
        | «variable» _ => exact operand
        | _ => exact Nat.lt_succ_self _
      | behind =>
        rw [step_behind]
        have grown := (straight_step op .before (nameOperand name.name b)
          (intoTemp (.assign · (nameOperand name.name b)) b).2).follows.temps
        exact Nat.lt_of_lt_of_le (Nat.lt_succ_self b.temps) grown
    · simp only [expr, if_neg stepped]
      exact Nat.lt_succ_self _
  | _ => trivial

/-- A step before a variable leaves the new value in it. -/
theorem computes_before {b : Builder} (op : UnaryOp) (name : Identifier)
    {s after : Situation Value World} {memory : Memory Value World} {old stepped : Value}
    (first : b.Stands front code)
    (last : (step op .before (.variable name.name) b).2.Stands front code)
    (agrees : Agrees s memory) (held : memory.vars name.name = old)
    (combined : m.binary (Meaning.stepOp op).spelling old (m.whole 1) = some stepped)
    (assigned : s.assign? (.symbol name) stepped = some after) :
    ∃ final, Computes m front code b (step op .before (.variable name.name) b).2 [name.name]
      memory final after ∧ final.read m (step op .before (.variable name.name) b).1 = stepped := by
  rw [step_before] at last ⊢
  simp only [Operand.isVariable, if_true] at last ⊢
  let c := (intoTemp (.binary · (stepSpelling op) (.variable name.name) (intOperand 1)) b).2
  have middle : c.Stands front code :=
    first.between last ((Follows.refl b).newTemp.emit _) ((Follows.refl c).emit _)
  have acted : (Instruction.binary (.temp b.temps) (stepSpelling op) (.variable name.name)
      (intOperand 1)).act m memory = some (.next, memory.write (.temp b.temps) stepped) := by
    have one : memory.read m (intOperand 1) = m.whole 1 := rfl
    have here : memory.read m (.variable name.name) = old := held
    simp only [Instruction.act, one, here, stepSpelling_eq, combined, Option.map_some]
  have computed :=
    (Computes.refl agrees).intoTemp _ stepped (Nat.le_refl _) first.above middle acted
  have read : (memory.write (.temp b.temps) stepped).read m (.temp b.temps) = stepped := by
    simp [Memory.read, Memory.write_temp_temps]
  refine ⟨_, computed.assign middle.above last read assigned, ?_⟩
  simp [Memory.read, Memory.write_variable_vars]

theorem computes_step {b : Builder} (op : UnaryOp) (side : Side) (name : Identifier)
    {s after : Situation Value World} {memory : Memory Value World} {old stepped : Value}
    (first : b.Stands front code)
    (last : (step op side (.variable name.name) b).2.Stands front code)
    (agrees : Agrees s memory) (held : memory.vars name.name = old)
    (combined : m.binary (Meaning.stepOp op).spelling old (m.whole 1) = some stepped)
    (assigned : s.assign? (.symbol name) stepped = some after) :
    ∃ final, Computes m front code b (step op side (.variable name.name) b).2 [name.name]
      memory final after ∧ final.read m (step op side (.variable name.name) b).1 =
        if side = .before then stepped else old := by
  cases side with
  | before => exact computes_before op name first last agrees held combined assigned
  | behind =>
    rw [step_behind] at last ⊢
    let c := (intoTemp (.assign · (.variable name.name)) b).2
    have middle : c.Stands front code :=
      first.between last ((Follows.refl b).newTemp.emit _)
        (straight_step op .before (.variable name.name) c).follows
    have saved := (Computes.refl (m := m) agrees).intoTemp
      (.assign · (.variable name.name)) old (Nat.le_refl _) first.above middle
      (by simp [Instruction.act, Memory.read, held])
    obtain ⟨final, computed, -⟩ :=
      computes_before op name middle last saved.agrees held combined assigned
    refine ⟨final, saved.trans computed (Nat.le_succ _), ?_⟩
    have kept := computed.keeps.temps b.temps (Nat.lt_succ_self _)
    simpa [intoTemp, newTemp, Memory.read, Memory.write_temp_temps] using kept

/-- An operand that outlasts what is behind it can still be read there. -/
theorem read_behind {e : Expr} {others : List Expr} {b : Builder} {s middle : Situation Value World}
    {memory after : Memory Value World} {value : Value}
    (lasting : e.outlasts others) (evaluated : m.eval e s = some (value, middle))
    (keeps : Keeps (expr e b).2.temps (changedBy others) memory after) :
    after.read m (expr e b).1 = memory.read m (expr e b).1 := by
  refine keeps.read (settled_expr b evaluated) fun name held => ?_
  simpa [Expr.outlasts, held] using lasting

variable (m front code)

/-- The code of an expression leads to its value, wherever it stands. -/
def Evaluates (e : Expr) : Prop :=
  ∀ (b : Builder) (s : Situation Value World) (memory : Memory Value World) (value : Value)
    (after : Situation Value World), e.steady → (∀ n ∈ e.names, b.ordinal? n = none) →
    b.Stands front code → (expr e b).2.Stands front code → Agrees s memory →
    m.eval e s = some (value, after) →
    ∃ final, Computes m front code b (expr e b).2 e.changed memory final after ∧
      final.read m (expr e b).1 = value

def EvaluatesAll (es : List Expr) : Prop :=
  ∀ (b : Builder) (s : Situation Value World) (memory : Memory Value World) (values : List Value)
    (after : Situation Value World), allSteady es → (∀ n ∈ namesIn es, b.ordinal? n = none) →
    b.Stands front code → (exprs es b).2.Stands front code → Agrees s memory →
    m.evals es s = some (values, after) →
    ∃ final, Computes m front code b (exprs es b).2 (changedBy es) memory final after ∧
      (exprs es b).1.map (final.read m) = values

variable {m front code}

theorem evaluates_symbol (name : Identifier) : Evaluates m front code (.symbol name) := by
  intro b s memory value after _ ordinary _ _ agrees evaluated
  simp only [Meaning.eval, Option.map_eq_some_iff, Prod.mk.injEq] at evaluated
  obtain ⟨held, found, rfl, rfl⟩ := evaluated
  refine ⟨memory, .refl agrees, ?_⟩
  rw [expr, nameOperand_of_none (ordinary name.name (by simp [Expr.names]))]
  exact agrees.vars name.name held found

theorem evaluates_assignment (left : Expr) {right : Expr} (span : Span)
    (inside : Evaluates m front code right) :
    Evaluates m front code (.binary .assign left right span) := by
  intro b s memory value after steady ordinary first last agrees evaluated
  simp only [Expr.steady, Bool.and_eq_true] at steady
  simp only [Expr.names, List.mem_append] at ordinary
  simp only [expr, if_true] at last ⊢
  simp only [Meaning.eval, if_true, Option.bind_eq_bind, Option.bind_eq_some_iff,
    Option.pure_def, Option.some.injEq, Prod.mk.injEq] at evaluated
  obtain ⟨⟨held, middle⟩, computed, changed, assigned, rfl, rfl⟩ := evaluated
  obtain ⟨name, old, rfl, -, -⟩ := middle.assign?_eq_some _ _ _ assigned
  have stands : (expr right b).2.Stands front code :=
    first.between last (straight_expr right b).follows (straight_store _ _ _).follows
  obtain ⟨final, inner, read⟩ := inside b s memory held middle steady.1.2
    (fun n member => ordinary n (.inr member)) first stands agrees computed
  refine ⟨_, inner.assign stands.above last read assigned, ?_⟩
  simp [store, Memory.read, Memory.write_variable_vars]

theorem evaluates_binary {op : BinaryOp} {left right : Expr} (span : Span)
    (ordinaryOp : op ≠ .assign) (inside : Evaluates m front code left)
    (next : Evaluates m front code right) :
    Evaluates m front code (.binary op left right span) := by
  intro b s memory value after steady ordinary first last agrees evaluated
  simp only [Expr.steady, Bool.and_eq_true] at steady
  simp only [Expr.names, List.mem_append] at ordinary
  have lasting : left.outlasts [right] := by simpa [ordinaryOp] using steady.2
  simp only [expr, if_neg ordinaryOp] at last ⊢
  simp only [Meaning.eval, if_neg ordinaryOp, Option.bind_eq_bind, Option.bind_eq_some_iff,
    Option.pure_def, Option.some.injEq, Prod.mk.injEq] at evaluated
  obtain ⟨⟨one, middle⟩, before, ⟨two, _⟩, behind, result, combined, rfl, rfl⟩ := evaluated
  have begun := straight_expr left b
  have ended := straight_expr right (expr left b).2
  have stands := first.between last (begun.follows.trans ended.follows)
    ((Follows.refl _).newTemp.emit _)
  have between := first.between stands begun.follows ended.follows
  obtain ⟨held, inner, read⟩ := inside b s memory one middle steady.1.1
    (fun n member => ordinary n (.inl member)) first between agrees before
  obtain ⟨final, outer, found⟩ := next _ middle held two _ steady.1.2
    (fun n member => (begun.alike.ordinal? n).trans (ordinary n (.inr member)))
    between stands inner.agrees behind
  have kept := read_behind lasting before (outer.keeps.mono (by simp [changedBy]))
  have computed := inner.trans outer begun.follows.temps
  refine ⟨_, (computed.intoTemp _ result (Nat.le_trans begun.follows.temps
    ended.follows.temps) stands.above last ?_).mono (by simp [Expr.changed]), ?_⟩
  · simp only [Instruction.act, kept, read, found, combined, Option.map_some]
  · simp [intoTemp, newTemp, Memory.read, Memory.write_temp_temps]

theorem evaluates_step {op : UnaryOp} (operand : Expr) (side : Side) (span : Span)
    (stepped : op.isStep) : Evaluates m front code (.unary op operand side span) := by
  intro b s memory value after _ ordinary first last agrees evaluated
  simp only [expr, if_pos stepped] at last ⊢
  simp only [Meaning.eval, if_pos stepped, Option.bind_eq_bind, Option.bind_eq_some_iff,
    Option.pure_def, Option.some.injEq, Prod.mk.injEq] at evaluated
  obtain ⟨⟨old, middle⟩, before, next, combined, _, assigned, rfl, rfl⟩ := evaluated
  -- Only a variable can be given a value, so the operand is the name of one.
  obtain ⟨name, _, rfl, -, -⟩ := middle.assign?_eq_some _ _ _ assigned
  simp only [Meaning.eval, Option.map_eq_some_iff, Prod.mk.injEq] at before
  obtain ⟨_, found, rfl, rfl⟩ := before
  have operand : expr (.symbol name) b = (.variable name.name, b) := by
    rw [expr, nameOperand_of_none (ordinary name.name (by simp [Expr.names]))]
  simp only [operand] at last ⊢
  obtain ⟨final, computed, read⟩ := computes_step op side name first last agrees
    (agrees.vars name.name _ found) combined assigned
  refine ⟨final, computed.mono ?_, read⟩
  simp [Expr.changed, Expr.targets, Expr.symbol?, stepped]

theorem evaluates_unary {op : UnaryOp} {operand : Expr} (side : Side) (span : Span)
    (kept : ¬op.isStep) (inside : Evaluates m front code operand) :
    Evaluates m front code (.unary op operand side span) := by
  intro b s memory value after steady ordinary first last agrees evaluated
  simp only [expr, if_neg kept] at last ⊢
  simp only [Meaning.eval, if_neg kept, Option.bind_eq_bind, Option.bind_eq_some_iff,
    Option.pure_def, Option.some.injEq, Prod.mk.injEq] at evaluated
  obtain ⟨⟨one, _⟩, before, result, combined, rfl, rfl⟩ := evaluated
  have begun := straight_expr operand b
  have stands := first.between last begun.follows ((Follows.refl _).newTemp.emit _)
  obtain ⟨final, computed, read⟩ :=
    inside b s memory one _ steady ordinary first stands agrees before
  refine ⟨_, (computed.intoTemp _ result begun.follows.temps stands.above last ?_).mono
    (by simp [Expr.changed]), ?_⟩
  · simp only [Instruction.act, read, combined, Option.map_some]
  · simp [intoTemp, newTemp, Memory.read, Memory.write_temp_temps]

theorem evaluates_call (callee : Identifier) {args : List Expr} (span : Span)
    (inside : EvaluatesAll m front code args) :
    Evaluates m front code (.call callee args span) := by
  intro b s memory value after steady ordinary first last agrees evaluated
  simp only [Meaning.eval, Option.bind_eq_bind, Option.bind_eq_some_iff, Option.pure_def,
    Option.some.injEq, Prod.mk.injEq] at evaluated
  obtain ⟨⟨values, middle⟩, before, ⟨result, world⟩, called, rfl, rfl⟩ := evaluated
  have begun := straight_exprs args b
  have stands := first.between last begun.follows ((Follows.refl _).newTemp.emit _)
  obtain ⟨final, computed, read⟩ :=
    inside b s memory values middle steady ordinary first stands agrees before
  have numbered : Computes m front code b (exprs args b).2.newTemp.2 (changedBy args) memory
      final middle := ⟨computed.steps, computed.agrees, computed.keeps⟩
  refine ⟨{ final with world }.write (.temp (exprs args b).2.temps) result,
    numbered.emit stands.above last ?_ ((computed.agrees.call world).temp _ _)
    (((computed.keeps.world world).temp begun.follows.temps _).mono (by simp [Expr.changed])), ?_⟩
  · simp only [Instruction.act, read, computed.agrees.world, called, Option.map_some]
  · simp [expr, intoTemp, newTemp, Memory.read, Memory.write_temp_temps]

theorem evaluatesAll_cons {e : Expr} {others : List Expr} (inside : Evaluates m front code e)
    (next : EvaluatesAll m front code others) : EvaluatesAll m front code (e :: others) := by
  intro b s memory values after steady ordinary first last agrees evaluated
  simp only [allSteady, Bool.and_eq_true] at steady
  simp only [namesIn, List.mem_append] at ordinary
  simp only [Meaning.evals, Option.bind_eq_bind, Option.bind_eq_some_iff, Option.pure_def,
    Option.some.injEq, Prod.mk.injEq] at evaluated
  obtain ⟨⟨one, middle⟩, before, ⟨rest, _⟩, behind, rfl, rfl⟩ := evaluated
  have begun := straight_expr e b
  have ended := straight_exprs others (expr e b).2
  have between := first.between last begun.follows ended.follows
  obtain ⟨held, inner, read⟩ := inside b s memory one middle steady.1.1
    (fun n member => ordinary n (.inl member)) first between agrees before
  obtain ⟨final, outer, found⟩ := next _ middle held rest _ steady.2
    (fun n member => (begun.alike.ordinal? n).trans (ordinary n (.inr member)))
    between last inner.agrees behind
  have kept := read_behind steady.1.2 before outer.keeps
  refine ⟨final, inner.trans outer begun.follows.temps, ?_⟩
  simp only [exprs, List.map_cons, kept, read, found]

mutual

theorem computes_expr : (e : Expr) → Evaluates m front code e
  | .int .. | .float .. | .string .. | .char .. | .bool .. => by
    intro b s memory value after _ _ _ _ agrees evaluated
    obtain ⟨rfl, rfl⟩ := Prod.mk.inj (Option.some.inj evaluated)
    exact ⟨memory, .refl agrees, rfl⟩
  | .symbol name => evaluates_symbol name
  | .binary op left right span => by
    by_cases assignment : op = .assign
    · exact assignment ▸ evaluates_assignment left span (computes_expr right)
    · exact evaluates_binary span assignment (computes_expr left) (computes_expr right)
  | .unary op operand side span => by
    by_cases stepped : op.isStep
    · exact evaluates_step operand side span stepped
    · exact evaluates_unary side span stepped (computes_expr operand)
  | .call callee args span => evaluates_call callee span (computes_exprs args)
termination_by structural e => e

theorem computes_exprs : (es : List Expr) → EvaluatesAll m front code es
  | [] => by
    intro b s memory values after _ _ _ _ agrees evaluated
    obtain ⟨rfl, rfl⟩ := Prod.mk.inj (Option.some.inj evaluated)
    exact ⟨memory, .refl agrees, rfl⟩
  | e :: others => evaluatesAll_cons (computes_expr e) (computes_exprs others)
termination_by structural es => es

end

end Lowering
end
end Curly
