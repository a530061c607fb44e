import Curly.Proofs.Lowering.Naming
import Curly.Proofs.Lowering.Segments

/-! Temporaries. Each one is assigned once, and it is read behind its assignment in the same
straight piece of code, so no way into the read leads past the assignment. -/
namespace Curly

namespace Instruction

def reads : Instruction → List Operand
  | .assign _ value => [value]
  | .binary _ _ left right => [left, right]
  | .unary _ _ operand => [operand]
  | .jumpIfFalse condition _ | .jumpIfTrue condition _ => [condition]
  | .jumpIfEqual left right _ => [left, right]
  | .call _ _ args => args
  | .giveBack value => value.toList
  | .jump _ | .label _ | .beginFunction _ | .endFunction _ | .param _ => []

/-- All operands of an instruction, assigned or read. -/
def operands (i : Instruction) : List Operand :=
  i.target?.toList ++ i.reads

/-- Whether an instruction assigns the temporary of a number. -/
def assigns (k : Nat) (i : Instruction) : Bool :=
  i.target? = some (.temp k)

end Instruction

/-- A temporary is assigned in some code, and no place is marked behind that. -/
def Holding (code : List Instruction) (k : Nat) : Prop :=
  ∃ (place : Nat) (i : Instruction), code[place]? = some i ∧ i.assigns k ∧
    ∀ (later : Nat) (j : Instruction), place < later → code[later]? = some j → j.isMark = false

/-- Where execution can be behind a place: at the next one, or at the label that a jump leads to. -/
def Passes (code : List Instruction) (place next : Nat) : Prop :=
  next = place + 1 ∨ ∃ (i : Instruction) (l : Label), code[place]? = some i ∧
    i.destination? = some l ∧ code[next]? = some (.label l)

/-- The places that execution can come to, from the start of the code or from a mark, without
passing over a certain place. -/
inductive Avoids (code : List Instruction) (place : Nat) : Nat → Prop where
  | start : 0 ≠ place → Avoids code place 0
  | mark {there : Nat} {i : Instruction} : code[there]? = some i → i.isMark → there ≠ place →
    Avoids code place there
  | next {before there : Nat} : Avoids code place before → Passes code before there →
    there ≠ place → Avoids code place there

section

variable {code : List Instruction} {i : Instruction} {k : Nat}

theorem Holding.concat (holding : Holding code k) (plain : i.isMark = false) :
    Holding (code ++ [i]) k := by
  obtain ⟨place, d, found, assigns, later⟩ := holding
  have inside := (List.getElem?_eq_some_iff.mp found).1
  refine ⟨place, d, by rw [List.getElem?_append_left inside, found], assigns,
    fun n j after here => ?_⟩
  by_cases old : n < code.length
  · exact later n j after (List.getElem?_append_left old ▸ here)
  · rw [List.getElem?_append_right (Nat.le_of_not_lt old), List.getElem?_singleton] at here
    split at here
    · exact Option.some.inj here ▸ plain
    · exact nomatch here

theorem holding_concat (assigns : i.assigns k) : Holding (code ++ [i]) k := by
  refine ⟨code.length, i, List.getElem?_concat_length, assigns, fun n j after here => ?_⟩
  have beyond : (code ++ [i]).length ≤ n := by
    rw [List.length_append]
    exact after
  rw [List.getElem?_eq_none beyond] at here
  exact nomatch here

theorem Holding.exists_assigns (holding : Holding code k) : ∃ i ∈ code, i.assigns k := by
  obtain ⟨place, i, found, assigns, _⟩ := holding
  exact ⟨i, List.mem_of_getElem? found, assigns⟩

/-- No way to a place where a temporary is held avoids its assignment. -/
theorem Holding.dominates {there : Nat} (holding : Holding (code.take there) k)
    (plain : ∀ i, code[there]? = some i → i.isMark = false) :
    ∃ (place : Nat) (i : Instruction), code[place]? = some i ∧ i.assigns k ∧
      ¬Avoids code place there := by
  obtain ⟨place, i, found, assigns, later⟩ := holding
  obtain ⟨before, found⟩ : place < there ∧ code[place]? = some i := by
    rw [List.getElem?_take] at found
    split at found
    · exact ⟨‹_›, found⟩
    · exact absurd found (Option.some_ne_none i).symm
  have unmarked (n : Nat) (j : Instruction) (after : place < n) (within : n ≤ there)
      (here : code[n]? = some j) : j.isMark = false := by
    rcases Nat.lt_or_eq_of_le within with inner | rfl
    · exact later n j after (by rwa [List.getElem?_take, if_pos inner])
    · exact plain j here
  -- No mark is between the two places, so what avoids the first of them is not let in there.
  have outside (n : Nat) (avoids : Avoids code place n) : n ≠ place ∧ (place < n → there < n) := by
    induction avoids with
    | start other => exact ⟨other, fun after => absurd after (Nat.not_lt_zero place)⟩
    | mark here marked other =>
      refine ⟨other, fun after => Nat.lt_of_not_le fun within => ?_⟩
      rw [unmarked _ _ after within here] at marked
      exact Bool.false_ne_true marked
    | next avoids passes other ih =>
      refine ⟨other, fun after => Nat.lt_of_not_le fun within => ?_⟩
      rcases passes with rfl | ⟨_, l, _, _, here⟩
      · obtain ⟨different, beyond⟩ := ih
        omega
      · exact Bool.false_ne_true (unmarked _ _ after within here).symm
  exact ⟨place, i, found, assigns, fun avoids =>
    absurd ((outside there avoids).2 before) (Nat.lt_irrefl _)⟩

end

/-- Each of the first temporaries is assigned once, and no other one occurs. Each one that is read
is held there, and assigned on every way to the read. -/
structure SingleAssigned (temps : Nat) (code : List Instruction) : Prop where
  once : ∀ k < temps, code.countP (Instruction.assigns k) = 1
  known : ∀ i ∈ code, ∀ k, .temp k ∈ i.operands → k < temps
  held : ∀ (there : Nat) (i : Instruction) (k : Nat), code[there]? = some i →
    .temp k ∈ i.reads → Holding (code.take there) k
  dominated : ∀ (there : Nat) (i : Instruction) (k : Nat), code[there]? = some i →
    .temp k ∈ i.reads → ∃ (place : Nat) (d : Instruction), code[place]? = some d ∧ d.assigns k ∧
      ¬Avoids code place there

namespace Builder

/-- The temporaries that are numbered are assigned once, and those that are read are held. -/
structure Orderly (b : Builder) : Prop where
  counted : ∀ k, b.code.toList.countP (Instruction.assigns k) = if k < b.temps then 1 else 0
  held : ∀ (there : Nat) (i : Instruction) (k : Nat), b.code.toList[there]? = some i →
    .temp k ∈ i.reads → Holding (b.code.toList.take there) k

/-- An operand that can be read next. -/
def Ready (b : Builder) (o : Operand) : Prop :=
  ∀ k, o = .temp k → Holding b.code.toList k

variable {b c : Builder} {i : Instruction}

theorem ready_variable (b : Builder) (name : String) : b.Ready (.variable name) :=
  fun _ same => nomatch same

theorem ready_constant (b : Builder) (spelling : String) : b.Ready (.constant spelling) :=
  fun _ same => nomatch same

theorem Ready.emit {o : Operand} (ready : b.Ready o) (plain : i.isMark = false) :
    (b.emit i).Ready o := by
  intro k same
  rw [Builder.emit, Array.toList_push]
  exact (ready k same).concat plain

theorem Orderly.of_same (orderly : b.Orderly) (code : c.code = b.code) (temps : c.temps = b.temps) :
    c.Orderly :=
  ⟨code ▸ temps ▸ orderly.counted, code ▸ orderly.held⟩

/-- What is held is read, whether or not a fresh temporary is assigned. -/
theorem Orderly.held_push (orderly : b.Orderly) (reads : ∀ o ∈ i.reads, b.Ready o) (there : Nat)
    (j : Instruction) (k : Nat) (here : (b.code.push i).toList[there]? = some j)
    (read : .temp k ∈ j.reads) : Holding ((b.code.push i).toList.take there) k := by
  rw [Array.toList_push] at here ⊢
  have inside := (List.getElem?_eq_some_iff.mp here).1
  rw [List.length_append, List.length_singleton] at inside
  rw [List.take_append_of_le_length (Nat.le_of_lt_succ inside)]
  by_cases old : there < b.code.toList.length
  · exact orderly.held there j k (List.getElem?_append_left old ▸ here) read
  · obtain rfl : there = b.code.toList.length := by omega
    rw [List.getElem?_concat_length] at here
    obtain rfl := Option.some.inj here
    rw [List.take_length]
    exact reads _ read k rfl

theorem Orderly.emit (orderly : b.Orderly) (noTemp : ∀ k, i.target? ≠ some (.temp k))
    (reads : ∀ o ∈ i.reads, b.Ready o) : (b.emit i).Orderly := by
  refine ⟨fun k => ?_, orderly.held_push reads⟩
  rw [Builder.emit, Array.toList_push, List.countP_append, orderly.counted]
  simp [Instruction.assigns, noTemp k]

theorem Orderly.bare (orderly : b.Orderly) (noTemp : ∀ k, i.target? ≠ some (.temp k))
    (noReads : i.reads = []) : (b.emit i).Orderly :=
  orderly.emit noTemp fun _ member => nomatch noReads ▸ member

theorem Orderly.label (orderly : b.Orderly) (l : Label) : (b.emit (.label l)).Orderly :=
  orderly.bare nofun rfl

theorem Orderly.jump (orderly : b.Orderly) (l : Label) : (b.emit (.jump l)).Orderly :=
  orderly.bare nofun rfl

theorem Orderly.newLabel (orderly : b.Orderly) : b.newLabel.2.Orderly :=
  orderly.of_same rfl rfl

theorem Orderly.pushBreak (orderly : b.Orderly) (l : Label) : (b.pushBreak l).Orderly :=
  orderly.of_same rfl rfl

theorem Orderly.popBreak (orderly : b.Orderly) : b.popBreak.Orderly :=
  orderly.of_same rfl rfl

theorem orderly_empty : Orderly .empty :=
  ⟨fun _ => rfl, fun _ _ _ found => nomatch found⟩

theorem Orderly.intoTemp {instruction : Operand → Instruction} (orderly : b.Orderly)
    (target : ∀ o, (instruction o).target? = some o)
    (reads : ∀ o ∈ (instruction (.temp b.temps)).reads, b.Ready o) :
    (Lowering.intoTemp instruction b).2.Orderly := by
  refine ⟨fun k => ?_, orderly.held_push reads⟩
  have assigned : (instruction (.temp b.temps)).assigns k = decide (b.temps = k) := by
    simp [Instruction.assigns, target]
  have code : (Lowering.intoTemp instruction b).2.code.toList =
      b.code.toList ++ [instruction (.temp b.temps)] := Array.toList_push
  have temps : (Lowering.intoTemp instruction b).2.temps = b.temps + 1 := rfl
  rw [code, temps, List.countP_append, orderly.counted, List.countP_singleton, assigned]
  simp only [decide_eq_true_eq]
  split_ifs <;> omega

theorem ready_intoTemp {instruction : Operand → Instruction} (b : Builder)
    (target : ∀ o, (instruction o).target? = some o) :
    (Lowering.intoTemp instruction b).2.Ready (Lowering.intoTemp instruction b).1 := by
  rintro k ⟨⟩
  have code : (Lowering.intoTemp instruction b).2.code.toList =
      b.code.toList ++ [instruction (.temp b.temps)] := Array.toList_push
  rw [code]
  exact holding_concat (by simp [Instruction.assigns, target])

theorem Ready.intoTemp {o : Operand} {instruction : Operand → Instruction} (ready : b.Ready o)
    (plain : ∀ t, (instruction t).isMark = false) :
    (Lowering.intoTemp instruction b).2.Ready o :=
  Ready.emit (b := b.newTemp.2) ready (plain _)

end Builder

namespace Lowering

open Builder

/-- Code without marks is added: the order is kept, and what was ready still is. -/
structure Carries (b c : Builder) : Prop where
  orderly : b.Orderly → c.Orderly
  ready : ∀ o, b.Ready o → c.Ready o

namespace Carries

variable {b c d : Builder} {i : Instruction} {instruction : Operand → Instruction}

theorem refl (b : Builder) : Carries b b :=
  ⟨id, fun _ => id⟩

theorem trans (first : Carries b c) (second : Carries c d) : Carries b d :=
  ⟨second.orderly ∘ first.orderly, fun o ready => second.ready o (first.ready o ready)⟩

theorem emit (before : Carries b c) (plain : i.isMark = false)
    (noTemp : ∀ k, i.target? ≠ some (.temp k))
    (reads : ∀ o ∈ i.reads, c.Ready o) : Carries b (c.emit i) :=
  before.trans ⟨fun orderly => orderly.emit noTemp reads, fun _ ready => ready.emit plain⟩

theorem intoTemp (before : Carries b c) (target : ∀ o, (instruction o).target? = some o)
    (plain : ∀ o, (instruction o).isMark = false)
    (reads : ∀ o ∈ (instruction (.temp c.temps)).reads, c.Ready o) :
    Carries b (intoTemp instruction c).2 :=
  before.trans ⟨fun orderly => orderly.intoTemp target reads, fun _ ready => ready.intoTemp plain⟩

end Carries

/-- Code without marks is added, and what it computes can be read next. -/
structure Supplies (b : Builder) (o : Operand) (c : Builder) : Prop where
  carries : Carries b c
  ready : c.Ready o

theorem Supplies.constant (b : Builder) (spelling : String) : Supplies b (.constant spelling) b :=
  ⟨.refl b, ready_constant b spelling⟩

theorem Supplies.intoTemp {b c : Builder} {instruction : Operand → Instruction}
    (before : Carries b c) (target : ∀ o, (instruction o).target? = some o)
    (plain : ∀ o, (instruction o).isMark = false)
    (reads : ∀ o ∈ (instruction (.temp c.temps)).reads, c.Ready o) :
    Supplies b (intoTemp instruction c).1 (intoTemp instruction c).2 :=
  ⟨before.intoTemp target plain reads, ready_intoTemp c target⟩

theorem supplies_name (name : String) (b : Builder) : Supplies b (nameOperand name b) b := by
  refine ⟨.refl b, ?_⟩
  unfold nameOperand
  split
  · exact ready_constant b _
  · exact ready_variable b _

theorem supplies_store {b c : Builder} {value : Operand} (supplies : Supplies b value c)
    (target : Expr) : Supplies b (store target value c).1 (store target value c).2 := by
  cases target with
  | symbol name =>
    exact ⟨supplies.carries.emit rfl nofun (List.forall_mem_singleton.mpr supplies.ready),
      ready_variable _ _⟩
  | _ => exact supplies

theorem supplies_before (op : UnaryOp) {b c : Builder} {operand : Operand}
    (supplies : Supplies b operand c) :
    Supplies b (step op .before operand c).1 (step op .before operand c).2 := by
  have updated : Supplies b (intoTemp (.binary · (stepSpelling op) operand (intOperand 1)) c).1
      (intoTemp (.binary · (stepSpelling op) operand (intOperand 1)) c).2 := by
    refine .intoTemp supplies.carries (fun _ => rfl) (fun _ => rfl) ?_
    exact List.forall_mem_cons.mpr
      ⟨supplies.ready, List.forall_mem_singleton.mpr (ready_constant c _)⟩
  rw [step_before]
  cases operand with
  | «variable» name =>
    exact ⟨updated.carries.emit rfl nofun (List.forall_mem_singleton.mpr updated.ready),
      ready_variable _ _⟩
  | _ => exact updated

theorem supplies_step (op : UnaryOp) (side : Side) {b c : Builder} {operand : Operand}
    (supplies : Supplies b operand c) :
    Supplies b (step op side operand c).1 (step op side operand c).2 := by
  cases side with
  | before => exact supplies_before op supplies
  | behind =>
    have saved : Supplies b (intoTemp (.assign · operand) c).1 (intoTemp (.assign · operand) c).2 :=
      .intoTemp supplies.carries (fun _ => rfl) (fun _ => rfl)
        (List.forall_mem_singleton.mpr supplies.ready)
    rw [step_behind]
    have stepped := supplies_before op (b := (intoTemp (.assign · operand) c).2)
      ⟨.refl _, supplies.ready.intoTemp fun _ => rfl⟩
    exact ⟨saved.carries.trans stepped.carries, stepped.carries.ready _ saved.ready⟩

mutual

theorem supplies_expr : (e : Expr) → (b : Builder) → Supplies b (expr e b).1 (expr e b).2
  | .int .., b | .float .., b | .string .., b | .char .., b | .bool .., b => .constant b _
  | .symbol name, b => supplies_name name.name b
  | .binary op left right _, b => by
    simp only [expr]
    split
    · exact supplies_store (supplies_expr right b) left
    · have first := supplies_expr left b
      have second := supplies_expr right (expr left b).2
      refine .intoTemp (first.carries.trans second.carries) (fun _ => rfl) (fun _ => rfl) ?_
      exact List.forall_mem_cons.mpr
        ⟨second.carries.ready _ first.ready, List.forall_mem_singleton.mpr second.ready⟩
  | .unary op operand side _, b => by
    have first := supplies_expr operand b
    simp only [expr]
    split
    · exact supplies_step op side first
    · exact .intoTemp first.carries (fun _ => rfl) (fun _ => rfl)
        (List.forall_mem_singleton.mpr first.ready)
  | .call callee args _, b => by
    obtain ⟨carries, ready⟩ := supplies_exprs args b
    exact .intoTemp carries (fun _ => rfl) (fun _ => rfl) ready
termination_by structural e => e

theorem supplies_exprs : (es : List Expr) → (b : Builder) →
    Carries b (exprs es b).2 ∧ ∀ o ∈ (exprs es b).1, (exprs es b).2.Ready o
  | [], b => ⟨.refl b, fun _ member => nomatch member⟩
  | e :: others, b => by
    have first := supplies_expr e b
    obtain ⟨carries, ready⟩ := supplies_exprs others (expr e b).2
    exact ⟨first.carries.trans carries,
      List.forall_mem_cons.mpr ⟨carries.ready _ first.ready, ready⟩⟩
termination_by structural es => es

end

theorem carries_tests {subject : Operand} {cases : List Case} {b : Builder}
    (ready : b.Ready subject) : Carries b (tests subject cases b).2 := by
  induction cases generalizing b with
  | nil => exact .refl b
  | cons arm others ih =>
    have value := supplies_expr arm.value b
    have kept := value.carries.ready subject ready
    have tested : Carries b ((expr arm.value b).2.newLabel.2.emit
        (.jumpIfEqual subject (expr arm.value b).1 (expr arm.value b).2.newLabel.1)) := by
      refine (value.carries.trans ⟨Orderly.newLabel, fun _ => id⟩).emit rfl nofun ?_
      exact List.forall_mem_cons.mpr ⟨kept, List.forall_mem_singleton.mpr value.ready⟩
    exact tested.trans (ih (tested.ready subject ready))

section

variable {b : Builder} (orderly : b.Orderly)

include orderly

theorem orderly_expr (e : Expr) : (expr e b).2.Orderly :=
  (supplies_expr e b).carries.orderly orderly

/-- An instruction that reads nothing but the value of an expression. -/
theorem orderly_reading (e : Expr) {i : Instruction} (noTemp : ∀ k, i.target? ≠ some (.temp k))
    (reads : i.reads = [(expr e b).1]) : ((expr e b).2.emit i).Orderly :=
  (orderly_expr orderly e).emit noTemp
    (reads ▸ List.forall_mem_singleton.mpr (supplies_expr e b).ready)

theorem orderly_repeatWhile (condition : Option Expr) (start : Label) :
    (repeatWhile condition start b).Orderly := by
  cases condition with
  | none => exact orderly.bare nofun rfl
  | some e => exact orderly_reading orderly e nofun rfl

theorem orderly_variableStatement (name : String) (initial : Option Expr) :
    (variableStatement name initial b).Orderly := by
  cases initial with
  | none => exact orderly.emit nofun (List.forall_mem_singleton.mpr (ready_constant b _))
  | some e => exact orderly_reading orderly e nofun rfl

theorem orderly_giveBack (value : Option Expr) : (giveBack value b).Orderly := by
  cases value with
  | none => exact orderly.bare nofun rfl
  | some e => exact orderly_reading orderly e nofun rfl

theorem orderly_leave : (leave b).Orderly := by
  unfold leave
  split
  · exact orderly
  · exact orderly.bare nofun rfl

theorem orderly_print (args : List Expr) : (print args b).Orderly := by
  obtain ⟨carries, ready⟩ := supplies_exprs args b
  exact (carries.orderly orderly).emit nofun ready

theorem orderly_effect (e : Expr) : (effect e b).Orderly := by
  cases e with
  | call callee args _ =>
    obtain ⟨carries, ready⟩ := supplies_exprs args b
    exact (carries.orderly orderly).emit nofun ready
  | _ => exact orderly_expr orderly _

theorem orderly_head (name : String) (params : List String) : (head name params b).Orderly := by
  have listed (names : List String) (c : Builder) (before : c.Orderly) :
      (names.foldl (fun b param => b.emit (.param param)) c).Orderly := by
    induction names generalizing c with
    | nil => exact before
    | cons first others ih => exact ih _ (before.bare (i := .param first) nofun rfl)
  have begun : (b.emit (.beginFunction name)).Orderly := orderly.bare nofun rfl
  exact listed params _ (begun.of_same rfl rfl)

theorem orderly_foot (name : String) {value : Option Operand}
    (ready : ∀ o ∈ value.toList, ∀ c : Builder, c.Ready o) : (foot name value b).Orderly := by
  have returned (returns : Bool) :
      (if returns = true then b else b.emit (.giveBack value)).Orderly := by
    cases returns with
    | true => exact orderly
    | false => exact orderly.emit nofun fun o member => ready o member b
  have left (returns : Bool) :
      (if returns = true then b else b.emit (.giveBack value)).leaveFunction.Orderly :=
    (returned returns).of_same rfl rfl
  exact (left _).bare nofun rfl

end

theorem ready_defaultOperand (ty : Ty) :
    ∀ o ∈ (if ty = .void then none else some defaultOperand).toList, ∀ c : Builder, c.Ready o := by
  split
  · exact fun _ member => nomatch member
  · exact List.forall_mem_singleton.mpr fun c => ready_constant c _

theorem orderly_lowered (loop : Loop) {b : Builder} (orderly : b.Orderly)
    (inside : ∀ c : Builder, c.Orderly → (block loop.body c).Orderly) :
    (loop.lowered b).Orderly := by
  have turned : (loop.turned b).Orderly := (inside _ (orderly.pushBreak loop.finish)).popBreak
  have advanced : (loop.advanced b).Orderly := by
    unfold Loop.advanced
    split
    · exact turned
    · split
      · exact turned.label _
      · exact orderly_expr (turned.label _) _
  have tested : (loop.tested b).Orderly := orderly_repeatWhile (advanced.label _) _ _
  exact tested.label _

theorem orderly_branched (e : Expr) {b : Builder} (orderly : b.Orderly) :
    (branched e b).Orderly :=
  (orderly_expr orderly e).newLabel.emit nofun
    (List.forall_mem_singleton.mpr (supplies_expr e b).ready)

/-- The subject of a switch is held through all its tests. -/
theorem orderly_switched (e : Expr) (cases : List Case) (fallback : Option Block) {b : Builder}
    (orderly : b.Orderly) : (switched e cases fallback b).begun.Orderly := by
  have subject := supplies_expr e b
  have tested : (tests (expr e b).1 cases (expr e b).2.newLabel.2).2.Orderly :=
    (carries_tests (b := (expr e b).2.newLabel.2) subject.ready).orderly
      (orderly_expr orderly e).newLabel
  have led (l : Label) : (otherwise fallback l
      (tests (expr e b).1 cases (expr e b).2.newLabel.2).2).2.Orderly := by
    cases fallback with
    | none => exact tested
    | some _ => exact tested.newLabel
  exact ((led _).jump _).pushBreak _

mutual

theorem orderly_stmt : (s : Stmt) → {b : Builder} → b.Orderly → (stmt s b).Orderly
  | .variable _ name initial _, _, orderly => orderly_variableStatement orderly name initial
  | .prototype .., _, orderly | .inclusion .., _, orderly => orderly
  | .enumeration .., _, orderly => orderly.of_same rfl rfl
  | .function ty name _ body _, _, orderly =>
    orderly_foot (orderly_block body (orderly_head orderly name _)) name (ready_defaultOperand ty)
  | .main body _, _, orderly =>
    orderly_foot (orderly_block body (orderly_head orderly "main" [])) "main"
      (ready_defaultOperand .int)
  | .block body, _, orderly => orderly_block body orderly
  | .branch e yes none _, _, orderly =>
    (orderly_block yes (orderly_branched e orderly)).label _
  | .branch e yes (some no) _, _, orderly => by
    have passed := (orderly_block yes (orderly_branched e orderly)).newLabel
    exact (orderly_block no ((passed.jump _).label _)).label _
  | .whileLoop e body _, _, orderly => by
    rw [stmt_whileLoop]
    exact orderly_lowered _ ((orderly.newLabel.newLabel.newLabel.jump _).label _)
      fun _ => orderly_block body
  | .doLoop body e _, _, orderly => by
    rw [stmt_doLoop]
    exact orderly_lowered _ (orderly.newLabel.newLabel.newLabel.label _)
      fun _ => orderly_block body
  | .forLoop initial e update body _, b, orderly => by
    have begun : (stmts initial.toList b).Orderly := by
      cases initial with
      | none => exact orderly
      | some initial => exact orderly_stmt initial orderly
    rw [stmt_forLoop]
    exact orderly_lowered _
      ((begun.newLabel.newLabel.newLabel.newLabel.jump _).label _)
      fun _ => orderly_block body
  | .switch e cases fallback _, b, orderly => by
    rw [stmt_switched]
    have chosen := orderly_arms cases (switched e cases fallback b).finish
      (switched e cases fallback b).labels (orderly_switched e cases fallback orderly)
    cases fallback with
    | none => exact chosen.popBreak.label _
    | some fallback => exact (orderly_block fallback (chosen.label _)).popBreak.label _
  | .giveBack value _, _, orderly => orderly_giveBack orderly value
  | .leave _, _, orderly => orderly_leave orderly
  | .print args _, _, orderly => orderly_print orderly args
  | .evaluate e _, _, orderly => orderly_effect orderly e
termination_by structural s => s

theorem orderly_block : (body : Block) → {b : Builder} → b.Orderly → (block body b).Orderly
  | ⟨body, _⟩, _, orderly => orderly_stmts body orderly
termination_by structural body => body

theorem orderly_stmts : (body : List Stmt) → {b : Builder} → b.Orderly → (stmts body b).Orderly
  | [], _, orderly => orderly
  | s :: others, _, orderly => orderly_stmts others (orderly_stmt s orderly)
termination_by structural body => body

theorem orderly_arms : (cases : List Case) → (finish : Label) → (labels : List Label) →
    {b : Builder} → b.Orderly → (arms finish labels cases b).Orderly
  | [], _, _, _, orderly | ⟨_, _, _⟩ :: _, _, [], _, orderly => orderly
  | ⟨_, body, _⟩ :: others, finish, _ :: labels, _, orderly =>
    orderly_arms others finish labels ((orderly_block body (orderly.label _)).jump _)
termination_by structural cases => cases

end

end Lowering

/-- The temporaries of any program, checked or not, are assigned once and before they are read. -/
theorem singleAssigned_program (p : Program) :
    SingleAssigned (Lowering.stmts p.body .empty).temps (Lowering.program p) := by
  have orderly := Lowering.orderly_stmts p.body Builder.orderly_empty
  have assigned (i : Instruction) (k : Nat) (member : i ∈ Lowering.program p)
      (assigns : i.assigns k) : k < (Lowering.stmts p.body .empty).temps := by
    have positive : 0 < (Lowering.program p).countP (Instruction.assigns k) :=
      List.countP_pos_iff.mpr ⟨i, member, assigns⟩
    have counted : (Lowering.program p).countP (Instruction.assigns k) = _ := orderly.counted k
    rw [counted] at positive
    exact Decidable.byContradiction fun beyond => by simp [beyond] at positive
  have plain {i : Instruction} {k : Nat} (read : .temp k ∈ i.reads) : i.isMark = false := by
    cases i <;> first | rfl | exact nomatch read
  refine ⟨fun k within => ?_, fun i member k occurs => ?_, orderly.held, ?_⟩
  · exact (orderly.counted k).trans (if_pos within)
  · rcases List.mem_append.mp occurs with target | read
    · exact assigned i k member (by simpa [Instruction.assigns] using target)
    · obtain ⟨there, here⟩ := List.mem_iff_getElem?.mp member
      obtain ⟨d, before, assigns⟩ := (orderly.held there i k here read).exists_assigns
      exact assigned d k (List.mem_of_mem_take before) assigns
  · intro there i k here read
    refine (orderly.held there i k here read).dominates fun j same => ?_
    obtain rfl := Option.some.inj (here.symm.trans same)
    exact plain read

end Curly
