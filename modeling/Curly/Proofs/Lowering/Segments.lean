import Curly.Proofs.Lowering.Breaks

/-! The functions around a place in the code. Every jump leads to a label that is placed once, in
the function around the jump, and the functions end in the order in which they begin. -/
namespace Curly

/-- The functions around a place, innermost first: where each one begins, and its name. -/
abbrev Functions := List (Nat × String)

namespace Instruction

def destination? : Instruction → Option Label
  | .jump l | .jumpIfFalse _ l | .jumpIfTrue _ l | .jumpIfEqual _ _ l => some l
  | _ => none

/-- The functions around the place behind an instruction. -/
def pass (i : Instruction) (place : Nat) (around : Functions) : Functions :=
  match i with
  | .beginFunction name => (place, name) :: around
  | .endFunction _ => around.tail
  | _ => around

/-- Whether an instruction stays in its function and leads to the next one. -/
def isPlain : Instruction → Bool
  | .beginFunction _ | .endFunction _ => false
  | i => i.destination?.isNone

variable {i : Instruction}

theorem pass_of_isPlain (plain : i.isPlain) (place : Nat) (around : Functions) :
    i.pass place around = around := by
  cases i <;> simp_all [isPlain, pass]

theorem destination?_of_isPlain (plain : i.isPlain) : i.destination? = none := by
  cases i <;> simp_all [isPlain, destination?]

theorem pass_of_destination? {l : Label} (leads : i.destination? = some l) (place : Nat)
    (around : Functions) : i.pass place around = around := by
  cases i <;> simp_all [destination?, pass]

end Instruction

/-- Each instruction of some code with the functions around it. -/
def located : (place : Nat) → (around : Functions) → List Instruction →
    List (Instruction × Functions)
  | _, _, [] => []
  | place, around, i :: code => (i, around) :: located (place + 1) (i.pass place around) code

/-- The functions around the place behind some code. -/
def openBehind : (place : Nat) → (around : Functions) → List Instruction → Functions
  | _, around, [] => around
  | place, around, i :: code => openBehind (place + 1) (i.pass place around) code

theorem located_append (place : Nat) (around : Functions) (code more : List Instruction) :
    located place around (code ++ more) =
      located place around code ++
        located (place + code.length) (openBehind place around code) more := by
  induction code generalizing place around with
  | nil => rfl
  | cons i code ih => simp [located, openBehind, ih, Nat.add_assoc, Nat.add_comm 1]

theorem openBehind_append (place : Nat) (around : Functions) (code more : List Instruction) :
    openBehind place around (code ++ more) =
      openBehind (place + code.length) (openBehind place around code) more := by
  induction code generalizing place around with
  | nil => rfl
  | cons i code ih => simp [openBehind, ih, Nat.add_assoc, Nat.add_comm 1]

namespace Builder

def located (b : Builder) : List (Instruction × Functions) :=
  Curly.located 0 [] b.code.toList

/-- The functions around the place that lowering has come to. -/
def around (b : Builder) : Functions :=
  openBehind 0 [] b.code.toList

@[simp] theorem located_emit (b : Builder) (i : Instruction) :
    (b.emit i).located = b.located ++ [(i, b.around)] := by
  simp [located, emit, located_append, Curly.located, around]

@[simp] theorem around_emit (b : Builder) (i : Instruction) :
    (b.emit i).around = i.pass b.code.size b.around := by
  simp [emit, openBehind_append, openBehind, around]

theorem label_located (b : Builder) (l : Label) :
    (.label l, b.around) ∈ (b.emit (.label l)).located := by
  simp

end Builder

namespace Lowering

open Builder

/-- Behind the first builder, every jump leads to a label in its own function or to a pending one,
and every end of a function is that of the innermost one. -/
structure Settles (pending : Label → Functions → Prop) (b c : Builder) : Prop where
  kept : b.located ⊆ c.located
  lands : ∀ i around l, (i, around) ∈ c.located → i.destination? = some l →
    (i, around) ∈ b.located ∨ (.label l, around) ∈ c.located ∨ pending l around
  closes : ∀ name around, (.endFunction name, around) ∈ c.located →
    (.endFunction name, around) ∈ b.located ∨ ∃ place others, around = (place, name) :: others

namespace Settles

variable {pending more : Label → Functions → Prop} {b c d : Builder}

theorem of_same (same : c.code = b.code) : Settles pending b c := by
  have located : c.located = b.located := by simp [Builder.located, same]
  exact ⟨located ▸ List.Subset.refl _, fun _ _ _ member _ => .inl (located ▸ member),
    fun _ _ member => .inl (located ▸ member)⟩

theorem trans (first : Settles pending b c) (second : Settles pending c d) :
    Settles pending b d := by
  refine ⟨fun _ member => second.kept (first.kept member), ?_, ?_⟩
  · intro i around l member leads
    rcases second.lands i around l member leads with old | new
    · rcases first.lands i around l old leads with older | here | waits
      · exact .inl older
      · exact .inr (.inl (second.kept here))
      · exact .inr (.inr waits)
    · exact .inr new
  · intro name around member
    rcases second.closes name around member with old | new
    · exact first.closes name around old
    · exact .inr new

/-- A pending label may be there by now. -/
theorem settle (settles : Settles pending b c)
    (placed : ∀ l around, pending l around → (.label l, around) ∈ c.located ∨ more l around) :
    Settles more b c := by
  refine ⟨settles.kept, fun i around l member leads => ?_, settles.closes⟩
  rcases settles.lands i around l member leads with old | here | waits
  · exact .inl old
  · exact .inr (.inl here)
  · exact .inr (placed l around waits)

theorem emit (i : Instruction)
    (leads : ∀ l, i.destination? = some l → pending l b.around)
    (closes : ∀ name, i = .endFunction name → ∃ place others, b.around = (place, name) :: others) :
    Settles pending b (b.emit i) := by
  refine ⟨by simp, fun j around l member goes => ?_, fun name around member => ?_⟩
  · rw [located_emit, List.mem_append, List.mem_singleton] at member
    rcases member with old | ⟨rfl, rfl⟩
    · exact .inl old
    · exact .inr (.inr (leads l goes))
  · rw [located_emit, List.mem_append, List.mem_singleton] at member
    rcases member with old | new
    · exact .inl old
    · obtain ⟨rfl, rfl⟩ := Prod.mk.inj new
      exact .inr (closes name rfl)

end Settles

/-- What lies between the builders stays in its function. Its jumps lead to labels in it or to
pending ones. -/
structure Lands (pending : Label → Prop) (b c : Builder) : Prop where
  around : c.around = b.around
  settles : Settles (fun l around => around = b.around ∧ pending l) b c

namespace Lands

variable {pending more : Label → Prop} {b c d : Builder} {l : Label} {i : Instruction}

theorem of_same (same : c.code = b.code) : Lands pending b c :=
  ⟨by simp [Builder.around, same], .of_same same⟩

theorem refl (b : Builder) : Lands pending b b :=
  .of_same rfl

theorem trans (first : Lands pending b c) (second : Lands pending c d) : Lands pending b d := by
  refine ⟨second.around.trans first.around, first.settles.trans ?_⟩
  exact second.settles.settle fun l around waits => .inr ⟨waits.1.trans first.around, waits.2⟩

theorem settle (lands : Lands pending b c)
    (placed : ∀ l, pending l → (.label l, b.around) ∈ c.located ∨ more l) : Lands more b c := by
  refine ⟨lands.around, lands.settles.settle fun l around waits => ?_⟩
  rcases placed l waits.2 with here | later
  · exact .inl (waits.1 ▸ here)
  · exact .inr ⟨waits.1, later⟩

theorem mono (lands : Lands pending b c) (weaker : ∀ l, pending l → more l) : Lands more b c :=
  lands.settle fun l waits => .inr (weaker l waits)

theorem emit (lands : Lands pending b c) (plain : i.isPlain) : Lands pending b (c.emit i) := by
  refine lands.trans ⟨by rw [around_emit, Instruction.pass_of_isPlain plain], .emit i ?_ ?_⟩
  · intro l leads
    simp [Instruction.destination?_of_isPlain plain] at leads
  · rintro name rfl
    simp [Instruction.isPlain] at plain

theorem jump (lands : Lands pending b c) (leads : i.destination? = some l) (waits : pending l) :
    Lands pending b (c.emit i) := by
  refine lands.trans ⟨by rw [around_emit, Instruction.pass_of_destination? leads], .emit i ?_ ?_⟩
  · intro m goes
    obtain rfl : l = m := by simpa [leads] using goes
    exact ⟨rfl, waits⟩
  · rintro name rfl
    exact nomatch leads

theorem newLabel (lands : Lands pending b c) : Lands pending b c.newLabel.2 :=
  lands.trans (.of_same rfl)

theorem newTemp (lands : Lands pending b c) : Lands pending b c.newTemp.2 :=
  lands.trans (.of_same rfl)

theorem pushBreak (lands : Lands pending b c) (l : Label) : Lands pending b (c.pushBreak l) :=
  lands.trans (.of_same rfl)

theorem popBreak (lands : Lands pending b c) : Lands pending b c.popBreak :=
  lands.trans (.of_same rfl)

theorem intoTemp (lands : Lands pending b c) {instruction : Operand → Instruction}
    (plain : ∀ o, (instruction o).isPlain) : Lands pending b (intoTemp instruction c).2 :=
  lands.newTemp.emit (plain _)

/-- A label that is placed next stands in the same function. -/
theorem here (lands : Lands pending b c) (l : Label) :
    (.label l, b.around) ∈ (c.emit (.label l)).located :=
  lands.around ▸ label_located c l

end Lands

section

variable {pending : Label → Prop}

theorem lands_store (target : Expr) (value : Operand) (b : Builder) :
    Lands pending b (store target value b).2 := by
  cases target with
  | symbol name => exact (Lands.refl b).emit rfl
  | _ => exact Lands.refl b

theorem lands_step (op : UnaryOp) (side : Side) (operand : Operand) (b : Builder) :
    Lands pending b (step op side operand b).2 := by
  have before (c : Builder) : Lands pending c (step op .before operand c).2 := by
    have updated : Lands pending c
        (intoTemp (.binary · (stepSpelling op) operand (intOperand 1)) c).2 :=
      (Lands.refl c).intoTemp fun _ => rfl
    rw [step_before]
    dsimp only
    split
    · exact updated.emit rfl
    · exact updated
  cases side with
  | before => exact before b
  | behind =>
    rw [step_behind]
    have saved : Lands pending b (intoTemp (.assign · operand) b).2 :=
      (Lands.refl b).intoTemp fun _ => rfl
    exact saved.trans (before _)

mutual

theorem lands_expr : (e : Expr) → (b : Builder) → Lands pending b (expr e b).2
  | .int .., b | .float .., b | .string .., b | .char .., b | .bool .., b | .symbol _, b =>
    Lands.refl b
  | .binary op left right _, b => by
    simp only [expr]
    split
    · exact (lands_expr right b).trans (lands_store _ _ _)
    · exact ((lands_expr left b).trans (lands_expr right _)).intoTemp fun _ => rfl
  | .unary op operand side _, b => by
    simp only [expr]
    split
    · exact (lands_expr operand b).trans (lands_step _ _ _ _)
    · exact (lands_expr operand b).intoTemp fun _ => rfl
  | .call callee args _, b => (lands_exprs args b).intoTemp fun _ => rfl
termination_by structural e => e

theorem lands_exprs : (es : List Expr) → (b : Builder) → Lands pending b (exprs es b).2
  | [], b => Lands.refl b
  | e :: others, b => (lands_expr e b).trans (lands_exprs others _)
termination_by structural es => es

end

theorem lands_variableStatement (name : String) (initial : Option Expr) (b : Builder) :
    Lands pending b (variableStatement name initial b) := by
  cases initial with
  | none => exact (Lands.refl b).emit rfl
  | some e => exact (lands_expr e b).emit rfl

theorem lands_giveBack (value : Option Expr) (b : Builder) :
    Lands pending b (giveBack value b) := by
  cases value with
  | none => exact (Lands.refl b).emit rfl
  | some e => exact (lands_expr e b).emit rfl

theorem lands_print (args : List Expr) (b : Builder) : Lands pending b (print args b) :=
  (lands_exprs args b).emit rfl

theorem lands_effect (e : Expr) (b : Builder) : Lands pending b (effect e b) := by
  cases e with
  | call callee args _ => exact (lands_exprs args b).emit rfl
  | _ => exact lands_expr _ b

theorem lands_leave (b : Builder) : Lands (fun l => b.break? = some l) b (leave b) := by
  unfold leave
  split
  · exact Lands.refl b
  · exact (Lands.refl b).jump rfl ‹_›

theorem lands_repeatWhile (condition : Option Expr) (start : Label) (b : Builder) :
    Lands (· = start) b (repeatWhile condition start b) := by
  cases condition with
  | none => exact (Lands.refl b).jump rfl rfl
  | some e => exact (lands_expr e b).jump rfl rfl

theorem lands_tests (subject : Operand) (cases : List Case) (b : Builder) :
    Lands (· ∈ (tests subject cases b).1) b (tests subject cases b).2 := by
  induction cases generalizing b with
  | nil => exact Lands.refl b
  | cons arm others ih =>
    have first : Lands (· ∈ (tests subject (arm :: others) b).1) b
        ((expr arm.value b).2.newLabel.2.emit
          (.jumpIfEqual subject (expr arm.value b).1 (expr arm.value b).2.newLabel.1)) :=
      (lands_expr arm.value b).newLabel.jump rfl (.head _)
    exact first.trans ((ih _).mono fun _ => .tail _)

theorem lands_advanced (loop : Loop) (b : Builder) :
    Lands pending (loop.turned b) (loop.advanced b) := by
  unfold Loop.advanced
  split
  · exact Lands.refl _
  · split
    · exact (Lands.refl _).emit rfl
    · exact ((Lands.refl _).emit rfl).trans (lands_expr _ _)

/-- A loop places all the labels that its jumps lead to. -/
theorem lands_lowered (loop : Loop) {b c : Builder}
    (inside : Lands (· = loop.finish) (c.pushBreak loop.finish)
      (block loop.body (c.pushBreak loop.finish)))
    (begun : Lands (· = loop.test) b c) (started : (.label loop.start, b.around) ∈ c.located) :
    Lands pending b (loop.lowered c) := by
  have turned : Lands (· = loop.finish) c (loop.turned c) :=
    (((Lands.refl c).pushBreak _).trans inside).popBreak
  have tested : Lands (· = loop.start) ((loop.advanced c).emit (.label loop.test))
      ((loop.tested c).emit (.label loop.finish)) :=
    (lands_repeatWhile loop.condition loop.start _).emit rfl
  let own (l : Label) : Prop := l = loop.test ∨ l = loop.finish ∨ l = loop.start
  have advanced : Lands own b (loop.advanced c) :=
    ((begun.mono fun _ => .inl).trans (turned.mono fun _ same => .inr (.inl same))).trans
      (lands_advanced loop c)
  have whole : Lands own b (loop.lowered c) :=
    (advanced.emit rfl).trans (tested.mono fun _ same => .inr (.inr same))
  have behind : Lands own c (loop.lowered c) :=
    (((turned.mono fun _ same => .inr (.inl same)).trans (lands_advanced loop c)).emit rfl).trans
      (tested.mono fun _ same => .inr (.inr same))
  refine whole.settle fun l waits => .inl ?_
  rcases waits with rfl | rfl | rfl
  · exact tested.settles.kept (advanced.here _)
  · exact ((advanced.emit rfl).trans
      ((lands_repeatWhile _ _ _).mono fun _ same => .inr (.inr same))).here _
  · exact behind.settles.kept started

theorem lands_params (names : List String) (b : Builder) :
    Lands pending b (names.foldl (fun b param => b.emit (.param param)) b) := by
  induction names generalizing b with
  | nil => exact Lands.refl b
  | cons first others ih => exact ((Lands.refl b).emit rfl).trans (ih _)

/-- A function begins and ends around its body. -/
theorem lands_function (name : String) (params : List String) (value : Option Operand)
    {body : Block} (b : Builder)
    (inside : Lands (fun _ => False) (head name params b) (block body (head name params b))) :
    Lands pending b (foot name value (block body (head name params b))) := by
  let c := (b.emit (.beginFunction name)).enterFunction params
  let d := block body (head name params b)
  let returned (returns : Bool) := (if returns then d else d.emit (.giveBack value)).leaveFunction
  have within (returns : Bool) : Lands (fun _ => False) c (returned returns) := by
    have ended : Lands (fun _ => False) c d := (lands_params params c).trans inside
    cases returns with
    | true => exact ended.trans (.of_same rfl)
    | false => exact (ended.emit rfl).trans (.of_same rfl)
  have entered : c.around = (b.code.size, name) :: b.around := around_emit b (.beginFunction name)
  have whole (returns : Bool) : Lands pending b ((returned returns).emit (.endFunction name)) := by
    have around := (within returns).around.trans entered
    refine ⟨by rw [around_emit, around]; rfl, ?_⟩
    have begun : Settles (fun _ _ => False) b c :=
      (Settles.emit (.beginFunction name) (fun _ leads => nomatch leads)
        (fun _ same => nomatch same)).trans (.of_same rfl)
    have ended : Settles (fun _ _ => False) (returned returns)
        ((returned returns).emit (.endFunction name)) := by
      refine .emit _ (fun _ leads => nomatch leads) ?_
      rintro _ ⟨⟩
      exact ⟨_, _, around⟩
    have between : Settles (fun _ _ => False) c (returned returns) :=
      (within returns).settles.settle fun _ _ waits => waits.2.elim
    exact ((begun.trans between).trans ended).settle fun _ _ waits => waits.elim
  exact whole _

theorem lands_forLoop {e update : Option Expr} {body : Block} {b : Builder}
    (inside : ∀ c : Builder, Lands (· = (forLoop e update body b.labels).finish)
      (c.pushBreak (forLoop e update body b.labels).finish)
      (block body (c.pushBreak (forLoop e update body b.labels).finish))) :
    let loop := forLoop e update body b.labels
    Lands pending b (loop.lowered
      ((b.newLabel.2.newLabel.2.newLabel.2.newLabel.2.emit (.jump loop.test)).emit
        (.label loop.start))) := by
  intro loop
  have begun : Lands (· = loop.test) b
      (b.newLabel.2.newLabel.2.newLabel.2.newLabel.2.emit (.jump loop.test)) :=
    (Lands.refl b).newLabel.newLabel.newLabel.newLabel.jump rfl rfl
  exact lands_lowered loop (inside _) (begun.emit rfl) (begun.here _)

/-- Where a break leads, if there may be one. -/
def Out (inside : Bool) (b : Builder) (l : Label) : Prop :=
  inside ∧ b.break? = some l

theorem Forgets.out {all inside : Bool} {b c : Builder} (forgets : Forgets all b c) (l : Label)
    (out : Out inside c l) : Out inside b l := by
  refine ⟨out.1, ?_⟩
  have target := out.2
  rw [Forgets] at forgets
  cases all <;> simp_all [break?]

theorem out_pushBreak {inside : Bool} {b : Builder} {finish : Label} (l : Label)
    (out : Out inside (b.pushBreak finish) l) : l = finish :=
  (Option.some.inj out.2).symm

theorem lands_branch {e : Expr} {yes : Block} {b : Builder}
    (inside : Lands pending (branched e b) (block yes (branched e b))) :
    Lands (fun l => l = (expr e b).2.newLabel.1 ∨ pending l) b (block yes (branched e b)) :=
  ((lands_expr e b).newLabel.jump rfl (.inl rfl)).trans (inside.mono fun _ => .inr)

theorem lands_branchElse {inside all : Bool} {e : Expr} {yes no : Block} {b : Builder}
    (first : Lands (Out inside (branched e b)) (branched e b) (block yes (branched e b)))
    (forgets : Forgets all (branched e b) (block yes (branched e b)))
    (second : Lands (Out inside (turnedAway e yes b)) (turnedAway e yes b)
      (block no (turnedAway e yes b))) (span : Span) :
    Lands (Out inside b) b (stmt (.branch e yes (some no) span) b) := by
  have begun : Forgets false b (branched e b) := (straight_expr e b).breaks
  have passed : Forgets all (branched e b) (turnedAway e yes b) := forgets
  let otherwise := (expr e b).2.newLabel.1
  let finish := (block yes (branched e b)).newLabel.1
  let own (l : Label) : Prop := l = finish ∨ l = otherwise ∨ Out inside b l
  have yes' : Lands own b ((block yes (branched e b)).newLabel.2.emit (.jump finish)) :=
    ((lands_branch first).mono fun l waits => .inr (waits.imp_right (begun.out l))).newLabel.jump
      rfl (.inl rfl)
  have no' : Lands own (turnedAway e yes b) (block no (turnedAway e yes b)) :=
    second.mono fun l out => .inr (.inr (begun.out l (passed.out l out)))
  have whole : Lands own b (block no (turnedAway e yes b)) := (yes'.emit rfl).trans no'
  refine (whole.emit rfl).settle fun l waits => ?_
  rcases waits with rfl | rfl | out
  · exact .inl (whole.here _)
  · have placed := yes'.here otherwise
    exact .inl ((no'.emit rfl).settles.kept placed)
  · exact .inr out

/-- The tests of a switch lead to its arms, or past them. -/
theorem lands_switched (e : Expr) (cases : List Case) (fallback : Option Block) (b : Builder) :
    Lands (fun l => l ∈ (switched e cases fallback b).labels ∨
        l = (switched e cases fallback b).otherwise) b (switched e cases fallback b).begun := by
  have tested := (lands_expr e b).newLabel.trans
    (lands_tests (expr e b).1 cases (expr e b).2.newLabel.2)
  have led : Lands (fun l => l ∈ (switched e cases fallback b).labels ∨
      l = (switched e cases fallback b).otherwise) b
        (tests (expr e b).1 cases (expr e b).2.newLabel.2).2 := tested.mono fun _ => .inl
  cases fallback with
  | none => exact (led.jump rfl (.inr rfl)).pushBreak _
  | some fallback => exact (led.newLabel.jump rfl (.inr rfl)).pushBreak _

/-- The arms of a switch, at their labels. -/
structure LandsArms (finish : Label) (labels : List Label) (b c : Builder) : Prop where
  lands : Lands (fun l => l = finish ∨ Out true b l) b c
  placed : ∀ l ∈ labels, (.label l, b.around) ∈ c.located

/-- What stands behind the arms of a switch, and is led to if none is chosen. -/
structure LandsLast (finish l : Label) (b c : Builder) : Prop where
  lands : Lands (· = finish) b c
  placed : l = finish ∨ (.label l, b.around) ∈ c.located

theorem lands_switch {e : Expr} {cases : List Case} {fallback : Option Block} (span : Span)
    {b : Builder}
    (chosen : LandsArms (switched e cases fallback b).finish (switched e cases fallback b).labels
      (switched e cases fallback b).begun
      (arms (switched e cases fallback b).finish (switched e cases fallback b).labels cases
        (switched e cases fallback b).begun))
    (last : ∀ c, c = arms (switched e cases fallback b).finish (switched e cases fallback b).labels
      cases (switched e cases fallback b).begun →
      LandsLast (switched e cases fallback b).finish (switched e cases fallback b).otherwise c
        (lastArm fallback (switched e cases fallback b).otherwise c)) :
    Lands pending b (stmt (.switch e cases fallback span) b) := by
  let switch := switched e cases fallback b
  let chose := arms switch.finish switch.labels cases switch.begun
  let fell := lastArm fallback switch.otherwise chose
  have begun := lands_switched e cases fallback b
  have armed : Lands (· = switch.finish) switch.begun chose :=
    chosen.lands.mono fun l waits => waits.elim id (out_pushBreak l)
  have ended : Lands (· = switch.finish) chose (fell.popBreak.emit (.label switch.finish)) :=
    (last chose rfl).lands.popBreak.emit rfl
  let own (l : Label) : Prop :=
    (l ∈ switch.labels ∨ l = switch.otherwise) ∨ l = switch.finish
  have whole : Lands own b fell.popBreak :=
    (begun.mono fun _ => .inl).trans ((armed.trans (last chose rfl).lands).popBreak.mono
      fun _ => .inr)
  have around : chose.around = b.around := armed.around.trans begun.around
  have finished := whole.here switch.finish
  rw [stmt_switched]
  refine (whole.emit rfl).settle fun l waits => .inl ?_
  rcases waits with (member | rfl) | rfl
  · exact ended.settles.kept (begun.around ▸ chosen.placed l member)
  · rcases (last chose rfl).placed with same | placed
    · exact same ▸ finished
    · have kept : Lands own fell (fell.popBreak.emit (.label switch.finish)) :=
        (Lands.refl fell).popBreak.emit rfl
      exact kept.settles.kept (around ▸ placed)
  · exact finished

end

mutual

theorem lands_stmt : (s : Stmt) → (inside : Bool) → s.BreaksInside inside → (b : Builder) →
    Lands (Out inside b) b (stmt s b)
  | .variable _ name initial _, _, _, b => lands_variableStatement name initial b
  | .prototype .., _, _, b | .inclusion .., _, _, b => Lands.refl b
  | .enumeration .., _, _, b => .of_same rfl
  | .function _ name ps body _, _, inside, b =>
    lands_function name _ _ b ((lands_block body false inside _).mono fun _ out => nomatch out.1)
  | .main body _, _, inside, b =>
    lands_function "main" [] _ b ((lands_block body false inside _).mono fun _ out => nomatch out.1)
  | .block body, inside, within, b => lands_block body inside within b
  | .branch e yes none _, inside, within, b => by
    have begun : Forgets false b (branched e b) := (straight_expr e b).breaks
    have first := lands_branch (lands_block yes inside within.1 (branched e b))
    refine (first.emit rfl).settle fun l waits => ?_
    rcases waits with rfl | out
    · exact .inl (first.here _)
    · exact .inr (begun.out l out)
  | .branch e yes (some no) _, inside, within, b => by
    exact lands_branchElse (lands_block yes inside within.1 _) (forgets_block yes _)
      (lands_block no inside within.2 _) _
  | .whileLoop e body _, _, within, b => by
    rw [stmt_whileLoop]
    have begun : Lands (· = ⟨b.labels + 1⟩) b _ :=
      (Lands.refl b).newLabel.newLabel.newLabel.jump (i := .jump ⟨b.labels + 1⟩) rfl rfl
    refine lands_lowered _ ?_ (begun.emit rfl) (begun.here _)
    exact (lands_block body true within _).mono out_pushBreak
  | .doLoop body e _, _, within, b => by
    rw [stmt_doLoop]
    have begun : Lands (· = (whileLoop e body b.labels).test) b _ :=
      (Lands.refl b).newLabel.newLabel.newLabel
    refine lands_lowered _ ?_ (begun.emit rfl) (begun.here _)
    exact (lands_block body true within _).mono out_pushBreak
  | .forLoop none e update body _, inside, within, b => by
    rw [stmt_forLoop]
    exact lands_forLoop fun c => (lands_block body true within.2 _).mono out_pushBreak
  | .forLoop (some initial) e update body _, inside, within, b => by
    rw [stmt_forLoop]
    exact (lands_stmt initial inside within.1 b).trans
      (lands_forLoop fun c => (lands_block body true within.2 _).mono out_pushBreak)
  | .switch e cases none span, _, within, b =>
    lands_switch span (lands_arms cases within.1 _ _ _ (switched_labels ..)) fun c _ =>
      ⟨Lands.refl c, .inl rfl⟩
  | .switch e cases (some fallback) span, _, within, b => by
    have sized := switched_labels e cases (some fallback) b
    refine lands_switch span (lands_arms cases within.1 _ _ _ sized) fun c chose => ?_
    have forgets := forgets_arms cases (switched e cases (some fallback) b).finish _
      (switched e cases (some fallback) b).begun sized
    let l := (switched e cases (some fallback) b).otherwise
    have last : Lands (· = (switched e cases (some fallback) b).finish) (c.emit (.label l))
        (block fallback (c.emit (.label l))) :=
      (lands_block fallback true within.2 _).mono fun m out =>
        out_pushBreak m (forgets.out m (chose ▸ out))
    exact ⟨((Lands.refl c).emit rfl).trans last, .inr (last.settles.kept (label_located c l))⟩
  | .giveBack value _, _, _, b => lands_giveBack value b
  | .leave _, _, inside, b => (lands_leave b).mono fun _ target => ⟨inside, target⟩
  | .print args _, _, _, b => lands_print args b
  | .evaluate e _, _, _, b => lands_effect e b
termination_by structural s => s

theorem lands_block : (body : Block) → (inside : Bool) → body.BreaksInside inside →
    (b : Builder) → Lands (Out inside b) b (block body b)
  | ⟨body, _⟩, inside, within, b => lands_stmts body inside within b
termination_by structural body => body

theorem lands_stmts : (body : List Stmt) → (inside : Bool) → BodyBreaksInside body inside →
    (b : Builder) → Lands (Out inside b) b (stmts body b)
  | [], _, _, b => Lands.refl b
  | s :: others, inside, within, b =>
    (lands_stmt s inside within.1 b).trans
      ((lands_stmts others inside within.2 _).mono (forgets_stmt s b).out)
termination_by structural body => body

theorem lands_arms : (cases : List Case) → ArmsBreakInside cases → (finish : Label) →
    (labels : List Label) → (b : Builder) → labels.length = cases.length →
    LandsArms finish labels b (arms finish labels cases b)
  | [], _, _, [], b, _ => ⟨Lands.refl b, fun _ member => nomatch member⟩
  | ⟨_, body, _⟩ :: others, within, finish, l :: labels, b, same => by
    let own (m : Label) : Prop := m = finish ∨ Out true b m
    let c := (block body (b.emit (.label l))).emit (.jump finish)
    have passed : Forgets body.definesFunction b c := forgets_block body (b.emit (.label l))
    have inner : Lands own (b.emit (.label l)) c :=
      ((lands_block body true within.1 (b.emit (.label l))).mono fun _ => .inr).jump rfl (.inl rfl)
    have first : Lands own b c := ((Lands.refl b).emit rfl).trans inner
    have rest := lands_arms others within.2 finish labels c (Nat.succ.inj same)
    refine ⟨first.trans (rest.lands.mono fun m waits => waits.imp_right (passed.out m)), ?_⟩
    rintro m (_ | ⟨_, member⟩)
    · exact rest.lands.settles.kept (inner.settles.kept (label_located b l))
    · exact first.around ▸ rest.placed m member
termination_by structural cases => cases

end

end Lowering

/-- Each of the first labels is placed once and no other one is. Every jump leads to a label in the
function around it, and functions end in the reverse order of their beginnings. -/
structure WellPlaced (labels : Nat) (code : List Instruction) : Prop where
  once : ∀ l, code.count (.label l) = if l.index < labels then 1 else 0
  lands : ∀ i around l, (i, around) ∈ located 0 [] code → i.destination? = some l →
    (.label l, around) ∈ located 0 [] code
  closes : ∀ name around, (.endFunction name, around) ∈ located 0 [] code →
    ∃ place others, around = (place, name) :: others
  closed : openBehind 0 [] code = []

/-- The code of a program without type errors is well placed. -/
theorem wellPlaced_program {p : Program} (typed : typeCheck p = []) :
    WellPlaced (Lowering.stmts p.body .empty).labels (Lowering.program p) := by
  have placed := Lowering.placed_stmts p.body .empty
  have lands := Lowering.lands_stmts p.body false (Checker.breaksInside_of_typeCheck typed) .empty
  constructor
  · rintro ⟨index⟩
    have none : Builder.empty.placed index = 0 := rfl
    have first : Builder.empty.labels = 0 := rfl
    refine (placed index).trans ?_
    rw [none, first]
    by_cases within : index < (Lowering.stmts p.body .empty).labels <;> simp [within]
  · intro i around l member leads
    rcases lands.settles.lands i around l member leads with before | here | waits
    · exact nomatch before
    · exact here
    · exact nomatch waits.2.1
  · intro name around member
    rcases lands.settles.closes name around member with before | closes
    · exact nomatch before
    · exact closes
  · exact lands.around

/-- A switch in a loop of the main function, and a function in one of its arms. -/
def choosingProgram (span : Span) : Program :=
  let block (body : List Stmt) : Block := ⟨body, span⟩
  let ready : Expr := .bool true span
  ⟨[.main (block [
    .whileLoop ready (block [
      .switch (.int 1 span) [
        ⟨.int 1 span, block [.leave span], span⟩,
        ⟨.int 2 span, block [.function .void "f" [] (block [
          .branch ready (block [.giveBack none span]) (some (block [])) span]) span], span⟩]
        (some (block [.print [.int 3 span] span])) span,
      .leave span]) span]) span], span⟩

theorem wellPlaced_choosing :
    typeCheck (choosingProgram default) = [] ∧
      WellPlaced (Lowering.stmts (choosingProgram default).body .empty).labels
        (Lowering.program (choosingProgram default)) := by
  have typed : typeCheck (choosingProgram default) = [] := by decide +kernel
  exact ⟨typed, wellPlaced_program typed⟩

end Curly
