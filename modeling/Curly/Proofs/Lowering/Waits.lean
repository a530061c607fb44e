import Curly.Proofs.Grammar.Declared
import Curly.Proofs.Lowering.Changes

/-! Operands that wait to be read. The operand of an expression may have to wait for the expressions
behind it in an operation, in a call, in a print statement or in the tests of a switch. Where it is
a variable and one of those changes the variable, the value is lost before it is read. -/
namespace Curly

/-- The operand of an expression, from where it is produced to an instruction that reads it. -/
structure Wait where
  expr : Expr
  /-- The builder with which the expression is lowered. -/
  before : Builder
  /-- What is evaluated while the operand waits. -/
  others : List Expr
  /-- The builder before the instruction. -/
  behind : Builder
  reader : Instruction

namespace Wait

def operand (x : Wait) : Operand :=
  (Lowering.expr x.expr x.before).1

def produced (x : Wait) : Builder :=
  (Lowering.expr x.expr x.before).2

/-- The instructions between the one that produces the operand and the one that reads it. -/
def between (x : Wait) : List Instruction :=
  x.produced.since x.behind

/-- The code up to the instruction that reads the operand. -/
def place (x : Wait) : List Instruction :=
  x.behind.code.toList ++ [x.reader]

/-- The value is held by a variable that is changed while it waits. -/
def Overwritten (called : String → List String) (x : Wait) : Prop :=
  ∃ name, x.expr.holding? x.before.varies = some name ∧
    name ∈ altersIn x.before.varies called x.others

instance (called : String → List String) (x : Wait) : Decidable (x.Overwritten called) :=
  decidable_of_iff ((x.expr.holding? x.before.varies).any fun name =>
    name ∈ altersIn x.before.varies called x.others) (by simp [Overwritten, Option.any_eq_true])

/-- The operand is read there, and what changes on the way to it is what the expressions change that
it waits for. -/
structure Sound (x : Wait) : Prop where
  follows : Builder.Follows x.produced x.behind
  reads : x.operand ∈ x.reader.reads
  changes : ∀ called, Lowering.changesBetween called x.produced x.behind =
    altersIn x.before.varies called x.others

end Wait

namespace Lowering

open Builder

/-- Operands that are read together, each of which waits for those behind it. -/
def argWaits (reader : Instruction) : List Expr → Builder → List Wait
  | [], _ => []
  | e :: others, b =>
    ⟨e, b, others, (exprs others (expr e b).2).2, reader⟩ :: argWaits reader others (expr e b).2

/-- The operand of a step. Behind its operand, the operator reads it twice. -/
def stepWaits (op : UnaryOp) (side : Side) (e : Expr) (b : Builder) : List Wait :=
  let (operand, c) := expr e b
  match side with
  | .before =>
    argWaits (.binary (.temp c.temps) (stepSpelling op) operand (intOperand 1)) [e] b
  | .behind =>
    argWaits (.assign (.temp c.temps) operand) [e] b ++
      [⟨e, b, [], (intoTemp (.assign · operand) c).2,
        .binary (.temp (c.temps + 1)) (stepSpelling op) operand (intOperand 1)⟩]

mutual

def exprWaits : Expr → Builder → List Wait
  | .binary op left right _, b =>
    if op = .assign then
      exprWaits right b ++
        match left with
        | .symbol name => argWaits (.assign (.variable name.name) (expr right b).1) [right] b
        | _ => []
    else
      let (first, c) := expr left b
      let (second, d) := expr right c
      exprWaits left b ++ exprWaits right c ++
        argWaits (.binary (.temp d.temps) op.spelling first second) [left, right] b
  | .unary op operand side _, b =>
    let (value, c) := expr operand b
    exprWaits operand b ++
      if op.isStep then stepWaits op side operand b
      else argWaits (.unary (.temp c.temps) op.spelling value) [operand] b
  | .call callee args _, b =>
    let (values, c) := exprs args b
    exprsWaits args b ++ argWaits (.call (some (.temp c.temps)) callee.name values) args b
  | .int .., _ | .float .., _ | .string .., _ | .char .., _ | .bool .., _ | .symbol _, _ => []
termination_by structural e => e

def exprsWaits : List Expr → Builder → List Wait
  | [], _ => []
  | e :: others, b => exprWaits e b ++ exprsWaits others (expr e b).2
termination_by structural es => es

end

/-- An expression whose operand is read by the next instruction. -/
def readWaits (reader : Operand → Instruction) (e : Expr) (b : Builder) : List Wait :=
  exprWaits e b ++ argWaits (reader (expr e b).1) [e] b

def effectWaits (e : Expr) (b : Builder) : List Wait :=
  match e with
  | .call callee args _ =>
    exprsWaits args b ++ argWaits (.call none callee.name (exprs args b).1) args b
  | e => exprWaits e b

/-- What waits behind a turn of a loop. -/
def loopWaits (loop : Loop) (b : Builder) : List Wait :=
  (match loop.advance, loop.update with
    | some l, some e => exprWaits e ((loop.turned b).emit (.label l))
    | _, _ => []) ++
    match loop.condition with
    | none => []
    | some e => readWaits (.jumpIfTrue · loop.start) e ((loop.advanced b).emit (.label loop.test))

/-- The subject of a switch waits for each of the values that it is compared with. -/
def testWaits (e : Expr) (b : Builder) (earlier : List Expr) : List Case → Builder → List Wait
  | [], _ => []
  | arm :: others, c =>
    let (value, d) := expr arm.value c
    let reader := .jumpIfEqual (expr e b).1 value d.newLabel.1
    exprWaits arm.value c ++
      (argWaits reader [arm.value] c ++ [⟨e, b, earlier ++ [arm.value], d, reader⟩]) ++
      testWaits e b (earlier ++ [arm.value]) others (d.newLabel.2.emit reader)

mutual

def stmtWaits : Stmt → Builder → List Wait
  | .variable _ name initial _, b =>
    match initial with
    | none => []
    | some e => readWaits (.assign (.variable name)) e b
  | .function _ name params body _, b => blockWaits body (head name (params.map Param.name) b)
  | .main body _, b => blockWaits body (head "main" [] b)
  | .block body, b => blockWaits body b
  | .branch e yes no _, b =>
    readWaits (.jumpIfFalse · (expr e b).2.newLabel.1) e b ++ blockWaits yes (branched e b) ++
      match no with
      | none => []
      | some no => blockWaits no (turnedAway e yes b)
  | .whileLoop e body _, b =>
    let loop := whileLoop e body b.labels
    let c := (b.newLabel.2.newLabel.2.newLabel.2.emit (.jump loop.test)).emit (.label loop.start)
    blockWaits body (c.pushBreak loop.finish) ++ loopWaits loop c
  | .doLoop body e _, b =>
    let loop := whileLoop e body b.labels
    let c := b.newLabel.2.newLabel.2.newLabel.2.emit (.label loop.start)
    blockWaits body (c.pushBreak loop.finish) ++ loopWaits loop c
  | .forLoop initial e update body _, b =>
    let begun := stmts initial.toList b
    let loop := forLoop e update body begun.labels
    let c := (begun.newLabel.2.newLabel.2.newLabel.2.newLabel.2.emit (.jump loop.test)).emit
      (.label loop.start)
    (match initial with
      | none => []
      | some initial => stmtWaits initial b) ++
      (blockWaits body (c.pushBreak loop.finish) ++ loopWaits loop c)
  | .switch e cases fallback _, b =>
    let switch := switched e cases fallback b
    exprWaits e b ++ testWaits e b [] cases (expr e b).2.newLabel.2 ++
      armsWaits switch.finish switch.labels cases switch.begun ++
      match fallback with
      | none => []
      | some fallback => blockWaits fallback (fallbackBegun e cases fallback b)
  | .giveBack value _, b =>
    match value with
    | none => []
    | some e => readWaits (fun value => .giveBack (some value)) e b
  | .print args _, b =>
    exprsWaits args b ++ argWaits (.call none "print" (exprs args b).1) args b
  | .evaluate e _, b => effectWaits e b
  | .prototype .., _ | .enumeration .., _ | .leave _, _ | .inclusion .., _ => []
termination_by structural s => s

def blockWaits : Block → Builder → List Wait
  | ⟨body, _⟩, b => stmtsWaits body b
termination_by structural body => body

def stmtsWaits : List Stmt → Builder → List Wait
  | [], _ => []
  | s :: others, b => stmtWaits s b ++ stmtsWaits others (stmt s b)
termination_by structural body => body

def armsWaits (finish : Label) : List Label → List Case → Builder → List Wait
  | label :: labels, ⟨_, body, _⟩ :: others, b =>
    blockWaits body (b.emit (.label label)) ++ armsWaits finish labels others
      ((block body (b.emit (.label label))).emit (.jump finish))
  | _, _, _ => []
termination_by structural _ cases => cases

end

/-- The waits for an instruction behind some code are those of the variables that it reads. -/
structure Reading (waits : List Wait) (front : List Instruction) (i : Instruction) : Prop where
  sound : ∀ x ∈ waits, x.Sound
  placed : ∀ x ∈ waits, x.place = front ++ [i]
  complete : ∀ name, .variable name ∈ i.reads → ∃ x ∈ waits, x.operand = .variable name

/-- The waits between two builders are those of the variables that are read there. -/
structure Covers (waits : List Wait) (b c : Builder) : Prop where
  follows : Follows b c
  sound : ∀ x ∈ waits, x.Sound
  placed : ∀ x ∈ waits, x.place <+: c.code.toList
  complete : ∀ front i, front ++ [i] <+: c.code.toList → b.code.size ≤ front.length →
    ∀ name, .variable name ∈ i.reads → ∃ x ∈ waits, x.place = front ++ [i] ∧
      x.operand = .variable name

namespace Covers

variable {waits new : List Wait} {b c d : Builder} {i : Instruction}

/-- No code is added. -/
theorem of_same (follows : Follows b c) (same : c.code = b.code) : Covers [] b c := by
  refine ⟨follows, nofun, nofun, fun front i stands beyond => ?_⟩
  have within := stands.length_le
  rw [same, List.length_append, Array.length_toList] at within
  exact absurd within (Nat.not_le_of_lt (Nat.lt_succ_of_le beyond))

theorem refl (b : Builder) : Covers [] b b :=
  of_same (.refl b) rfl

theorem trans (first : Covers waits b c) (second : Covers new c d) :
    Covers (waits ++ new) b d := by
  constructor
  · exact first.follows.trans second.follows
  · exact List.forall_mem_append.mpr ⟨first.sound, second.sound⟩
  · exact List.forall_mem_append.mpr
      ⟨fun x member => (first.placed x member).trans second.follows.code, second.placed⟩
  · intro front i stands beyond name read
    by_cases early : front.length < c.code.size
    · have shorter : (front ++ [i]).length ≤ c.code.toList.length := by
        simpa using Nat.succ_le_of_lt early
      have within := List.prefix_of_prefix_length_le stands second.follows.code shorter
      obtain ⟨x, member, here⟩ := first.complete front i within beyond name read
      exact ⟨x, List.mem_append_left _ member, here⟩
    · obtain ⟨x, member, here⟩ := second.complete front i stands (Nat.le_of_not_lt early) name read
      exact ⟨x, List.mem_append_right _ member, here⟩

theorem emit (covers : Covers waits b c) (reading : Reading new c.code.toList i) :
    Covers (waits ++ new) b (c.emit i) := by
  have whole : (c.emit i).code.toList = c.code.toList ++ [i] := Array.toList_push
  refine covers.trans ⟨(Follows.refl c).emit i, reading.sound, fun x member => ?_, ?_⟩
  · rw [reading.placed x member]
    exact whole ▸ List.prefix_refl _
  · intro front j stands beyond name read
    have longer := stands.length_le
    rw [whole] at stands longer
    have same : front ++ [j] = c.code.toList ++ [i] := stands.eq_of_length
      (Nat.le_antisymm longer (by simpa using beyond))
    obtain ⟨rfl, own⟩ := List.append_inj' same rfl
    obtain rfl := List.singleton_inj.mp own
    obtain ⟨x, member, operand⟩ := reading.complete name read
    exact ⟨x, member, reading.placed x member, operand⟩

/-- An instruction that reads no variable. -/
theorem quiet (covers : Covers waits b c) (none : ∀ name, .variable name ∉ i.reads) :
    Covers waits b (c.emit i) := by
  have nothing : Reading [] c.code.toList i :=
    ⟨nofun, nofun, fun name read => absurd read (none name)⟩
  have added := covers.emit nothing
  rwa [List.append_nil] at added

theorem same (covers : Covers waits b c) (follows : Follows c d) (code : d.code = c.code) :
    Covers waits b d := by
  have added := covers.trans (of_same follows code)
  rwa [List.append_nil] at added

theorem newTemp (covers : Covers waits b c) : Covers waits b c.newTemp.2 :=
  covers.same (Follows.refl c).newTemp rfl

theorem newLabel (covers : Covers waits b c) : Covers waits b c.newLabel.2 :=
  covers.same (Follows.refl c).newLabel rfl

theorem pushBreak (covers : Covers waits b c) (l : Label) : Covers waits b (c.pushBreak l) :=
  covers.same ((Follows.refl c).pushBreak l) rfl

theorem popBreak (covers : Covers waits b c) : Covers waits b c.popBreak :=
  covers.same (Follows.refl c).popBreak rfl

theorem label (covers : Covers waits b c) (l : Label) : Covers waits b (c.emit (.label l)) :=
  covers.quiet nofun

theorem jump (covers : Covers waits b c) (l : Label) : Covers waits b (c.emit (.jump l)) :=
  covers.quiet nofun

end Covers

theorem operand_args (reader : Instruction) (es : List Expr) (b : Builder) :
    (argWaits reader es b).map Wait.operand = (exprs es b).1 := by
  induction es generalizing b with
  | nil => rfl
  | cons e others ih => exact congrArg (_ :: ·) (ih _)

theorem placed_args (reader : Instruction) (es : List Expr) (b : Builder) :
    ∀ x ∈ argWaits reader es b, x.place = (exprs es b).2.code.toList ++ [reader] := by
  induction es generalizing b with
  | nil => exact nofun
  | cons e others ih => exact List.forall_mem_cons.mpr ⟨rfl, ih _⟩

theorem sound_args {reader : Instruction} {es : List Expr} {b : Builder}
    (reads : (exprs es b).1 ⊆ reader.reads) : ∀ x ∈ argWaits reader es b, x.Sound := by
  induction es generalizing b with
  | nil => exact nofun
  | cons e others ih =>
    obtain ⟨own, rest⟩ := List.cons_subset.mp reads
    refine List.forall_mem_cons.mpr ⟨⟨?_, own, fun called => ?_⟩, ih rest⟩
    · exact (straight_exprs others _).follows
    · have behind := changes_exprs called others (expr e b).2
      rwa [(straight_expr e b).varies] at behind

/-- An instruction that reads operands in their order, and nothing else but constants and
temporaries. -/
theorem reading_args {reader : Instruction} (es : List Expr) {b : Builder}
    (reads : (exprs es b).1 ⊆ reader.reads)
    (only : ∀ name, .variable name ∈ reader.reads → .variable name ∈ (exprs es b).1) :
    Reading (argWaits reader es b) (exprs es b).2.code.toList reader := by
  refine ⟨sound_args reads, placed_args reader es b, fun name read => ?_⟩
  have operand := only name read
  rw [← operand_args reader] at operand
  exact List.mem_map.mp operand

/-- An instruction that reads the operands. -/
theorem reading_same {reader : Instruction} (es : List Expr) {b : Builder}
    (reads : reader.reads = (exprs es b).1) :
    Reading (argWaits reader es b) (exprs es b).2.code.toList reader :=
  reading_args es (reads ▸ List.Subset.refl _) fun _ read => reads ▸ read

/-- What is put together with one. -/
theorem variable_of_updated {operand : Operand} {name : String}
    (read : .variable name ∈ [operand, intOperand 1]) : operand = .variable name := by
  rcases List.mem_cons.mp read with same | other
  · exact same.symm
  · exact nomatch List.mem_singleton.mp other

/-- The new value of a step is put back by an instruction that reads no variable. -/
theorem covers_before (op : UnaryOp) {operand : Operand} {waits new : List Wait} {b c : Builder}
    (covers : Covers waits b c) (reading : Reading new c.code.toList
      (.binary (.temp c.temps) (stepSpelling op) operand (intOperand 1))) :
    Covers (waits ++ new) b (step op .before operand c).2 := by
  have updated : Covers (waits ++ new) b
      (intoTemp (.binary · (stepSpelling op) operand (intOperand 1)) c).2 :=
    covers.newTemp.emit reading
  rw [step_before]
  dsimp only
  split
  · exact updated.quiet nofun
  · exact updated

theorem covers_step (op : UnaryOp) (side : Side) (e : Expr) (b : Builder) :
    Covers (stepWaits op side e b) (expr e b).2 (step op side (expr e b).1 (expr e b).2).2 := by
  cases side with
  | before =>
    refine covers_before op (.refl _) (reading_args [e] ?_ fun name read => ?_)
    · exact List.cons_subset.mpr ⟨.head _, List.nil_subset _⟩
    · exact List.mem_singleton.mpr (variable_of_updated read).symm
  | behind =>
    rw [step_behind]
    have saved : Covers (argWaits (.assign (.temp (expr e b).2.temps) (expr e b).1) [e] b)
        (expr e b).2 (intoTemp (.assign · (expr e b).1) (expr e b).2).2 :=
      (Covers.refl _).newTemp.emit (reading_same [e] rfl)
    refine covers_before op saved ⟨?_, ?_, fun name read => ?_⟩
    · let copy : Operand → Instruction := (.assign · (expr e b).1)
      exact List.forall_mem_singleton.mpr ⟨follows_intoTemp copy (expr e b).2, .head _,
        fun called => changesBetween_intoTemp called copy (expr e b).2⟩
    · exact List.forall_mem_singleton.mpr rfl
    · exact ⟨_, .head _, variable_of_updated read⟩

mutual

theorem covers_expr : (e : Expr) → (b : Builder) → Covers (exprWaits e b) b (expr e b).2
  | .int .., b | .float .., b | .string .., b | .char .., b | .bool .., b | .symbol _, b => .refl b
  | .binary op left right _, b => by
    simp only [exprWaits, expr]
    split
    · have value := covers_expr right b
      cases left with
      | symbol name => exact value.emit (reading_same [right] rfl)
      | _ =>
        rw [List.append_nil]
        exact value
    · have operands := (covers_expr left b).trans (covers_expr right (expr left b).2)
      exact operands.newTemp.emit (reading_same [left, right] rfl)
  | .unary op operand side _, b => by
    have value := covers_expr operand b
    simp only [exprWaits, expr]
    split
    · exact value.trans (covers_step op side operand b)
    · exact value.newTemp.emit (reading_same [operand] rfl)
  | .call callee args _, b =>
    (covers_exprs args b).newTemp.emit (reading_same args rfl)
termination_by structural e => e

theorem covers_exprs : (es : List Expr) → (b : Builder) → Covers (exprsWaits es b) b (exprs es b).2
  | [], b => .refl b
  | e :: others, b => (covers_expr e b).trans (covers_exprs others _)
termination_by structural es => es

end

theorem covers_read (reader : Operand → Instruction) (e : Expr) (b : Builder)
    (reads : (reader (expr e b).1).reads = [(expr e b).1]) :
    Covers (readWaits reader e b) b ((expr e b).2.emit (reader (expr e b).1)) :=
  (covers_expr e b).emit (reading_same [e] reads)

theorem covers_effect (e : Expr) (b : Builder) : Covers (effectWaits e b) b (effect e b) := by
  cases e with
  | call callee args span => exact (covers_exprs args b).emit (reading_same args rfl)
  | _ => exact covers_expr _ b

theorem covers_head (name : String) (params : List String) (b : Builder) :
    Covers [] b (head name params b) := by
  have listed (c : Builder) (begun : Covers [] b c) :
      Covers [] b (params.foldl (fun b param => b.emit (.param param)) c) := by
    induction params generalizing c with
    | nil => exact begun
    | cons first others ih => exact ih _ (begun.quiet nofun)
  have begun : Covers [] b (b.emit (.beginFunction name)) := (Covers.refl b).quiet nofun
  exact listed _ (begun.same ((Follows.refl _).of_same rfl rfl rfl) rfl)

theorem covers_foot (name : String) (value : Option Operand)
    (plain : ∀ n, value ≠ some (.variable n)) (b : Builder) : Covers [] b (foot name value b) := by
  have returned (returns : Bool) :
      Covers [] b (if returns = true then b else b.emit (.giveBack value)) := by
    cases returns with
    | true => exact .refl b
    | false => exact (Covers.refl b).quiet fun n read => plain n (Option.mem_toList.mp read)
  have left (returns : Bool) :
      Covers [] b (if returns = true then b else b.emit (.giveBack value)).leaveFunction :=
    (returned returns).same ((Follows.refl _).of_same rfl rfl rfl) rfl
  exact (left _).quiet nofun

theorem covers_leave (b : Builder) : Covers [] b (leave b) := by
  unfold leave
  split
  · exact .refl b
  · exact (Covers.refl b).jump _

/-- A loop around a body. -/
theorem covers_lowered (loop : Loop) {waits : List Wait} {b : Builder}
    (inside : Covers waits (b.pushBreak loop.finish) (block loop.body (b.pushBreak loop.finish))) :
    Covers (waits ++ loopWaits loop b) b (loop.lowered b) := by
  have turned : Covers waits b (loop.turned b) :=
    (((Covers.refl b).pushBreak loop.finish).trans inside).popBreak
  have advanced : Covers (waits ++ match loop.advance, loop.update with
      | some l, some e => exprWaits e ((loop.turned b).emit (.label l))
      | _, _ => []) b (loop.advanced b) := by
    unfold Loop.advanced
    cases loop.advance with
    | none =>
      rw [List.append_nil]
      exact turned
    | some l =>
      cases loop.update with
      | none =>
        rw [List.append_nil]
        exact turned.label l
      | some e => exact (turned.label l).trans (covers_expr e _)
  unfold Loop.lowered Loop.tested loopWaits
  rw [← List.append_assoc]
  cases loop.condition with
  | none =>
    rw [List.append_nil]
    exact ((advanced.label loop.test).jump loop.start).label loop.finish
  | some e =>
    have tested := covers_read (.jumpIfTrue · loop.start) e
      ((loop.advanced b).emit (.label loop.test)) rfl
    exact ((advanced.label loop.test).trans tested).label loop.finish

/-- A test of the subject of a switch against a value. -/
theorem reading_test {x : Wait} {value : Expr} {c : Builder} {l : Label} (sound : x.Sound)
    (behind : x.behind = (expr value c).2)
    (reader : x.reader = .jumpIfEqual x.operand (expr value c).1 l) :
    Reading (argWaits x.reader [value] c ++ [x]) (expr value c).2.code.toList x.reader := by
  constructor
  · refine List.forall_mem_append.mpr ⟨sound_args ?_, List.forall_mem_singleton.mpr sound⟩
    rw [reader]
    exact List.subset_cons_self ..
  · refine List.forall_mem_append.mpr ⟨placed_args _ [value] c, List.forall_mem_singleton.mpr ?_⟩
    rw [Wait.place, behind]
  · intro name read
    rw [reader] at read
    rcases List.mem_cons.mp read with subject | tried
    · exact ⟨x, List.mem_append_right _ (.head _), subject.symm⟩
    · exact ⟨_, .head _, (List.mem_singleton.mp tried).symm⟩

/-- The tests of a switch, behind some of them. -/
theorem covers_tests (e : Expr) (b : Builder) (cases : List Case) (earlier : List Expr)
    {c : Builder} (follows : Follows (expr e b).2 c) (varies : c.varies = b.varies)
    (changes : ∀ called, changesBetween called (expr e b).2 c = altersIn b.varies called earlier) :
    Covers (testWaits e b earlier cases c) c (tests (expr e b).1 cases c).2 := by
  induction cases generalizing earlier c with
  | nil => exact .refl c
  | cons arm others ih =>
    let d := (expr arm.value c).2
    let reader := Instruction.jumpIfEqual (expr e b).1 (expr arm.value c).1 d.newLabel.1
    -- At each test the subject has waited for one more value.
    have value := straight_expr arm.value c
    have reached := follows.trans value.follows
    have passed (called : String → List String) : changesBetween called (expr e b).2 d =
        altersIn b.varies called (earlier ++ [arm.value]) := by
      rw [changesBetween_trans called follows value.follows, changes, changes_expr, varies,
        altersIn_append, altersIn, altersIn, List.append_nil]
    have tested := (covers_expr arm.value c).newLabel.emit (reading_test
      (x := ⟨e, b, earlier ++ [arm.value], d, reader⟩) ⟨reached, .head _, passed⟩ rfl rfl)
    refine tested.trans (ih _ (reached.newLabel.emit reader) ?_ fun called => ?_)
    · exact value.varies.trans varies
    · rw [changesBetween_trans called reached.newLabel ((Follows.refl _).emit reader),
        changesBetween_emit]
      exact (List.append_nil _).trans (passed called)

/-- Up to the first arm of a switch. -/
theorem covers_switched (e : Expr) (cases : List Case) (fallback : Option Block) (b : Builder) :
    Covers (exprWaits e b ++ testWaits e b [] cases (expr e b).2.newLabel.2) b
      (switched e cases fallback b).begun := by
  have tested := (covers_expr e b).newLabel.trans (covers_tests e b cases []
    (Follows.refl _).newLabel (straight_expr e b).varies fun called =>
      changesBetween_self called (expr e b).2)
  have led (l : Label) : Covers (exprWaits e b ++ testWaits e b [] cases (expr e b).2.newLabel.2) b
      (otherwise fallback l (tests (expr e b).1 cases (expr e b).2.newLabel.2).2).2 := by
    cases fallback with
    | none => exact tested
    | some _ => exact tested.newLabel
  exact ((led _).jump _).pushBreak _

mutual

theorem covers_stmt : (s : Stmt) → (b : Builder) → Covers (stmtWaits s b) b (stmt s b)
  | .variable _ name none _, b =>
    (Covers.refl b).quiet fun n read => nomatch List.mem_singleton.mp read
  | .variable _ name (some e) _, b => covers_read (.assign (.variable name)) e b rfl
  | .prototype .., b | .inclusion .., b => .refl b
  | .enumeration .., b => .of_same ((Follows.refl b).of_same rfl rfl rfl) rfl
  | .function ty name params body _, b => by
    have inside := (covers_head name (params.map Param.name) b).trans (covers_block body _)
    have plain (n : String) :
        (if ty = .void then none else some defaultOperand) ≠ some (.variable n) := by
      split <;> exact nofun
    have whole := inside.trans (covers_foot name _ plain _)
    rwa [List.append_nil] at whole
  | .main body _, b => by
    have inside := (covers_head "main" [] b).trans (covers_block body _)
    have whole := inside.trans (covers_foot "main" (some defaultOperand) nofun _)
    rwa [List.append_nil] at whole
  | .block body, b => covers_block body b
  | .branch e yes none _, b => by
    have begun : Covers (readWaits (.jumpIfFalse · (expr e b).2.newLabel.1) e b) b (branched e b) :=
      (covers_expr e b).newLabel.emit (reading_same [e] rfl)
    have whole := (begun.trans (covers_block yes _)).label (expr e b).2.newLabel.1
    rw [← List.append_nil (_ ++ _)] at whole
    exact whole
  | .branch e yes (some no) _, b => by
    have begun : Covers (readWaits (.jumpIfFalse · (expr e b).2.newLabel.1) e b) b (branched e b) :=
      (covers_expr e b).newLabel.emit (reading_same [e] rfl)
    have first := (begun.trans (covers_block yes _)).newLabel
    have turned : Covers _ b (turnedAway e yes b) := (first.jump _).label (expr e b).2.newLabel.1
    exact (turned.trans (covers_block no _)).label _
  | .whileLoop e body span, b => by
    rw [stmt_whileLoop]
    let loop := whileLoop e body b.labels
    have begun := ((Covers.refl b).newLabel.newLabel.newLabel.jump loop.test).label loop.start
    exact begun.trans (covers_lowered loop (covers_block body _))
  | .doLoop body e span, b => by
    rw [stmt_doLoop]
    let loop := whileLoop e body b.labels
    have begun := (Covers.refl b).newLabel.newLabel.newLabel.label loop.start
    exact begun.trans (covers_lowered loop (covers_block body _))
  | .forLoop none e update body span, b => by
    rw [stmt_forLoop]
    let loop := forLoop e update body b.labels
    have begun :=
      ((Covers.refl b).newLabel.newLabel.newLabel.newLabel.jump loop.test).label loop.start
    exact begun.trans (covers_lowered loop (covers_block body _))
  | .forLoop (some initial) e update body span, b => by
    rw [stmt_forLoop]
    let loop := forLoop e update body (stmt initial b).labels
    have begun := ((covers_stmt initial b).newLabel.newLabel.newLabel.newLabel.jump
      loop.test).label loop.start
    exact begun.trans (covers_lowered loop (covers_block body _))
  | .switch e cases none span, b => by
    let switch := switched e cases none b
    have whole := ((covers_switched e cases none b).trans
      (covers_arms switch.finish switch.labels cases _)).popBreak.label switch.finish
    rw [← List.append_nil (_ ++ _ ++ _)] at whole
    rw [stmt_switched]
    exact whole
  | .switch e cases (some fallback) span, b => by
    let switch := switched e cases (some fallback) b
    have chosen := ((covers_switched e cases (some fallback) b).trans
      (covers_arms switch.finish switch.labels cases _)).label switch.otherwise
    rw [stmt_switched]
    exact (chosen.trans (covers_block fallback _)).popBreak.label switch.finish
  | .giveBack none _, b => (Covers.refl b).quiet nofun
  | .giveBack (some e) _, b => covers_read (fun value => .giveBack (some value)) e b rfl
  | .leave _, b => covers_leave b
  | .print args _, b => (covers_exprs args b).emit (reading_same args rfl)
  | .evaluate e _, b => covers_effect e b
termination_by structural s => s

theorem covers_block : (body : Block) → (b : Builder) →
    Covers (blockWaits body b) b (block body b)
  | ⟨body, _⟩, b => covers_stmts body b
termination_by structural body => body

theorem covers_stmts : (body : List Stmt) → (b : Builder) →
    Covers (stmtsWaits body b) b (stmts body b)
  | [], b => .refl b
  | s :: others, b => (covers_stmt s b).trans (covers_stmts others _)
termination_by structural body => body

theorem covers_arms (finish : Label) : (labels : List Label) → (cases : List Case) →
    (b : Builder) → Covers (armsWaits finish labels cases b) b (arms finish labels cases b)
  | [], [], b | _ :: _, [], b | [], ⟨_, _, _⟩ :: _, b => .refl b
  | label :: labels, ⟨_, body, _⟩ :: others, b => by
    have first := ((Covers.refl b).label label).trans (covers_block body _)
    exact (first.jump finish).trans (covers_arms finish labels others _)
termination_by structural _ cases => cases

end

end Lowering

namespace Wait

variable {x : Wait}

/-- A variable that is read later changes on the way there just if it is overwritten. -/
theorem Sound.overwritten_iff (sound : x.Sound) (called : String → List String) {name : String}
    (held : x.operand = .variable name) :
    (∃ i ∈ x.between, name ∈ i.changes called) ↔ x.Overwritten called := by
  have holding : x.expr.holding? x.before.varies = some name := by
    rw [← Lowering.name?_expr, ← operand, held]
    rfl
  have changes : (∃ i ∈ x.between, name ∈ i.changes called) ↔
      name ∈ altersIn x.before.varies called x.others := by
    rw [← sound.changes, Lowering.changesBetween, List.mem_flatMap]
    rfl
  rw [changes, Overwritten, holding]
  simp

theorem Sound.code (sound : x.Sound) :
    x.produced.code.toList ++ x.between ++ [x.reader] = x.place := by
  rw [between, Builder.append_since sound.follows]
  rfl

/-- A temporary is assigned once, which is behind it when it waits. -/
theorem Sound.unassigned (sound : x.Sound) {p : Program}
    (placed : x.place <+: Lowering.program p) {k : Nat} (held : x.operand = .temp k) :
    ∀ i ∈ x.between, ¬i.assigns k := by
  -- Code that is placed holds one assignment of a temporary, and that is before the wait.
  have ready := (Lowering.supplies_expr x.expr x.before).ready k held
  obtain ⟨d, member, assigned⟩ := ready.exists_assigns
  have first : 0 < x.produced.code.toList.countP (Instruction.assigns k) :=
    List.countP_pos_iff.mpr ⟨d, member, assigned⟩
  have whole : x.place.countP (Instruction.assigns k) ≤ 1 := by
    have counted := (Lowering.orderly_stmts p.body Builder.orderly_empty).counted k
    have once : (Lowering.program p).countP (Instruction.assigns k) ≤ 1 := by
      rw [Lowering.program, counted]
      split <;> simp
    exact Nat.le_trans placed.sublist.countP_le once
  rw [← sound.code, List.countP_append, List.countP_append] at whole
  intro i inside again
  have second : 0 < x.between.countP (Instruction.assigns k) :=
    List.countP_pos_iff.mpr ⟨i, inside, again⟩
  omega

/-- An operand that nothing overwrites is not touched on the way to where it is read. -/
theorem Sound.untouched (sound : x.Sound) {p : Program} (placed : x.place <+: Lowering.program p)
    {called : String → List String} (kept : ¬x.Overwritten called) :
    ∀ i ∈ x.between, ¬i.Touches called x.operand := by
  intro i inside touched
  cases held : x.operand with
  | «variable» name =>
    rw [held] at touched
    exact kept ((sound.overwritten_iff called held).mp ⟨i, inside, touched⟩)
  | temp k =>
    rw [held] at touched
    exact sound.unassigned placed held i inside touched
  | constant spelling =>
    rw [held] at touched
    exact touched

end Wait

namespace Program

variable (p : Program)

/-- The operands of a program that wait to be read. -/
def waits : List Wait :=
  Lowering.stmtsWaits p.body .empty

theorem covers_waits : Lowering.Covers p.waits .empty (Lowering.stmts p.body .empty) :=
  Lowering.covers_stmts p.body .empty

/-- Each variable that an instruction reads is the operand of an expression and has waited for that.
Each operand that waits is read where the wait ends. If it is a variable, an instruction on the way
there assigns it just if one of the expressions that it waits for changes it. In any execution of
these instructions it keeps its value, unless such an expression, or a function that one of them
calls, changes the variable. -/
theorem operands_kept :
    (∀ front i, front ++ [i] <+: Lowering.program p → ∀ name, .variable name ∈ i.reads →
      ∃ x ∈ p.waits, x.place = front ++ [i] ∧ x.operand = .variable name) ∧
    ∀ x ∈ p.waits,
      x.produced.code.toList ++ x.between ++ [x.reader] <+: Lowering.program p ∧
      x.operand ∈ x.reader.reads ∧
      (∀ name, x.operand = .variable name →
        ((∃ i ∈ x.between, i.target? = some (.variable name)) ↔ x.Overwritten fun _ => [])) ∧
      ∀ (called : String → List String) (Value : Type) (before after : Operand → Value),
        ¬x.Overwritten called → Instruction.Executes called x.between before after →
          after x.operand = before x.operand := by
  have covers := p.covers_waits
  refine ⟨fun front i stands => covers.complete front i stands (Nat.zero_le _), fun x member => ?_⟩
  have sound := covers.sound x member
  have placed : x.place <+: Lowering.program p := covers.placed x member
  refine ⟨sound.code ▸ placed, sound.reads, fun name held => ?_, ?_⟩
  · rw [← sound.overwritten_iff (fun _ => []) held]
    simp only [Instruction.mem_changes_iff]
  · intro called Value before after kept executes
    exact executes.kept (sound.untouched placed kept)

end Program

/-- A program in which variables wait for a call, and for changes of another variable. -/
def waiting : String :=
  "int f(int a) \x7b return a; \x7d\n" ++
  "main \x7b int x = 1; int y = x + f(2); print(x, y++, y = x); \x7d\n"

/-- Numbers, among which a call gives back its first argument. -/
def echoing : Meaning Nat Unit where
  constant text := text.length
  binary _ _ _ := none
  unary _ _ := none
  truth _ := true
  equal _ _ := true
  call _ values world := values.head?.map (·, world)

theorem waiting_kept : ∃ p, readProgram waiting = .ok p ∧ (analyze p).errors = [] ∧
    typeCheck p = [] ∧
    (∃ x ∈ p.waits, x.place = (Lowering.program p).take 14 ∧ x.operand = .variable "x") ∧
    (∀ x ∈ p.waits, ∀ name, x.operand = .variable name →
      ¬∃ i ∈ x.between, i.target? = some (.variable name)) ∧
    ∃ x ∈ p.waits, x.between = [.call (some (.temp 0)) "f" [.constant "2"]] ∧
      x.operand = .variable "x" ∧ ∀ memory : Memory Nat Unit, ∃ after,
        (Instruction.call (some (.temp 0)) "f" [.constant "2"]).act echoing memory =
          some (.next, after) ∧
        after.temps 0 = 1 ∧ after.read echoing x.operand = memory.read echoing x.operand := by
  have checked : (readProgram waiting).toOption.any fun p => (analyze p).errors.isEmpty &&
      (typeCheck p).isEmpty &&
      (Lowering.program p)[13]? =
        some (.call none "print" [.variable "x", .temp 2, .variable "y"]) &&
      (p.waits.all fun x => !decide (x.Overwritten fun _ => [])) &&
      p.waits.any fun x => x.between = [.call (some (.temp 0)) "f" [.constant "2"]] &&
        x.operand = .variable "x" := by decide +kernel
  obtain ⟨p, read, facts⟩ := exists_of_readProgram checked
  obtain ⟨⟨⟨⟨clean, typed⟩, printed⟩, kept⟩, x, member, between, operand⟩ :
      ((((analyze p).errors = [] ∧ typeCheck p = []) ∧ (Lowering.program p)[13]? =
        some (.call none "print" [.variable "x", .temp 2, .variable "y"])) ∧
      ∀ x ∈ p.waits, ¬x.Overwritten fun _ => []) ∧ ∃ x ∈ p.waits,
        x.between = [.call (some (.temp 0)) "f" [.constant "2"]] ∧
          x.operand = .variable "x" := by
    simpa using facts
  obtain ⟨complete, sound⟩ := p.operands_kept
  have taken : (Lowering.program p).take (13 + 1) = (Lowering.program p).take 13 ++
      [.call none "print" [.variable "x", .temp 2, .variable "y"]] := by
    rw [List.take_add_one, printed]
    rfl
  refine ⟨p, read, clean, typed, ?_, fun x member name held => ?_, x, member, between, operand, ?_⟩
  · have placed := List.take_prefix (13 + 1) (Lowering.program p)
    rw [taken] at placed ⊢
    exact complete _ _ placed "x" (.head _)
  · exact mt ((sound x member).2.2.1 name held).mp (kept x member)
  · intro memory
    let after := memory.write (.temp 0) 1
    have acted : (Instruction.call (some (.temp 0)) "f" [.constant "2"]).act echoing memory =
        some (.next, after) := rfl
    have passed : Instruction.Executes (fun _ => []) x.between (memory.read echoing)
        (after.read echoing) := between ▸ .act acted (.nil _)
    exact ⟨after, acted, rfl, (sound x member).2.2.2 _ _ _ _ (kept x member) passed⟩

/-- A program that prints a variable, and with it a new value of the variable. -/
def reassigned : String :=
  "main \x7b int x = 1; print(x, x = 2); \x7d"

/-- Nothing is wrong with its names and types, but the variable is assigned before it is printed. -/
theorem reassigned_not_kept : ∃ p, readProgram reassigned = .ok p ∧ (analyze p).errors = [] ∧
    typeCheck p = [] ∧ ∃ x ∈ p.waits, x.operand = .variable "x" ∧
      x.between = [.assign (.variable "x") (.constant "2")] ∧
      x.reader = .call none "print" [.variable "x", .variable "x"] ∧
      x.place <+: Lowering.program p := by
  have checked : (readProgram reassigned).toOption.any fun p => (analyze p).errors.isEmpty &&
      (typeCheck p).isEmpty && p.waits.any fun x => x.operand = .variable "x" &&
        (x.between = [.assign (.variable "x") (.constant "2")] &&
        (x.reader = .call none "print" [.variable "x", .variable "x"] &&
        x.place.isPrefixOf (Lowering.program p))) := by decide +kernel
  obtain ⟨p, read, facts⟩ := exists_of_readProgram checked
  obtain ⟨⟨clean, typed⟩, found⟩ : ((analyze p).errors = [] ∧ typeCheck p = []) ∧
      ∃ x ∈ p.waits, x.operand = .variable "x" ∧
        x.between = [.assign (.variable "x") (.constant "2")] ∧
        x.reader = .call none "print" [.variable "x", .variable "x"] ∧
        x.place <+: Lowering.program p := by simpa using facts
  exact ⟨p, read, clean, typed, found⟩

end Curly
