import Curly.Proofs.Execution.Machine
import Curly.Proofs.Lowering.Breaks
import Curly.Proofs.Scope.Occurrences
import Mathlib.Data.List.Chain

/-! The marks of functions in the code. A function begins with its parameters and ends behind a
return, and between these stands the code of its body with the functions defined there. -/
namespace Curly

/-- A function with its body left out. -/
structure Definition where
  name : String
  params : List String
deriving DecidableEq, Repr

def Stmt.definition? : Stmt → Option Definition
  | .function _ name ps _ _ => some ⟨name, ps.map Param.name⟩
  | .main .. => some ⟨"main", []⟩
  | _ => none

/-- The functions that are defined by some statements, in the order of the text. -/
def definitionsIn (body : List Stmt) : List Definition :=
  body.filterMap Stmt.definition?

def Program.definitions (p : Program) : List Definition :=
  definitionsIn p.statements

namespace Instruction

def isParam : Instruction → Bool
  | .param _ => true
  | _ => false

def isBegin : Instruction → Bool
  | .beginFunction _ => true
  | _ => false

def isEnd : Instruction → Bool
  | .endFunction _ => true
  | _ => false

/-- Whether an instruction says where a function begins or ends, or what its parameters are. -/
def frames (i : Instruction) : Bool :=
  i.isBegin || i.isParam || i.isEnd

end Instruction

inductive Bracket where
  | opening (name : String)
  | closing (name : String)
deriving DecidableEq, Repr

def Instruction.bracket? : Instruction → Option Bracket
  | .beginFunction name => some (.opening name)
  | .endFunction name => some (.closing name)
  | _ => none

/-- Every bracket that opens is closed by one with its name. -/
inductive Bracketed : List Bracket → Prop
  | nil : Bracketed []
  | around (name : String) {inside behind : List Bracket} :
    Bracketed inside → Bracketed behind →
    Bracketed (.opening name :: inside ++ .closing name :: behind)

def paramsAt : List Instruction → List String
  | .param name :: code => name :: paramsAt code
  | _ => []

/-- The functions that begin in some code, each with the parameters that follow at once. -/
def beginnings : List Instruction → List Definition
  | [] => []
  | .beginFunction name :: code => ⟨name, paramsAt code⟩ :: beginnings code
  | _ :: code => beginnings code

/-- The code of some functions. Their marks are brackets, parameters stand at the beginnings only,
and nothing leads to an end, as there is a return before it. -/
structure Framing (ds : List Definition) (code : List Instruction) : Prop where
  balanced : Bracketed (code.filterMap Instruction.bracket?)
  defined : beginnings code = ds
  params : ∀ front name back, code = front ++ .param name :: back →
    ∃ i, front.getLast? = some i ∧ (i.isBegin ∨ i.isParam)
  returns : ∀ front name back, code = front ++ .endFunction name :: back →
    ∃ value, front.getLast? = some (.giveBack value)
  guarded : ∀ {Value World : Type} (m : Meaning Value World) here there,
    machineStep m code here = some there → ∀ name, code[there.1]? ≠ some (.endFunction name)

/-- Functions one behind the other, with instructions around that are not about functions. What
stands in a function is again of this form and ends with a return. -/
inductive Framed : List Definition → List Instruction → Prop
  | nil : Framed [] []
  | plain {i : Instruction} {ds : List Definition} {code : List Instruction} :
    i.frames = false → Framed ds code → Framed ds (i :: code)
  | function (d : Definition) {inner ds : List Definition} {body code : List Instruction}
    {value : Option Operand} :
    Framed inner body → body.getLast? = some (.giveBack value) → Framed ds code →
    Framed (d :: inner ++ ds)
      (.beginFunction d.name :: (d.params.map .param ++ (body ++ .endFunction d.name :: code)))

namespace Framed

variable {ds es : List Definition} {code more : List Instruction}

theorem single {i : Instruction} (plain : i.frames = false) : Framed [] [i] :=
  .plain plain .nil

theorem append (first : Framed ds code) (second : Framed es more) :
    Framed (ds ++ es) (code ++ more) := by
  induction first with
  | nil => exact second
  | plain other _ ih => exact .plain other ih
  | function d inside ends _ _ ih =>
    simpa using Framed.function d inside ends ih

/-- No parameter and no end comes first. -/
theorem head (framed : Framed ds code) :
    ∀ i ∈ code.head?, i.isParam = false ∧ i.isEnd = false := by
  cases framed with
  | nil => exact nofun
  | plain other _ =>
    rintro i ⟨⟩
    simp_all [Instruction.frames]
  | function =>
    rintro i ⟨⟩
    exact ⟨rfl, rfl⟩

theorem balanced (framed : Framed ds code) :
    Bracketed (code.filterMap Instruction.bracket?) := by
  induction framed with
  | nil => exact .nil
  | @plain i _ _ other _ ih =>
    have none : i.bracket? = none := by
      cases i <;> simp_all [Instruction.frames, Instruction.isBegin, Instruction.isEnd,
        Instruction.bracket?]
    rwa [List.filterMap_cons_none none]
  | function d _ _ _ inside behind =>
    have params : (d.params.map Instruction.param).filterMap Instruction.bracket? = [] := by
      simp [List.filterMap_map, Instruction.bracket?]
    simpa [params, Instruction.bracket?] using Bracketed.around d.name inside behind

end Framed

theorem paramsAt_append {code more : List Instruction}
    (other : ∀ i ∈ more.head?, i.isParam = false) :
    paramsAt (code ++ more) = paramsAt code := by
  fun_induction paramsAt code with
  | case1 name code ih => rw [List.cons_append, paramsAt, ih]
  | case2 code plain =>
    cases code with
    | nil =>
      cases more with
      | nil => rfl
      | cons i more =>
        have unlike := other i rfl
        cases i <;> first | rfl | cases unlike
    | cons i code => cases i <;> first | rfl | exact absurd rfl (plain _ _)

theorem paramsAt_params (params : List String) {code : List Instruction}
    (other : ∀ i ∈ code.head?, i.isParam = false) :
    paramsAt (params.map .param ++ code) = params := by
  rw [paramsAt_append other]
  induction params with
  | nil => rfl
  | cons name others ih => rw [List.map_cons, paramsAt, ih]

theorem beginnings_cons {i : Instruction} (other : i.isBegin = false) (code : List Instruction) :
    beginnings (i :: code) = beginnings code := by
  cases i <;> first | rfl | cases other

theorem beginnings_params (params : List String) (code : List Instruction) :
    beginnings (params.map .param ++ code) = beginnings code := by
  induction params with
  | nil => rfl
  | cons name others ih => exact ih

theorem beginnings_append {code more : List Instruction}
    (other : ∀ i ∈ more.head?, i.isParam = false) :
    beginnings (code ++ more) = beginnings code ++ beginnings more := by
  fun_induction beginnings code with
  | case1 => rfl
  | case2 name code ih => rw [List.cons_append, beginnings, paramsAt_append other, ih]; rfl
  | case3 i code plain ih =>
    have unlike : i.isBegin = false := by
      cases i <;> first | rfl | exact absurd rfl (plain _)
    rw [List.cons_append, beginnings_cons unlike, ih]

namespace Framed

variable {ds : List Definition} {code : List Instruction}

theorem defined (framed : Framed ds code) : beginnings code = ds := by
  induction framed with
  | nil => rfl
  | @plain i _ _ other _ ih =>
    rw [beginnings_cons (by simp_all [Instruction.frames]), ih]
  | @function d inner ds body code _ inside ends _ ihInside ihBehind =>
    have first : ∀ i ∈ (body ++ Instruction.endFunction d.name :: code).head?,
        i.isParam = false := by
      cases body with
      | nil => exact nomatch ends
      | cons i body => exact fun j same => (inside.head j same).1
    rw [beginnings, paramsAt_params d.params first, beginnings_params,
      beginnings_append (by rintro i ⟨⟩; rfl), ihInside, beginnings_cons rfl, ihBehind]
    rfl

end Framed

/-- What may stand before a parameter and before the end of a function. -/
def Allows (i j : Instruction) : Prop :=
  (j.isParam → i.isBegin ∨ i.isParam) ∧ (j.isEnd → i.isReturn)

theorem allows_plain (i : Instruction) {code : List Instruction}
    (plain : ∀ j ∈ code.head?, j.isParam = false ∧ j.isEnd = false) :
    ∀ j ∈ code.head?, Allows i j := by
  intro j first
  obtain ⟨param, ends⟩ := plain j first
  simp [Allows, param, ends]

theorem chain_params {i : Instruction} (begins : i.isBegin ∨ i.isParam) (params : List String)
    {code : List Instruction} (plain : ∀ j ∈ code.head?, j.isParam = false ∧ j.isEnd = false)
    (chain : code.IsChain Allows) : (i :: (params.map .param ++ code)).IsChain Allows := by
  induction params generalizing i with
  | nil => exact List.isChain_cons.mpr ⟨allows_plain i plain, chain⟩
  | cons name others ih =>
    refine List.isChain_cons.mpr ⟨?_, ih (.inr rfl)⟩
    rintro j ⟨⟩
    exact ⟨fun _ => begins, nofun⟩

namespace Framed

variable {ds : List Definition} {code : List Instruction}

theorem chain (framed : Framed ds code) : code.IsChain Allows := by
  induction framed with
  | nil => exact .nil
  | plain _ behind ih => exact List.isChain_cons.mpr ⟨allows_plain _ behind.head, ih⟩
  | @function d inner ds body code value inside ends behind ihInside ihBehind =>
    have closing : (Instruction.endFunction d.name :: code).IsChain Allows :=
      List.isChain_cons.mpr ⟨allows_plain _ behind.head, ihBehind⟩
    have within : (body ++ Instruction.endFunction d.name :: code).IsChain Allows := by
      refine List.isChain_append.mpr ⟨ihInside, closing, ?_⟩
      rintro i last j ⟨⟩
      obtain rfl := Option.some.inj (ends.symm.trans last)
      exact ⟨nofun, fun _ => rfl⟩
    refine chain_params (.inl rfl) d.params ?_ within
    cases body with
    | nil => exact nomatch ends
    | cons i body => exact inside.head

/-- What stands right before a parameter or the end of a function. -/
theorem before (framed : Framed ds code) {front back : List Instruction} {i : Instruction}
    (found : code = front ++ i :: back) (mark : i.isParam ∨ i.isEnd) :
    ∃ j, front.getLast? = some j ∧ Allows j i := by
  subst found
  cases last : front.getLast? with
  | none =>
    obtain rfl := List.getLast?_eq_none_iff.mp last
    obtain ⟨param, ends⟩ := framed.head i rfl
    simp [param, ends] at mark
  | some j => exact ⟨j, rfl, (List.isChain_append.mp framed.chain).2.2 j last i rfl⟩

theorem returns (framed : Framed ds code) {front back : List Instruction} {name : String}
    (found : code = front ++ .endFunction name :: back) :
    ∃ value, front.getLast? = some (.giveBack value) := by
  obtain ⟨j, last, allows⟩ := framed.before found (.inr rfl)
  cases j with
  | giveBack value => exact ⟨value, last⟩
  | _ => exact nomatch allows.2 rfl

/-- No step leads to the end of a function: not the one before it, which is a return, and no jump,
which leads to a label. -/
theorem guarded (framed : Framed ds code) {Value World : Type} (m : Meaning Value World)
    {here there : Nat × Memory Value World} (stepped : machineStep m code here = some there)
    (name : String) : code[there.1]? ≠ some (.endFunction name) := by
  intro reached
  simp only [machineStep, Option.bind_eq_bind, Option.bind_eq_some_iff] at stepped
  obtain ⟨i, found, ⟨control, memory⟩, acted, led⟩ := stepped
  cases control with
  | next =>
    obtain rfl := Option.some.inj led
    obtain ⟨bound, same⟩ := List.getElem?_eq_some_iff.mp reached
    have split : code =
        code.take (here.1 + 1) ++ .endFunction name :: code.drop (here.1 + 1 + 1) := by
      rw [← same, List.getElem_cons_drop, List.take_append_drop]
    obtain ⟨value, last⟩ := framed.returns split
    obtain rfl : i = .giveBack value := by
      simpa [List.getLast?_take, found] using last
    cases acted
  | goto target =>
    obtain ⟨place, placed, rfl⟩ := Option.map_eq_some_iff.mp led
    obtain ⟨bound, same, _⟩ := List.idxOf?_eq_some_iff.mp placed
    rw [List.getElem?_eq_getElem bound, same] at reached
    cases reached
  | halt value => exact nomatch led

theorem framing (framed : Framed ds code) : Framing ds code where
  balanced := framed.balanced
  defined := framed.defined
  params := fun front name back found => by
    obtain ⟨j, last, allows⟩ := framed.before found (.inl rfl)
    exact ⟨j, last, allows.1 rfl⟩
  returns := fun _ _ _ found => framed.returns found
  guarded := fun m _ _ stepped => framed.guarded m stepped

end Framed

namespace Lowering

open Builder

/-- What lies between the builders is the code of some functions. -/
def Frames (ds : List Definition) (b c : Builder) : Prop :=
  ∃ code, c.code.toList = b.code.toList ++ code ∧ Framed ds code

namespace Frames

variable {ds es : List Definition} {b c d : Builder} {i : Instruction}

theorem refl (b : Builder) : Frames [] b b :=
  ⟨[], (List.append_nil _).symm, .nil⟩

theorem trans (first : Frames ds b c) (second : Frames es c d) : Frames (ds ++ es) b d := by
  obtain ⟨code, added, framed⟩ := first
  obtain ⟨more, behind, others⟩ := second
  exact ⟨code ++ more, by rw [behind, added, List.append_assoc], framed.append others⟩

/-- Behind functions there may be code without any. -/
theorem behind (frames : Frames ds b c) (plain : Frames [] c d) : Frames ds b d := by
  simpa using frames.trans plain

theorem emit (frames : Frames ds b c) (plain : i.frames = false) : Frames ds b (c.emit i) :=
  frames.behind ⟨[i], Array.toList_push, .single plain⟩

theorem label (frames : Frames ds b c) (l : Label) : Frames ds b (c.emit (.label l)) :=
  frames.emit rfl

theorem jump (frames : Frames ds b c) (l : Label) : Frames ds b (c.emit (.jump l)) :=
  frames.emit rfl

theorem newTemp (frames : Frames ds b c) : Frames ds b c.newTemp.2 :=
  frames

theorem newLabel (frames : Frames ds b c) : Frames ds b c.newLabel.2 :=
  frames

theorem pushBreak (frames : Frames ds b c) (l : Label) : Frames ds b (c.pushBreak l) :=
  frames

theorem popBreak (frames : Frames ds b c) : Frames ds b c.popBreak :=
  frames

theorem intoTemp (frames : Frames ds b c) {instruction : Operand → Instruction}
    (plain : ∀ o, (instruction o).frames = false) : Frames ds b (intoTemp instruction c).2 :=
  frames.newTemp.emit (plain _)

end Frames

theorem frames_store (target : Expr) (value : Operand) (b : Builder) :
    Frames [] b (store target value b).2 := by
  cases target with
  | symbol name => exact (Frames.refl b).emit rfl
  | _ => exact Frames.refl b

theorem frames_step (op : UnaryOp) (side : Side) (operand : Operand) (b : Builder) :
    Frames [] b (step op side operand b).2 := by
  have before (c : Builder) : Frames [] c (step op .before operand c).2 := by
    have updated : Frames [] c
        (intoTemp (.binary · (stepSpelling op) operand (intOperand 1)) c).2 :=
      (Frames.refl c).intoTemp fun _ => rfl
    rw [step_before]
    dsimp only
    split
    · exact updated.emit rfl
    · exact updated
  cases side with
  | before => exact before b
  | behind =>
    rw [step_behind]
    have copied : Frames [] b (intoTemp (.assign · operand) b).2 :=
      (Frames.refl b).intoTemp fun _ => rfl
    exact copied.trans (before _)

mutual

theorem frames_expr : (e : Expr) → (b : Builder) → Frames [] b (expr e b).2
  | .int .., b | .float .., b | .string .., b | .char .., b | .bool .., b | .symbol _, b =>
    Frames.refl b
  | .binary op left right _, b => by
    simp only [expr]
    split
    · exact (frames_expr right b).trans (frames_store _ _ _)
    · exact ((frames_expr left b).trans (frames_expr right _)).intoTemp fun _ => rfl
  | .unary op operand side _, b => by
    simp only [expr]
    split
    · exact (frames_expr operand b).trans (frames_step _ _ _ _)
    · exact (frames_expr operand b).intoTemp fun _ => rfl
  | .call callee args _, b => (frames_exprs args b).intoTemp fun _ => rfl
termination_by structural e => e

theorem frames_exprs : (es : List Expr) → (b : Builder) → Frames [] b (exprs es b).2
  | [], b => Frames.refl b
  | e :: others, b => (frames_expr e b).trans (frames_exprs others _)
termination_by structural es => es

end

/-- An instruction that reads the value of an expression. -/
theorem frames_read (e : Expr) (b : Builder) {i : Instruction} (plain : i.frames = false) :
    Frames [] b ((expr e b).2.emit i) :=
  (frames_expr e b).emit plain

theorem frames_variableStatement (name : String) (initial : Option Expr) (b : Builder) :
    Frames [] b (variableStatement name initial b) := by
  cases initial with
  | none => exact (Frames.refl b).emit rfl
  | some e => exact frames_read e b rfl

theorem frames_giveBack (value : Option Expr) (b : Builder) :
    Frames [] b (giveBack value b) := by
  cases value with
  | none => exact (Frames.refl b).emit rfl
  | some e => exact frames_read e b rfl

theorem frames_leave (b : Builder) : Frames [] b (leave b) := by
  unfold leave
  split
  · exact Frames.refl b
  · exact (Frames.refl b).emit rfl

theorem frames_effect (e : Expr) (b : Builder) : Frames [] b (effect e b) := by
  cases e with
  | call callee args _ => exact (frames_exprs args b).emit rfl
  | _ => exact frames_expr _ b

theorem frames_repeatWhile (condition : Option Expr) (start : Label) (b : Builder) :
    Frames [] b (repeatWhile condition start b) := by
  cases condition with
  | none => exact (Frames.refl b).emit rfl
  | some e => exact frames_read e b rfl

theorem frames_tests (subject : Operand) (cases : List Case) (b : Builder) :
    Frames [] b (tests subject cases b).2 := by
  induction cases generalizing b with
  | nil => exact Frames.refl b
  | cons arm others ih => exact (frames_read arm.value b rfl).trans (ih _)

theorem frames_lowered (loop : Loop) {ds : List Definition} {b c : Builder}
    (inside : ∀ d, Frames ds d (block loop.body d)) (begun : Frames [] b c) :
    Frames ds b (loop.lowered c) := by
  have turned : Frames ds b (loop.turned c) :=
    ((begun.pushBreak loop.finish).trans (inside _)).popBreak
  have advanced : Frames ds b (loop.advanced c) := by
    unfold Loop.advanced
    split
    · exact turned
    · split
      · exact turned.label _
      · exact (turned.label _).behind (frames_expr _ _)
  exact ((advanced.label loop.test).behind (frames_repeatWhile loop.condition loop.start _)).label _

/-- Before the first arm of a switch. -/
theorem frames_switched (e : Expr) (cases : List Case) (fallback : Option Block) (b : Builder) :
    Frames [] b (switched e cases fallback b).begun := by
  have tested : Frames [] b (tests (expr e b).1 cases (expr e b).2.newLabel.2).2 :=
    (frames_expr e b).newLabel.trans (frames_tests _ cases _)
  cases fallback with
  | none => exact (tested.emit rfl).pushBreak _
  | some _ => exact (tested.newLabel.emit rfl).pushBreak _

theorem code_head (name : String) (params : List String) (b : Builder) :
    (head name params b).code.toList =
      b.code.toList ++ .beginFunction name :: params.map .param := by
  have listed (c : Builder) : (params.foldl (fun b param => b.emit (.param param)) c).code.toList =
      c.code.toList ++ params.map .param := by
    induction params generalizing c with
    | nil => simp
    | cons first others ih => rw [List.foldl_cons, ih, Builder.emit, Array.toList_push]; simp
  rw [head, listed, enterFunction, Builder.emit, Array.toList_push]
  simp

/-- A function ends behind a return, whatever its body ends with. -/
theorem frames_function (name : String) (params : List String) (value : Option Operand)
    {body : Block} {inner : List Definition} (b : Builder)
    (inside : Frames inner (head name params b) (block body (head name params b))) :
    Frames (⟨name, params⟩ :: inner) b (foot name value (block body (head name params b))) := by
  obtain ⟨code, added, framed⟩ := inside
  generalize block body (head name params b) = d at added
  rw [code_head, List.append_assoc] at added
  -- What is behind the return is put behind the whole body.
  have closed {c : Builder} {body : List Instruction} {v : Option Operand}
      (put : c.code.toList = b.code.toList ++ (.beginFunction name :: params.map .param ++ body))
      (within : Framed inner body) (ends : body.getLast? = some (.giveBack v)) :
      Frames (⟨name, params⟩ :: inner) b (c.leaveFunction.emit (.endFunction name)) := by
    refine ⟨_, ?_, by simpa using Framed.function ⟨name, params⟩ within ends .nil⟩
    rw [Builder.emit, Array.toList_push, leaveFunction, put]
    simp
  have given : Frames (⟨name, params⟩ :: inner) b
      ((d.emit (.giveBack value)).leaveFunction.emit (.endFunction name)) := by
    have returned : Framed inner (code ++ [.giveBack value]) := by
      simpa using framed.append (.single rfl)
    refine closed ?_ returned List.getLast?_concat
    rw [Builder.emit, Array.toList_push, added]
    simp
  have last : d.last? = code.getLast?.or
      (Instruction.beginFunction name :: params.map .param).getLast? := by
    rw [last?, ← Array.getLast?_toList, added, List.getLast?_append, List.getLast?_append,
      List.getLast?_cons]
    simp
  unfold foot
  cases ending : d.last? with
  | none => exact given
  | some i =>
    cases i with
    | giveBack v =>
      refine closed added framed (v := v) ?_
      rw [ending] at last
      cases inside : code.getLast? with
      | some j => rw [last, inside, Option.some_or]
      | none =>
        rw [inside, Option.none_or] at last
        have member := List.mem_of_getLast? last.symm
        simp at member
    | _ => exact given

theorem definitionsIn_append (first second : List Stmt) :
    definitionsIn (first ++ second) = definitionsIn first ++ definitionsIn second :=
  List.filterMap_append

mutual

theorem frames_stmt : (s : Stmt) → (b : Builder) →
    Frames (definitionsIn (s :: s.inner)) b (stmt s b)
  | .variable _ name initial _, b => frames_variableStatement name initial b
  | .prototype .., b | .enumeration .., b | .inclusion .., b => Frames.refl b
  | .function ty name ps body _, b => frames_function name _ _ b (frames_block body _)
  | .main body _, b => frames_function "main" [] _ b (frames_block body _)
  | .block body, b => frames_block body b
  | .branch e yes none _, b => by
    have begun : Frames [] b (branched e b) := (frames_expr e b).newLabel.emit rfl
    have inner := begun.trans (frames_block yes (branched e b))
    rw [Stmt.inner, List.append_nil]
    exact inner.label _
  | .branch e yes (some no) _, b => by
    have begun : Frames [] b (branched e b) := (frames_expr e b).newLabel.emit rfl
    have first : Frames (definitionsIn yes.statements) b (turnedAway e yes b) :=
      ((begun.trans (frames_block yes (branched e b))).newLabel.jump _).label _
    have inner := first.trans (frames_block no (turnedAway e yes b))
    rw [← definitionsIn_append] at inner
    exact inner.label _
  | .whileLoop e body _, b => by
    rw [stmt_whileLoop]
    exact frames_lowered _ (frames_block body)
      (((Frames.refl b).newLabel.newLabel.newLabel.jump _).label _)
  | .doLoop body e _, b => by
    rw [stmt_doLoop]
    exact frames_lowered _ (frames_block body) ((Frames.refl b).newLabel.newLabel.newLabel.label _)
  | .forLoop none e update body _, b => by
    rw [stmt_forLoop]
    exact frames_lowered _ (frames_block body)
      (((Frames.refl b).newLabel.newLabel.newLabel.newLabel.jump _).label _)
  | .forLoop (some initial) e update body span, b => by
    rw [stmt_forLoop]
    change Frames (definitionsIn ((initial :: initial.inner) ++ body.statements)) b _
    rw [definitionsIn_append]
    exact (frames_stmt initial b).trans (frames_lowered _ (frames_block body)
      (((Frames.refl _).newLabel.newLabel.newLabel.newLabel.jump _).label _))
  | .switch e cases none span, b => by
    have chosen := (frames_switched e cases none b).trans
      (frames_arms cases (switched e cases none b).finish _ _ (switched_labels e cases none b))
    rw [stmt_switched, Stmt.inner, List.append_nil]
    exact chosen.popBreak.label _
  | .switch e cases (some fallback) span, b => by
    have chosen := (frames_switched e cases (some fallback) b).trans
      (frames_arms cases (switched e cases (some fallback) b).finish _ _
        (switched_labels e cases (some fallback) b))
    have inner := (chosen.label (switched e cases (some fallback) b).otherwise).trans
      (frames_block fallback _)
    rw [List.nil_append, ← definitionsIn_append] at inner
    rw [stmt_switched, Stmt.inner]
    exact inner.popBreak.label _
  | .giveBack value _, b => frames_giveBack value b
  | .leave _, b => frames_leave b
  | .print args _, b => (frames_exprs args b).emit rfl
  | .evaluate e _, b => frames_effect e b
termination_by structural s => s

theorem frames_block : (body : Block) → (b : Builder) →
    Frames (definitionsIn body.statements) b (block body b)
  | ⟨body, _⟩, b => frames_stmts body b
termination_by structural body => body

theorem frames_stmts : (body : List Stmt) → (b : Builder) →
    Frames (definitionsIn (bodyStatements body)) b (stmts body b)
  | [], b => Frames.refl b
  | s :: others, b => by
    rw [bodyStatements, definitionsIn_append]
    exact (frames_stmt s b).trans (frames_stmts others _)
termination_by structural body => body

theorem frames_arms : (cases : List Case) → (finish : Label) → (labels : List Label) →
    (b : Builder) → labels.length = cases.length →
    Frames (definitionsIn (armsStatements cases)) b (arms finish labels cases b)
  | [], _, _, b, _ => Frames.refl b
  | ⟨_, body, _⟩ :: others, finish, l :: labels, b, sized => by
    rw [armsStatements, definitionsIn_append]
    have first : Frames _ b ((block body (b.emit (.label l))).emit (.jump finish)) :=
      (((Frames.refl b).emit rfl).trans (frames_block body _)).emit rfl
    exact first.trans (frames_arms others finish labels _ (Nat.succ.inj sized))
termination_by structural cases => cases

end

end Lowering

/-- The functions of a program, with those that are defined inside of others. -/
theorem Program.framing_lowered (p : Program) : Framing p.definitions (Lowering.program p) := by
  obtain ⟨code, added, framed⟩ := Lowering.frames_stmts p.body .empty
  rw [Lowering.program, added]
  exact framed.framing

end Curly
