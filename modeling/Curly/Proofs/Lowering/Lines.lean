import Curly.Proofs.Lowering.Spelling
import Curly.Proofs.Text.Unquoted

/-! The text of the code, line by line. No operand, operator or name has a line feed in its text, so
each instruction stands on a line of its own, and constants that are texts can be told apart. -/
namespace Curly

/-- The text has no line feed. -/
def OneLine (text : String) : Prop :=
  '\n' ∉ text.toList

instance (text : String) : Decidable (OneLine text) :=
  inferInstanceAs (Decidable ('\n' ∉ text.toList))

namespace OneLine

variable {first second : String}

theorem append (one : OneLine first) (two : OneLine second) : OneLine (first ++ second) := by
  rw [OneLine, String.toList_append, List.mem_append]
  exact (·.elim one two)

theorem intercalate {texts : List String} (all : ∀ text ∈ texts, OneLine text) :
    OneLine (", ".intercalate texts) := by
  induction texts with
  | nil => decide
  | cons text others ih =>
    obtain ⟨here, rest⟩ := List.forall_mem_cons.mp all
    cases others with
    | nil => exact String.intercalate_singleton.symm ▸ here
    | cons other others =>
      rw [String.intercalate_cons_cons]
      exact (here.append (by decide)).append (ih rest)

theorem of_name {text : String} (named : IsName text) : OneLine text := by
  have word := named.word
  rw [OneLine]
  cases same : text.toList with
  | nil => exact nofun
  | cons c rest =>
    rw [same, isWord, Bool.and_eq_true, List.all_eq_true] at word
    intro member
    rcases List.mem_cons.mp member with rfl | member
    · exact absurd word.1 (by decide)
    · exact absurd (word.2 _ member) (by decide)

theorem index (n : Nat) : OneLine (toString n) := by
  rw [OneLine, Nat.toString_eq_repr, Nat.toList_repr]
  exact feed_not_mem_toDigits n

theorem int (n : Int) : OneLine (toString n) := by
  cases n with
  | ofNat n => exact index n
  | negSucc n =>
    rw [OneLine, toList_toString_negSucc, List.mem_cons, not_or]
    exact ⟨by decide, feed_not_mem_toDigits _⟩

theorem withPoint {digits : List Char} (plain : '\n' ∉ digits) (whole : Int) :
    '\n' ∉ Double.withPoint digits whole := by
  have front (n : Nat) : '\n' ∉ digits.take n := fun member => plain (List.mem_of_mem_take member)
  have back (n : Nat) : '\n' ∉ digits.drop n := fun member => plain (List.mem_of_mem_drop member)
  unfold Double.withPoint Double.zeros
  split
  · simp [plain]
  · split
    · simp [front, back]
    · simp [plain]

theorem scientific {digits : List Char} (plain : '\n' ∉ digits) (exponent : Int) :
    '\n' ∉ Double.scientific digits exponent := by
  have front : '\n' ∉ digits.take 1 := fun member => plain (List.mem_of_mem_take member)
  have back : '\n' ∉ digits.tail := fun member => plain (List.mem_of_mem_tail member)
  have power : '\n' ∉ exponent.repr.toList := int exponent
  unfold Double.scientific
  dsimp only
  split
  · simp [front, power]
  · simp [front, back, power]

theorem float (d : Double) : OneLine d.text := by
  have sign (negative : Bool) : '\n' ∉ Double.minus negative := by
    cases negative <;> decide
  cases d with
  | nan => decide
  | infinite negative => simp [OneLine, Double.text, sign]
  | finite negative significand exponent =>
    have digits (d : Decimal) : '\n' ∉ Double.decimalText d := by
      have plain := feed_not_mem_toDigits d.digits
      unfold Double.decimalText
      dsimp only
      split
      · exact withPoint plain _
      · exact scientific plain _
    rw [OneLine, Double.text, String.toList_ofList, List.mem_append, not_or]
    refine ⟨sign negative, ?_⟩
    split
    · decide
    · exact digits _

theorem bool (b : Bool) : OneLine (Lowering.boolOperand b).text := by
  cases b <;> decide

theorem operator (op : BinaryOp) : OneLine op.spelling := by
  cases op <;> decide

theorem prefixed (op : UnaryOp) : OneLine op.spelling := by
  cases op <;> decide

theorem label (l : Label) : OneLine l.text :=
  append (by decide) (index l.index)

theorem temp (k : Nat) : OneLine (Operand.temp k).text :=
  append (by decide) (index k)

theorem call {callee : String} {args : List Operand} (named : OneLine callee)
    (values : ∀ o ∈ args, OneLine o.text) : OneLine (Instruction.callText callee args) := by
  have listed : OneLine (", ".intercalate (args.map Operand.text)) :=
    intercalate (List.forall_mem_map.mpr values)
  have begun : OneLine ("call " ++ callee ++ "(") :=
    ((by decide : OneLine "call ").append named).append (by decide)
  exact (begun.append listed).append (by decide)

end OneLine

/-- The operands, operators and names of an instruction are written on one line. -/
def Instruction.Plain : Instruction → Prop
  | .assign target value => OneLine target.text ∧ OneLine value.text
  | .binary target op left right =>
    OneLine target.text ∧ OneLine op ∧ OneLine left.text ∧ OneLine right.text
  | .unary target op operand => OneLine target.text ∧ OneLine op ∧ OneLine operand.text
  | .jumpIfFalse condition _ | .jumpIfTrue condition _ => OneLine condition.text
  | .jumpIfEqual left right _ => OneLine left.text ∧ OneLine right.text
  | .call target callee args =>
    (∀ o ∈ target, OneLine o.text) ∧ OneLine callee ∧ ∀ o ∈ args, OneLine o.text
  | .giveBack value => ∀ o ∈ value, OneLine o.text
  | .beginFunction name | .endFunction name | .param name => OneLine name
  | .jump _ | .label _ => True

/-- What an instruction is written with beside its operands and names is on one line too. -/
theorem Instruction.Plain.oneLine {i : Instruction} (plain : i.Plain) : OneLine i.text := by
  have equals : OneLine " = " := by decide
  have space : OneLine " " := by decide
  have condition : OneLine "if " := by decide
  have marked : OneLine "function " := by decide
  cases i with
  | assign target value => exact (plain.1.append equals).append plain.2
  | binary target op left right =>
    obtain ⟨into, spelled, one, two⟩ := plain
    exact (((((into.append equals).append one).append space).append spelled).append space).append
      two
  | unary target op operand =>
    obtain ⟨into, spelled, value⟩ := plain
    exact ((into.append equals).append spelled).append value
  | jumpIfFalse value target | jumpIfTrue value target =>
    exact ((condition.append plain).append (by decide)).append (.label target)
  | jumpIfEqual left right target =>
    exact ((((condition.append plain.1).append (by decide)).append plain.2).append
      (by decide)).append (.label target)
  | jump target => exact .append (by decide) (.label target)
  | label here => exact (OneLine.label here).append (by decide)
  | call target callee args =>
    obtain ⟨into, named, values⟩ := plain
    cases target with
    | none => exact .call named values
    | some target => exact ((into target rfl).append equals).append (.call named values)
  | giveBack value =>
    cases value with
    | none => decide
    | some value => exact .append (by decide) (plain value rfl)
  | beginFunction name | endFunction name => exact (marked.append plain).append (by decide)
  | param name => exact OneLine.append plain (by decide)

theorem Instruction.Plain.line {i : Instruction} (plain : i.Plain) : OneLine i.line := by
  unfold Instruction.line
  split
  · exact plain.oneLine
  · exact .append (by decide) plain.oneLine

abbrev Builder.Plain (b : Builder) : Prop :=
  b.All Instruction.Plain

namespace Lowering

variable {b : Builder}

theorem plain_label (before : b.Plain) (l : Label) : (b.emit (.label l)).Plain :=
  before.emit trivial

theorem plain_jump (before : b.Plain) (l : Label) : (b.emit (.jump l)).Plain :=
  before.emit trivial

theorem plain_intoTemp {instruction : Operand → Instruction}
    (new : ∀ k, (instruction (.temp k)).Plain) (before : b.Plain) :
    OneLine (intoTemp instruction b).1.text ∧ (intoTemp instruction b).2.Plain :=
  ⟨.temp _, before.newTemp.emit (new _)⟩

theorem plain_store {target : Expr} (drawn : target.Drawn Token.Spelled) {value : Operand}
    (plain : OneLine value.text) (before : b.Plain) :
    OneLine (store target value b).1.text ∧ (store target value b).2.Plain := by
  cases target with
  | symbol name =>
    have named := OneLine.of_name (isName_of_drawn drawn)
    exact ⟨named, before.emit ⟨named, plain⟩⟩
  | _ => exact ⟨plain, before⟩

theorem plain_before (op : UnaryOp) {operand : Operand} (plain : OneLine operand.text)
    (before : b.Plain) :
    OneLine (step op .before operand b).1.text ∧ (step op .before operand b).2.Plain := by
  have spelled : OneLine (stepSpelling op) := by
    cases op <;> decide
  let instruction (target : Operand) : Instruction :=
    .binary target (stepSpelling op) operand (intOperand 1)
  have new (k : Nat) : (instruction (.temp k)).Plain := ⟨.temp k, spelled, plain, .int 1⟩
  have updated : (intoTemp instruction b).2.Plain := (plain_intoTemp new before).2
  rw [step_before]
  cases operand with
  | «variable» name => exact ⟨plain, updated.emit ⟨plain, .temp _⟩⟩
  | _ => exact ⟨.temp _, updated⟩

theorem plain_step (op : UnaryOp) (side : Side) {operand : Operand} (plain : OneLine operand.text)
    (before : b.Plain) :
    OneLine (step op side operand b).1.text ∧ (step op side operand b).2.Plain := by
  cases side with
  | before => exact plain_before op plain before
  | behind =>
    rw [step_behind]
    have saved : OneLine (intoTemp (.assign · operand) b).1.text ∧
        (intoTemp (.assign · operand) b).2.Plain :=
      plain_intoTemp (fun k => ⟨.temp k, plain⟩) before
    exact ⟨saved.1, (plain_before op plain saved.2).2⟩

mutual

/-- The value of an expression is written on one line, and so is all that is emitted for it. -/
theorem plain_expr : (e : Expr) → e.Drawn Token.Spelled → {b : Builder} → b.Plain →
    OneLine (expr e b).1.text ∧ (expr e b).2.Plain
  | .int value _, _, _, before => ⟨.int value, before⟩
  | .float value _, _, _, before => ⟨.float value, before⟩
  | .string value _, _, _, before => ⟨Text.feed_not_mem_quotedWith (.inl rfl) value.toList, before⟩
  | .char value _, _, _, before => ⟨Text.feed_not_mem_quotedWith (.inr rfl) [value], before⟩
  | .bool value _, _, _, before => ⟨.bool value, before⟩
  | .symbol name, drawn, _, before => by
    refine ⟨?_, before⟩
    simp only [expr, nameOperand]
    split
    · exact .int _
    · exact .of_name (isName_of_drawn drawn)
  | .binary op left right _, drawn, _, before => by
    obtain ⟨first, second⟩ := Expr.drawn_binary.mp drawn
    simp only [expr]
    split
    · -- The target is not evaluated, but its name stands in the code.
      obtain ⟨value, behind⟩ := plain_expr right second before
      exact plain_store first value behind
    · obtain ⟨one, between⟩ := plain_expr left first before
      obtain ⟨two, behind⟩ := plain_expr right second between
      exact plain_intoTemp (fun k => ⟨.temp k, .operator op, one, two⟩) behind
  | .unary op operand side _, drawn, _, before => by
    obtain ⟨value, behind⟩ := plain_expr operand drawn before
    simp only [expr]
    split
    · exact plain_step op side value behind
    · exact plain_intoTemp (fun k => ⟨.temp k, .prefixed op, value⟩) behind
  | .call callee args _, drawn, _, before => by
    obtain ⟨named, inside⟩ := Expr.drawn_call.mp drawn
    obtain ⟨values, behind⟩ := plain_exprs args inside before
    refine plain_intoTemp (fun k => ⟨?_, .of_name (isName_of_drawn named), values⟩) behind
    rintro o ⟨⟩
    exact .temp k
termination_by structural e => e

theorem plain_exprs : (es : List Expr) → (∀ e ∈ es, e.Drawn Token.Spelled) → {b : Builder} →
    b.Plain → (∀ o ∈ (exprs es b).1, OneLine o.text) ∧ (exprs es b).2.Plain
  | [], _, _, before => ⟨nofun, before⟩
  | e :: others, drawn, _, before => by
    obtain ⟨first, rest⟩ := List.forall_mem_cons.mp drawn
    obtain ⟨value, between⟩ := plain_expr e first before
    obtain ⟨values, behind⟩ := plain_exprs others rest between
    exact ⟨List.forall_mem_cons.mpr ⟨value, values⟩, behind⟩
termination_by structural es => es

end

theorem plain_effect {e : Expr} (drawn : e.Drawn Token.Spelled) (before : b.Plain) :
    (effect e b).Plain := by
  cases e with
  | call callee args _ =>
    obtain ⟨named, inside⟩ := Expr.drawn_call.mp drawn
    obtain ⟨values, behind⟩ := plain_exprs args inside before
    exact behind.emit ⟨nofun, .of_name (isName_of_drawn named), values⟩
  | _ => exact (plain_expr _ drawn before).2

theorem plain_variableStatement {name : String} (named : OneLine name) {initial : Option Expr}
    (drawn : ∀ e ∈ initial, e.Drawn Token.Spelled) (before : b.Plain) :
    (variableStatement name initial b).Plain := by
  cases initial with
  | none => exact before.emit ⟨named, .int 0⟩
  | some e =>
    obtain ⟨value, behind⟩ := plain_expr e (drawn e rfl) before
    exact behind.emit ⟨named, value⟩

theorem plain_giveBack {value : Option Expr} (drawn : ∀ e ∈ value, e.Drawn Token.Spelled)
    (before : b.Plain) : (giveBack value b).Plain := by
  cases value with
  | none => exact before.emit nofun
  | some e =>
    obtain ⟨plain, behind⟩ := plain_expr e (drawn e rfl) before
    refine behind.emit ?_
    rintro o ⟨⟩
    exact plain

theorem plain_leave (before : b.Plain) : (leave b).Plain := by
  unfold leave
  split
  · exact before
  · exact plain_jump before _

theorem plain_head {name : String} (named : OneLine name) {params : List String}
    (listed : ∀ p ∈ params, OneLine p) (before : b.Plain) : (head name params b).Plain := by
  have follow (d : Builder) (begun : d.Plain) :
      (params.foldl (fun b param => b.emit (.param param)) d).Plain := by
    induction params generalizing d with
    | nil => exact begun
    | cons first others ih =>
      obtain ⟨one, rest⟩ := List.forall_mem_cons.mp listed
      exact ih rest _ (begun.emit one)
  have begun : (b.emit (.beginFunction name)).Plain := before.emit named
  exact follow _ begun

theorem plain_foot {name : String} (named : OneLine name) {value : Option Operand}
    (plain : ∀ o ∈ value, OneLine o.text) (before : b.Plain) : (foot name value b).Plain := by
  have returned (returns : Bool) :
      (if returns = true then b else b.emit (.giveBack value)).leaveFunction.Plain := by
    cases returns with
    | true => exact before
    | false => exact before.emit plain
  exact (returned _).emit named

theorem plain_repeatWhile {condition : Option Expr} (start : Label)
    (drawn : ∀ e ∈ condition, e.Drawn Token.Spelled) (before : b.Plain) :
    (repeatWhile condition start b).Plain := by
  cases condition with
  | none => exact plain_jump before start
  | some e =>
    obtain ⟨value, behind⟩ := plain_expr e (drawn e rfl) before
    exact behind.emit value

theorem plain_lowered (loop : Loop)
    (drawn : ∀ e ∈ loop.condition.toList ++ loop.update.toList, e.Drawn Token.Spelled)
    (inside : ∀ {d : Builder}, d.Plain → (block loop.body d).Plain) (before : b.Plain) :
    (loop.lowered b).Plain := by
  obtain ⟨condition, update⟩ := List.forall_mem_append.mp drawn
  have turned : (loop.turned b).Plain := (inside (before.pushBreak loop.finish)).popBreak
  have advanced : (loop.advanced b).Plain := by
    unfold Loop.advanced
    split
    · exact turned
    · split
      next => exact plain_label turned _
      next e known =>
        exact (plain_expr e (update e (Option.mem_toList.mpr known)) (plain_label turned _)).2
  have tested := plain_repeatWhile loop.start
    (fun e known => condition e (Option.mem_toList.mpr known)) (plain_label advanced loop.test)
  exact plain_label tested loop.finish

theorem plain_branched {e : Expr} (drawn : e.Drawn Token.Spelled) (before : b.Plain) :
    (branched e b).Plain := by
  obtain ⟨value, behind⟩ := plain_expr e drawn before
  exact behind.newLabel.emit value

theorem plain_tests {subject : Operand} (plain : OneLine subject.text) {cases : List Case}
    (drawn : ∀ arm ∈ cases, arm.value.Drawn Token.Spelled) (before : b.Plain) :
    (tests subject cases b).2.Plain := by
  induction cases generalizing b with
  | nil => exact before
  | cons arm others ih =>
    obtain ⟨here, rest⟩ := List.forall_mem_cons.mp drawn
    obtain ⟨value, behind⟩ := plain_expr arm.value here before
    exact ih rest (behind.newLabel.emit ⟨plain, value⟩)

theorem plain_switched {e : Expr} (subject : e.Drawn Token.Spelled) {cases : List Case}
    (values : ∀ arm ∈ cases, arm.value.Drawn Token.Spelled) (fallback : Option Block)
    (before : b.Plain) : (switched e cases fallback b).begun.Plain := by
  obtain ⟨value, behind⟩ := plain_expr e subject before
  have tried := plain_tests value values behind.newLabel
  have led (l : Label) : (otherwise fallback l
      (tests (expr e b).1 cases (expr e b).2.newLabel.2).2).2.Plain := by
    cases fallback with
    | none => exact tried
    | some _ => exact tried.newLabel
  exact (plain_jump (led _) _).pushBreak _

end Lowering

/-- What the statement itself says can be written on one line. -/
structure Stmt.Plain (s : Stmt) : Prop where
  names : ∀ name ∈ s.introduces, OneLine name
  expressions : ∀ e ∈ s.expressions, e.Drawn Token.Spelled

theorem Stmt.Drawn.plain {s : Stmt} (drawn : s.Drawn Token.Spelled) : s.Plain := by
  refine ⟨?_, drawn.expressions⟩
  rcases drawn.names with named | ⟨body, span, rfl⟩
  · intro name member
    obtain ⟨t, spelled, kind, rfl⟩ := named name member
    exact .of_name (spelled.name kind)
  · exact List.forall_mem_singleton.mpr (by decide)

namespace Lowering

mutual

/-- Behind a statement every instruction is written on one line if those before it are. -/
theorem plain_stmt : (s : Stmt) → (∀ t ∈ s :: s.inner, t.Plain) → {b : Builder} → b.Plain →
    (stmt s b).Plain
  | .variable .., plain, _, before => by
    have own := plain _ (.head _)
    exact plain_variableStatement (own.names _ (.head _))
      (fun e member => own.expressions e (Option.mem_toList.mpr member)) before
  | .prototype .., _, _, before | .enumeration .., _, _, before | .inclusion .., _, _, before =>
    before
  | .function ty name ps body _, plain, _, before => by
    obtain ⟨own, inner⟩ := List.forall_mem_cons.mp plain
    obtain ⟨named, params⟩ := List.forall_mem_cons.mp own.names
    have given : ∀ o ∈ (if ty = .void then none else some defaultOperand), OneLine o.text := by
      split
      · exact nofun
      · rintro o ⟨⟩
        exact .int 0
    exact plain_foot named given (plain_block body inner (plain_head named params before))
  | .main body _, plain, _, before => by
    obtain ⟨own, inner⟩ := List.forall_mem_cons.mp plain
    have named := List.forall_mem_singleton.mp own.names
    refine plain_foot named ?_ (plain_block body inner (plain_head named nofun before))
    rintro o ⟨⟩
    exact .int 0
  | .block body, plain, _, before =>
    plain_block body (List.forall_mem_cons.mp plain).2 before
  | .branch e yes none _, plain, _, before => by
    obtain ⟨own, inner⟩ := List.forall_mem_cons.mp plain
    have begun := plain_branched (own.expressions e (.head _)) before
    exact plain_label (plain_block yes (List.forall_mem_append.mp inner).1 begun) _
  | .branch e yes (some no) _, plain, _, before => by
    obtain ⟨own, inner⟩ := List.forall_mem_cons.mp plain
    obtain ⟨first, second⟩ := List.forall_mem_append.mp inner
    have begun := plain_branched (own.expressions e (.head _)) before
    have passed := (plain_block yes first begun).newLabel
    exact plain_label (plain_block no second (plain_label (plain_jump passed _) _)) _
  | .whileLoop e body _, plain, _, before => by
    obtain ⟨own, inner⟩ := List.forall_mem_cons.mp plain
    rw [stmt_whileLoop]
    exact plain_lowered _ own.expressions (plain_block body inner)
      (plain_label (plain_jump before.newLabel.newLabel.newLabel _) _)
  | .doLoop body e _, plain, _, before => by
    obtain ⟨own, inner⟩ := List.forall_mem_cons.mp plain
    rw [stmt_doLoop]
    exact plain_lowered _ own.expressions (plain_block body inner)
      (plain_label before.newLabel.newLabel.newLabel _)
  | .forLoop none e update body _, plain, _, before => by
    obtain ⟨own, inner⟩ := List.forall_mem_cons.mp plain
    rw [stmt_forLoop]
    exact plain_lowered _ own.expressions (plain_block body inner)
      (plain_label (plain_jump before.newLabel.newLabel.newLabel.newLabel _) _)
  | .forLoop (some initial) e update body _, plain, _, before => by
    obtain ⟨own, inner⟩ := List.forall_mem_cons.mp plain
    obtain ⟨start, inside⟩ := List.forall_mem_append.mp inner
    rw [stmt_forLoop]
    have begun := plain_stmt initial start before
    exact plain_lowered _ own.expressions (plain_block body inside)
      (plain_label (plain_jump begun.newLabel.newLabel.newLabel.newLabel _) _)
  | .switch e cases none _, plain, _, before => by
    obtain ⟨own, inner⟩ := List.forall_mem_cons.mp plain
    obtain ⟨subject, values⟩ := List.forall_mem_cons.mp own.expressions
    have begun := plain_switched subject (List.forall_mem_map.mp values) none before
    rw [stmt_switched]
    exact plain_label
      (plain_arms cases (List.forall_mem_append.mp inner).1 _ _ begun).popBreak _
  | .switch e cases (some fallback) _, plain, b, before => by
    obtain ⟨own, inner⟩ := List.forall_mem_cons.mp plain
    obtain ⟨subject, values⟩ := List.forall_mem_cons.mp own.expressions
    obtain ⟨first, second⟩ := List.forall_mem_append.mp inner
    have begun := plain_switched subject (List.forall_mem_map.mp values) (some fallback) before
    let switch := switched e cases (some fallback) b
    have chosen := plain_arms cases first switch.finish switch.labels begun
    rw [stmt_switched]
    exact plain_label (plain_block fallback second (plain_label chosen _)).popBreak _
  | .giveBack .., plain, _, before =>
    plain_giveBack (fun e member =>
      (plain _ (.head _)).expressions e (Option.mem_toList.mpr member)) before
  | .leave _, _, _, before => plain_leave before
  | .print args _, plain, _, before => by
    obtain ⟨values, behind⟩ := plain_exprs args (plain _ (.head _)).expressions before
    exact behind.emit ⟨nofun, by decide, values⟩
  | .evaluate e _, plain, _, before =>
    plain_effect ((plain _ (.head _)).expressions e (.head _)) before
termination_by structural s => s

theorem plain_block : (body : Block) → (∀ t ∈ body.statements, t.Plain) → {b : Builder} →
    b.Plain → (block body b).Plain
  | ⟨body, _⟩, plain, _, before => plain_stmts body plain before
termination_by structural body => body

theorem plain_stmts : (body : List Stmt) → (∀ t ∈ bodyStatements body, t.Plain) →
    {b : Builder} → b.Plain → (stmts body b).Plain
  | [], _, _, before => before
  | s :: others, plain, _, before => by
    obtain ⟨first, rest⟩ := List.forall_mem_append.mp plain
    exact plain_stmts others rest (plain_stmt s first before)
termination_by structural body => body

theorem plain_arms : (cases : List Case) → (∀ t ∈ armsStatements cases, t.Plain) →
    (finish : Label) → (labels : List Label) → {b : Builder} → b.Plain →
    (arms finish labels cases b).Plain
  | [], _, _, _, _, before => before
  | ⟨_, _, _⟩ :: _, _, _, [], _, before => before
  | ⟨_, body, _⟩ :: others, plain, finish, l :: labels, _, before => by
    obtain ⟨first, rest⟩ := List.forall_mem_append.mp plain
    exact plain_arms others rest finish labels
      (plain_jump (plain_block body first (plain_label before l)) _)
termination_by structural cases => cases

end

end Lowering

/-- Every instruction of a source that is compiled is written on one line. -/
theorem plain_of_compiled {source : String} {code : List Instruction}
    (compiled : compile source = .ok code) : ∀ i ∈ code, i.Plain := by
  obtain ⟨p, read, -, -, rfl⟩ := program_of_compiled compiled
  obtain ⟨tokens, scanned, parsed⟩ := tokens_of_readProgram read
  have drawn : AllDrawn Token.Spelled p.statements :=
    Parse.allDrawn_of_parsed (spelled_tokenize scanned)
      (fun _ => @Token.Kind.spells_of_ne .eof nofun nofun nofun _) parsed
  exact Lowering.plain_stmts p.body (fun s listed => (drawn s listed).plain) (b := .empty) nofun

/-- The lines of the text are those of the instructions, and behind the last one is nothing. -/
theorem splitOn_listing {code : List Instruction} (plain : ∀ i ∈ code, i.Plain) :
    (listing code).toList.splitOn '\n' = code.map (·.line.toList) ++ [[]] := by
  induction code with
  | nil => rfl
  | cons i code ih =>
    obtain ⟨here, rest⟩ := List.forall_mem_cons.mp plain
    have text : (listing (i :: code)).toList = i.line.toList ++ '\n' :: (listing code).toList := by
      simp [listing]
    rw [text, List.splitOn_append_cons_self_of_not_mem here.line, ih rest]
    rfl

/-- The value of a literal that is written between quotes. -/
inductive Textual where
  | string (value : String)
  | char (value : Char)

def Textual.literal (span : Span) : Textual → Expr
  | .string value => .string value span
  | .char value => .char value span

namespace Lowering

/-- Literals between quotes are lowered to one text only if they have one value. -/
theorem text_literal_eq_iff {x y : Textual} {first second : Span} {b c : Builder} :
    (expr (x.literal first) b).1.text = (expr (y.literal second) c).1.text ↔ x = y := by
  constructor
  · intro same
    cases x with
    | string s =>
      cases y with
      | string t => exact congrArg Textual.string (Text.quotedString_inj same)
      | char d => exact absurd same (Text.quotedString_ne_quotedCharacter s d)
    | char c =>
      cases y with
      | string t => exact absurd same.symm (Text.quotedString_ne_quotedCharacter t c)
      | char d => exact congrArg Textual.char (Text.quotedCharacter_inj same)
  · rintro rfl
    cases x <;> rfl

end Lowering

/-- The text of a source that is compiled has one line for each instruction, indented by two spaces
unless the instruction is a mark, and literals between quotes are told apart in it. -/
theorem lines_of_compiled {source : String} {code : List Instruction}
    (compiled : compile source = .ok code) :
    (listing code).toList.splitOn '\n' =
        code.map (fun i => (if i.isMark then i.text else "  " ++ i.text).toList) ++ [[]] ∧
      (∀ i ∈ code, OneLine i.text) ∧
      ∀ (x y : Textual) (first second : Span) (b c : Builder),
        (Lowering.expr (x.literal first) b).1.text = (Lowering.expr (y.literal second) c).1.text ↔
          x = y :=
  have plain := plain_of_compiled compiled
  ⟨splitOn_listing plain, fun i member => (plain i member).oneLine,
    fun _ _ _ _ _ _ => Lowering.text_literal_eq_iff⟩

/-- A program that prints a text with a line feed in it. -/
def feeding : String :=
  "main \x7b print(\"one\ntwo\", \x27c\x27); \x7d"

def feedingCode : List Instruction :=
  [.beginFunction "main",
   .call none "print" [.constant "\"one\\ntwo\"", .constant "\x27c\x27"],
   .giveBack (some (.constant "0")), .endFunction "main"]

theorem feeding_compiled : compile feeding = .ok feedingCode := by decide +kernel

theorem lines_of_feeding :
    compile feeding = .ok feedingCode ∧
      ((listing feedingCode).toList.splitOn '\n').length = 5 := by
  refine ⟨feeding_compiled, ?_⟩
  rw [(lines_of_compiled feeding_compiled).1]
  rfl

end Curly
