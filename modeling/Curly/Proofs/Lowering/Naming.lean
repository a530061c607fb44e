import Curly.Proofs.Lowering.Growth
import Curly.Proofs.Scope.Path
import Curly.Scope.Analysis
import Curly.Typing.Checker

/-! The operands that variables are lowered to. Lowering calls a variable by its name alone, so two
variables of one name are kept apart only where neither hides the other. -/
namespace Curly

def Instruction.target? : Instruction → Option Operand
  | .assign target _ | .binary target _ _ _ | .unary target _ _ | .call (some target) _ _ =>
    some target
  | .param name => some (.variable name)
  | _ => none

/-- A place where a program names something: the scopes there, and the operand in the code. -/
structure Mention where
  name : String
  table : Table
  operand : Operand
  declares : Bool

/-- A variable is known by its frame and its name. -/
abbrev VariableId : Type := FrameId × String

/-- The nearest frame in which a name stands for something. -/
def Table.home? (t : Table) (name : String) : Option FrameId :=
  (t.current :: t.outer).find? fun id => !(t.namedIn id name).isEmpty

/-- What is declared at a mention, or used there. -/
def Mention.meant? (x : Mention) : Option VariableId :=
  if x.declares then some (x.table.current, x.name)
  else (x.table.home? x.name).map (·, x.name)

namespace Lowering

/-- The declaration of a name, which the last instruction carries out. -/
def declaration (name : String) (t : Table) (after : Builder) : List Mention :=
  match after.last?.bind Instruction.target? with
  | none => []
  | some operand => [⟨name, t, operand, true⟩]

def assignment (target : Expr) (value : Operand) (t : Table) (b : Builder) : List Mention :=
  match target.symbol? with
  | none => []
  | some name => [⟨name.name, t, (store target value b).1, false⟩]

mutual

def exprMentions : Expr → Table → Builder → List Mention
  | .symbol name, t, b => [⟨name.name, t, (expr (.symbol name) b).1, false⟩]
  | .binary op left right _, t, b =>
    let (value, c) := expr right b
    if op = .assign then exprMentions right t b ++ assignment left value t c
    else exprMentions left t b ++ exprMentions right t (expr left b).2
  | .unary _ operand _ _, t, b => exprMentions operand t b
  | .call _ args _, t, b => exprsMentions args t b
  | _, _, _ => []
termination_by structural e => e

def exprsMentions : List Expr → Table → Builder → List Mention
  | [], _, _ => []
  | e :: others, t, b => exprMentions e t b ++ exprsMentions others t (expr e b).2
termination_by structural es => es

end

def optionalMentions : Option Expr → Table → Builder → List Mention
  | none, _, _ => []
  | some e, t, b => exprMentions e t b

def paramMentions (earlier : List String) : List Param → Analysis → Builder → List Mention
  | [], _, _ => []
  | p :: others, a, b =>
    declaration p.name a.table (b.emit (.param p.name)) ++
      paramMentions (p.name :: earlier) others
        (a.obey p.name p.span.start (.onParam earlier p)) (b.emit (.param p.name))

section

variable (declared : String → Bool)

mutual

def stmtMentions : Stmt → Analysis → Builder → List Mention
  | .variable _ name initial _, a, b =>
    optionalMentions initial a.table b ++
      declaration name (Analysis.optional declared initial a).table
        (variableStatement name initial b)
  | .function ty name ps body span, a, b =>
    let a := (a.obey name span.start (.onFunction a.table ty name (signature ps) span.start)).enter
    let names := ps.map Param.name
    paramMentions [] ps a ((b.emit (.beginFunction name)).enterFunction names) ++
      blockMentions body (Analysis.params [] ps a) (head name names b)
  | .main body span, a, b =>
    blockMentions body (a.obey "main" span.start (.onMain a.table span.start)).enter
      (head "main" [] b)
  | .block body, a, b => blockMentions body a.enter b
  | .branch e yes no _, a, b =>
    let tried := Analysis.expr declared e a
    let (condition, c) := expr e b
    let (otherwise, c) := c.newLabel
    let c := c.emit (.jumpIfFalse condition otherwise)
    exprMentions e a.table b ++ blockMentions yes tried.enter c ++
      match no with
      | none => []
      | some no =>
        let (finish, d) := (block yes c).newLabel
        blockMentions no (Analysis.block declared yes tried).enter
          ((d.emit (.jump finish)).emit (.label otherwise))
  | .whileLoop e body _, a, b =>
    let loop := whileLoop e body b.labels
    let c := (b.newLabel.2.newLabel.2.newLabel.2.emit (.jump loop.test)).emit (.label loop.start)
    exprMentions e a.table ((loop.advanced c).emit (.label loop.test)) ++
      blockMentions body (Analysis.expr declared e a).enter (c.pushBreak loop.finish)
  | .doLoop body e _, a, b =>
    let loop := whileLoop e body b.labels
    let c := b.newLabel.2.newLabel.2.newLabel.2.emit (.label loop.start)
    blockMentions body a.enter (c.pushBreak loop.finish) ++
      exprMentions e (Analysis.block declared body a).table
        ((loop.advanced c).emit (.label loop.test))
  | .forLoop initial e update body _, a, b =>
    let begun := match initial with
      | none => a.enter
      | some initial => Analysis.stmt declared initial a.enter
    let c := stmts initial.toList b
    let loop := forLoop e update body c.labels
    let d := (c.newLabel.2.newLabel.2.newLabel.2.newLabel.2.emit (.jump loop.test)).emit
      (.label loop.start)
    let tried := Analysis.optional declared e begun
    (match initial with
      | none => []
      | some initial => stmtMentions initial a.enter b) ++
      optionalMentions e begun.table ((loop.advanced d).emit (.label loop.test)) ++
      optionalMentions update tried.table ((loop.turned d).emit (.label ⟨c.labels + 1⟩)) ++
      blockMentions body (Analysis.optional declared update tried).enter (d.pushBreak loop.finish)
  | .switch e cases fallback _, a, b =>
    let tried := Analysis.expr declared e a
    let (subject, c) := expr e b
    let (finish, c) := c.newLabel
    let (labels, d) := tests subject cases c
    let (l, d) := otherwise fallback finish d
    let d := (d.emit (.jump l)).pushBreak finish
    exprMentions e a.table b ++ armsMentions subject finish cases tried c labels d ++
      match fallback with
      | none => []
      | some fallback =>
        blockMentions fallback (Analysis.arms declared cases tried).enter
          ((arms finish labels cases d).emit (.label l))
  | .giveBack value _, a, b => optionalMentions value a.table b
  | .print args _, a, b => exprsMentions args a.table b
  | .evaluate e _, a, b => exprMentions e a.table b
  | .prototype .., _, _ | .enumeration .., _, _ | .leave _, _, _ | .inclusion .., _, _ => []
termination_by structural s => s

def blockMentions : Block → Analysis → Builder → List Mention
  | ⟨body, _⟩, a, b => stmtsMentions body a b
termination_by structural body => body

def stmtsMentions : List Stmt → Analysis → Builder → List Mention
  | [], _, _ => []
  | s :: others, a, b =>
    stmtMentions s a b ++ stmtsMentions others (Analysis.stmt declared s a) (stmt s b)
termination_by structural body => body

/-- Values are met among the tests, bodies among the arms. -/
def armsMentions (subject : Operand) (finish : Label) :
    List Case → Analysis → Builder → List Label → Builder → List Mention
  | ⟨value, body, _⟩ :: others, a, c, l :: labels, d =>
    let tried := Analysis.expr declared value a
    let (operand, e) := expr value c
    exprMentions value a.table c ++ blockMentions body tried.enter (d.emit (.label l)) ++
      armsMentions subject finish others (Analysis.block declared body tried)
        (e.newLabel.2.emit (.jumpIfEqual subject operand e.newLabel.1)) labels
        ((block body (d.emit (.label l))).emit (.jump finish))
  | _, _, _, _, _ => []
termination_by structural cases => cases

end

end
end Lowering

namespace Table

def Holds (t : Table) (v : VariableId) : Prop :=
  ∃ s ∈ t.namedIn v.1 v.2, s.isVariable

instance (t : Table) (v : VariableId) : Decidable (t.Holds v) :=
  inferInstanceAs (Decidable (∃ s ∈ t.namedIn v.1 v.2, s.isVariable))

theorem holds_modify {t : Table} {change : Frame → Frame} {v : VariableId} (new : Symbol → Prop)
    (adds : ∀ f, ∀ s ∈ (change f).symbols, s.isVariable → s ∈ f.symbols ∨ new s)
    (holds : (t.modify change).Holds v) :
    t.Holds v ∨ ∃ s, new s ∧ s.isVariable ∧ v = (t.current, s.name) := by
  obtain ⟨s, member, isVariable⟩ := holds
  simp only [namedIn, frame?_modify] at member
  by_cases here : t.current = v.1
  · rw [if_pos here] at member
    cases found : t.frame? v.1 with
    | none => simp [found] at member
    | some f =>
      simp only [found, Option.map_some, Frame.named, List.mem_filter, decide_eq_true_eq] at member
      rcases adds f s member.1 isVariable with old | fresh
      · refine .inl ⟨s, ?_, isVariable⟩
        simp [namedIn, found, Frame.named, old, member.2]
      · exact .inr ⟨s, fresh, isVariable, by rw [member.2, here]⟩
  · rw [if_neg here] at member
    exact .inl ⟨s, member, isVariable⟩

theorem holds_declare {t : Table} {s : Symbol} {v : VariableId} (holds : (t.declare s).Holds v) :
    t.Holds v ∨ s.isVariable ∧ v = (t.current, s.name) := by
  have adds (f : Frame) (other : Symbol) (member : other ∈ (f.declare s).symbols) :
      other ∈ f.symbols ∨ other = s := by
    simpa [Frame.declare] using member
  rcases holds_modify (· = s) (fun f other member _ => adds f other member) holds with
    old | ⟨_, rfl, isVariable, rfl⟩
  · exact .inl old
  · exact .inr ⟨isVariable, rfl⟩

theorem holds_completeOverload {t : Table} {name : String} {params : List Ty} {v : VariableId}
    (holds : (t.completeOverload name params).Holds v) : t.Holds v := by
  have kept (p : Symbol → Bool) (symbols : List Symbol) (s : Symbol) (isVariable : s.isVariable) :
      s ∈ Frame.completeFirst p symbols → s ∈ symbols := by
    induction symbols with
    | nil => exact id
    | cons first others ih =>
      unfold Frame.completeFirst
      intro member
      split at member
      · rcases List.mem_cons.mp member with rfl | member
        · obtain ⟨name, ty, position, kind⟩ := first
          cases kind <;>
            first
            | exact List.mem_cons_self
            | simp [Symbol.completed, Symbol.isVariable] at isVariable
        · exact List.mem_cons_of_mem _ member
      · rcases List.mem_cons.mp member with rfl | member
        · exact List.mem_cons_self
        · exact List.mem_cons_of_mem _ (ih member)
  rcases holds_modify (fun _ => False)
    (fun f s member isVariable => .inl (kept _ _ s isVariable member)) holds with old | ⟨_, no, _⟩
  · exact old
  · exact no.elim

theorem holds_exit {t : Table} {v : VariableId} (holds : t.exit.Holds v) : t.Holds v := by
  unfold exit at holds
  split at holds <;> exact holds

theorem holds_enter {t : Table} {v : VariableId} (holds : t.enter.Holds v) : t.Holds v := by
  let change (f : Frame) : Frame := { f with children := f.children ++ [t.size] }
  obtain ⟨s, member, isVariable⟩ := holds
  have frames : t.enter.frame? v.1 =
      if v.1 = (t.modify change).frames.size then some ⟨t.level + 1, some t.current, [], []⟩
      else (t.modify change).frame? v.1 := by
    simp only [frame?, enter, change, Array.getElem?_push]
  by_cases last : v.1 = (t.modify change).frames.size
  · simp [namedIn, frames, if_pos last, Frame.named] at member
  · have old : (t.modify change).Holds v := by
      refine ⟨s, ?_, isVariable⟩
      simpa only [namedIn, frames, if_neg last] using member
    have adds (f : Frame) (s : Symbol) (member : s ∈ (change f).symbols) (_ : s.isVariable) :
        s ∈ f.symbols ∨ False := .inl member
    rcases holds_modify (fun _ => False) adds old with old | ⟨_, no, _⟩
    · exact old
    · exact no.elim

end Table

namespace Ruling

theorem onVariable_add {t : Table} {ty : Ty} {name : String} {position : Position} {s : Symbol}
    (added : onVariable t ty name position = .add s) : s.name = name := by
  unfold onVariable at added
  split at added
  · exact nomatch added
  · split at added
    · obtain rfl := Ruling.add.inj added
      rfl
    · exact nomatch added
  · obtain rfl := Ruling.add.inj added
    rfl

theorem onPrototype_add {t : Table} {ty : Ty} {name : String} {params : List Ty}
    {position : Position} {s : Symbol} (added : onPrototype t ty name params position = .add s) :
    s.isVariable = false := by
  unfold onPrototype at added
  split at added
  · exact nomatch added
  · split at added
    · obtain rfl := Ruling.add.inj added
      rfl
    · split at added
      · exact nomatch added
      · split at added <;> exact nomatch added

theorem onFunction_add {t : Table} {ty : Ty} {name : String} {params : List Ty}
    {position : Position} {s : Symbol} (added : onFunction t ty name params position = .add s) :
    s.isVariable = false := by
  unfold onFunction at added
  split at added
  · exact nomatch added
  · split at added
    · obtain rfl := Ruling.add.inj added
      rfl
    · split at added <;> exact nomatch added

theorem onMain_add {t : Table} {position : Position} {s : Symbol}
    (added : onMain t position = .add s) : s.isVariable = false := by
  unfold onMain at added
  split at added
  · exact nomatch added
  · obtain rfl := Ruling.add.inj added
    rfl

theorem onParam_add {earlier : List String} {p : Param} {s : Symbol}
    (added : onParam earlier p = .add s) : s.name = p.name := by
  unfold onParam at added
  split at added
  · exact nomatch added
  · obtain rfl := Ruling.add.inj added
    rfl

theorem onEnumeration_add {t : Table} {name : String} {position : Position} {s : Symbol}
    (added : onEnumeration t name position = .add s) : s.isVariable = false := by
  unfold onEnumeration at added
  split at added
  · exact nomatch added
  · split at added
    · exact nomatch added
    · obtain rfl := Ruling.add.inj added
      rfl

theorem onEnumValue_add {t : Table} {earlier : List String} {value : Identifier} {s : Symbol}
    (added : onEnumValue t earlier value = .add s) : s.isVariable = false := by
  unfold onEnumValue at added
  split at added
  · exact nomatch added
  · split at added
    · exact nomatch added
    · obtain rfl := Ruling.add.inj added
      rfl

end Ruling

namespace Analysis

theorem holds_obey {a : Analysis} {name : String} {position : Position} {ruling : Ruling}
    {v : VariableId} (holds : (a.obey name position ruling).table.Holds v) :
    a.table.Holds v ∨ ∃ s, ruling = .add s ∧ s.isVariable ∧ v = (a.table.current, s.name) := by
  cases ruling with
  | add s =>
    rcases Table.holds_declare holds with old | ⟨isVariable, same⟩
    · exact .inl old
    · exact .inr ⟨s, rfl, isVariable, same⟩
  | complete params => exact .inl (Table.holds_completeOverload holds)
  | ignore => exact .inl holds
  | reject kind => exact .inl holds

theorem holds_obey_plain {a : Analysis} {name : String} {position : Position} {ruling : Ruling}
    (plain : ∀ s, ruling = .add s → s.isVariable = false) {v : VariableId}
    (holds : (a.obey name position ruling).table.Holds v) : a.table.Holds v := by
  rcases holds_obey holds with old | ⟨s, added, isVariable, -⟩
  · exact old
  · simp [plain s added] at isVariable

theorem holds_enumValues {earlier : List String} {values : List Identifier} {a : Analysis}
    {v : VariableId} (holds : (enumValues earlier values a).table.Holds v) : a.table.Holds v := by
  induction values generalizing earlier a with
  | nil => exact holds
  | cons value others ih => exact holds_obey_plain (fun _ => Ruling.onEnumValue_add) (ih holds)

theorem holds_enumeration {name : String} {values : List Identifier} {position : Position}
    {a : Analysis} {v : VariableId}
    (holds : (enumeration name values position a).table.Holds v) : a.table.Holds v := by
  simp only [enumeration] at holds
  split at holds
  · exact holds_obey_plain (fun _ => Ruling.onEnumeration_add) holds
  · exact holds_obey_plain (fun _ => Ruling.onEnumeration_add) (holds_enumValues holds)

section

variable (declared : String → Bool)

theorem table_resolve (isCall : Bool) (name : Identifier) (a : Analysis) :
    (resolve declared isCall name a).table = a.table := by
  unfold resolve
  split <;> rfl

mutual

theorem table_expr : (e : Expr) → (a : Analysis) → (expr declared e a).table = a.table
  | .int .., _ | .float .., _ | .string .., _ | .char .., _ | .bool .., _ => rfl
  | .symbol name, a => table_resolve declared false name a
  | .binary _ left right _, a => (table_expr right _).trans (table_expr left a)
  | .unary _ operand _ _, a => table_expr operand a
  | .call callee args _, a => (table_exprs args _).trans (table_resolve declared true callee a)
termination_by structural e => e

theorem table_exprs : (es : List Expr) → (a : Analysis) → (exprs declared es a).table = a.table
  | [], _ => rfl
  | e :: others, a => (table_exprs others _).trans (table_expr e a)
termination_by structural es => es

end

end

end Analysis

/-- What is declared where a mention has become of its own, or was before. -/
def Accounted (t : Table) (mentions : List Mention) (v : VariableId) : Prop :=
  t.Holds v ∨ ∃ x ∈ mentions, x.declares ∧ x.meant? = some v

/-- Mentions on the way from one table to another. Every variable that comes to be there is declared
at one of them, and a declaration names its variable by its name. -/
structure Told (t : Table) (mentions : List Mention) (after : Table) : Prop where
  plain : ∀ x ∈ mentions, x.declares → x.operand = .variable x.name
  inside : ∀ x ∈ mentions, ∀ v, x.table.Holds v → Accounted t mentions v
  ends : ∀ v, after.Holds v → Accounted t mentions v

namespace Told

variable {t u w : Table} {mentions others : List Mention}

theorem none (same : ∀ v, u.Holds v → t.Holds v) : Told t [] u :=
  ⟨by simp, by simp, fun v holds => .inl (same v holds)⟩

theorem append (first : Told t mentions u) (second : Told u others w) :
    Told t (mentions ++ others) w := by
  have early (v : VariableId) (known : Accounted t mentions v) :
      Accounted t (mentions ++ others) v := by
    rcases known with old | ⟨x, member, found⟩
    · exact .inl old
    · exact .inr ⟨x, List.mem_append_left _ member, found⟩
  have late (v : VariableId) (known : Accounted u others v) :
      Accounted t (mentions ++ others) v := by
    rcases known with old | ⟨x, member, found⟩
    · exact early v (first.ends v old)
    · exact .inr ⟨x, List.mem_append_right _ member, found⟩
  refine ⟨fun x member => ?_, fun x member v holds => ?_, fun v holds => ?_⟩
  · rcases List.mem_append.mp member with member | member
    · exact first.plain x member
    · exact second.plain x member
  · rcases List.mem_append.mp member with member | member
    · exact early v (first.inside x member v holds)
    · exact late v (second.inside x member v holds)
  · exact late v (second.ends v holds)

theorem uses (used : ∀ x ∈ mentions, x.table = t ∧ x.declares = false) : Told t mentions t := by
  refine ⟨fun x member declares => ?_, fun x member v holds => ?_, fun v holds => .inl holds⟩
  · simp [(used x member).2] at declares
  · exact .inl ((used x member).1 ▸ holds)

theorem behind (same : ∀ v, u.Holds v → t.Holds v) (told : Told u mentions w) :
    Told t mentions w :=
  (none same).append told

theorem before (told : Told t mentions u) (same : ∀ v, w.Holds v → u.Holds v) :
    Told t mentions w := by
  simpa using told.append (none same)

end Told

namespace Lowering

theorem declaration_emit (name : String) (t : Table) (b : Builder) {i : Instruction}
    (target : i.target? = some (.variable name)) :
    declaration name t (b.emit i) = [⟨name, t, .variable name, true⟩] := by
  simp [declaration, Builder.last?, Builder.emit, target]

theorem told_declaration {a : Analysis} {name : String} {position : Position} {ruling : Ruling}
    (b : Builder) {i : Instruction} (target : i.target? = some (.variable name))
    (named : ∀ s, ruling = .add s → s.name = name) :
    Told a.table (declaration name a.table (b.emit i)) (a.obey name position ruling).table := by
  rw [declaration_emit name a.table b target]
  have declares : (⟨name, a.table, .variable name, true⟩ : Mention).meant? =
      some (a.table.current, name) := rfl
  refine ⟨fun x member _ => ?_, fun x member v holds => ?_, fun v holds => ?_⟩
  · obtain rfl := List.mem_singleton.mp member
    rfl
  · obtain rfl := List.mem_singleton.mp member
    exact .inl holds
  · rcases Analysis.holds_obey holds with old | ⟨s, added, -, rfl⟩
    · exact .inl old
    · exact .inr ⟨_, List.mem_singleton_self _, rfl, by rw [declares, named s added]⟩

mutual

theorem used_expr : (e : Expr) → (t : Table) → (b : Builder) →
    ∀ x ∈ exprMentions e t b, x.table = t ∧ x.declares = false
  | .int .., _, _ | .float .., _, _ | .string .., _, _ | .char .., _, _ | .bool .., _, _ =>
    fun _ member => nomatch member
  | .symbol name, t, b => fun x member => by
    obtain rfl := List.mem_singleton.mp member
    exact ⟨rfl, rfl⟩
  | .binary op left right _, t, b => fun x member => by
    have target (value : Operand) (c : Builder) (member : x ∈ assignment left value t c) :
        x.table = t ∧ x.declares = false := by
      unfold assignment at member
      split at member
      · exact nomatch member
      · obtain rfl := List.mem_singleton.mp member
        exact ⟨rfl, rfl⟩
    simp only [exprMentions] at member
    split at member
    · rcases List.mem_append.mp member with member | member
      · exact used_expr right t b x member
      · exact target _ _ member
    · rcases List.mem_append.mp member with member | member
      · exact used_expr left t b x member
      · exact used_expr right t _ x member
  | .unary _ operand _ _, t, b => used_expr operand t b
  | .call _ args _, t, b => used_exprs args t b
termination_by structural e => e

theorem used_exprs : (es : List Expr) → (t : Table) → (b : Builder) →
    ∀ x ∈ exprsMentions es t b, x.table = t ∧ x.declares = false
  | [], _, _ => fun _ member => nomatch member
  | e :: others, t, b => fun x member => by
    rcases List.mem_append.mp member with member | member
    · exact used_expr e t b x member
    · exact used_exprs others t _ x member
termination_by structural es => es

end

theorem told_params (earlier : List String) (ps : List Param) (a : Analysis) (b : Builder) :
    Told a.table (paramMentions earlier ps a b) (Analysis.params earlier ps a).table := by
  induction ps generalizing earlier a b with
  | nil => exact .none fun _ => id
  | cons p others ih =>
    exact (told_declaration b rfl fun _ => Ruling.onParam_add).append (ih _ _ _)

section

variable (declared : String → Bool)

theorem told_expr (e : Expr) (a : Analysis) (b : Builder) :
    Told a.table (exprMentions e a.table b) (Analysis.expr declared e a).table := by
  rw [Analysis.table_expr]
  exact .uses (used_expr e a.table b)

theorem told_optional (e : Option Expr) (a : Analysis) (b : Builder) :
    Told a.table (optionalMentions e a.table b) (Analysis.optional declared e a).table := by
  cases e with
  | none => exact .none fun _ => id
  | some e => exact told_expr declared e a b

theorem told_exprs (es : List Expr) (a : Analysis) (b : Builder) :
    Told a.table (exprsMentions es a.table b) (Analysis.exprs declared es a).table := by
  rw [Analysis.table_exprs]
  exact .uses (used_exprs es a.table b)

mutual

theorem told_stmt : (s : Stmt) → (a : Analysis) → (b : Builder) →
    Told a.table (stmtMentions declared s a b) (Analysis.stmt declared s a).table
  | .variable _ name initial _, a, b =>
    (told_optional declared initial a b).append
      (told_declaration _ rfl fun _ => Ruling.onVariable_add)
  | .prototype .., a, b =>
    .none fun _ => Analysis.holds_obey_plain fun _ => Ruling.onPrototype_add
  | .function ty name ps body span, a, b => by
    refine .behind (fun v holds => ?_) (((told_params [] ps _ _).append
      (told_block body _ _)).before fun _ => Table.holds_exit)
    exact Analysis.holds_obey_plain (fun _ => Ruling.onFunction_add) (Table.holds_enter holds)
  | .main body span, a, b => by
    refine .behind (fun v holds => ?_) ((told_block body _ _).before fun _ => Table.holds_exit)
    exact Analysis.holds_obey_plain (fun _ => Ruling.onMain_add) (Table.holds_enter holds)
  | .enumeration .., a, b => .none fun _ => Analysis.holds_enumeration
  | .block body, a, b => told_scope body a b
  | .branch e yes none _, a, b =>
    ((told_expr declared e a b).append (told_scope yes _ _)).append (.none fun _ => id)
  | .branch e yes (some no) _, a, b =>
    ((told_expr declared e a b).append (told_scope yes _ _)).append (told_scope no _ _)
  | .whileLoop e body _, a, b => (told_expr declared e a _).append (told_scope body _ _)
  | .doLoop body e _, a, b => (told_scope body a _).append (told_expr declared e _ _)
  | .forLoop none e update body _, a, b =>
    ((((Told.none fun _ => Table.holds_enter).append (told_optional declared e a.enter _)).append
      (told_optional declared update _ _)).append (told_scope body _ _)).before
        fun _ => Table.holds_exit
  | .forLoop (some initial) e update body _, a, b =>
    (((((told_stmt initial a.enter b).behind fun _ => Table.holds_enter).append
      (told_optional declared e _ _)).append (told_optional declared update _ _)).append
        (told_scope body _ _)).before fun _ => Table.holds_exit
  | .switch e cases none _, a, b =>
    ((told_expr declared e a b).append (told_arms _ _ cases _ _ _ _
      (by simp [tests_fst]))).append (.none fun _ => id)
  | .switch e cases (some fallback) _, a, b =>
    ((told_expr declared e a b).append (told_arms _ _ cases _ _ _ _
      (by simp [tests_fst]))).append (told_scope fallback _ _)
  | .giveBack value _, a, b => told_optional declared value a b
  | .print args _, a, b => told_exprs declared args a b
  | .evaluate e _, a, b => told_expr declared e a b
  | .leave _, _, _ | .inclusion .., _, _ => .none fun _ => id
termination_by structural s => s

theorem told_scope : (body : Block) → (a : Analysis) → (b : Builder) →
    Told a.table (blockMentions declared body a.enter b) (Analysis.block declared body a).table
  | ⟨body, _⟩, a, b =>
    ((told_stmts body a.enter b).behind fun _ => Table.holds_enter).before fun _ => Table.holds_exit
termination_by structural body => body

theorem told_block : (body : Block) → (a : Analysis) → (b : Builder) →
    Told a.table (blockMentions declared body a b) (Analysis.within declared body a).table
  | ⟨body, _⟩, a, b => told_stmts body a b
termination_by structural body => body

theorem told_stmts : (body : List Stmt) → (a : Analysis) → (b : Builder) →
    Told a.table (stmtsMentions declared body a b) (Analysis.stmts declared body a).table
  | [], _, _ => .none fun _ => id
  | s :: others, a, b => (told_stmt s a b).append (told_stmts others _ _)
termination_by structural body => body

theorem told_arms (subject : Operand) (finish : Label) : (cases : List Case) → (a : Analysis) →
    (c : Builder) → (labels : List Label) → (d : Builder) → labels.length = cases.length →
    Told a.table (armsMentions declared subject finish cases a c labels d)
      (Analysis.arms declared cases a).table
  | [], _, _, _, _, _ => .none fun _ => id
  | ⟨value, body, _⟩ :: others, a, c, _ :: labels, _, same =>
    ((told_expr declared value a c).append (told_scope body _ _)).append
      (told_arms subject finish others _ _ labels _ (Nat.succ.inj same))
termination_by structural cases => cases

end

end

end Lowering

namespace Program

/-- Every place where a program names something. -/
def mentions (p : Program) : List Mention :=
  Lowering.stmtsMentions (isDeclared (declarations p.body)) p.body .empty .empty

/-- One variable is declared in a scope inside that of another one of its name. -/
def Hides (p : Program) (inner outer : VariableId) : Prop :=
  ∃ x ∈ p.mentions, x.declares ∧ x.meant? = some inner ∧ x.name = outer.2 ∧
    outer.1 ∈ x.table.outer ∧ x.table.Holds outer

instance (p : Program) (inner outer : VariableId) : Decidable (p.Hides inner outer) :=
  inferInstanceAs (Decidable (∃ x ∈ p.mentions, x.declares ∧ x.meant? = some inner ∧
    x.name = outer.2 ∧ outer.1 ∈ x.table.outer ∧ x.table.Holds outer))

/-- The operands for a variable differ from those for one that it hides, at the declarations and all
uses of both. -/
def Separates (p : Program) : Prop :=
  ∀ inner outer, p.Hides inner outer → ∀ x ∈ p.mentions, ∀ y ∈ p.mentions,
    x.meant? = some inner → y.meant? = some outer → x.operand ≠ y.operand

theorem told (p : Program) : Told .empty p.mentions (analyze p).table :=
  Lowering.told_stmts _ p.body .empty .empty

/-- A variable in the scopes of a mention is declared at a mention. -/
theorem declared_of_holds {p : Program} {x : Mention} (member : x ∈ p.mentions) {v : VariableId}
    (holds : x.table.Holds v) : ∃ y ∈ p.mentions, y.declares ∧ y.meant? = some v := by
  refine (p.told.inside x member v holds).resolve_left ?_
  rintro ⟨s, known, -⟩
  cases place : v.1 <;>
    simp [Table.namedIn, Table.frame?, Table.empty, Frame.named, place] at known

/-- A variable and one that it hides are declared by the same operand. -/
theorem not_separates_of_hides {p : Program} {inner outer : VariableId}
    (hides : p.Hides inner outer) : ¬p.Separates := by
  intro separates
  obtain ⟨x, member, declares, found, same, -, holds⟩ := id hides
  obtain ⟨y, other, shows, known⟩ := declared_of_holds member holds
  have name : y.name = outer.2 := by
    simp only [Mention.meant?, shows, if_true, Option.some.injEq] at known
    rw [← known]
  apply separates inner outer hides x member y other found known
  rw [p.told.plain x member declares, p.told.plain y other shows, same, name]

/-- Lowering keeps variables apart in just those programs in which none hides another. -/
theorem separates_iff (p : Program) : p.Separates ↔ ∀ inner outer, ¬p.Hides inner outer := by
  constructor
  · exact fun separates inner outer hides => not_separates_of_hides hides separates
  · exact fun apart inner outer hides => absurd hides (apart inner outer)

/-- A variable of the main function and one of a block in it. -/
def nestedProgram (span : Span) : Program :=
  ⟨[.main ⟨[
    .variable .int "x" (some (.int 1 span)) span,
    .block ⟨[.variable .int "x" (some (.int 2 span)) span], span⟩,
    .print [.symbol ⟨"x", span⟩] span], span⟩ span], span⟩

/-- Nothing is wrong with the names and types of the nested variables, but they share an operand. -/
theorem nested_not_separates :
    (analyze (nestedProgram default)).errors = [] ∧ typeCheck (nestedProgram default) = [] ∧
      ¬(nestedProgram default).Separates := by
  refine ⟨by decide +kernel, by decide +kernel, ?_⟩
  have hides : (nestedProgram default).Hides (2, "x") (1, "x") := by decide +kernel
  exact not_separates_of_hides hides

end Program
end Curly
