import Curly.Proofs.Lowering.Spelling
import Curly.Proofs.Typing.Derivation

/-! What becomes of the results of calls. Lowering drops the result of a call that is a statement,
and keeps that of every other call. The type checker sees to it that a call that is not a statement
has a result, unless it is the update of a loop. -/
namespace Curly

/-- A call, with the table of the type checker there and the builder before its arguments. -/
structure Call where
  callee : Identifier
  args : List Expr
  checked : Table
  before : Builder
  role : Role

namespace Call

/-- What the type checker takes the call for. -/
def overload? (x : Call) : Option Typing.Overload :=
  Typing.choose? (Typing.overloads x.checked x.callee.name)
    ((Typing.typesOf x.checked x.args).map Typed.ty)

/-- The builder behind the arguments. -/
def behind (x : Call) : Builder :=
  (Lowering.exprs x.args x.before).2

def destination? (x : Call) : Option Operand :=
  if x.role = .dropped then none else some (.temp x.behind.temps)

def instruction (x : Call) : Instruction :=
  .call x.destination? x.callee.name (Lowering.exprs x.args x.before).1

/-- The code up to the instruction of the call, and that instruction. -/
def place (x : Call) : List Instruction :=
  x.behind.code.toList ++ [x.instruction]

/-- The type checker finds an overload, which has a result where one is wanted. -/
def Resolved (x : Call) : Prop :=
  ∃ o, x.overload? = some o ∧ (x.role = .wanted → o.ty ≠ .void)

theorem target?_instruction (x : Call) : x.instruction.target? = x.destination? := by
  unfold instruction destination?
  split <;> rfl

/-- Only as the update of a loop has a call a destination for a result that it does not have. -/
theorem Resolved.isSome_target? {x : Call} (resolved : x.Resolved) :
    ∃ o, x.overload? = some o ∧
      (o.ty = .void → (x.instruction.target?.isSome ↔ x.role = .update)) := by
  obtain ⟨o, chosen, isValue⟩ := resolved
  refine ⟨o, chosen, fun void => ?_⟩
  rw [target?_instruction, destination?]
  cases known : x.role with
  | wanted => exact absurd void (isValue known)
  | dropped => simp
  | update => simp

end Call

def Stmt.update? : Stmt → Option Expr
  | .forLoop _ _ update _ _ => update
  | _ => none

theorem Stmt.update?_of_values {s : Stmt} {e : Expr} (own : (e, .update) ∈ s.values) :
    s.update? = some e := by
  cases s <;> simp_all [values, update?]

namespace Lowering

section

variable (t : Table)

mutual

/-- The calls in an expression, of which only the outermost one can be unwanted. -/
def exprCalls : Expr → Role → Builder → List Call
  | .binary op left right _, _, b =>
    -- What is assigned to is not evaluated.
    if op = .assign then exprCalls right .wanted b
    else exprCalls left .wanted b ++ exprCalls right .wanted (expr left b).2
  | .unary _ operand _ _, _, b => exprCalls operand .wanted b
  | .call callee args _, role, b => exprsCalls args b ++ [⟨callee, args, t, b, role⟩]
  | .symbol _, _, _ | .int .., _, _ | .float .., _, _ | .string .., _, _ | .char .., _, _
  | .bool .., _, _ => []
termination_by structural e => e

def exprsCalls : List Expr → Builder → List Call
  | [], _ => []
  | e :: others, b => exprCalls e .wanted b ++ exprsCalls others (expr e b).2
termination_by structural es => es

end

/-- A statement is lowered like every other expression if it is not a call. -/
theorem called_or_plain (e : Expr) (b : Builder) :
    (∃ callee args span, e = .call callee args span) ∨
      effect e b = (expr e b).2 ∧ ∀ role, exprCalls t e role b = exprCalls t e .wanted b := by
  cases e with
  | call callee args span => exact .inl ⟨callee, args, span, rfl⟩
  | _ => exact .inr ⟨rfl, fun _ => rfl⟩

variable {Q : Instruction → Prop}

mutual

/-- The calls that an expression emits are its own ones. -/
theorem called_expr (suits : Suits Q fun _ => True) : (e : Expr) → (role : Role) →
    role ≠ .dropped → {b : Builder} → (∀ x ∈ exprCalls t e role b, Q x.instruction) →
    b.All Q → (expr e b).2.All Q
  | .int .., _, _, _, _, before | .float .., _, _, _, _, before | .string .., _, _, _, _, before
  | .char .., _, _, _, _, before | .bool .., _, _, _, _, before | .symbol _, _, _, _, _, before =>
    before
  | .binary op left right _, _, _, b, calls, before => by
    simp only [exprCalls, expr] at calls ⊢
    split
    · rename_i assigns
      rw [if_pos assigns] at calls
      have behind := called_expr suits right .wanted nofun calls before
      exact (all_store suits (fun _ _ => trivial) trivial behind).2
    · rename_i plain
      rw [if_neg plain] at calls
      obtain ⟨first, second⟩ := List.forall_mem_append.mp calls
      have between := called_expr suits left .wanted nofun first before
      have behind := called_expr suits right .wanted nofun second between
      exact (all_intoTemp suits (fun _ => suits.plain _ rfl fun _ _ => trivial) behind).2
  | .unary op operand side _, _, _, _, calls, before => by
    have behind := called_expr suits operand .wanted nofun calls before
    simp only [expr]
    split
    · exact (all_step suits op side trivial behind).2
    · exact (all_intoTemp suits (fun _ => suits.plain _ rfl fun _ _ => trivial) behind).2
  | .call callee args span, role, kept, b, calls, before => by
    obtain ⟨first, last⟩ := List.forall_mem_append.mp calls
    have behind := called_exprs suits args first before
    have here := List.forall_mem_singleton.mp last
    rw [Call.instruction, Call.destination?, if_neg kept] at here
    exact behind.newTemp.emit here
termination_by structural e => e

theorem called_exprs (suits : Suits Q fun _ => True) : (es : List Expr) → {b : Builder} →
    (∀ x ∈ exprsCalls t es b, Q x.instruction) → b.All Q → (exprs es b).2.All Q
  | [], _, _, before => before
  | e :: others, _, calls, before => by
    obtain ⟨first, rest⟩ := List.forall_mem_append.mp calls
    exact called_exprs suits others rest (called_expr suits e .wanted nofun first before)
termination_by structural es => es

end

open Builder

mutual

/-- The instruction of a call stands behind those of its arguments. -/
theorem stands_expr : (e : Expr) → (role : Role) → role ≠ .dropped → {b : Builder} →
    ∀ x ∈ exprCalls t e role b, x.place <+: (expr e b).2.code.toList
  | .int .., _, _, _ | .float .., _, _, _ | .string .., _, _, _ | .char .., _, _, _
  | .bool .., _, _, _ | .symbol _, _, _, _ => nofun
  | .binary op left right _, _, _, b => by
    simp only [exprCalls, expr]
    split
    · exact fun x member => (stands_expr right .wanted nofun x member).trans
        (straight_store left _ _).follows.code
    · have put : Follows (expr right (expr left b).2).2 (intoTemp (.binary · op.spelling
          (expr left b).1 (expr right (expr left b).2).1) (expr right (expr left b).2).2).2 :=
        (Follows.refl _).newTemp.emit _
      refine List.forall_mem_append.mpr ⟨fun x member => ?_, fun x member => ?_⟩
      · exact (stands_expr left .wanted nofun x member).trans
          ((straight_expr right _).follows.trans put).code
      · exact (stands_expr right .wanted nofun x member).trans put.code
  | .unary op operand side _, _, _, b => fun x member => by
    refine (stands_expr operand .wanted nofun x member).trans ?_
    simp only [expr]
    split
    · exact (straight_step op side _ _).follows.code
    · exact ((Follows.refl _).newTemp.emit _).code
  | .call callee args span, role, kept, _ => by
    refine List.forall_mem_append.mpr ⟨fun x member => ?_, List.forall_mem_singleton.mpr ?_⟩
    · exact (stands_exprs args x member).trans ((Follows.refl _).newTemp.emit _).code
    · rw [Call.place, Call.instruction, Call.destination?, if_neg kept, ← Array.toList_push]
      exact List.prefix_refl _
termination_by structural e => e

theorem stands_exprs : (es : List Expr) → {b : Builder} →
    ∀ x ∈ exprsCalls t es b, x.place <+: (exprs es b).2.code.toList
  | [], _ => nofun
  | e :: others, _ => List.forall_mem_append.mpr
    ⟨fun x member => (stands_expr e .wanted nofun x member).trans
      (straight_exprs others _).follows.code, stands_exprs others⟩
termination_by structural es => es

end

mutual

theorem wanted_expr : (e : Expr) → {b : Builder} → ∀ x ∈ exprCalls t e .wanted b, x.role = .wanted
  | .int .., _ | .float .., _ | .string .., _ | .char .., _ | .bool .., _ | .symbol _, _ => nofun
  | .binary op left right _, _ => by
    rw [exprCalls]
    split
    · exact wanted_expr right
    · exact List.forall_mem_append.mpr ⟨wanted_expr left, wanted_expr right⟩
  | .unary _ operand _ _, _ => wanted_expr operand
  | .call _ args _, _ => List.forall_mem_append.mpr
    ⟨wanted_exprs args, List.forall_mem_singleton.mpr rfl⟩
termination_by structural e => e

theorem wanted_exprs : (es : List Expr) → {b : Builder} → ∀ x ∈ exprsCalls t es b, x.role = .wanted
  | [], _ => nofun
  | e :: others, _ => List.forall_mem_append.mpr ⟨wanted_expr e, wanted_exprs others⟩
termination_by structural es => es

end

/-- A call that is not wanted is the whole expression. -/
theorem wanted_or_whole (e : Expr) {role : Role} {b : Builder} :
    ∀ x ∈ exprCalls t e role b,
      x.role = .wanted ∨ x.role = role ∧ ∃ span, e = .call x.callee x.args span := by
  obtain ⟨callee, args, span, rfl⟩ | ⟨-, plain⟩ := called_or_plain t e b
  · refine List.forall_mem_append.mpr ⟨fun x member => .inl ?_, ?_⟩
    · exact wanted_exprs t args x member
    · exact List.forall_mem_singleton.mpr (.inr ⟨rfl, span, rfl⟩)
  · exact fun x member => .inl (wanted_expr t e x (plain role ▸ member))

variable {t}

mutual

/-- The calls in an expression without fault are resolved. -/
theorem resolved_expr : (e : Expr) → (∀ name ∈ e.uses, t.lookupAll name ≠ []) →
    (Typing.typeOf t e).errors = [] → {role : Role} →
    (role = .wanted → (Typing.typeOf t e).ty ≠ .void) → {b : Builder} →
    ∀ x ∈ exprCalls t e role b, x.Resolved
  | .int .., _, _, _, _, _ | .float .., _, _, _, _, _ | .string .., _, _, _, _, _
  | .char .., _, _, _, _, _ | .bool .., _, _, _, _, _ | .symbol _, _, _, _, _, _ => nofun
  | .binary op left right _, found, clean, _, _, b => by
    obtain ⟨first, second⟩ := List.forall_mem_append.mp found
    simp only [Typing.typeOf, exprCalls] at clean ⊢
    split
    · rename_i assigns
      rw [if_pos assigns] at clean
      have value := (Typing.clean_typed clean).1
      exact resolved_expr right second (Typing.clean_asValue value) fun _ =>
        Typing.isValue_asValue value
    · rename_i plain
      rw [if_neg plain] at clean
      obtain ⟨before, behind⟩ := List.append_eq_nil_iff.mp (Typing.clean_typed clean).1
      refine List.forall_mem_append.mpr ⟨?_, ?_⟩
      · exact resolved_expr left first (Typing.clean_asValue before) fun _ =>
          Typing.isValue_asValue before
      · exact resolved_expr right second (Typing.clean_asValue behind) fun _ =>
          Typing.isValue_asValue behind
  | .unary _ operand _ _, found, clean, _, _, _ => by
    have value := (Typing.clean_typed clean).1
    exact resolved_expr operand found (Typing.clean_asValue value) fun _ =>
      Typing.isValue_asValue value
  | .call callee args span, found, clean, role, isValue, b => by
    obtain ⟨here, inside⟩ := List.forall_mem_cons.mp found
    obtain ⟨values, o, chosen, same⟩ := (Typing.typeOf_call_eq_iff here args span _).mp
      (Typing.Typed.eq_of_clean clean)
    refine List.forall_mem_append.mpr
      ⟨resolved_exprs args inside values, List.forall_mem_singleton.mpr ⟨o, chosen, ?_⟩⟩
    exact same ▸ isValue
termination_by structural e => e

theorem resolved_exprs : (es : List Expr) → (∀ name ∈ usesIn es, t.lookupAll name ≠ []) →
    (Typing.typesOf t es).flatMap Typed.errors = [] → {b : Builder} →
    ∀ x ∈ exprsCalls t es b, x.Resolved
  | [], _, _, _ => nofun
  | e :: others, found, clean, _ => by
    obtain ⟨first, rest⟩ := List.forall_mem_append.mp found
    obtain ⟨before, behind⟩ := List.append_eq_nil_iff.mp clean
    refine List.forall_mem_append.mpr ⟨?_, resolved_exprs others rest behind⟩
    exact resolved_expr e first (Typing.clean_asValue before) fun _ =>
      Typing.isValue_asValue before
termination_by structural es => es

end

end

end Lowering

namespace Stop

variable {x : Stop}

def calls (x : Stop) : List Call :=
  Lowering.exprCalls x.visit.checked x.visit.expr x.role x.before

theorem keeps_calls {Q : Instruction → Prop} (suits : Suits Q fun _ => True)
    (calls : ∀ y ∈ x.calls, Q y.instruction) : x.Keeps Q fun _ => True := by
  obtain ⟨⟨e, a, t⟩, ps, b, role⟩ := x
  refine fun before => ⟨fun _ => trivial, ?_⟩
  -- Of the statements only a call itself has a lowering of its own.
  by_cases dropped : role = .dropped
  · subst dropped
    rw [after, if_pos rfl]
    obtain ⟨callee, args, span, rfl⟩ | ⟨same, plain⟩ := Lowering.called_or_plain t e b
    · obtain ⟨inside, own⟩ := List.forall_mem_append.mp calls
      have here := List.forall_mem_singleton.mp own
      exact (Lowering.called_exprs t suits args inside before).emit here
    · rw [Stop.calls, plain] at calls
      exact same ▸ Lowering.called_expr t suits e .wanted nofun calls before
  · rw [after, if_neg dropped]
    exact Lowering.called_expr t suits e role dropped calls before

theorem placed_calls (x : Stop) : ∀ y ∈ x.calls, y.place <+: x.after.code.toList := by
  obtain ⟨⟨e, a, t⟩, ps, b, role⟩ := x
  by_cases dropped : role = .dropped
  · subst dropped
    rw [after, if_pos rfl]
    obtain ⟨callee, args, span, rfl⟩ | ⟨same, plain⟩ := Lowering.called_or_plain t e b
    · refine List.forall_mem_append.mpr ⟨fun y member => ?_, List.forall_mem_singleton.mpr ?_⟩
      · exact (Lowering.stands_exprs t args y member).trans
          ((Builder.Follows.refl _).emit _).code
      · rw [Call.place, ← Array.toList_push]
        exact List.prefix_refl _
    · rw [calls, plain, same]
      exact Lowering.stands_expr t e .wanted nofun
  · rw [after, if_neg dropped]
    exact Lowering.stands_expr t e role dropped

end Stop

namespace Program

/-- The calls in the expressions of a program. -/
def calls (p : Program) : List Call :=
  p.stops.flatMap Stop.calls

variable {p : Program}

/-- The instruction is that of a call in the program, or that of a print statement. -/
def Calls (p : Program) (i : Instruction) : Prop :=
  i.isCall → (∃ args, i = .call none "print" args) ∨ ∃ x ∈ p.calls, x.instruction = i

theorem suits_calls (p : Program) : Suits p.Calls fun _ => True where
  plain := fun _ plain _ called => by simp [plain] at called
  print := fun args _ _ => .inl ⟨args, rfl⟩
  number := fun _ => trivial
  temp := fun _ => trivial

theorem calls_lowered (p : Program) : ∀ i ∈ Lowering.program p, p.Calls i :=
  all_lowered p.suits_calls (fun _ _ _ _ => trivial) fun stop stops =>
    Stop.keeps_calls p.suits_calls fun x member _ =>
      .inr ⟨x, List.mem_flatMap.mpr ⟨stop, stops, member⟩, rfl⟩

theorem placed_calls {x : Call} (member : x ∈ p.calls) : x.place <+: Lowering.program p := by
  obtain ⟨stop, stops, here⟩ := List.mem_flatMap.mp member
  exact (stop.placed_calls x here).trans (written_stops stops)

theorem resolved_calls (clean : (analyze p).errors = []) (typed : typeCheck p = []) {x : Call}
    (member : x ∈ p.calls) : x.Resolved := by
  obtain ⟨stop, stops, here⟩ := List.mem_flatMap.mp member
  have found := ((walked clean).resolved _ (visit_mem stops)).checked
  obtain ⟨plain, isValue⟩ := typed_stops typed stop stops
  exact Lowering.resolved_expr stop.visit.expr found plain isValue x here

/-- The update of a loop is that of a statement of the program. -/
theorem update_of_role {x : Call} (member : x ∈ p.calls) (update : x.role = .update) :
    ∃ s ∈ p.statements, ∃ span, s.update? = some (.call x.callee x.args span) := by
  obtain ⟨stop, stops, here⟩ := List.mem_flatMap.mp member
  obtain wanted | ⟨same, span, whole⟩ := Lowering.wanted_or_whole _ stop.visit.expr x here
  · exact nomatch wanted.symm.trans update
  have value : stop.value = (.call x.callee x.args span, .update) :=
    Prod.ext whole (same.symm.trans update)
  obtain ⟨s, listed, own⟩ := List.mem_flatMap.mp
    (p.stops_perm.mem_iff.mp (List.mem_map.mpr ⟨stop, stops, value⟩))
  exact ⟨s, listed, span, Stmt.update?_of_values own⟩

/-- Without complaints, every call has an overload that is chosen, and its instruction has a
destination for a result that the overload does not have only if the call is the update of a loop.
These are all instructions for calls, up to those for printing. -/
theorem destinations_of_calls (clean : (analyze p).errors = []) (typed : typeCheck p = []) :
    (∀ i ∈ Lowering.program p, i.isCall →
      (∃ args, i = .call none "print" args) ∨ ∃ x ∈ p.calls, x.instruction = i) ∧
    ∀ x ∈ p.calls, x.place <+: Lowering.program p ∧
      (∃ o, x.overload? = some o ∧
        (o.ty = .void → (x.instruction.target?.isSome ↔ x.role = .update))) ∧
      (x.role = .update →
        ∃ s ∈ p.statements, ∃ span, s.update? = some (.call x.callee x.args span)) :=
  ⟨p.calls_lowered, fun _ member => ⟨placed_calls member,
    (resolved_calls clean typed member).isSome_target?, update_of_role member⟩⟩

end Program

/-- A program that calls functions with results and without, for values and in statements. -/
def calling : String :=
  "int f(int a) \x7b return a; \x7d void g() \x7b \x7d\n" ++
  "main \x7b int x = f(f(1)); f(x); for (g(); x < 3; x = f(x)) \x7b g(); \x7d \x7d\n"

def callingCode : List Instruction :=
  [.beginFunction "f", .param "a", .giveBack (some (.variable "a")), .endFunction "f",
   .beginFunction "g", .giveBack none, .endFunction "g", .beginFunction "main",
   .call (some (.temp 0)) "f" [.constant "1"], .call (some (.temp 1)) "f" [.temp 0],
   .assign (.variable "x") (.temp 1), .call none "f" [.variable "x"], .call none "g" [],
   .jump ⟨2⟩, .label ⟨0⟩, .call none "g" [], .label ⟨1⟩,
   .call (some (.temp 2)) "f" [.variable "x"], .assign (.variable "x") (.temp 2), .label ⟨2⟩,
   .binary (.temp 3) "<" (.variable "x") (.constant "3"), .jumpIfTrue (.temp 3) ⟨0⟩, .label ⟨3⟩,
   .giveBack (some (.constant "0")), .endFunction "main"]

theorem calling_compiled : compile calling = .ok callingCode := by decide +kernel

theorem calling_destinations : ∃ p, readProgram calling = .ok p ∧
    Lowering.program p = callingCode ∧ ∀ x ∈ p.calls, ∃ o, x.overload? = some o ∧
      (x.instruction.target?.isSome → o.ty ≠ .void) := by
  obtain ⟨p, read, clean, typed, lowered⟩ := program_of_compiled calling_compiled
  have plain : (readProgram calling).toOption.map (fun p => p.calls.all fun x =>
      x.role != .update) = some true := by decide +kernel
  rw [read] at plain
  refine ⟨p, read, lowered, fun x member => ?_⟩
  obtain ⟨-, ⟨o, chosen, only⟩, -⟩ := (Program.destinations_of_calls clean typed).2 x member
  refine ⟨o, chosen, fun kept void => ?_⟩
  have other := List.all_eq_true.mp (Option.some.inj plain) x member
  simp [(only void).mp kept] at other

/-- A program with a call without a result as the update of a loop. -/
def turning : String :=
  "void f() \x7b \x7d main \x7b for (int i = 0; i < 3; f()) \x7b i++; \x7d \x7d"

def turningCode : List Instruction :=
  [.beginFunction "f", .giveBack none, .endFunction "f", .beginFunction "main",
   .assign (.variable "i") (.constant "0"), .jump ⟨2⟩, .label ⟨0⟩,
   .assign (.temp 0) (.variable "i"), .binary (.temp 1) "+" (.variable "i") (.constant "1"),
   .assign (.variable "i") (.temp 1), .label ⟨1⟩, .call (some (.temp 2)) "f" [], .label ⟨2⟩,
   .binary (.temp 3) "<" (.variable "i") (.constant "3"), .jumpIfTrue (.temp 3) ⟨0⟩, .label ⟨3⟩,
   .giveBack (some (.constant "0")), .endFunction "main"]

/-- The call has a destination. -/
theorem turning_kept : ∃ p, readProgram turning = .ok p ∧ (analyze p).errors = [] ∧
    typeCheck p = [] ∧ .call (some (.temp 2)) "f" [] ∈ Lowering.program p ∧
      ∃ x ∈ p.calls, x.instruction = .call (some (.temp 2)) "f" [] ∧
        x.overload? = some ⟨[], .void⟩ := by
  have compiled : compile turning = .ok turningCode := by decide +kernel
  have called : (readProgram turning).toOption.map (fun p => p.calls.any fun x =>
      x.instruction = .call (some (.temp 2)) "f" [] && x.overload? = some ⟨[], .void⟩) =
        some true := by decide +kernel
  obtain ⟨p, read, clean, typed, lowered⟩ := program_of_compiled compiled
  rw [read] at called
  obtain ⟨x, member, same⟩ := List.any_eq_true.mp (Option.some.inj called)
  rw [Bool.and_eq_true, decide_eq_true_iff, decide_eq_true_iff] at same
  exact ⟨p, read, clean, typed, lowered ▸ by decide, x, member, same⟩

end Curly
