import Curly.Proofs.Lowering.Subterms
import Curly.Proofs.Lowering.Variables

/-! What becomes of assignments and steps. Each of them is of a name, and puts a value into the
variable of that name once. But the type checker lets a step of an enumeration value pass, and then
lowering, which has no variable for it, drops what it would put there. -/
namespace Curly

namespace Builder

/-- The instructions of the second builder behind those of the first. -/
def since (b c : Builder) : List Instruction :=
  c.code.toList.drop b.code.size

variable {b c d : Builder}

@[simp] theorem since_self (b : Builder) : b.since b = [] :=
  List.drop_eq_nil_of_le (Nat.le_refl _)

theorem append_since (follows : Follows b c) :
    b.code.toList ++ b.since c = c.code.toList := by
  obtain ⟨behind, same⟩ := follows.code
  rw [since, ← same, ← Array.length_toList, List.drop_left]

theorem since_emit (follows : Follows b c) (i : Instruction) :
    b.since (c.emit i) = b.since c ++ [i] := by
  rw [since, emit, Array.toList_push]
  exact List.drop_append_of_le_length follows.code.length_le

theorem since_trans (first : Follows b c) (second : Follows c d) :
    b.since d = b.since c ++ c.since d := by
  refine (List.append_cancel_left_eq b.code.toList _ _).mp ?_
  rw [append_since (first.trans second), ← List.append_assoc, append_since first,
    append_since second]

end Builder

theorem Stmt.ty_of_isEnumeration : (x : Stmt) → ∀ s ∈ x.symbols, s.isEnumeration →
    s.ty = .enumeration
  | .variable .. | .prototype .. | .main .. => List.forall_mem_singleton.mpr nofun
  | .function .. => List.forall_mem_cons.mpr ⟨nofun, List.forall_mem_map.mpr fun _ _ => nofun⟩
  | .enumeration .. =>
    List.forall_mem_cons.mpr ⟨fun _ => rfl, List.forall_mem_map.mpr fun _ _ => nofun⟩
  | .block _ | .branch .. | .whileLoop .. | .doLoop .. | .forLoop .. | .switch .. | .giveBack ..
  | .leave _ | .print .. | .evaluate .. | .inclusion .. => fun _ => nofun

/-- Whether the instruction changes a variable. -/
def Instruction.writes (i : Instruction) : Bool :=
  i.target?.any Operand.isVariable

namespace Expr

def isStep : Expr → Bool
  | .unary op .. => op.isStep
  | _ => false

/-- An assignment or a step. -/
def isStore (e : Expr) : Bool :=
  match e with
  | .binary op .. => op = .assign
  | e => e.isStep

/-- The name that an assignment or a step is to change. -/
def changed? : Expr → Option Identifier
  | .binary _ left _ _ => left.symbol?
  | .unary _ operand _ _ => operand.symbol?
  | _ => none

/-- An assignment is to a name. -/
def Targeted : Expr → Prop
  | .binary op left _ _ => op = .assign → ∃ name, left = .symbol name
  | .int .. | .float .. | .string .. | .char .. | .bool .. | .symbol _ | .unary .. | .call .. =>
    True

/-- What an assignment or a step evaluates. -/
def fed (e : Expr) : Expr :=
  match e with
  | .binary _ _ right _ => right
  | .unary _ operand _ _ => operand
  | e => e

theorem eq_of_symbol? {e : Expr} {name : Identifier} (same : e.symbol? = some name) :
    e = .symbol name := by
  cases e <;> simp_all [symbol?]

theorem store_cases {e : Expr} (store : e.isStore) :
    (∃ left right span, e = .binary .assign left right span) ∨
      ∃ op operand side span, op.isStep ∧ e = .unary op operand side span := by
  cases e with
  | binary op left right span =>
    obtain rfl : op = .assign := by simpa [isStore] using store
    exact .inl ⟨left, right, span, rfl⟩
  | unary op operand side span => exact .inr ⟨op, operand, side, span, store, rfl⟩
  | _ => exact nomatch store

end Expr

namespace Lowering

open Builder Typing

section

variable {a t : Table} {ps : Parameters}

/-- What is assigned without fault is a name. -/
theorem symbol_of_assigns {left right : Expr} {span : Span}
    (found : ∀ name ∈ left.uses, t.lookupAll name ≠ [])
    (clean : (typeOf t (.binary .assign left right span)).errors = []) :
    ∃ name s, left = .symbol name ∧ t.lookup name.name = some s ∧ s.isVariable := by
  simp only [typeOf, if_pos] at clean
  obtain ⟨name, s, same, known, isVariable, -⟩ :=
    assignmentVerdict_eq found (Prod.ext rfl (clean_typed clean).2)
  exact ⟨name, s, same, (lookup_eq _).trans known, isVariable⟩

/-- A step without fault is that of a number with a name, if its operand has a type at all. -/
theorem named_of_steps {op : UnaryOp} (steps : op.isStep) {isName : Bool} {ty : Ty}
    (fine : (op.verdict isName ty).2 = none) : ty = .invalid ∨ isName ∧ ty.isNumeric := by
  have other : op ≠ .not := by
    rintro rfl
    exact nomatch steps
  rw [UnaryOp.verdict, if_neg other] at fine
  split at fine
  · rename_i unknown
    exact .inl unknown
  · split at fine
    · simp at fine
    · split at fine
      · simp at fine
      · simp_all

/-- What is stepped without fault stands for something that has a value, and for no enumeration. -/
theorem symbol_of_steps {op : UnaryOp} (steps : op.isStep) {name : Identifier} {side : Side}
    {span : Span} (found : t.lookupAll name.name ≠ [])
    (clean : (typeOf t (.unary op (.symbol name) side span)).errors = []) :
    ∃ s, t.lookup name.name = some s ∧ s.isFunction = false ∧ s.ty ≠ .enumeration := by
  obtain ⟨value, verdict⟩ := clean_typed clean
  obtain ⟨s, known⟩ := exists_visible found
  rw [← lookup_eq] at known
  have plain := plain_reads t (.symbol name) (clean_asValue value) name (.head _) s known
  have same : typeOf t (.symbol name) = ⟨s.ty, []⟩ := by
    rw [typeOf, nameVerdict, known]
    simp [plain, Verdict.typed, Verdict.fine]
  refine ⟨s, known, plain, fun enumeration => ?_⟩
  have fit := named_of_steps steps verdict
  rw [same, enumeration, asValue_of_ne_void (by decide)] at fit
  rcases fit with unknown | ⟨-, numeric⟩
  · exact absurd unknown (by decide)
  · exact absurd numeric (by decide)

mutual

/-- Assignments without fault are to names, also inside of other expressions. -/
theorem targeted_expr : (e : Expr) → (∀ name ∈ e.uses, t.lookupAll name ≠ []) →
    (typeOf t e).errors = [] → ∀ x ∈ e.subterms, x.Targeted
  | .binary op left right span, found, clean => by
    obtain ⟨first, second⟩ := List.forall_mem_append.mp found
    by_cases assigns : op = .assign
    · subst assigns
      obtain ⟨name, -, rfl, -⟩ := symbol_of_assigns first clean
      have value : (typeOf t right).errors = [] := by
        simp only [typeOf, if_pos] at clean
        exact clean_asValue (clean_typed clean).1
      exact Expr.forall_subterms_binary.mpr ⟨List.forall_mem_singleton.mpr trivial,
        targeted_expr right second value, fun _ => ⟨name, rfl⟩⟩
    · rw [typeOf, if_neg assigns] at clean
      obtain ⟨before, behind⟩ := List.append_eq_nil_iff.mp (clean_typed clean).1
      exact Expr.forall_subterms_binary.mpr ⟨targeted_expr left first (clean_asValue before),
        targeted_expr right second (clean_asValue behind), fun same => absurd same assigns⟩
  | .unary _ operand _ _, found, clean =>
    Expr.forall_subterms_unary.mpr
      ⟨targeted_expr operand found (clean_asValue (clean_typed clean).1), trivial⟩
  | .call _ args _, found, clean =>
    Expr.forall_subterms_call.mpr ⟨targeted_exprs args (List.forall_mem_cons.mp found).2
      (List.append_eq_nil_iff.mp clean).1, trivial⟩
  | .int .., _, _ | .float .., _, _ | .string .., _, _ | .char .., _, _ | .bool .., _, _
  | .symbol _, _, _ => List.forall_mem_singleton.mpr trivial
termination_by structural e => e

theorem targeted_exprs : (es : List Expr) → (∀ name ∈ usesIn es, t.lookupAll name ≠ []) →
    (typesOf t es).flatMap Typed.errors = [] → ∀ e ∈ es, ∀ x ∈ e.subterms, x.Targeted
  | [], _, _ => nofun
  | e :: others, found, clean => by
    obtain ⟨first, rest⟩ := List.forall_mem_append.mp found
    obtain ⟨before, behind⟩ := List.append_eq_nil_iff.mp clean
    exact List.forall_mem_cons.mpr ⟨targeted_expr e first (clean_asValue before),
      targeted_exprs others rest behind⟩
termination_by structural es => es

end

mutual

/-- Lowering comes to everything in an expression but for the targets of assignments, and if these
are names it comes to all assignments and steps. -/
theorem stores_expr : (e : Expr) → (b : Builder) → (∀ x ∈ e.subterms, x.Targeted) →
    ((exprTerms a t ps e b).map Stop.expr).filter Expr.isStore = e.subterms.filter Expr.isStore
  | .binary op left right span, b, targeted => by
    obtain ⟨first, second, own⟩ := Expr.forall_subterms_binary.mp targeted
    by_cases assigns : op = .assign
    · subst assigns
      obtain ⟨name, rfl⟩ := own rfl
      have inside := stores_expr right b second
      simp only [exprTerms, exprInner, Expr.subterms, if_pos, List.map_append,
        List.filter_append] at inside ⊢
      rw [inside]
      rfl
    · have one := stores_expr left b first
      have two := stores_expr right (expr left b).2 second
      simp only [exprTerms, exprInner, Expr.subterms, if_neg assigns, List.map_append,
        List.filter_append] at one two ⊢
      rw [one, two, List.append_assoc]
      rfl
  | .unary _ operand _ _, b, targeted => by
    have inside := stores_expr operand b (Expr.forall_subterms_unary.mp targeted).1
    simp only [exprTerms, exprInner, Expr.subterms, List.map_append,
      List.filter_append] at inside ⊢
    rw [inside]
    rfl
  | .call _ args _, b, targeted => by
    have inside := stores_exprs args b (Expr.forall_subterms_call.mp targeted).1
    simp only [exprTerms, exprInner, Expr.subterms, List.map_append, List.filter_append, inside]
    rfl
  | .int .., _, _ | .float .., _, _ | .string .., _, _ | .char .., _, _ | .bool .., _, _
  | .symbol _, _, _ => rfl
termination_by structural e => e

theorem stores_exprs : (es : List Expr) → (b : Builder) →
    (∀ e ∈ es, ∀ x ∈ e.subterms, x.Targeted) →
    ((exprsInner a t ps es b).map Stop.expr).filter Expr.isStore =
      (subtermsIn es).filter Expr.isStore
  | [], _, _ => rfl
  | e :: others, b, targeted => by
    obtain ⟨first, rest⟩ := List.forall_mem_cons.mp targeted
    have one := stores_expr e b first
    have two := stores_exprs others (expr e b).2 rest
    rw [exprTerms] at one
    rw [exprsInner, subtermsIn, List.map_append, List.filter_append, List.filter_append, one, two]
termination_by structural es => es

end

end

theorem since_intoTemp (instruction : Operand → Instruction) (b : Builder) :
    b.since (intoTemp instruction b).2 = [instruction (.temp b.temps)] := by
  have same : b.since b.newTemp.2 = [] := b.since_self
  have emitted := since_emit (Follows.refl b).newTemp (instruction (.temp b.temps))
  rwa [same] at emitted

/-- A value is stored once. -/
theorem writes_store (name : Identifier) (value : Operand) (b : Builder) :
    (b.since (store (.symbol name) value b).2).filter Instruction.writes =
      [.assign (.variable name.name) value] := by
  simp only [store, since_emit (Follows.refl b), since_self]
  rfl

theorem writes_step_before (op : UnaryOp) (operand : Operand) (b : Builder) :
    (b.since (step op .before operand b).2).filter Instruction.writes =
      if operand.isVariable then [.assign operand (.temp b.temps)] else [] := by
  have put := since_intoTemp (.binary · (stepSpelling op) operand (intOperand 1)) b
  have follows : Follows b (intoTemp (.binary · (stepSpelling op) operand (intOperand 1)) b).2 :=
    (Follows.refl b).newTemp.emit _
  rw [step_before]
  dsimp only
  cases varies : operand.isVariable with
  | true =>
    have plain : (Operand.temp b.temps).isVariable = false := rfl
    rw [if_pos rfl, since_emit follows, put]
    simp [Instruction.writes, Instruction.target?, varies, plain, intoTemp, newTemp]
  | false => simp [put, Instruction.writes, Instruction.target?, Operand.isVariable]

/-- A step stores a value once if its operand is a variable, and none otherwise. -/
theorem writes_step (op : UnaryOp) (side : Side) (operand : Operand) (b : Builder) :
    ∃ value, (b.since (step op side operand b).2).filter Instruction.writes =
      if operand.isVariable then [.assign operand value] else [] := by
  cases side with
  | before => exact ⟨_, writes_step_before op operand b⟩
  | behind =>
    have saved : Follows b (intoTemp (.assign · operand) b).2 := (Follows.refl b).newTemp.emit _
    refine ⟨.temp (b.temps + 1), ?_⟩
    rw [step_behind]
    dsimp only
    rw [since_trans saved (straight_step op .before operand _).follows, since_intoTemp,
      List.filter_append, writes_step_before]
    rfl

end Lowering

namespace Stop

variable {x : Stop}

theorem stores_terms (targeted : ∀ e ∈ x.expr.subterms, e.Targeted) :
    (x.terms.map Stop.expr).filter Expr.isStore = x.expr.subterms.filter Expr.isStore := by
  have stores : ((Lowering.exprTerms x.visit.analyzed x.visit.checked x.params x.expr
      x.before).map Stop.expr).filter Expr.isStore = x.expr.subterms.filter Expr.isStore :=
    Lowering.stores_expr x.expr x.before targeted
  rw [Lowering.exprTerms, List.map_append] at stores
  rw [terms, List.map_append]
  exact stores

/-- The builder before the instructions of a store itself. -/
def begun (x : Stop) : Builder :=
  (Lowering.expr x.expr.fed x.before).2

/-- What a store itself writes variables with. -/
def writes (x : Stop) : List Instruction :=
  (x.begun.since x.after).filter Instruction.writes

theorem after_of_isStore (store : x.expr.isStore) :
    x.after = (Lowering.expr x.expr x.before).2 := by
  obtain ⟨⟨e, a, t⟩, ps, b, role⟩ := x
  unfold after
  split
  · cases e with
    | call => exact nomatch store
    | _ => rfl
  · rfl

theorem follows_begun (store : x.expr.isStore) : Builder.Follows x.begun x.after := by
  rw [after_of_isStore store, begun]
  obtain ⟨left, right, span, shape⟩ | ⟨op, operand, side, span, steps, shape⟩ :=
    Expr.store_cases store
  · rw [shape, Lowering.expr, if_pos rfl]
    exact (Lowering.straight_store left _ _).follows
  · rw [shape, Lowering.expr]
    simp only [steps, if_true]
    exact (Lowering.straight_step op side _ _).follows

/-- The operand of a step has no variable: it is the value of an enumeration, or lowering takes it
for one. -/
def Misses (x : Stop) : Prop :=
  x.expr.isStep ∧ ∃ r ∈ x.reads, r.Forgotten ∨ ∃ s ∈ r.table.lookup r.name.name, s.isEnumValue

instance (x : Stop) : Decidable x.Misses :=
  inferInstanceAs (Decidable (x.expr.isStep ∧
    ∃ r ∈ x.reads, r.Forgotten ∨ ∃ s ∈ r.table.lookup r.name.name, s.isEnumValue))

end Stop

open Typing

/-- What the type checker finds is what the analyzer found, but for functions. -/
theorem Visit.Resolved.lookup {v : Visit} (resolved : v.Resolved) {name : String} {s : Symbol}
    (known : v.checked.lookup name = some s) (plain : s.isFunction = false) :
    v.analyzed.lookup name = some s := by
  rw [resolved.same, Table.lookup_settled] at known
  obtain ⟨u, here, rfl⟩ := Option.map_eq_some_iff.mp known
  rw [Symbol.isFunction, Symbol.completed_params?] at plain
  rw [here, Symbol.completed_of_plain plain]

namespace Program

/-- The assignments and steps of a program. -/
def stores (p : Program) : List Stop :=
  (p.stops.flatMap Stop.terms).filter (·.expr.isStore)

variable {p : Program} {x : Stop}

/-- If assignments are to names, all of them are lowered, and all steps. -/
theorem stores_perm (targeted : ∀ x ∈ p.stops, ∀ e ∈ x.expr.subterms, e.Targeted) :
    (p.stores.map Stop.expr).Perm
      (((p.statements.flatMap Stmt.expressions).flatMap Expr.subterms).filter Expr.isStore) := by
  have stores : p.stores.map Stop.expr =
      (p.visits.map Visit.expr).flatMap fun e => e.subterms.filter Expr.isStore := by
    calc p.stores.map Stop.expr
      _ = ((p.stops.flatMap Stop.terms).map Stop.expr).filter Expr.isStore := by
        rw [List.filter_map]
        rfl
      _ = p.stops.flatMap fun x => (x.terms.map Stop.expr).filter Expr.isStore := by
        rw [List.map_flatMap, List.filter_flatMap]
      _ = p.stops.flatMap fun x => x.expr.subterms.filter Expr.isStore :=
        List.flatMap_congr fun x stops => Stop.stores_terms (targeted x stops)
      _ = (p.visits.map Visit.expr).flatMap fun e => e.subterms.filter Expr.isStore := by
        rw [← p.visit_stops, List.map_map, List.flatMap_map]
        rfl
  rw [stores, List.filter_flatMap]
  exact p.visits_perm.flatMap_right _

theorem targeted_stops (clean : (analyze p).errors = []) (typed : typeCheck p = []) :
    ∀ x ∈ p.stops, ∀ e ∈ x.expr.subterms, e.Targeted := fun x stops =>
  Lowering.targeted_expr x.expr ((walked clean).resolved _ (visit_mem stops)).checked
    (typed_stops typed x stops).clean

theorem exists_stop (member : x ∈ p.stores) :
    x.expr.isStore ∧ ∃ stop ∈ p.stops, x ∈ stop.terms ∧
      Lowering.Inner stop.visit.analyzed stop.visit.checked stop.params stop.expr.subterms
        stop.after stop.reads x := by
  obtain ⟨listed, store⟩ := List.mem_filter.mp member
  obtain ⟨stop, stops, inside⟩ := List.mem_flatMap.mp listed
  exact ⟨store, stop, stops, inside, stop.inner_terms x inside⟩

/-- A store has its place in the code of the program. -/
theorem written_store (member : x ∈ p.stores) :
    x.begun.code.toList ++ x.begun.since x.after <+: Lowering.program p := by
  obtain ⟨store, stop, stops, -, inner⟩ := exists_stop member
  rw [Builder.append_since (Stop.follows_begun store)]
  exact inner.written.code.trans (written_stops stops)

/-- The operand of a step is read. -/
theorem reads_store (member : x ∈ p.stores) {r : Read} (read : r ∈ x.reads) : r ∈ p.reads := by
  obtain ⟨-, stop, stops, -, inner⟩ := exists_stop member
  exact List.mem_flatMap.mpr ⟨stop, stops, inner.reads read⟩

/-- A store in a program without complaints has no fault, and its names are found. -/
theorem judged_store (clean : (analyze p).errors = []) (typed : typeCheck p = [])
    (member : x ∈ p.stores) : ∃ v ∈ p.visits, v.analyzed = x.visit.analyzed ∧ v.Resolved ∧
      (∀ name ∈ x.expr.uses, v.checked.lookupAll name ≠ []) ∧
        (typeOf v.checked x.expr).errors = [] := by
  obtain ⟨-, stop, stops, inside, inner⟩ := exists_stop member
  have resolved := (walked clean).resolved _ (visit_mem stops)
  refine ⟨stop.visit, visit_mem stops, inner.analyzed.symm, resolved, fun name used => ?_, ?_⟩
  · exact resolved.checked name (uses_subterms stop.expr x.expr inner.subterm used)
  · exact Stop.clean_terms (typed_stops typed stop stops).clean x inside

/-- The type checker takes nothing but enumerations for their type. -/
theorem ty_of_isEnumeration {v : Visit} (visited : v ∈ p.visits) {name : String} {s : Symbol}
    (found : v.checked.lookup name = some s) (enumeration : s.isEnumeration) :
    s.ty = .enumeration := by
  have held := symbols_visited visited s (Table.mem_symbols_of_lookup found)
  obtain ⟨x, -, own⟩ := List.mem_flatMap.mp held
  exact x.ty_of_isEnumeration s own enumeration

/-- The name that a store is to change stands for a variable, or in a step for the value of an
enumeration. -/
theorem found_of_store (clean : (analyze p).errors = []) (typed : typeCheck p = [])
    (member : x ∈ p.stores) {name : Identifier} (named : x.expr.changed? = some name) :
    ∃ s, x.visit.analyzed.lookup name.name = some s ∧
      (s.isVariable ∨ x.expr.isStep ∧ s.isEnumValue) := by
  obtain ⟨v, visited, same, resolved, found, fine⟩ := judged_store clean typed member
  rw [← same]
  obtain ⟨left, right, span, shape⟩ | ⟨op, operand, side, span, steps, shape⟩ :=
    Expr.store_cases (exists_stop member).1
  · rw [shape] at found fine named ⊢
    obtain ⟨other, s, rfl, known, isVariable⟩ :=
      Lowering.symbol_of_assigns (List.forall_mem_append.mp found).1 fine
    obtain rfl := Option.some.inj named
    exact ⟨s, resolved.lookup known (Symbol.plain_of_isVariable isVariable), .inl isVariable⟩
  · rw [shape] at found fine named ⊢
    obtain rfl := Expr.eq_of_symbol? named
    obtain ⟨s, known, plain, other⟩ :=
      Lowering.symbol_of_steps steps (found name.name (.head _)) fine
    refine ⟨s, resolved.lookup known plain, ?_⟩
    -- An enumeration is of a type with no numbers, which cannot be stepped.
    have single : s.isEnumeration = false := Bool.eq_false_iff.mpr fun enumeration =>
      other (ty_of_isEnumeration visited known enumeration)
    obtain ⟨name, ty, position, kind⟩ := s
    cases kind <;> simp_all [Symbol.isVariable, Symbol.isEnumeration, Symbol.isEnumValue,
      Symbol.isFunction, Symbol.params?, Expr.isStep]

/-- An assignment to a name puts the value there. -/
theorem writes_of_assigns {name : Identifier} {value : Expr} {span : Span}
    (shape : x.expr = .binary .assign (.symbol name) value span) :
    x.writes = [.assign (.variable name.name) (Lowering.expr value x.before).1] := by
  have store : x.expr.isStore := by rw [shape]; rfl
  rw [Stop.writes, Stop.after_of_isStore store, Stop.begun, shape, Lowering.expr, if_pos rfl]
  exact Lowering.writes_store name _ _

/-- A step of a name reads it and puts a value there, if the name is lowered to a variable. -/
theorem writes_of_steps {op : UnaryOp} (steps : op.isStep) {name : Identifier} {side : Side}
    {span : Span} (shape : x.expr = .unary op (.symbol name) side span) :
    ∃ r, x.reads = [r] ∧ r.name = name ∧ r.table = x.visit.analyzed ∧
      ∃ value, x.writes = if r.operand.isVariable then [.assign r.operand value] else [] := by
  have store : x.expr.isStore := by rw [shape]; exact steps
  refine ⟨⟨name, x.visit.analyzed, x.before, x.params⟩, ?_, rfl, rfl, ?_⟩
  · have same : x.reads = Lowering.exprReads x.visit.analyzed x.params x.expr x.before := rfl
    rw [same, shape]
    rfl
  · rw [Stop.writes, Stop.after_of_isStore store, Stop.begun, shape, Lowering.expr]
    simp only [steps, if_true]
    exact Lowering.writes_step op side _ _

/-- A name that is read is lowered to no variable just if it stands for the value of an enumeration
or is taken for one. -/
theorem operand_of_found (clean : (analyze p).errors = []) (typed : typeCheck p = []) {r : Read}
    (read : r ∈ p.reads) {s : Symbol} (found : r.table.lookup r.name.name = some s) :
    if r.Forgotten ∨ s.isEnumValue then r.operand.isVariable = false
    else r.operand = .variable r.name.name := by
  obtain ⟨-, -, -, resolved⟩ := resolved_reads clean typed read
  by_cases forgotten : r.Forgotten
  · rw [if_pos forgotten] at resolved
    obtain ⟨-, -, i, -, -, -, -, constant⟩ := resolved
    rw [if_pos (.inl forgotten), constant]
    rfl
  · rw [if_neg forgotten] at resolved
    obtain ⟨u, known, lowered⟩ := resolved
    obtain rfl := Option.some.inj (found.symm.trans known)
    by_cases isEnumValue : s.isEnumValue
    · obtain ⟨i, -, constant⟩ := (if_pos isEnumValue).mp lowered
      rw [if_pos (.inr isEnumValue), constant]
      rfl
    · rw [if_neg fun either => either.elim forgotten isEnumValue]
      exact (if_neg isEnumValue).mp lowered

/-- A store that does not miss puts one value into the variable that its name stands for. -/
theorem writes_of_store (clean : (analyze p).errors = []) (typed : typeCheck p = [])
    (member : x ∈ p.stores) {name : Identifier} (named : x.expr.changed? = some name)
    {s : Symbol} (found : x.visit.analyzed.lookup name.name = some s)
    (varies : s.isVariable ∨ x.expr.isStep ∧ s.isEnumValue) :
    if x.Misses then x.writes = []
    else s.isVariable ∧ ∃ value, x.writes = [.assign (.variable name.name) value] := by
  obtain ⟨left, right, span, shape⟩ | ⟨op, operand, side, span, steps, shape⟩ :=
    Expr.store_cases (exists_stop member).1
  · rw [shape] at named varies
    obtain rfl := Expr.eq_of_symbol? named
    have plain : ¬x.Misses := fun misses => by simp [Stop.Misses, shape, Expr.isStep] at misses
    rw [if_neg plain]
    exact ⟨varies.resolve_right nofun, _, writes_of_assigns shape⟩
  · obtain rfl : operand = .symbol name := Expr.eq_of_symbol? (by rwa [shape] at named)
    obtain ⟨r, reads, rfl, table, value, writes⟩ := writes_of_steps steps shape
    -- What the operand is lowered to decides, and that is what any read of the name is lowered to.
    rw [← table] at found
    have operand := operand_of_found clean typed
      (reads_store member (reads ▸ List.mem_singleton_self r)) found
    have misses : x.Misses ↔ r.Forgotten ∨ s.isEnumValue := by
      simp [Stop.Misses, shape, Expr.isStep, steps, reads, found]
    rw [if_congr misses rfl rfl]
    split at operand
    · rw [if_pos ‹_›, writes, operand]
      rfl
    · rename_i neither
      rw [if_neg neither]
      refine ⟨varies.resolve_right fun step => neither (.inr step.2), value, ?_⟩
      rw [writes, operand]
      rfl

/-- The steps of a parsed program have names. -/
theorem named_of_parsed {tokens : List Token} (parsed : Parse.ofTokens tokens = .ok p)
    (clean : (analyze p).errors = []) (typed : typeCheck p = []) (member : x ∈ p.stores) :
    x.expr.changed?.isSome := by
  obtain ⟨v, visited, -, -, found, fine⟩ := judged_store clean typed member
  obtain ⟨left, right, span, shape⟩ | ⟨op, operand, side, span, steps, shape⟩ :=
    Expr.store_cases (exists_stop member).1
  · rw [shape] at found fine ⊢
    obtain ⟨name, s, rfl, -⟩ :=
      Lowering.symbol_of_assigns (List.forall_mem_append.mp found).1 fine
    rfl
  · rw [shape] at found fine ⊢
    obtain ⟨value, verdict⟩ := clean_typed fine
    refine (Lowering.named_of_steps steps verdict).elim (fun unknown => ?_) And.left
    exact absurd value (errors_of_invalid_value (proper_visited parsed visited) found unknown)

/-- The assignments and steps of an accepted program are all lowered, each at its place. If
one is of a name, the name stands for a variable, and what it writes is one value for that variable,
unless it is a step of an enumeration value, or of a variable that lowering takes for one. Then
it writes nothing. -/
theorem stores_of_accepted (clean : (analyze p).errors = []) (typed : typeCheck p = []) :
    (p.stores.map Stop.expr).Perm
        (((p.statements.flatMap Stmt.expressions).flatMap Expr.subterms).filter Expr.isStore) ∧
      (∀ tokens, Parse.ofTokens tokens = .ok p → ∀ x ∈ p.stores, x.expr.changed?.isSome) ∧
      ∀ x ∈ p.stores, x.begun.code.toList ++ x.begun.since x.after <+: Lowering.program p ∧
        ∀ name, x.expr.changed? = some name →
          ∃ s, x.visit.analyzed.lookup name.name = some s ∧
            (s.isVariable ∨ x.expr.isStep ∧ s.isEnumValue) ∧
              if x.Misses then x.writes = []
              else s.isVariable ∧ ∃ value, x.writes = [.assign (.variable name.name) value] := by
  refine ⟨stores_perm (targeted_stops clean typed), fun tokens parsed x member =>
    named_of_parsed parsed clean typed member, fun x member => ⟨written_store member, ?_⟩⟩
  intro name named
  obtain ⟨s, found, varies⟩ := found_of_store clean typed member named
  exact ⟨s, found, varies, writes_of_store clean typed member named found varies⟩

end Program
/-- A program that assigns and steps variables and a parameter, in statements and for values. -/
def altered : String :=
  "enum Color \x7b RED \x7d;\nint f(int a) \x7b a = RED; return --a; \x7d\n" ++
  "main \x7b int x = 1; int y; y = x = x++ + f(x); y--; \x7d\n"

theorem altered_stored : ∃ p, readProgram altered = .ok p ∧ (analyze p).errors = [] ∧
    typeCheck p = [] ∧ p.stores.length = 6 ∧ ∀ x ∈ p.stores, ∃ name s,
      x.expr.changed? = some name ∧ x.visit.analyzed.lookup name.name = some s ∧ s.isVariable ∧
        ∃ value, x.writes = [.assign (.variable name.name) value] := by
  have checked : (readProgram altered).toOption.any fun p => (analyze p).errors.isEmpty &&
      (typeCheck p).isEmpty && p.stores.length = 6 && p.stores.all fun x =>
        x.expr.changed?.isSome && !x.Misses := by decide +kernel
  obtain ⟨p, read, facts⟩ := exists_of_readProgram checked
  obtain ⟨⟨⟨clean, typed⟩, count⟩, plain⟩ : (((analyze p).errors = [] ∧ typeCheck p = []) ∧
      p.stores.length = 6) ∧ ∀ x ∈ p.stores, x.expr.changed?.isSome ∧ ¬x.Misses := by
    simpa using facts
  refine ⟨p, read, clean, typed, count, fun x member => ?_⟩
  obtain ⟨named, hits⟩ := plain x member
  obtain ⟨name, named⟩ := Option.isSome_iff_exists.mp named
  obtain ⟨s, found, -, stored⟩ :=
    ((Program.stores_of_accepted clean typed).2.2 x member).2 name named
  rw [if_neg hits] at stored
  exact ⟨name, s, named, found, stored.1, stored.2⟩

/-- A program with a step of an enumeration value. -/
def recoloured : String :=
  "enum Color \x7b RED \x7d; main \x7b RED++; \x7d"

/-- Nothing is wrong with its names and types, but the step is not that of a variable, and nothing
is written. -/
theorem recoloured_dropped : ∃ p, readProgram recoloured = .ok p ∧ (analyze p).errors = [] ∧
    typeCheck p = [] ∧ ∃ x ∈ p.stores, x.writes = [] ∧
      ¬∃ name s, x.expr.changed? = some name ∧ x.visit.analyzed.lookup name.name = some s ∧
        s.isVariable := by
  have checked : (readProgram recoloured).toOption.any fun p => (analyze p).errors.isEmpty &&
      (typeCheck p).isEmpty && p.stores.any fun x => x.writes.isEmpty &&
        x.expr.changed?.all fun name =>
          (x.visit.analyzed.lookup name.name).all (!·.isVariable) := by decide +kernel
  obtain ⟨p, read, facts⟩ := exists_of_readProgram checked
  obtain ⟨⟨clean, typed⟩, x, member, dropped, other⟩ : ((analyze p).errors = [] ∧
      typeCheck p = []) ∧ ∃ x ∈ p.stores, x.writes = [] ∧ x.expr.changed?.all fun name =>
        (x.visit.analyzed.lookup name.name).all (!·.isVariable) := by simpa using facts
  refine ⟨p, read, clean, typed, x, member, dropped, ?_⟩
  rintro ⟨name, s, named, found, isVariable⟩
  simp [named, found, isVariable] at other

end Curly
