import Curly.Proofs.Lowering.Stops
import Curly.Proofs.Scope.Occurrences

/-! The visits of the analyzer and the type checker come to every expression of a program once. If
the type checker has no complaint, it had none at any visit, an expression has a value where one is
wanted, and no name that is read stands for a function. -/
namespace Curly

mutual

/-- The identifiers whose values an expression takes: neither the target of an assignment nor the
function of a call is among them. -/
def Expr.reads : Expr → List Identifier
  | .symbol name => [name]
  | .binary op left right _ => if op = .assign then right.reads else left.reads ++ right.reads
  | .unary _ operand _ _ => operand.reads
  | .call _ args _ => readsIn args
  | .int .. | .float .. | .string .. | .char .. | .bool .. => []
termination_by structural e => e

def readsIn : List Expr → List Identifier
  | [] => []
  | e :: others => e.reads ++ readsIn others
termination_by structural es => es

end

mutual

/-- A name that is read is used. -/
theorem mem_uses_of_reads : (e : Expr) → ∀ name ∈ e.reads, name.name ∈ e.uses
  | .symbol name => fun other member => by
    obtain rfl := List.mem_singleton.mp member
    exact List.mem_singleton_self _
  | .binary op left right _ => fun name member => by
    have either : name ∈ left.reads ∨ name ∈ right.reads := by
      unfold Expr.reads at member
      split at member
      · exact .inr member
      · exact List.mem_append.mp member
    rcases either with member | member
    · exact List.mem_append_left _ (mem_uses_of_reads left name member)
    · exact List.mem_append_right _ (mem_uses_of_reads right name member)
  | .unary _ operand _ _ => mem_uses_of_reads operand
  | .call _ args _ => fun name member =>
    List.mem_cons_of_mem _ (mem_usesIn_of_reads args name member)
  | .int .. | .float .. | .string .. | .char .. | .bool .. => fun _ member => nomatch member
termination_by structural e => e

theorem mem_usesIn_of_reads : (es : List Expr) → ∀ name ∈ readsIn es, name.name ∈ usesIn es
  | [] => fun _ member => nomatch member
  | e :: others => fun name member => by
    rcases List.mem_append.mp member with member | member
    · exact List.mem_append_left _ (mem_uses_of_reads e name member)
    · exact List.mem_append_right _ (mem_usesIn_of_reads others name member)
termination_by structural es => es

end

namespace Typing

theorem clean_asValue {t : Typed} {position : Position}
    (clean : (t.asValue position).errors = []) : t.errors = [] := by
  unfold Typed.asValue at clean
  split at clean
  · exact (List.append_eq_nil_iff.mp clean).1
  · exact clean

theorem isValue_asValue {t : Typed} {position : Position}
    (clean : (t.asValue position).errors = []) : t.ty ≠ .void := by
  unfold Typed.asValue at clean
  split at clean
  · simp at clean
  · assumption

theorem clean_typed {v : Verdict} {position : Position} {before : List TypeError}
    (clean : (v.typed position before).errors = []) : before = [] ∧ v.2 = none := by
  obtain ⟨none, verdict⟩ := List.append_eq_nil_iff.mp clean
  exact ⟨none, by simpa using verdict⟩

section

variable (table : Table)

mutual

/-- Where the checker has no complaint, no name that is read stands for a function. -/
theorem plain_reads : (e : Expr) → (typeOf table e).errors = [] →
    ∀ name ∈ e.reads, ∀ s, table.lookup name.name = some s → s.isFunction = false
  | .symbol name, clean => fun other member s found => by
    obtain rfl := List.mem_singleton.mp member
    have verdict := (clean_typed clean).2
    rw [nameVerdict, found] at verdict
    by_cases function : s.isFunction
    · simp [function] at verdict
    · exact Bool.eq_false_iff.mpr function
  | .binary op left right _, clean => fun name member => by
    simp only [typeOf, Expr.reads] at clean member
    split at clean
    · rw [if_pos ‹_›] at member
      exact plain_reads right (clean_asValue (clean_typed clean).1) name member
    · rw [if_neg ‹_›] at member
      obtain ⟨before, behind⟩ := List.append_eq_nil_iff.mp (clean_typed clean).1
      rcases List.mem_append.mp member with member | member
      · exact plain_reads left (clean_asValue before) name member
      · exact plain_reads right (clean_asValue behind) name member
  | .unary _ operand _ _, clean => plain_reads operand (clean_asValue (clean_typed clean).1)
  | .call _ args _, clean => plain_readsIn args (List.append_eq_nil_iff.mp clean).1
  | .int .., _ | .float .., _ | .string .., _ | .char .., _ | .bool .., _ =>
    fun _ member => nomatch member
termination_by structural e => e

theorem plain_readsIn : (es : List Expr) → (typesOf table es).flatMap Typed.errors = [] →
    ∀ name ∈ readsIn es, ∀ s, table.lookup name.name = some s → s.isFunction = false
  | [], _ => fun _ member => nomatch member
  | e :: others, clean => fun name member => by
    obtain ⟨before, behind⟩ := List.append_eq_nil_iff.mp clean
    rcases List.mem_append.mp member with member | member
    · exact plain_reads e (clean_asValue before) name member
    · exact plain_readsIn others behind name member
termination_by structural es => es

end

end
end Typing

/-- The expressions of a statement itself, with what becomes of their values. -/
def Stmt.values : Stmt → List (Expr × Role)
  | .variable _ _ initial _ => initial.toList.map (·, .wanted)
  | .branch e _ _ _ | .whileLoop e _ _ | .doLoop _ e _ => [(e, .wanted)]
  | .evaluate e _ => [(e, .dropped)]
  | .forLoop _ e update _ _ => e.toList.map (·, .wanted) ++ update.toList.map (·, .update)
  | .switch e cases _ _ => (e, .wanted) :: cases.map (·.value, .wanted)
  | .giveBack value _ => value.toList.map (·, .wanted)
  | .print args _ => args.map (·, .wanted)
  | .prototype .. | .function .. | .main .. | .enumeration .. | .block _ | .leave _
  | .inclusion .. => []

theorem Stmt.fst_values (s : Stmt) : s.values.map Prod.fst = s.expressions := by
  cases s <;> simp [values, expressions, Function.comp_def]

def Stop.value (x : Stop) : Expr × Role :=
  (x.visit.expr, x.role)

/-- The checker has no complaint about the expression, which has a value where one is wanted. -/
structure Stop.Typed (x : Stop) : Prop where
  clean : (Typing.typeOf x.visit.checked x.visit.expr).errors = []
  isValue : x.role = .wanted → (Typing.typeOf x.visit.checked x.visit.expr).ty ≠ .void

namespace Lowering

theorem typed_value {v : Visit} {ps : Parameters} {b : Builder} {role : Role}
    (clean : (Typing.valueOf v.checked v.expr).errors = []) : Stop.Typed ⟨v, ps, b, role⟩ :=
  ⟨Typing.clean_asValue clean, fun _ => Typing.isValue_asValue clean⟩

theorem typed_condition {v : Visit} {ps : Parameters} {b : Builder} {role : Role}
    (clean : (Typing.typeOf v.checked v.expr).errors = [] ∧
      ((Typing.typeOf v.checked v.expr).ty = .bool ∨
        (Typing.typeOf v.checked v.expr).ty = .invalid)) : Stop.Typed ⟨v, ps, b, role⟩ := by
  refine ⟨clean.1, fun _ => ?_⟩
  rcases clean.2 with same | same <;> exact same ▸ nofun

/-- An expression without a value is a statement, or it stands behind the turns of a loop. -/
theorem typed_expr {v : Visit} {ps : Parameters} {b : Builder} {role : Role}
    (clean : (Typing.typeOf v.checked v.expr).errors = []) (unwanted : role ≠ .wanted) :
    Stop.Typed ⟨v, ps, b, role⟩ :=
  ⟨clean, fun wanted => absurd wanted unwanted⟩

section

variable (declared : String → Bool) {ps : Parameters} {a : Analysis} {c : Checker} {b : Builder}

theorem typed_optional {e : Option Expr}
    (clean : ∀ value ∈ e, (Typing.valueOf c.table value).errors = []) :
    ∀ x ∈ optionalStops .wanted ps e a c b, x.Typed := by
  cases e with
  | none => exact nofun
  | some e => exact List.forall_mem_singleton.mpr (typed_value (clean e rfl))

theorem typed_all {es : List Expr}
    (clean : ∀ e ∈ es, (Typing.valueOf c.table e).errors = []) :
    ∀ x ∈ allStops declared ps es a c b, x.Typed := by
  induction es generalizing a c b with
  | nil => exact nofun
  | cons e others ih =>
    obtain ⟨here, rest⟩ := List.forall_mem_cons.mp clean
    exact List.forall_mem_cons.mpr ⟨typed_value here, ih (c := Checker.value e c) rest⟩

open Checker (heads inside_scope inside_deeper inside_stmts around_block around_caseValue
  errors_condition_iff errors_expr_iff errors_variableStatement_iff errors_giveBack_iff
  errors_values_iff errors_subject_iff errors_caseValue_iff)

/-- The test and the change in the head of a loop. -/
theorem typed_heads {position : Position} {e update : Option Expr}
    (clean : (heads position e update c).errors = []) :
    c.errors = [] ∧ (∀ ps a b, ∀ x ∈ optionalStops .wanted ps e a c b, x.Typed) ∧
      ∀ ps a b, ∀ x ∈ optionalStops .update ps update a (heads position e none c) b, x.Typed := by
  have changed : (heads position e none c).errors = [] ∧ ∀ ps a b,
      ∀ x ∈ optionalStops .update ps update a (heads position e none c) b, x.Typed := by
    cases update with
    | none => exact ⟨clean, fun _ _ _ => nofun⟩
    | some update =>
      obtain ⟨before, here⟩ := (errors_expr_iff ..).mp clean
      exact ⟨before, fun _ _ _ => List.forall_mem_singleton.mpr (typed_expr here nofun)⟩
  have tested : c.errors = [] ∧ ∀ ps a b, ∀ x ∈ optionalStops .wanted ps e a c b, x.Typed := by
    cases e with
    | none => exact ⟨changed.1, fun _ _ _ => nofun⟩
    | some e =>
      obtain ⟨before, here⟩ := (errors_condition_iff ..).mp changed.1
      exact ⟨before, fun _ _ _ => List.forall_mem_singleton.mpr (typed_condition here)⟩
  exact ⟨tested.1, tested.2, changed.2⟩

mutual

/-- The checker had no complaint at any stop if it has none behind the statement. -/
theorem typed_stmt : (s : Stmt) → (ps : Parameters) → (a : Analysis) → (c : Checker) →
    (b : Builder) → (Checker.stmt s c).errors = [] → ∀ x ∈ stmtStops declared s ps a c b, x.Typed
  | .variable .., _, _, c, _, clean =>
    typed_optional fun e known => (((errors_variableStatement_iff ..).mp clean).2.2 e known).1
  | .function _ _ _ body _, _, _, c, _, clean =>
    typed_within body _ _ _ _ (List.append_eq_nil_iff.mp clean).1
  | .main body _, _, _, c, _, clean => typed_within body _ _ _ _ clean
  | .block body, ps, a, c, b, clean => typed_block body ps a.enter c b clean
  | .branch e yes none span, ps, a, c, b, clean => by
    have here := ((errors_condition_iff ..).mp (inside_scope yes _ clean).1).2
    exact List.forall_mem_append.mpr
      ⟨List.forall_mem_cons.mpr ⟨typed_condition here, typed_block yes _ _ _ _ clean⟩, nofun⟩
  | .branch e yes (some no) span, ps, a, c, b, clean => by
    have between := (inside_scope no _ clean).1
    have here := ((errors_condition_iff ..).mp (inside_scope yes _ between).1).2
    exact List.forall_mem_append.mpr
      ⟨List.forall_mem_cons.mpr ⟨typed_condition here, typed_block yes _ _ _ _ between⟩,
        typed_block no _ _ _ _ clean⟩
  | .whileLoop e body span, ps, a, c, b, clean => by
    have here := ((errors_condition_iff ..).mp (inside_deeper body _ clean).1).2
    exact List.forall_mem_cons.mpr
      ⟨typed_condition here, typed_block body _ _ (Checker.deeper _) _ clean⟩
  | .doLoop body e span, ps, a, c, b, clean => by
    obtain ⟨before, here⟩ := (errors_condition_iff ..).mp clean
    exact List.forall_mem_append.mpr ⟨typed_block body _ _ c.deeper _ before,
      List.forall_mem_singleton.mpr (typed_condition here)⟩
  | .forLoop none e update body span, ps, a, c, b, clean => by
    have before := (inside_deeper body (heads span.start e update c.enter) clean).1
    obtain ⟨-, tested, changed⟩ := typed_heads before
    have inside (b : Builder) := typed_block body ps
      (Analysis.optional declared update (Analysis.optional declared e a.enter)).enter
      (heads span.start e update c.enter).deeper b clean
    exact List.forall_mem_append.mpr
      ⟨List.forall_mem_append.mpr ⟨tested _ _ _, changed _ _ _⟩, inside _⟩
  | .forLoop (some initial) e update body span, ps, a, c, b, clean => by
    have before :=
      (inside_deeper body (heads span.start e update (Checker.stmt initial c.enter)) clean).1
    obtain ⟨first, tested, changed⟩ := typed_heads before
    have begun := typed_stmt initial ps a.enter c.enter b first
    have inside (b : Builder) := typed_block body (ps.behind initial.definesFunction)
      (Analysis.optional declared update (Analysis.optional declared e
        (Analysis.stmt declared initial a.enter))).enter
      (heads span.start e update (Checker.stmt initial c.enter)).deeper b clean
    exact List.forall_mem_append.mpr ⟨List.forall_mem_append.mpr
      ⟨List.forall_mem_append.mpr ⟨begun, tested _ _ _⟩, changed _ _ _⟩, inside _⟩
  | .switch e cases none _, ps, a, c, b, clean => by
    obtain ⟨before, arms⟩ := typed_arms _ _ _ cases (Checker.subject e c).1 ps _ _ _ _ _
      (Nat.succ_pos _) clean
    have here := ((errors_subject_iff e c).mp before).2.1
    exact List.forall_mem_append.mpr
      ⟨List.forall_mem_cons.mpr ⟨typed_value here, arms⟩, nofun⟩
  | .switch e cases (some fallback) _, ps, a, c, b, clean => by
    have between := (inside_scope fallback _ clean).1
    obtain ⟨before, arms⟩ := typed_arms _ _ _ cases (Checker.subject e c).1 ps _ _ _ _ _
      (Nat.succ_pos _) between
    have here := ((errors_subject_iff e c).mp before).2.1
    exact List.forall_mem_append.mpr
      ⟨List.forall_mem_cons.mpr ⟨typed_value here, arms⟩, typed_block fallback _ _ _ _ clean⟩
  | .giveBack .., _, _, c, _, clean => typed_optional ((errors_giveBack_iff ..).mp clean).2.1
  | .print args _, _, _, c, _, clean => typed_all declared ((errors_values_iff args c).mp clean).2
  | .evaluate e _, _, _, c, _, clean =>
    List.forall_mem_singleton.mpr (typed_expr ((errors_expr_iff e c).mp clean).2 nofun)
  | .prototype .., _, _, _, _, _ | .enumeration .., _, _, _, _, _ | .leave _, _, _, _, _, _
  | .inclusion .., _, _, _, _, _ => nofun
termination_by structural s => s

theorem typed_block : (body : Block) → (ps : Parameters) → (a : Analysis) → (c : Checker) →
    (b : Builder) → (Checker.block body c).errors = [] →
    ∀ x ∈ blockStops declared body ps a c.enter b, x.Typed
  | ⟨body, _⟩, ps, a, c, b, clean => typed_stmts body ps a c.enter b clean
termination_by structural body => body

theorem typed_within : (body : Block) → (ps : Parameters) → (a : Analysis) → (c : Checker) →
    (b : Builder) → (Checker.within body c).errors = [] →
    ∀ x ∈ blockStops declared body ps a c b, x.Typed
  | ⟨body, _⟩, ps, a, c, b, clean => typed_stmts body ps a c b clean
termination_by structural body => body

theorem typed_stmts : (body : List Stmt) → (ps : Parameters) → (a : Analysis) → (c : Checker) →
    (b : Builder) → (Checker.stmts body c).errors = [] →
    ∀ x ∈ stmtsStops declared body ps a c b, x.Typed
  | [], _, _, _, _, _ => nofun
  | s :: others, ps, a, c, b, clean => List.forall_mem_append.mpr
    ⟨typed_stmt s ps a c b (inside_stmts others _ clean).1, typed_stmts others _ _ _ _ clean⟩
termination_by structural body => body

theorem typed_arms (subject : Operand) (finish : Label) (tested : Parameters) :
    (cases : List Case) → (ty : Ty) → (ps : Parameters) → (a : Analysis) → (c : Checker) →
    (b : Builder) → (labels : List Label) → (d : Builder) → 0 < c.depth →
    (Checker.arms ty cases c).errors = [] → c.errors = [] ∧
      ∀ x ∈ armsStops declared subject finish tested cases ty ps a c b labels d, x.Typed
  | [], _, _, _, _, _, _, _, _, clean => ⟨clean, nofun⟩
  | ⟨value, body, _⟩ :: others, ty, ps, a, c, b, labels, d, deep, clean => by
    have valued := (around_caseValue ty value c).depth
    have passed := (around_block body (Checker.caseValue ty value c)).depth
    have rest := fun labels d => typed_arms subject finish tested others ty
      (ps.behind body.definesFunction)
      (Analysis.block declared body (Analysis.expr declared value a)) _
      ((expr value b).2.newLabel.2.emit (.jumpIfEqual subject (expr value b).1
        (expr value b).2.newLabel.1)) labels d (by rwa [passed, valued]) clean
    obtain ⟨before, here, -⟩ := (errors_caseValue_iff ..).mp (inside_scope body _ (rest [] d).1).1
    cases labels with
    | nil => exact ⟨before, nofun⟩
    | cons l labels =>
      obtain ⟨between, behind⟩ := rest labels _
      exact ⟨before, List.forall_mem_append.mpr ⟨List.forall_mem_cons.mpr
        ⟨typed_value here, typed_block body _ _ _ _ between⟩, behind⟩⟩
termination_by structural cases => cases

end

theorem values_optional (role : Role) (ps : Parameters) (e : Option Expr) (a : Analysis)
    (c : Checker) (b : Builder) :
    (optionalStops role ps e a c b).map Stop.value = e.toList.map (·, role) := by
  cases e <;> rfl

theorem values_all (ps : Parameters) (es : List Expr) (a : Analysis) (c : Checker) (b : Builder) :
    (allStops declared ps es a c b).map Stop.value = es.map (·, .wanted) := by
  induction es generalizing a c b with
  | nil => rfl
  | cons e others ih => exact congrArg ((e, .wanted) :: ·) (ih ..)

mutual

/-- Lowering stops once for every expression in a statement. -/
theorem perm_stmt : (s : Stmt) → (ps : Parameters) → (a : Analysis) → (c : Checker) →
    (b : Builder) → ((stmtStops declared s ps a c b).map Stop.value).Perm
      ((s :: s.inner).flatMap Stmt.values)
  | .variable .., _, _, _, _ | .giveBack .., _, _, _, _ => by
    simp [stmtStops, Stmt.inner, Stmt.values, values_optional]
  | .print .., _, _, _, _ => by simp [stmtStops, Stmt.inner, Stmt.values, values_all]
  | .prototype .., _, _, _, _ | .enumeration .., _, _, _, _ | .leave _, _, _, _, _
  | .inclusion .., _, _, _, _ | .evaluate .., _, _, _, _ => .refl _
  | .function _ _ _ body _, _, _, _, _ | .main body _, _, _, _, _ | .block body, _, _, _, _ =>
    perm_block body _ _ _ _
  | .branch e yes none _, _, _, _, _ => by
    simpa [stmtStops, Stmt.inner, Stmt.values, Stop.value] using perm_block yes _ _ _ _
  | .branch e yes (some no) _, _, _, _, _ => by
    simpa [stmtStops, Stmt.inner, Stmt.values, Stop.value] using
      (perm_block yes _ _ _ _).append (perm_block no _ _ _ _)
  | .whileLoop e body _, _, _, _, _ => by
    simpa [stmtStops, Stmt.inner, Stmt.values, Stop.value] using perm_block body _ _ _ _
  | .doLoop body e _, ps, a, c, _ => by
    have swapped (b : Builder) := ((perm_block body ps a.enter c.deeper.enter b).append_right
      [(e, Role.wanted)]).trans List.perm_append_comm
    simpa [stmtStops, Stmt.inner, Stmt.values, Stop.value] using swapped _
  | .forLoop none e update body _, _, _, _, _ => by
    simp only [stmtStops, Stmt.inner, Stmt.values, List.nil_append, List.map_append,
      List.flatMap_cons, values_optional]
    exact (perm_block body _ _ _ _).append_left _
  | .forLoop (some initial) e update body span, _, _, _, _ => by
    have own : (Stmt.forLoop (some initial) e update body span).values =
      e.toList.map (·, Role.wanted) ++ update.toList.map (·, Role.update) := rfl
    rw [List.flatMap_cons, own]
    simp only [stmtStops, Stmt.inner, List.map_append, List.flatMap_append, values_optional]
    rw [List.append_assoc (List.map _ (stmtStops ..)), List.append_assoc (List.map _ _)]
    refine List.Perm.trans (.append (perm_stmt initial _ _ _ _) ?_)
      (List.perm_append_comm_assoc ..)
    exact (perm_block body _ _ _ _).append_left _
  | .switch e cases none _, _, _, _, _ => by
    simpa [stmtStops, Stmt.inner, Stmt.values, Stop.value] using
      perm_arms _ _ _ cases _ _ _ _ _ _ _ (switched_labels ..)
  | .switch e cases (some fallback) _, _, _, _, _ => by
    simpa [stmtStops, Stmt.inner, Stmt.values, Stop.value] using
      (perm_arms _ _ _ cases _ _ _ _ _ _ _ (switched_labels ..)).append
        (perm_block fallback _ _ _ _)
termination_by structural s => s

theorem perm_block : (body : Block) → (ps : Parameters) → (a : Analysis) → (c : Checker) →
    (b : Builder) → ((blockStops declared body ps a c b).map Stop.value).Perm
      (body.statements.flatMap Stmt.values)
  | ⟨body, _⟩, ps, a, c, b => perm_stmts body ps a c b
termination_by structural body => body

theorem perm_stmts : (body : List Stmt) → (ps : Parameters) → (a : Analysis) → (c : Checker) →
    (b : Builder) → ((stmtsStops declared body ps a c b).map Stop.value).Perm
      ((bodyStatements body).flatMap Stmt.values)
  | [], _, _, _, _ => .refl _
  | s :: others, ps, a, c, b => by
    simpa [stmtsStops, bodyStatements] using
      (perm_stmt s ps a c b).append (perm_stmts others _ _ _ _)
termination_by structural body => body

theorem perm_arms (subject : Operand) (finish : Label) (tested : Parameters) :
    (cases : List Case) → (ty : Ty) → (ps : Parameters) → (a : Analysis) → (c : Checker) →
    (b : Builder) → (labels : List Label) → (d : Builder) → labels.length = cases.length →
    ((armsStops declared subject finish tested cases ty ps a c b labels d).map Stop.value).Perm
      (cases.map (·.value, .wanted) ++ (armsStatements cases).flatMap Stmt.values)
  | [], _, _, _, _, _, _, _, _ => .refl _
  | ⟨value, body, _⟩ :: others, ty, _, _, _, _, _ :: labels, _, same => by
    have rest := perm_arms subject finish tested others ty
    simp only [armsStops, armsStatements, List.map_append, List.map_cons, List.flatMap_append]
    refine .cons (value, .wanted)
      (.trans (.append (perm_block body _ _ _ _) (rest _ _ _ _ labels _ (Nat.succ.inj same))) ?_)
    exact List.perm_append_comm_assoc ..
termination_by structural cases => cases

end

end

end Lowering

namespace Program

theorem stops_perm (p : Program) :
    (p.stops.map Stop.value).Perm (p.statements.flatMap Stmt.values) :=
  Lowering.perm_stmts _ p.body .none .empty .empty .empty

theorem visits_perm (p : Program) :
    (p.visits.map Visit.expr).Perm (p.statements.flatMap Stmt.expressions) := by
  have evaluated := p.stops_perm.map Prod.fst
  simp only [List.map_flatMap, List.map_map, Stmt.fst_values] at evaluated
  rw [← p.visit_stops, List.map_map]
  exact evaluated

/-- An expression that is visited is that of a statement. -/
theorem exists_statement {p : Program} {v : Visit} (visited : v ∈ p.visits) :
    ∃ s ∈ p.statements, v.expr ∈ s.expressions :=
  List.mem_flatMap.mp (p.visits_perm.mem_iff.mp (List.mem_map_of_mem visited))

/-- Without complaints, an expression has a value wherever lowering wants one. -/
theorem typed_stops {p : Program} (typed : typeCheck p = []) : ∀ x ∈ p.stops, x.Typed :=
  Lowering.typed_stmts _ p.body .none .empty .empty .empty typed

theorem typed_visits {p : Program} (typed : typeCheck p = []) {v : Visit}
    (visited : v ∈ p.visits) : (Typing.typeOf v.checked v.expr).errors = [] := by
  rw [← p.visit_stops] at visited
  obtain ⟨x, member, rfl⟩ := List.mem_map.mp visited
  exact (typed_stops typed x member).clean

/-- In a program without complaints, a name that is read stands for something, and not for a
function. -/
theorem found_of_reads {p : Program} (clean : (analyze p).errors = []) (typed : typeCheck p = [])
    {v : Visit} (visited : v ∈ p.visits) {name : Identifier} (read : name ∈ v.expr.reads) :
    ∃ s, v.analyzed.lookup name.name = some s ∧ s.isFunction = false := by
  obtain ⟨same, found⟩ := (walked clean).resolved v visited
  have some := found name.name (mem_uses_of_reads v.expr name read)
  obtain ⟨s, known⟩ := Option.isSome_iff_exists.mp (List.isSome_head?.mpr some)
  have checked : v.checked.lookup name.name = .some s.completed := by
    rw [same, Table.lookup_settled, Table.lookup, known]
    rfl
  have plain := Typing.plain_reads v.checked v.expr
    (typed_visits typed visited) name read _ checked
  refine ⟨s, known, ?_⟩
  rwa [Symbol.isFunction, Symbol.completed_params?] at plain

end Program

end Curly
