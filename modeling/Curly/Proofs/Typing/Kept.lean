import Curly.Proofs.Scope.Visits
import Curly.Proofs.Typing.Context
import Curly.Proofs.Typing.WellTyped

/-! What the type checker keeps of its table. A property of tables that scopes and declarations
leave alone, as the checker makes them, holds wherever the checker looks at an expression. -/
namespace Curly

/-- A property of tables that is kept as scopes are entered and left and names are declared, where a
function is declared only with parameters that none of its name has in the frame. -/
structure Table.Invariant (P : Table → Prop) : Prop where
  enter : ∀ {t : Table}, P t → P t.enter
  exit : ∀ {t : Table}, P t → P t.exit
  plain : ∀ {t : Table} {s : Symbol}, s.params? = none → P t → P (t.declare s)
  overload : ∀ {t : Table} {name : String} {params : List Ty} (ty : Ty) (position : Position),
    t.lookupOverload name params = none → P t →
      P (t.declare (.ofFunction name ty params false position))

/-- The property holds of a table and at the visits that lead to it. -/
structure Kept (P : Table → Prop) (visits : List Visit) (t : Table) : Prop where
  ends : P t
  visited : ∀ v ∈ visits, P v.checked

namespace Kept

variable {P : Table → Prop} {visits others : List Visit} {t u : Table}

theorem none (holds : P t) : Kept P [] t :=
  ⟨holds, fun _ => nofun⟩

theorem visit (e : Expr) (analyzed : Table) (holds : P t) : Kept P [⟨e, analyzed, t⟩] t :=
  ⟨holds, List.forall_mem_singleton.mpr holds⟩

theorem append (first : Kept P visits t) (second : Kept P others u) :
    Kept P (visits ++ others) u :=
  ⟨second.ends, List.forall_mem_append.mpr ⟨first.visited, second.visited⟩⟩

theorem of_table (kept : Kept P visits t) (holds : P u) : Kept P visits u :=
  ⟨holds, kept.visited⟩

end Kept

namespace Table.Invariant

open Checker

variable {P : Table → Prop} {c : Checker}

section

variable (invariant : Invariant P)
include invariant

theorem declareFunction (name : String) (ty : Ty) (params : List Ty) (position : Position)
    (holds : P c.table) : P (Checker.declareFunction name ty params position c).table := by
  unfold Checker.declareFunction
  split
  · exact holds
  next absent =>
    exact invariant.overload ty position (Option.not_isSome_iff_eq_none.mp absent) holds

theorem params (ps : List Param) (holds : P c.table) : P (Checker.params ps c).table := by
  induction ps generalizing c with
  | nil => exact holds
  | cons p others ih => exact ih (c := c.declare p.symbol) (invariant.plain rfl holds)

theorem enumValues (values : List Identifier) (holds : P c.table) :
    P (Checker.enumValues values c).table := by
  induction values generalizing c with
  | nil => exact holds
  | cons value others ih =>
    refine ih ?_
    split
    · exact holds
    · exact invariant.plain rfl holds

theorem enumeration (name : String) (values : List Identifier) (position : Position)
    (holds : P c.table) : P (Checker.enumeration name values position c).table := by
  unfold Checker.enumeration
  split
  · exact holds
  · exact invariant.enumValues values (c := c.declare _) (invariant.plain rfl holds)

end

section

variable (declared : String → Bool)

theorem optional (e : Option Expr) (a : Analysis) (holds : P c.table) :
    Kept P (Visit.ofOptional e a c) c.table := by
  cases e with
  | none => exact .none holds
  | some e => exact .visit e a.table holds

theorem values (es : List Expr) (a : Analysis) (holds : P c.table) :
    Kept P (Visit.ofAll declared es a c) (Checker.values es c).table := by
  induction es generalizing a c with
  | nil => exact .none holds
  | cons e others ih => exact (Kept.visit e a.table holds).append (ih (c := value e c) _ holds)

/-- The test and the change of a loop. -/
theorem heads (position : Position) (e update : Option Expr) (a b : Analysis)
    (holds : P c.table) :
    Kept P (Visit.ofOptional e a c ++ Visit.ofOptional update b (Checker.heads position e none c))
      (Checker.heads position e update c).table := by
  have tested : (Checker.heads position e none c).table = c.table := by
    cases e <;> simp [Checker.heads]
  have behind : P (Checker.heads position e none c).table := tested.symm ▸ holds
  refine (optional e a holds).append ((optional update b behind).of_table ?_)
  cases update <;> exact behind

mutual

theorem stmt (invariant : Invariant P) : (s : Stmt) → (a : Analysis) → (c : Checker) →
    P c.table → Kept P (s.visits declared a c) (Checker.stmt s c).table
  | .variable ty name initial span, a, c, holds => by
    refine (optional initial a holds).of_table ?_
    rw [Checker.stmt, table_variableStatement]
    exact invariant.plain rfl holds
  | .prototype .., _, c, holds => .none (invariant.declareFunction _ _ _ _ holds)
  | .function ty name ps body span, a, c, holds => by
    -- The analyzer's part of a visit is carried along; the property is about the checker's table.
    have named := invariant.declareFunction name ty (signature ps) span.start holds
    have given := invariant.params ps (c := (Checker.declareFunction name ty (signature ps)
      span.start c).enter) (invariant.enter named)
    have inside := invariant.within body (Analysis.params [] ps
      (a.obey name span.start (.onFunction a.table ty name (signature ps) span.start)).enter)
      (begin ⟨name, ty, false, false⟩ _) given
    exact inside.of_table (invariant.exit inside.ends)
  | .main body span, a, c, holds => by
    have named := invariant.declareFunction "main" .int [] span.start holds
    have inside := invariant.within body
      (a.obey "main" span.start (.onMain a.table span.start)).enter
      (begin ⟨"main", .int, true, false⟩ (Checker.enter _)) (invariant.enter named)
    exact inside.of_table (invariant.exit inside.ends)
  | .enumeration .., _, c, holds => .none (invariant.enumeration _ _ _ holds)
  | .block body, a, c, holds => invariant.block body a c holds
  | .branch e yes none span, a, c, holds => by
    have chosen := invariant.block yes (Analysis.expr declared e a) (condition "if" span.start e c)
      ((table_condition ..).symm ▸ holds)
    rw [Stmt.visits, List.append_nil]
    exact (Kept.visit e a.table holds).append chosen
  | .branch e yes (some no) span, a, c, holds => by
    have chosen := invariant.block yes (Analysis.expr declared e a) (condition "if" span.start e c)
      ((table_condition ..).symm ▸ holds)
    exact ((Kept.visit e a.table holds).append chosen).append (invariant.block no _ _ chosen.ends)
  | .whileLoop e body span, a, c, holds => by
    have turned := invariant.block body (Analysis.expr declared e a)
      (condition "while" span.start e c).deeper ((table_condition ..).symm ▸ holds)
    exact (Kept.visit e a.table holds).append turned
  | .doLoop body e span, a, c, holds => by
    have turned := invariant.block body a c.deeper holds
    have tested := Kept.visit e (Analysis.block declared body a).table turned.ends
    have ends : (Checker.stmt (.doLoop body e span) c).table =
        (Checker.block body c.deeper).table := table_condition ..
    exact (turned.append tested).of_table (ends.symm ▸ turned.ends)
  | .forLoop none e update body span, a, c, holds => by
    have headed := heads span.start e update a.enter (Analysis.optional declared e a.enter)
      (c := c.enter) (invariant.enter holds)
    have turned := invariant.block body
      (Analysis.optional declared update (Analysis.optional declared e a.enter))
      (Checker.heads span.start e update c.enter).deeper headed.ends
    exact (headed.append turned).of_table (invariant.exit turned.ends)
  | .forLoop (some initial) e update body span, a, c, holds => by
    have first := invariant.stmt initial a.enter c.enter (invariant.enter holds)
    let begun := Analysis.stmt declared initial a.enter
    have headed := heads span.start e update begun (Analysis.optional declared e begun) first.ends
    have turned := invariant.block body
      (Analysis.optional declared update (Analysis.optional declared e begun))
      (Checker.heads span.start e update (Checker.stmt initial c.enter)).deeper headed.ends
    have whole := (first.append headed).append turned
    rw [← List.append_assoc] at whole
    exact whole.of_table (invariant.exit turned.ends)
  | .switch e cases none _, a, c, holds => by
    have chosen := invariant.arms cases (subject e c).1 (Analysis.expr declared e a)
      (subject e c).2.deeper ((table_subject e c).symm ▸ holds)
    have whole := (Kept.visit e a.table holds).append chosen
    rw [← List.append_nil (_ ++ _)] at whole
    exact whole
  | .switch e cases (some fallback) _, a, c, holds => by
    have chosen := invariant.arms cases (subject e c).1 (Analysis.expr declared e a)
      (subject e c).2.deeper ((table_subject e c).symm ▸ holds)
    exact ((Kept.visit e a.table holds).append chosen).append
      (invariant.block fallback _ _ chosen.ends)
  | .giveBack value span, a, c, holds =>
    (optional value a holds).of_table ((table_giveBack ..).symm ▸ holds)
  | .leave span, a, c, holds => .none ((table_leave ..).symm ▸ holds)
  | .print args _, a, _, holds => values declared args a holds
  | .evaluate e _, a, _, holds => .visit e a.table holds
  | .inclusion .., _, _, holds => .none holds
termination_by structural s => s

theorem block (invariant : Invariant P) : (body : Block) → (a : Analysis) → (c : Checker) →
    P c.table → Kept P (body.visits declared a.enter c.enter) (Checker.block body c).table
  | ⟨body, _⟩, a, c, holds => by
    have inside := invariant.stmts body a.enter c.enter (invariant.enter holds)
    exact inside.of_table (invariant.exit inside.ends)
termination_by structural body => body

theorem within (invariant : Invariant P) : (body : Block) → (a : Analysis) → (c : Checker) →
    P c.table → Kept P (body.visits declared a c) (Checker.within body c).table
  | ⟨body, _⟩, a, c, holds => invariant.stmts body a c holds
termination_by structural body => body

theorem stmts (invariant : Invariant P) : (body : List Stmt) → (a : Analysis) → (c : Checker) →
    P c.table → Kept P (bodyVisits declared body a c) (Checker.stmts body c).table
  | [], _, _, holds => .none holds
  | s :: others, a, c, holds => by
    have first := invariant.stmt s a c holds
    exact first.append (invariant.stmts others _ _ first.ends)
termination_by structural body => body

theorem arms (invariant : Invariant P) : (cases : List Case) → (ty : Ty) → (a : Analysis) →
    (c : Checker) → P c.table →
    Kept P (armsVisits declared cases ty a c) (Checker.arms ty cases c).table
  | [], _, _, _, holds => .none holds
  | ⟨value, body, _⟩ :: others, ty, a, c, holds => by
    have first := invariant.block body (Analysis.expr declared value a) (caseValue ty value c)
      ((table_caseValue ty value c).symm ▸ holds)
    exact ((Kept.visit value a.table holds).append first).append
      (invariant.arms others ty _ _ first.ends)
termination_by structural cases => cases

end

end

/-- It holds wherever the type checker looks at an expression. -/
theorem visited (invariant : Invariant P) (start : P .empty) {p : Program} {v : Visit}
    (visited : v ∈ p.visits) : P v.checked :=
  (invariant.stmts (isDeclared (declarations p.body)) p.body .empty .empty start).visited v visited

end Table.Invariant
end Curly
