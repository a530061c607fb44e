import Curly.Proofs.Lowering.Growth
import Curly.Proofs.Scope.Effects
import Curly.Proofs.Typing.Raised

/-! Programs one behind the other. The passes go through a program from the front, so all they have
made of its beginning stays when more is put behind it. Only the analyzer looks ahead: it knows
every declared name before it starts, and that decides between its complaints about names that
cannot be found. -/
namespace Curly

/-- Two programs as one text. -/
instance : Append Program :=
  ⟨fun p q => ⟨p.body ++ q.body, ⟨p.span.start, q.span.stop⟩⟩⟩

@[simp] theorem Program.body_append (p q : Program) : (p ++ q).body = p.body ++ q.body := rfl

theorem declarations_append (first second : List Stmt) :
    declarations (first ++ second) = declarations first ++ declarations second := by
  induction first with
  | nil => rfl
  | cons s others ih => simp [declarations, ih]

theorem bodySteps_append (first second : List Stmt) :
    bodySteps (first ++ second) = bodySteps first ++ bodySteps second := by
  induction first with
  | nil => rfl
  | cons s others ih => simp [bodySteps, ih]

theorem Checker.stmts_append (first second : List Stmt) (c : Checker) :
    stmts (first ++ second) c = stmts second (stmts first c) := by
  induction first generalizing c with
  | nil => rfl
  | cons s others ih => exact ih _

theorem Lowering.stmts_append (first second : List Stmt) (b : Builder) :
    stmts (first ++ second) b = stmts second (stmts first b) := by
  induction first generalizing b with
  | nil => rfl
  | cons s others ih => exact ih _

/-- The complaint says that the name is declared nowhere at all. -/
def ScopeError.Kind.isMissing : ScopeError.Kind → Bool
  | .undeclaredVariable | .undefinedFunction => true
  | _ => false

section

-- Whether a name is declared in what comes behind.
variable (later : String → Bool)

/-- What becomes of a complaint when a name turns out to be declared after all. -/
def ScopeError.foreseen (e : ScopeError) : ScopeError :=
  if e.kind.isMissing ∧ later e.name then { e with kind := .forwardReference } else e

namespace ScopeError

theorem foreseen_of_not_missing {e : ScopeError} (found : e.kind.isMissing = false) :
    e.foreseen later = e :=
  if_neg fun missing => Bool.false_ne_true (found.symm.trans missing.1)

end ScopeError

namespace Analysis

def foresee (a : Analysis) : Analysis :=
  { a with errors := a.errors.map (ScopeError.foreseen later) }

theorem foresee_report {kind other : ScopeError.Kind} {name : String} {position : Position}
    (same : ScopeError.foreseen later ⟨kind, name, position⟩ = ⟨other, name, position⟩)
    (a : Analysis) :
    (a.report kind name position).foresee later =
      (a.foresee later).report other name position := by
  simp [foresee, report, same]

end Analysis

/-- A declaration is never turned down for a name that is missing. -/
theorem Declarator.isMissing_of_reject {t : Table} {kind : ScopeError.Kind} (d : Declarator)
    (rejects : d.ruling t = .reject kind) : kind.isMissing = false := by
  cases d <;>
    simp only [ruling, Ruling.onVariable, Ruling.onPrototype, Ruling.onFunction, Ruling.onMain,
      Ruling.onParam, Ruling.onEnumeration, Ruling.onEnumValue] at rejects <;>
    grind [ScopeError.Kind.isMissing]

namespace Analysis

theorem foresee_declare (d : Declarator) (a : Analysis) :
    (a.declare d).foresee later = (a.foresee later).declare d := by
  have same : (a.foresee later).table = a.table := rfl
  unfold declare
  rw [same]
  cases known : d.ruling a.table with
  | add s => rfl
  | complete params => rfl
  | ignore => rfl
  | reject kind =>
    have found := d.isMissing_of_reject known
    exact foresee_report later (ScopeError.foreseen_of_not_missing later found) a

theorem foresee_foldl_declare (ds : List Declarator) (a : Analysis) :
    (ds.foldl declare a).foresee later = ds.foldl declare (a.foresee later) := by
  induction ds generalizing a with
  | nil => rfl
  | cons d others ih => rw [List.foldl_cons, ih, foresee_declare, List.foldl_cons]

variable (declared : String → Bool)

/-- A name that is declared later is found to be used too early. -/
theorem foresee_resolve (isCall : Bool) (name : Identifier) (a : Analysis) :
    (resolve declared isCall name a).foresee later =
      resolve (fun x => declared x || later x) isCall name (a.foresee later) := by
  unfold resolve
  by_cases found : (a.table.lookup name.name).isSome
  · exact (congrArg (foresee later) (if_pos found)).trans (if_pos found).symm
  · refine (congrArg (foresee later) (if_neg found)).trans (.trans ?_ (if_neg found).symm)
    refine foresee_report later ?_ a
    cases here : declared name.name <;> cases there : later name.name <;> cases isCall <;>
      simp [ScopeError.foreseen, ScopeError.Kind.isMissing, here, there]

theorem foresee_step (a : Analysis) (s : Step) :
    (step declared a s).foresee later =
      step (fun x => declared x || later x) (a.foresee later) s := by
  cases declares : s.declares with
  | true =>
    rw [step_eq_declare _ _ _ declares, step_eq_declare _ _ _ declares, foresee_foldl_declare]
    rfl
  | false =>
    match s with
    | .opens => rfl
    | .closes => rfl
    | .uses o => exact foresee_resolve later declared o.isCall o.name a

theorem foresee_run (steps : List Step) (a : Analysis) :
    (run declared steps a).foresee later =
      run (fun x => declared x || later x) steps (a.foresee later) := by
  induction steps generalizing a with
  | nil => rfl
  | cons s others ih => rw [run_cons, ih, foresee_step, run_cons]

end Analysis

end

namespace Analysis

theorem errors_before_report (kind : ScopeError.Kind) (name : String) (position : Position)
    (a : Analysis) : a.errors <+: (a.report kind name position).errors :=
  List.prefix_append _ _

theorem errors_before_declare (d : Declarator) (a : Analysis) :
    a.errors <+: (a.declare d).errors := by
  unfold declare
  cases d.ruling a.table with
  | add s => exact List.prefix_rfl
  | complete params => exact List.prefix_rfl
  | ignore => exact List.prefix_rfl
  | reject kind => exact errors_before_report _ _ _ a

theorem errors_before_foldl_declare (ds : List Declarator) (a : Analysis) :
    a.errors <+: (ds.foldl declare a).errors := by
  induction ds generalizing a with
  | nil => exact List.prefix_rfl
  | cons d others ih => exact (errors_before_declare d a).trans (ih _)

variable (declared : String → Bool)

theorem errors_before_step (a : Analysis) (s : Step) :
    a.errors <+: (step declared a s).errors := by
  cases declares : s.declares with
  | true =>
    rw [step_eq_declare _ _ _ declares]
    exact errors_before_foldl_declare _ a
  | false =>
    match s with
    | .opens | .closes => exact List.prefix_rfl
    | .uses o =>
      simp only [step, resolve]
      split
      · exact List.prefix_rfl
      · exact errors_before_report _ _ _ a

theorem errors_before_run (steps : List Step) (a : Analysis) :
    a.errors <+: (run declared steps a).errors := by
  induction steps generalizing a with
  | nil => exact List.prefix_rfl
  | cons s others ih => exact (errors_before_step declared a s).trans (ih _)

end Analysis

theorem Checker.errors_before_stmts (body : List Stmt) (c : Checker) :
    c.errors <+: (stmts body c).errors := by
  obtain ⟨more, added, -⟩ := raises_stmts (E := fun _ => True) (Q := fun _ => True)
    ⟨fun _ _ _ => trivial, fun _ _ _ _ _ => trivial⟩ body (fun _ _ _ _ => trivial) c
  exact ⟨more, added.symm⟩

namespace Program

theorem isDeclared_either (p q : Program) :
    isDeclared (declarations (p ++ q).body) =
      fun name => isDeclared (declarations p.body) name || decide (q.Declares name) := by
  funext name
  rw [body_append, declarations_append, Curly.isDeclared_append]
  exact congrArg (_ || ·) (Bool.eq_iff_iff.mpr (by simp [isDeclared_iff]))

/-- The analysis of two programs goes on from the analysis of the first. -/
theorem analyze_append (p q : Program) :
    analyze (p ++ q) = Analysis.run (isDeclared (declarations (p ++ q).body)) q.steps
      ((analyze p).foresee (q.Declares ·)) := by
  have steps : (p ++ q).steps = p.steps ++ q.steps := bodySteps_append p.body q.body
  rw [analyze_eq_run, analyze_eq_run, steps, Analysis.run_append, Analysis.foresee_run,
    isDeclared_either]
  rfl

/-- Nothing that the passes have made of a program changes when another one is put behind it, but a
name that the second one declares is used too early by the first instead of being unknown. -/
theorem passes_append (p q : Program) :
    typeCheck p <+: typeCheck (p ++ q) ∧
      Lowering.program p <+: Lowering.program (p ++ q) ∧
      (analyze p).errors.map (ScopeError.foreseen (q.Declares ·)) <+:
        (analyze (p ++ q)).errors := by
  refine ⟨?_, ?_, ?_⟩
  · unfold typeCheck
    rw [body_append, Checker.stmts_append]
    exact Checker.errors_before_stmts q.body _
  · unfold Lowering.program
    rw [body_append, Lowering.stmts_append]
    exact (Lowering.follows_stmts q.body _).code
  · rw [analyze_append]
    exact Analysis.errors_before_run _ q.steps ((analyze p).foresee _)

end Program
end Curly
