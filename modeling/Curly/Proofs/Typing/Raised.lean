import Curly.Proofs.Scope.Occurrences
import Curly.Proofs.Typing.Complaints
import Curly.Proofs.Typing.Kinds

/-! The complaints of the type checker, one behind the other. Each of them is about an expression of
a statement that it comes to, or made by the statement itself, and then it is about anything but a
target that is no name. -/
namespace Curly.Checker

open TypeError Typing

/-- Complaints with a property were added. -/
def Raises (Q : TypeError → Prop) (c d : Checker) : Prop :=
  ∃ more, d.errors = c.errors ++ more ∧ ∀ x ∈ more, Q x

/-- What is true of the complaints about expressions with the property `E`, and of all complaints
that statements make. -/
structure Tells (E : Expr → Prop) (Q : TypeError → Prop) : Prop where
  own : ∀ cause position, cause ≠ .assignedExpression → Q ⟨cause, position⟩
  expression : ∀ t e, E e → ∀ x ∈ (typeOf t e).errors, Q x

namespace Raises

variable {Q : TypeError → Prop} {c d e : Checker}

theorem refl (Q : TypeError → Prop) (c : Checker) : Raises Q c c :=
  ⟨[], (List.append_nil _).symm, List.forall_mem_nil Q⟩

theorem trans (before : Raises Q c d) (behind : Raises Q d e) : Raises Q c e := by
  obtain ⟨first, added, here⟩ := before
  obtain ⟨second, more, there⟩ := behind
  refine ⟨first ++ second, ?_, List.forall_mem_append.mpr ⟨here, there⟩⟩
  rw [more, added, List.append_assoc]

theorem of_same (raises : Raises Q c d) (same : e.errors = d.errors) : Raises Q c e := by
  obtain ⟨more, added, holds⟩ := raises
  exact ⟨more, same.trans added, holds⟩

theorem note (raises : Raises Q c d) {t : Typed} (told : ∀ x ∈ t.errors, Q x) :
    Raises Q c (d.note t) :=
  raises.trans ⟨t.errors, rfl, told⟩

theorem report (raises : Raises Q c d) {cause : Cause} {position : Position}
    (told : Q ⟨cause, position⟩) : Raises Q c (d.report cause position) :=
  raises.trans ⟨[⟨cause, position⟩], rfl, List.forall_mem_singleton.mpr told⟩

theorem reportAny (raises : Raises Q c d) (cause : Option Cause) {position : Position}
    (told : ∀ x ∈ cause, Q ⟨x, position⟩) : Raises Q c (d.reportAny cause position) := by
  cases cause with
  | none => exact raises
  | some cause => exact raises.report (told cause rfl)

end Raises

variable {E : Expr → Prop} {Q : TypeError → Prop}

section

variable (tells : Tells E Q)

include tells

theorem tells_value {e : Expr} (holds : E e) (t : Table) : ∀ x ∈ (valueOf t e).errors, Q x := by
  have told := tells.expression t e holds
  unfold valueOf Typed.asValue
  split
  · exact List.forall_mem_append.mpr
      ⟨told, List.forall_mem_singleton.mpr (tells.own _ _ (by simp))⟩
  · exact told

theorem raises_expr {e : Expr} (holds : E e) (c : Checker) : Raises Q c (expr e c) :=
  (Raises.refl Q c).note (tells.expression c.table e holds)

theorem raises_value {e : Expr} (holds : E e) (c : Checker) : Raises Q c (value e c) :=
  (Raises.refl Q c).note (tells_value tells holds c.table)

theorem raises_values {es : List Expr} (holds : ∀ e ∈ es, E e) (c : Checker) :
    Raises Q c (values es c) := by
  induction es generalizing c with
  | nil => exact .refl Q c
  | cons e others ih =>
    obtain ⟨first, rest⟩ := List.forall_mem_cons.mp holds
    exact (raises_value tells first c).trans (ih rest (value e c))

theorem raises_condition (construct : String) (position : Position) {e : Expr} (holds : E e)
    (c : Checker) : Raises Q c (condition construct position e c) := by
  refine (raises_expr tells holds c).reportAny _ fun cause raised => ?_
  split at raised
  · cases raised
  · cases raised
  · obtain rfl := Option.some.inj raised
    exact tells.own _ position (by simp)
  · obtain rfl := Option.some.inj raised
    exact tells.own _ position (by simp)

theorem raises_heads (position : Position) {e update : Option Expr} (first : ∀ x ∈ e, E x)
    (second : ∀ x ∈ update, E x) (c : Checker) : Raises Q c (heads position e update c) := by
  have tested : Raises Q c (heads position e none c) := by
    cases e with
    | none => exact .refl Q c
    | some e => exact raises_condition tells "for" position (first e rfl) c
  cases update with
  | none => exact tested
  | some update => exact tested.trans (raises_expr tells (second update rfl) _)

theorem raises_variableStatement (ty : Ty) (name : String) {initial : Option Expr}
    (holds : ∀ e ∈ initial, E e) (position : Position) (c : Checker) :
    Raises Q c (variableStatement ty name initial position c) := by
  have begun : Raises Q c
      (if ty = .void then c.report (.voidVariable name) position else c) := by
    split
    · exact (Raises.refl Q c).report (tells.own _ _ (by simp))
    · exact .refl Q c
  cases initial with
  | none => exact begun.of_same rfl
  | some e =>
    refine Raises.of_same (.reportAny (begun.note (tells_value tells (holds e rfl) _)) _
      fun cause raised => ?_) rfl
    obtain ⟨-, same⟩ := Option.ite_none_left_eq_some.mp raised
    obtain rfl := Option.some.inj same
    exact tells.own _ position (by simp)

theorem raises_giveBack {value : Option Expr} (holds : ∀ e ∈ value, E e) (position : Position)
    (c : Checker) : Raises Q c (giveBack value position c) := by
  have judged {d : Checker} (raises : Raises Q c d) (f : Enclosing) (found : Option Ty) :
      Raises Q c (Checker.reportAny { d with function := some (f.noting found.isSome) }
        (returnCause f found) position) := by
    have noted : Raises Q c { d with function := some (f.noting found.isSome) } :=
      raises.of_same rfl
    refine noted.reportAny _ fun cause raised => tells.own cause position ?_
    rintro rfl
    cases kind_returnCause f _ _ raised
  cases value with
  | none =>
    cases known : c.function with
    | none =>
      simp only [giveBack, Option.map_none, known]
      exact (Raises.refl Q c).report (tells.own _ _ (by simp))
    | some f =>
      simp only [giveBack, Option.map_none, known]
      exact judged (.refl Q c) f none
  | some e =>
    have noted := (Raises.refl Q c).note (tells_value tells (holds e rfl) c.table)
    have same : (c.note (valueOf c.table e)).function = c.function := rfl
    cases known : c.function with
    | none =>
      simp only [giveBack, Option.map_some, same, known]
      exact noted.report (tells.own _ _ (by simp))
    | some f =>
      simp only [giveBack, Option.map_some, same, known]
      exact judged noted f _

theorem raises_leave (position : Position) (c : Checker) : Raises Q c (leave position c) := by
  unfold leave
  split
  · exact (Raises.refl Q c).report (tells.own _ _ (by simp))
  · exact .refl Q c

theorem raises_subject {e : Expr} (holds : E e) (c : Checker) : Raises Q c (subject e c).2 := by
  refine (raises_value tells holds c).reportAny _ fun cause raised => ?_
  obtain ⟨-, same⟩ := Option.ite_none_left_eq_some.mp raised
  obtain rfl := Option.some.inj same
  exact tells.own _ _ (by simp)

theorem raises_caseValue (ty : Ty) {e : Expr} (holds : E e) (c : Checker) :
    Raises Q c (caseValue ty e c) := by
  refine (raises_value tells holds c).reportAny _ fun cause raised => ?_
  obtain ⟨-, same⟩ := Option.ite_none_left_eq_some.mp raised
  obtain rfl := Option.some.inj same
  exact tells.own _ _ (by simp)

theorem raises_missingReturn (position : Position) (inside c : Checker) :
    Raises Q c { c with errors := c.errors ++ (missingReturn position inside).toList } := by
  refine ⟨_, rfl, fun x member => ?_⟩
  have raised := Option.mem_toList.mp member
  unfold missingReturn at raised
  split at raised
  · cases raised
  · obtain ⟨-, same⟩ := Option.ite_none_left_eq_some.mp raised
    obtain rfl := Option.some.inj same
    exact tells.own _ _ (by simp)

omit tells in
theorem raises_declared (f : Enclosing) (name : String) (ty : Ty) (ps : List Param)
    (position : Position) (c : Checker) : Raises Q c
      (begin f (params ps (declareFunction name ty (signature ps) position c).enter)) := by
  refine (Raises.refl Q c).of_same ?_
  rw [begin, errors_params, enter, errors_declareFunction]

end

mutual

/-- Behind a statement there are the complaints from before and others with the property. -/
theorem raises_stmt (tells : Tells E Q) : (s : Stmt) →
    (∀ x ∈ s :: s.inner, ∀ e ∈ x.expressions, E e) → (c : Checker) →
    Raises Q c (stmt s c)
  | .variable ty name initial span, holds, c =>
    raises_variableStatement tells ty name
      (fun e member => holds _ (.head _) e (Option.mem_toList.mpr member)) span.start c
  | .prototype .., _, c => (Raises.refl Q c).of_same (errors_declareFunction ..)
  | .function ty name ps body span, holds, c => by
    have begun : Raises Q c _ := raises_declared ⟨name, ty, false, false⟩ name ty ps span.start c
    have inside := begun.trans (raises_within tells body (List.forall_mem_cons.mp holds).2 _)
    exact ((inside.of_same rfl).trans
      (raises_missingReturn tells span.start _ (resume _ _))).of_same rfl
  | .main body span, holds, c => by
    have begun : Raises Q c _ := raises_declared ⟨"main", .int, true, false⟩ "main" .int []
      span.start c
    exact (begun.trans (raises_within tells body (List.forall_mem_cons.mp holds).2 _)).of_same rfl
  | .enumeration .., _, c => (Raises.refl Q c).of_same (errors_enumeration ..)
  | .block body, holds, c => raises_block tells body (List.forall_mem_cons.mp holds).2 c
  | .branch e yes none span, holds, c => by
    obtain ⟨own, inside⟩ := List.forall_mem_cons.mp holds
    have tested := raises_condition tells "if" span.start (own e (.head _)) c
    exact tested.trans (raises_block tells yes (List.forall_mem_append.mp inside).1 _)
  | .branch e yes (some no) span, holds, c => by
    obtain ⟨own, inside⟩ := List.forall_mem_cons.mp holds
    obtain ⟨first, second⟩ := List.forall_mem_append.mp inside
    have tested := raises_condition tells "if" span.start (own e (.head _)) c
    exact (tested.trans (raises_block tells yes first _)).trans (raises_block tells no second _)
  | .whileLoop e body span, holds, c => by
    obtain ⟨own, inside⟩ := List.forall_mem_cons.mp holds
    have tested := raises_condition tells "while" span.start (own e (.head _)) c
    exact tested.trans (raises_deeper tells body inside _)
  | .doLoop body e span, holds, c => by
    obtain ⟨own, inside⟩ := List.forall_mem_cons.mp holds
    exact (raises_deeper tells body inside c).trans
      (raises_condition tells "do-while" span.start (own e (.head _)) _)
  | .forLoop none e update body span, holds, c => by
    obtain ⟨own, inside⟩ := List.forall_mem_cons.mp holds
    obtain ⟨first, second⟩ := List.forall_mem_append.mp own
    have headed : Raises Q c (heads span.start e update c.enter) :=
      ((Raises.refl Q c).of_same rfl).trans (raises_heads tells span.start
        (fun x member => first x (Option.mem_toList.mpr member))
        (fun x member => second x (Option.mem_toList.mpr member)) c.enter)
    exact (headed.trans (raises_deeper tells body inside _)).of_same rfl
  | .forLoop (some initial) e update body span, holds, c => by
    obtain ⟨own, inside⟩ := List.forall_mem_cons.mp holds
    obtain ⟨first, second⟩ := List.forall_mem_append.mp own
    obtain ⟨start, inside⟩ := List.forall_mem_append.mp inside
    have begun : Raises Q c (stmt initial c.enter) :=
      ((Raises.refl Q c).of_same rfl).trans (raises_stmt tells initial start c.enter)
    have headed := begun.trans (raises_heads tells span.start
      (fun x member => first x (Option.mem_toList.mpr member))
      (fun x member => second x (Option.mem_toList.mpr member)) (stmt initial c.enter))
    exact (headed.trans (raises_deeper tells body inside _)).of_same rfl
  | .switch e cases none _, holds, c => by
    obtain ⟨own, inside⟩ := List.forall_mem_cons.mp holds
    obtain ⟨here, values⟩ := List.forall_mem_cons.mp own
    have begun : Raises Q c (subject e c).2.deeper := (raises_subject tells here c).of_same rfl
    exact (begun.trans (raises_arms tells cases (List.forall_mem_map.mp values)
      (List.forall_mem_append.mp inside).1 _ _)).of_same rfl
  | .switch e cases (some fallback) _, holds, c => by
    obtain ⟨own, inside⟩ := List.forall_mem_cons.mp holds
    obtain ⟨here, values⟩ := List.forall_mem_cons.mp own
    obtain ⟨first, second⟩ := List.forall_mem_append.mp inside
    have begun : Raises Q c (subject e c).2.deeper := (raises_subject tells here c).of_same rfl
    have passed := begun.trans
      (raises_arms tells cases (List.forall_mem_map.mp values) first (subject e c).1 _)
    exact (passed.trans (raises_block tells fallback second _)).of_same rfl
  | .giveBack value span, holds, c =>
    raises_giveBack tells
      (fun e member => holds _ (.head _) e (Option.mem_toList.mpr member)) span.start c
  | .leave span, _, c => raises_leave tells span.start c
  | .print args _, holds, c => raises_values tells (holds _ (.head _)) c
  | .evaluate e _, holds, c => raises_expr tells (holds _ (.head _) e (.head _)) c
  | .inclusion .., _, c => .refl Q c
termination_by structural s => s

theorem raises_block (tells : Tells E Q) : (body : Block) →
    (∀ x ∈ body.statements, ∀ e ∈ x.expressions, E e) → (c : Checker) →
    Raises Q c (block body c)
  | ⟨body, _⟩, holds, c => by
    have into : Raises Q c c.enter := (Raises.refl Q c).of_same rfl
    exact (into.trans (raises_stmts tells body holds _)).of_same rfl
termination_by structural body => body

theorem raises_deeper (tells : Tells E Q) : (body : Block) →
    (∀ x ∈ body.statements, ∀ e ∈ x.expressions, E e) → (c : Checker) →
    Raises Q c (block body c.deeper).shallower
  | ⟨body, _⟩, holds, c => by
    have into : Raises Q c c.deeper.enter := (Raises.refl Q c).of_same rfl
    exact (into.trans (raises_stmts tells body holds _)).of_same rfl
termination_by structural body => body

theorem raises_within (tells : Tells E Q) : (body : Block) →
    (∀ x ∈ body.statements, ∀ e ∈ x.expressions, E e) → (c : Checker) →
    Raises Q c (within body c)
  | ⟨body, _⟩, holds, c => raises_stmts tells body holds c
termination_by structural body => body

theorem raises_stmts (tells : Tells E Q) : (body : List Stmt) →
    (∀ x ∈ bodyStatements body, ∀ e ∈ x.expressions, E e) → (c : Checker) →
    Raises Q c (stmts body c)
  | [], _, c => .refl Q c
  | s :: others, holds, c => by
    obtain ⟨first, rest⟩ := List.forall_mem_append.mp holds
    exact (raises_stmt tells s first c).trans (raises_stmts tells others rest _)
termination_by structural body => body

theorem raises_arms (tells : Tells E Q) : (cases : List Case) → (∀ arm ∈ cases, E arm.value) →
    (∀ x ∈ armsStatements cases, ∀ e ∈ x.expressions, E e) → (ty : Ty) → (c : Checker) →
    Raises Q c (arms ty cases c)
  | [], _, _, _, c => .refl Q c
  | ⟨value, body, _⟩ :: others, values, holds, ty, c => by
    obtain ⟨here, values⟩ := List.forall_mem_cons.mp values
    obtain ⟨first, rest⟩ := List.forall_mem_append.mp holds
    have told := raises_caseValue tells ty here c
    exact (told.trans (raises_block tells body first _)).trans
      (raises_arms tells others values rest ty _)
termination_by structural cases => cases

end

end Curly.Checker
