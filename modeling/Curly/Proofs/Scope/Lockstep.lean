import Curly.Proofs.Scope.Clean
import Curly.Proofs.Scope.Settled
import Curly.Typing.Checker

/-! The analyzer and the type checker walk over a program with a table of scopes each. Where the
analyzer has no complaint, the tables are the same at every moment, except that the checker takes
prototypes for definitions. -/
namespace Curly

namespace Checker

@[simp] theorem table_report (c : Checker) (cause : TypeError.Cause) (position : Position) :
    (c.report cause position).table = c.table := rfl

@[simp] theorem table_reportAny (c : Checker) (cause : Option TypeError.Cause)
    (position : Position) : (c.reportAny cause position).table = c.table := by
  cases cause <;> rfl

@[simp] theorem table_note (c : Checker) (t : Typed) : (c.note t).table = c.table := rfl

@[simp] theorem table_expr (e : Expr) (c : Checker) : (expr e c).table = c.table := rfl

@[simp] theorem table_value (e : Expr) (c : Checker) : (value e c).table = c.table := rfl

theorem table_values (es : List Expr) (c : Checker) : (values es c).table = c.table := by
  induction es generalizing c with
  | nil => rfl
  | cons e others ih => exact ih (value e c)

@[simp] theorem table_condition (construct : String) (position : Position) (e : Expr)
    (c : Checker) : (condition construct position e c).table = c.table := by
  simp [condition]

@[simp] theorem table_giveBack (e : Option Expr) (position : Position) (c : Checker) :
    (giveBack e position c).table = c.table := by
  unfold giveBack
  cases e <;> cases c.function <;> simp <;> split <;> simp

@[simp] theorem table_leave (position : Position) (c : Checker) :
    (leave position c).table = c.table := by
  unfold leave
  split <;> rfl

@[simp] theorem table_subject (e : Expr) (c : Checker) : (subject e c).2.table = c.table := by
  simp [subject]

@[simp] theorem table_caseValue (ty : Ty) (e : Expr) (c : Checker) :
    (caseValue ty e c).table = c.table := by
  simp [caseValue]

@[simp] theorem table_variableStatement (ty : Ty) (name : String) (initial : Option Expr)
    (position : Position) (c : Checker) :
    (variableStatement ty name initial position c).table =
      c.table.declare (.ofVariable name ty position) := by
  unfold variableStatement
  split <;> cases initial <;> simp [declare]

end Checker

/-- The checker has the table of the analyzer, with prototypes taken for definitions. -/
def Alongside (a : Analysis) (c : Checker) : Prop :=
  c.table = a.table.settled

namespace Alongside

variable {a : Analysis} {c : Checker}

theorem enter (same : Alongside a c) : Alongside a.enter c.enter := by
  rw [Alongside] at same ⊢
  simp only [Analysis.enter, Checker.enter, same, Table.settled_enter]

theorem exit (same : Alongside a c) : Alongside a.exit c.exit := by
  rw [Alongside] at same ⊢
  simp only [Analysis.exit, Checker.exit, same, Table.settled_exit]

theorem add {s : Symbol} (same : Alongside a c) :
    Alongside { a with table := a.table.declare s } (c.declare s.completed) := by
  rw [Alongside] at same ⊢
  simp only [Checker.declare, same, Table.settled_declare]

theorem onVariable {ty : Ty} {name : String} {position : Position} (same : Alongside a c)
    (clean : (a.obey name position (.onVariable a.table ty name position)).errors = []) :
    Alongside (a.obey name position (.onVariable a.table ty name position))
      (c.declare (.ofVariable name ty position)) := by
  have accepted := (Analysis.clean_obey clean).2
  unfold Ruling.onVariable at accepted ⊢
  split at accepted
  · simp [Ruling.isReject] at accepted
  · split at accepted
    case isTrue around =>
      rw [if_pos around]
      exact same.add
    case isFalse => simp [Ruling.isReject] at accepted
  · exact same.add

theorem lookupOverload (same : Alongside a c) (name : String) (params : List Ty) :
    (c.table.lookupOverload name params).isSome = (a.table.lookupOverload name params).isSome := by
  rw [show c.table = a.table.settled from same, Table.lookupOverload_settled, Option.isSome_map]

theorem onPrototype {ty : Ty} {name : String} {params : List Ty} {position : Position}
    (same : Alongside a c)
    (clean : (a.obey name position (.onPrototype a.table ty name params position)).errors = []) :
    Alongside (a.obey name position (.onPrototype a.table ty name params position))
      (Checker.declareFunction name ty params position c) := by
  have accepted := (Analysis.clean_obey clean).2
  unfold Checker.declareFunction
  rw [same.lookupOverload]
  unfold Ruling.onPrototype at accepted ⊢
  split at accepted
  · simp [Ruling.isReject] at accepted
  · rename_i plain
    rw [if_neg plain]
    cases found : a.table.lookupOverload name params with
    | none => exact same.add
    | some here =>
      simp only [found] at accepted
      split at accepted
      · simp [Ruling.isReject] at accepted
      · rename_i agrees
        split at accepted
        · simp [Ruling.isReject] at accepted
        · rename_i defined
          simp only [if_neg agrees, if_neg defined, Option.isSome_some, if_true]
          exact same

theorem onFunction {ty : Ty} {name : String} {params : List Ty} {position : Position}
    (same : Alongside a c)
    (clean : (a.obey name position (.onFunction a.table ty name params position)).errors = []) :
    Alongside (a.obey name position (.onFunction a.table ty name params position))
      (Checker.declareFunction name ty params position c) := by
  have accepted := (Analysis.clean_obey clean).2
  unfold Checker.declareFunction
  rw [same.lookupOverload]
  unfold Ruling.onFunction at accepted ⊢
  split at accepted
  · simp [Ruling.isReject] at accepted
  · rename_i plain
    rw [if_neg plain]
    cases found : a.table.lookupOverload name params with
    | none => exact same.add
    | some here =>
      simp only [found] at accepted
      split at accepted
      · rename_i prototype
        simp only [prototype, and_self, if_true, Option.isSome_some]
        exact same.trans (a.table.settled_completeOverload name params).symm
      · simp [Ruling.isReject] at accepted

theorem onMain {position : Position} (same : Alongside a c)
    (clean : (a.obey "main" position (.onMain a.table position)).errors = []) :
    Alongside (a.obey "main" position (.onMain a.table position))
      (Checker.declareFunction "main" .int [] position c) := by
  have accepted := (Analysis.clean_obey clean).2
  unfold Checker.declareFunction
  rw [same.lookupOverload]
  unfold Ruling.onMain at accepted ⊢
  split at accepted
  · simp [Ruling.isReject] at accepted
  · rename_i absent
    have nothing : a.table.lookupLocalAll "main" = [] := by
      simpa [Table.lookupLocal] using absent
    rw [if_neg absent]
    simp only [Table.lookupOverload, nothing, List.find?_nil, Option.isSome_none,
      Bool.false_eq_true, if_false]
    exact same.add

theorem params {earlier : List String} {ps : List Param} (same : Alongside a c)
    (clean : (Analysis.params earlier ps a).errors = []) :
    Alongside (Analysis.params earlier ps a) (Checker.params ps c) := by
  induction ps generalizing earlier a c with
  | nil => exact same
  | cons p others ih =>
    refine ih ?_ clean
    have accepted := (Analysis.clean_obey (Analysis.clean_params clean)).2
    unfold Ruling.onParam at accepted ⊢
    split at accepted
    · simp [Ruling.isReject] at accepted
    · rename_i new
      rw [if_neg new]
      exact same.add

theorem enumValues {earlier : List String} {values : List Identifier} (same : Alongside a c)
    (clean : (Analysis.enumValues earlier values a).errors = []) :
    Alongside (Analysis.enumValues earlier values a) (Checker.enumValues values c) := by
  induction values generalizing earlier a c with
  | nil => exact same
  | cons value others ih =>
    refine ih ?_ clean
    have accepted := (Analysis.clean_obey (Analysis.clean_enumValues clean)).2
    have found : (c.table.lookup value.name).isSome = (a.table.lookup value.name).isSome := by
      rw [show c.table = a.table.settled from same, Table.lookup_settled, Option.isSome_map]
    unfold Ruling.onEnumValue at accepted ⊢
    split at accepted
    · simp [Ruling.isReject] at accepted
    · rename_i new
      split at accepted
      · simp [Ruling.isReject] at accepted
      · rename_i absent
        rw [if_neg new, if_neg absent, if_neg (found ▸ absent)]
        exact same.add

theorem enumeration {name : String} {values : List Identifier} {position : Position}
    (same : Alongside a c) (clean : (Analysis.enumeration name values position a).errors = []) :
    Alongside (Analysis.enumeration name values position a)
      (Checker.enumeration name values position c) := by
  have accepted := (Analysis.clean_obey (Analysis.clean_enumeration clean)).2
  have level : c.table.level = a.table.level := by
    rw [show c.table = a.table.settled from same, Table.level_settled]
  simp only [Analysis.enumeration, accepted, Bool.false_eq_true, if_false] at clean ⊢
  unfold Checker.enumeration
  rw [level]
  unfold Ruling.onEnumeration at accepted clean ⊢
  split at accepted
  · simp [Ruling.isReject] at accepted
  · rename_i top
    split at accepted
    · simp [Ruling.isReject] at accepted
    · rename_i absent
      simp only [if_neg top, absent] at clean ⊢
      exact same.add.enumValues clean

end Alongside
end Curly
