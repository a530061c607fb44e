import Curly.Proofs.Typing.Context

/-! When the operations of the type checker complain. A program without complaints keeps every break
inside the loops and switches of its functions. -/
namespace Curly.Checker

theorem errors_report (c : Checker) (cause : TypeError.Cause) (position : Position) :
    (c.report cause position).errors ≠ [] := by
  simp [report]

theorem errors_reportAny_iff (c : Checker) (cause : Option TypeError.Cause) (position : Position) :
    (c.reportAny cause position).errors = [] ↔ c.errors = [] ∧ cause = none := by
  cases cause with
  | none => simp [reportAny]
  | some cause => simp [reportAny, errors_report]

theorem errors_note_iff (c : Checker) (t : Typed) :
    (c.note t).errors = [] ↔ c.errors = [] ∧ t.errors = [] :=
  List.append_eq_nil_iff

theorem errors_expr_iff (e : Expr) (c : Checker) :
    (expr e c).errors = [] ↔ c.errors = [] ∧ (Typing.typeOf c.table e).errors = [] :=
  errors_note_iff c _

theorem errors_value_iff (e : Expr) (c : Checker) :
    (value e c).errors = [] ↔ c.errors = [] ∧ (Typing.valueOf c.table e).errors = [] :=
  errors_note_iff c _

theorem errors_values_iff (es : List Expr) (c : Checker) :
    (values es c).errors = [] ↔
      c.errors = [] ∧ ∀ e ∈ es, (Typing.valueOf c.table e).errors = [] := by
  induction es generalizing c with
  | nil => simp [values]
  | cons e others ih =>
    rw [values, ih, errors_value_iff, List.forall_mem_cons, and_assoc]
    rfl

theorem errors_condition_iff (construct : String) (position : Position) (e : Expr) (c : Checker) :
    (condition construct position e c).errors = [] ↔
      c.errors = [] ∧ (Typing.typeOf c.table e).errors = [] ∧
        ((Typing.typeOf c.table e).ty = .bool ∨ (Typing.typeOf c.table e).ty = .invalid) := by
  simp only [condition, errors_reportAny_iff, errors_note_iff, and_assoc]
  cases (Typing.typeOf c.table e).ty <;> simp

theorem errors_variableStatement_iff (ty : Ty) (name : String) (initial : Option Expr)
    (position : Position) (c : Checker) :
    (variableStatement ty name initial position c).errors = [] ↔
      c.errors = [] ∧ ty ≠ .void ∧ ∀ e ∈ initial, (Typing.valueOf c.table e).errors = [] ∧
        ty.fits (Typing.valueOf c.table e).ty := by
  by_cases void : ty = .void
  · have complained : (c.report (.voidVariable name) position).errors ≠ [] :=
      c.errors_report _ _
    cases initial <;>
      simp [variableStatement, void, declare, errors_reportAny_iff, errors_note_iff, complained]
  · cases initial <;>
      simp [variableStatement, void, declare, errors_reportAny_iff, errors_note_iff, and_assoc]

@[simp] theorem errors_declareFunction (name : String) (ty : Ty) (params : List Ty)
    (position : Position) (c : Checker) :
    (declareFunction name ty params position c).errors = c.errors := by
  unfold declareFunction
  split <;> rfl

@[simp] theorem errors_params (ps : List Param) (c : Checker) :
    (params ps c).errors = c.errors := by
  induction ps generalizing c with
  | nil => rfl
  | cons p others ih => exact ih _

@[simp] theorem errors_enumValues (values : List Identifier) (c : Checker) :
    (enumValues values c).errors = c.errors := by
  induction values generalizing c with
  | nil => rfl
  | cons value others ih =>
    rw [enumValues, ih]
    split <;> rfl

@[simp] theorem errors_enumeration (name : String) (values : List Identifier)
    (position : Position) (c : Checker) :
    (enumeration name values position c).errors = c.errors := by
  unfold enumeration
  split
  · rfl
  · exact errors_enumValues values _

theorem errors_leave_iff (position : Position) (c : Checker) :
    (leave position c).errors = [] ↔ c.errors = [] ∧ 0 < c.depth := by
  unfold leave
  split
  · rename_i outside
    simp [errors_report, outside]
  · rename_i inside
    simp [Nat.pos_of_ne_zero inside]

theorem errors_subject_iff (e : Expr) (c : Checker) :
    (subject e c).2.errors = [] ↔
      c.errors = [] ∧ (Typing.valueOf c.table e).errors = [] ∧
        ((subject e c).1 = .invalid ∨ (subject e c).1 = .int ∨ (subject e c).1 = .char) := by
  simp only [subject, errors_reportAny_iff, errors_note_iff, and_assoc, ite_eq_left_iff,
    reduceCtorEq, imp_false, Decidable.not_not]

theorem errors_caseValue_iff (ty : Ty) (e : Expr) (c : Checker) :
    (caseValue ty e c).errors = [] ↔
      c.errors = [] ∧ (Typing.valueOf c.table e).errors = [] ∧
        (ty = .invalid ∨ (Typing.valueOf c.table e).ty = .invalid ∨
          (Typing.valueOf c.table e).ty = ty) := by
  simp only [caseValue, errors_reportAny_iff, errors_note_iff, and_assoc, ite_eq_left_iff,
    reduceCtorEq, imp_false, Decidable.not_not]

/-- A return is in a function, and the function is to return what it returns. -/
theorem errors_giveBack_iff (e : Option Expr) (position : Position) (c : Checker) :
    (giveBack e position c).errors = [] ↔
      c.errors = [] ∧ (∀ value ∈ e, (Typing.valueOf c.table value).errors = []) ∧
        ∃ f, c.function = some f ∧
          returnCause f (e.map fun value => (Typing.valueOf c.table value).ty) = none := by
  cases e <;> cases known : c.function <;>
    simp [giveBack, note, known, errors_report, errors_reportAny_iff, and_assoc]

theorem errors_missingReturn_iff (position : Position) (c : Checker) :
    missingReturn position c = none ↔ ∀ f, c.function = some f → f.ty = .void ∨ f.returnsValue := by
  cases known : c.function <;> simp [missingReturn, known, Decidable.or_iff_not_imp_left]

theorem clean_heads {position : Position} {e update : Option Expr} {c : Checker}
    (clean : (heads position e update c).errors = []) : c.errors = [] := by
  have tested (clean : (heads position e none c).errors = []) : c.errors = [] := by
    cases e with
    | none => exact clean
    | some e => exact ((errors_condition_iff ..).mp clean).1
  cases update with
  | none => exact tested clean
  | some update => exact tested ((errors_expr_iff ..).mp clean).1

mutual

theorem inside_stmt : (s : Stmt) → (c : Checker) → (stmt s c).errors = [] →
    c.errors = [] ∧ s.BreaksInside (0 < c.depth)
  | .variable .., c, clean => ⟨((errors_variableStatement_iff ..).mp clean).1, trivial⟩
  | .prototype .., c, clean => ⟨errors_declareFunction .. ▸ clean, trivial⟩
  | .function _ _ ps body span, c, clean => by
    obtain ⟨before, -⟩ := List.append_eq_nil_iff.mp clean
    obtain ⟨begun, inside⟩ := inside_block body _ before
    exact ⟨by simpa [begin, enter] using begun, inside⟩
  | .main body span, c, clean => by
    obtain ⟨begun, inside⟩ := inside_block body _ clean
    exact ⟨by simpa [begin, enter] using begun, inside⟩
  | .enumeration .., c, clean => ⟨errors_enumeration .. ▸ clean, trivial⟩
  | .block body, c, clean => inside_scope body c clean
  | .branch e yes none span, c, clean => by
    obtain ⟨before, inside⟩ := inside_scope yes _ clean
    rw [(around_condition "if" span.start e c).depth] at inside
    exact ⟨((errors_condition_iff ..).mp before).1, inside, trivial⟩
  | .branch e yes (some no) span, c, clean => by
    obtain ⟨between, last⟩ := inside_scope no _ clean
    obtain ⟨before, inside⟩ := inside_scope yes _ between
    rw [(around_block yes _).depth] at last
    rw [(around_condition "if" span.start e c).depth] at inside last
    exact ⟨((errors_condition_iff ..).mp before).1, inside, last⟩
  | .whileLoop e body span, c, clean => by
    obtain ⟨before, inside⟩ := inside_deeper body _ clean
    exact ⟨((errors_condition_iff ..).mp before).1, inside⟩
  | .doLoop body e span, c, clean => inside_deeper body c ((errors_condition_iff ..).mp clean).1
  | .forLoop none e update body span, c, clean => by
    obtain ⟨before, inside⟩ := inside_deeper body (heads span.start e update c.enter) clean
    have begun : c.enter.errors = [] := clean_heads before
    exact ⟨begun, trivial, inside⟩
  | .forLoop (some initial) e update body span, c, clean => by
    obtain ⟨before, inside⟩ :=
      inside_deeper body (heads span.start e update (stmt initial c.enter)) clean
    obtain ⟨begun, first⟩ := inside_stmt initial c.enter (clean_heads before)
    exact ⟨begun, first, inside⟩
  | .switch e cases none _, c, clean => by
    obtain ⟨before, inside⟩ := inside_arms cases _ _ (Nat.succ_pos _) clean
    exact ⟨((errors_subject_iff e c).mp before).1, inside, trivial⟩
  | .switch e cases (some fallback) _, c, clean => by
    obtain ⟨between, last⟩ := inside_scope fallback _ clean
    obtain ⟨before, inside⟩ := inside_arms cases _ _ (Nat.succ_pos _) between
    rw [(around_arms cases _ _).depth] at last
    exact ⟨((errors_subject_iff e c).mp before).1, inside, last⟩
  | .giveBack .., c, clean => ⟨((errors_giveBack_iff ..).mp clean).1, trivial⟩
  | .leave span, c, clean => by
    obtain ⟨before, inside⟩ := (errors_leave_iff span.start c).mp clean
    exact ⟨before, decide_eq_true inside⟩
  | .print .., c, clean => ⟨((errors_values_iff ..).mp clean).1, trivial⟩
  | .evaluate .., c, clean => ⟨((errors_expr_iff ..).mp clean).1, trivial⟩
  | .inclusion .., c, clean => ⟨clean, trivial⟩
termination_by structural s => s

theorem inside_scope : (body : Block) → (c : Checker) → (block body c).errors = [] →
    c.errors = [] ∧ body.BreaksInside (0 < c.depth)
  | ⟨body, _⟩, c, clean => inside_stmts body c.enter clean
termination_by structural body => body

theorem inside_deeper : (body : Block) → (c : Checker) → (block body c.deeper).errors = [] →
    c.errors = [] ∧ body.BreaksInside true
  | ⟨body, _⟩, c, clean => by
    obtain ⟨before, inside⟩ := inside_stmts body c.deeper.enter clean
    exact ⟨before, inside⟩
termination_by structural body => body

theorem inside_block : (body : Block) → (c : Checker) → (within body c).errors = [] →
    c.errors = [] ∧ body.BreaksInside (0 < c.depth)
  | ⟨body, _⟩, c, clean => inside_stmts body c clean
termination_by structural body => body

theorem inside_stmts : (body : List Stmt) → (c : Checker) → (stmts body c).errors = [] →
    c.errors = [] ∧ BodyBreaksInside body (0 < c.depth)
  | [], _, clean => ⟨clean, trivial⟩
  | s :: others, c, clean => by
    obtain ⟨between, behind⟩ := inside_stmts others _ clean
    obtain ⟨before, first⟩ := inside_stmt s c between
    rw [(around_stmt s c).depth] at behind
    exact ⟨before, first, behind⟩
termination_by structural body => body

theorem inside_arms : (cases : List Case) → (ty : Ty) → (c : Checker) → 0 < c.depth →
    (arms ty cases c).errors = [] → c.errors = [] ∧ ArmsBreakInside cases
  | [], _, _, _, clean => ⟨clean, trivial⟩
  | ⟨value, body, _⟩ :: others, ty, c, deep, clean => by
    have valued := (around_caseValue ty value c).depth
    have passed := (around_block body (caseValue ty value c)).depth
    obtain ⟨between, behind⟩ := inside_arms others ty _ (by rwa [passed, valued]) clean
    obtain ⟨before, first⟩ := inside_scope body _ between
    rw [valued, decide_eq_true deep] at first
    exact ⟨((errors_caseValue_iff ..).mp before).1, first, behind⟩
termination_by structural cases => cases

end

/-- A program without complaints about its types has no break outside of loops and switches. -/
theorem breaksInside_of_typeCheck {p : Program} (typed : typeCheck p = []) :
    BodyBreaksInside p.body false :=
  (inside_stmts p.body .empty typed).2

end Curly.Checker
