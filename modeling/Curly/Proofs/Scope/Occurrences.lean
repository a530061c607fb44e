import Curly.Proofs.Scope.Steps

/-! All statements of a program, whatever they stand in, with the expressions and the declarations
of each one. The analyzer comes to every identifier once, and the names it takes for declared are
those that some statement introduces. -/
namespace Curly

namespace Stmt

/-- The expressions of a statement, without those of the statements in it. -/
def expressions : Stmt → List Expr
  | .variable _ _ initial _ => initial.toList
  | .branch e _ _ _ | .whileLoop e _ _ | .doLoop _ e _ | .evaluate e _ => [e]
  | .forLoop _ e update _ _ => e.toList ++ update.toList
  | .switch e cases _ _ => e :: cases.map Case.value
  | .giveBack value _ => value.toList
  | .print args _ => args
  | .prototype .. | .function .. | .main .. | .enumeration .. | .block _ | .leave _
  | .inclusion .. => []

/-- The names that a statement declares itself. -/
def introduces : Stmt → List String
  | .variable _ name _ _ => [name]
  | .prototype _ name ps _ | .function _ name ps _ _ => name :: ps.map Param.name
  | .main .. => ["main"]
  | .enumeration name values _ _ => name :: values.map Identifier.name
  | .block _ | .branch .. | .whileLoop .. | .doLoop .. | .forLoop .. | .switch .. | .giveBack ..
  | .leave _ | .print .. | .evaluate .. | .inclusion .. => []

end Stmt

mutual

/-- The statements inside a statement, at every depth. -/
def Stmt.inner : Stmt → List Stmt
  | .function _ _ _ body _ | .main body _ | .block body => body.statements
  | .branch _ yes no _ =>
    yes.statements ++
      match no with
      | none => []
      | some no => no.statements
  | .whileLoop _ body _ | .doLoop body _ _ => body.statements
  | .forLoop initial _ _ body _ =>
    (match initial with
      | none => []
      | some initial => initial :: initial.inner) ++ body.statements
  | .switch _ cases fallback _ =>
    armsStatements cases ++
      match fallback with
      | none => []
      | some fallback => fallback.statements
  | .variable .. | .prototype .. | .enumeration .. | .giveBack .. | .leave _ | .print ..
  | .evaluate .. | .inclusion .. => []
termination_by structural s => s

def Block.statements : Block → List Stmt
  | ⟨body, _⟩ => bodyStatements body
termination_by structural body => body

def bodyStatements : List Stmt → List Stmt
  | [] => []
  | s :: others => s :: s.inner ++ bodyStatements others
termination_by structural body => body

def armsStatements : List Case → List Stmt
  | [] => []
  | ⟨_, body, _⟩ :: others => body.statements ++ armsStatements others
termination_by structural cases => cases

end

namespace Program

def statements (p : Program) : List Stmt :=
  bodyStatements p.body

/-- Every identifier in an expression of the program. -/
def occurrences (p : Program) : List Occurrence :=
  (p.statements.flatMap Stmt.expressions).flatMap Expr.occurrences

def Declares (p : Program) (name : String) : Prop :=
  ∃ s ∈ p.statements, name ∈ s.introduces

instance (p : Program) (name : String) : Decidable (p.Declares name) :=
  inferInstanceAs (Decidable (∃ s ∈ p.statements, name ∈ s.introduces))

end Program

section

variable (o : Occurrence)

/-- How often an identifier occurs in the expressions of some statements. -/
def occurrenceCount (body : List Stmt) : Nat :=
  ((body.flatMap Stmt.expressions).flatMap Expr.occurrences).count o

@[simp] theorem occurrenceCount_nil : occurrenceCount o [] = 0 := rfl

@[simp] theorem occurrenceCount_cons (s : Stmt) (others : List Stmt) :
    occurrenceCount o (s :: others) =
      (s.expressions.flatMap Expr.occurrences).count o + occurrenceCount o others := by
  simp [occurrenceCount]

@[simp] theorem occurrenceCount_append (first second : List Stmt) :
    occurrenceCount o (first ++ second) = occurrenceCount o first + occurrenceCount o second := by
  simp [occurrenceCount]

/-- How often an identifier is used in some steps. -/
def useCount (steps : List Step) : Nat :=
  steps.count (.uses o)

@[simp] theorem useCount_nil : useCount o [] = 0 := rfl

@[simp] theorem useCount_cons (s : Step) (steps : List Step) :
    useCount o (s :: steps) = useCount o steps + if s = .uses o then 1 else 0 := by
  simp [useCount, List.count_cons]

@[simp] theorem useCount_append (first second : List Step) :
    useCount o (first ++ second) = useCount o first + useCount o second :=
  List.count_append

@[simp] theorem useCount_inScope (steps : List Step) :
    useCount o (inScope steps) = useCount o steps := by
  simp [inScope]

@[simp] theorem useCount_map (os : List Occurrence) : useCount o (os.map .uses) = os.count o := by
  induction os with
  | nil => rfl
  | cons first others ih => simp [ih, List.count_cons]

theorem useCount_expr (e : Expr) : useCount o e.steps = e.occurrences.count o :=
  useCount_map o e.occurrences

theorem useCount_optional (e : Option Expr) :
    useCount o (optionalSteps e) = (e.toList.flatMap Expr.occurrences).count o := by
  cases e with
  | none => rfl
  | some e => simp [optionalSteps, useCount_expr]

theorem useCount_params (earlier : List String) (ps : List Param) :
    useCount o (paramSteps earlier ps) = 0 := by
  induction ps generalizing earlier with
  | nil => rfl
  | cons p others ih => simp [paramSteps, ih]

theorem occurrencesIn_eq_flatMap (es : List Expr) :
    occurrencesIn es = es.flatMap Expr.occurrences := by
  induction es with
  | nil => rfl
  | cons e others ih => simp [occurrencesIn, ih]

mutual

theorem useCount_stmt : (s : Stmt) → useCount o s.steps = occurrenceCount o (s :: s.inner)
  | .variable .. => by
    simp [Stmt.steps, Stmt.inner, Stmt.expressions, useCount_optional]
  | .prototype .. | .enumeration .. => by
    simp [Stmt.steps, Stmt.inner, Stmt.expressions]
  | .function _ _ _ body _ => by
    simp [Stmt.steps, Stmt.inner, Stmt.expressions, useCount_params, useCount_block body]
  | .main body _ => by
    simp [Stmt.steps, Stmt.inner, Stmt.expressions, useCount_block body]
  | .block body => by simp [Stmt.steps, Stmt.inner, Stmt.expressions, useCount_block body]
  | .branch e yes none _ => by
    simp [Stmt.steps, Stmt.inner, Stmt.expressions, useCount_expr, useCount_block yes]
  | .branch e yes (some no) _ => by
    simp [Stmt.steps, Stmt.inner, Stmt.expressions, useCount_expr, useCount_block yes,
      useCount_block no]
  | .whileLoop e body _ => by
    simp [Stmt.steps, Stmt.inner, Stmt.expressions, useCount_expr, useCount_block body]
  | .doLoop body e _ => by
    simp [Stmt.steps, Stmt.inner, Stmt.expressions, useCount_expr, useCount_block body,
      Nat.add_comm]
  | .forLoop none e update body _ => by
    simp [Stmt.steps, Stmt.inner, Stmt.expressions, useCount_optional, useCount_block body,
      Nat.add_assoc]
  | .forLoop (some initial) e update body _ => by
    simp [Stmt.steps, Stmt.inner, Stmt.expressions, useCount_optional, useCount_block body,
      useCount_stmt initial]
    omega
  | .switch e cases none _ => by
    simp [Stmt.steps, Stmt.inner, Stmt.expressions, useCount_expr, useCount_arms cases,
      Nat.add_assoc]
  | .switch e cases (some fallback) _ => by
    simp [Stmt.steps, Stmt.inner, Stmt.expressions, useCount_expr, useCount_arms cases,
      useCount_block fallback, Nat.add_assoc]
  | .giveBack .. => by simp [Stmt.steps, Stmt.inner, Stmt.expressions, useCount_optional]
  | .print args _ => by
    simp [Stmt.steps, Stmt.inner, Stmt.expressions, occurrencesIn_eq_flatMap]
  | .evaluate e _ => by simp [Stmt.steps, Stmt.inner, Stmt.expressions, useCount_expr]
  | .leave _ | .inclusion .. => by simp [Stmt.steps, Stmt.inner, Stmt.expressions]
termination_by structural s => s

theorem useCount_block : (body : Block) → useCount o body.steps = occurrenceCount o body.statements
  | ⟨body, _⟩ => useCount_stmts body
termination_by structural body => body

theorem useCount_stmts : (body : List Stmt) →
    useCount o (bodySteps body) = occurrenceCount o (bodyStatements body)
  | [] => rfl
  | s :: others => by
    rw [bodySteps, useCount_append, useCount_stmt s, useCount_stmts others]
    simp [bodyStatements, Nat.add_assoc]
termination_by structural body => body

theorem useCount_arms : (cases : List Case) →
    useCount o (armsSteps cases) =
      ((cases.map Case.value).flatMap Expr.occurrences).count o +
        occurrenceCount o (armsStatements cases)
  | [] => rfl
  | ⟨value, body, _⟩ :: others => by
    simp [armsSteps, armsStatements, useCount_expr, useCount_block body, useCount_arms others]
    omega
termination_by structural cases => cases

end

end

section

variable (name : String)

@[simp] theorem isDeclared_append (first second : List Declaration) :
    isDeclared (first ++ second) name = (isDeclared first name || isDeclared second name) := by
  simp [isDeclared]

@[simp] theorem isDeclared_nil : isDeclared [] name = false := rfl

@[simp] theorem isDeclared_cons (d : Declaration) (others : List Declaration) :
    isDeclared (d :: others) name = (decide (d.name = name) || isDeclared others name) := rfl

theorem isDeclared_params (ps : List Param) :
    isDeclared (ps.map Param.declaration) name = (ps.map Param.name).contains name := by
  induction ps with
  | nil => rfl
  | cons p others ih => simp_all [Param.declaration, eq_comm]

theorem isDeclared_values (values : List Identifier) :
    isDeclared (values.map Identifier.declaration) name =
      (values.map Identifier.name).contains name := by
  induction values with
  | nil => rfl
  | cons value others ih => simp_all [Identifier.declaration, eq_comm]

/-- Whether one of the statements introduces the name. -/
def introduced (body : List Stmt) : Bool :=
  body.any fun s => s.introduces.contains name

@[simp] theorem introduced_nil : introduced name [] = false := rfl

@[simp] theorem introduced_cons (s : Stmt) (others : List Stmt) :
    introduced name (s :: others) = (s.introduces.contains name || introduced name others) := rfl

@[simp] theorem introduced_append (first second : List Stmt) :
    introduced name (first ++ second) = (introduced name first || introduced name second) := by
  simp [introduced]

mutual

theorem isDeclared_stmt : (s : Stmt) →
    isDeclared s.declarations name = introduced name (s :: s.inner)
  | .variable .. => by
    simp [Stmt.declarations, Stmt.inner, Stmt.introduces, eq_comm]
  | .prototype .. => by
    simp [Stmt.declarations, Stmt.inner, Stmt.introduces, isDeclared_params, eq_comm]
  | .function _ _ _ body _ => by
    simp [Stmt.declarations, Stmt.inner, Stmt.introduces, isDeclared_params, isDeclared_block body,
      eq_comm, Bool.or_assoc]
  | .main body _ => by
    simp [Stmt.declarations, Stmt.inner, Stmt.introduces, isDeclared_block body, eq_comm]
  | .enumeration .. => by
    simp [Stmt.declarations, Stmt.inner, Stmt.introduces, isDeclared_values, eq_comm]
  | .block body => by simp [Stmt.declarations, Stmt.inner, Stmt.introduces, isDeclared_block body]
  | .branch _ yes none _ => by
    simp [Stmt.declarations, Stmt.inner, Stmt.introduces, isDeclared_block yes]
  | .branch _ yes (some no) _ => by
    simp [Stmt.declarations, Stmt.inner, Stmt.introduces, isDeclared_block yes,
      isDeclared_block no]
  | .whileLoop _ body _ | .doLoop body _ _ | .forLoop none _ _ body _ => by
    simp [Stmt.declarations, Stmt.inner, Stmt.introduces, isDeclared_block body]
  | .forLoop (some initial) _ _ body _ => by
    simp [Stmt.declarations, Stmt.inner, Stmt.introduces, isDeclared_stmt initial,
      isDeclared_block body, Bool.or_assoc]
  | .switch _ cases none _ => by
    simp [Stmt.declarations, Stmt.inner, Stmt.introduces, isDeclared_arms cases]
  | .switch _ cases (some fallback) _ => by
    simp [Stmt.declarations, Stmt.inner, Stmt.introduces, isDeclared_arms cases,
      isDeclared_block fallback]
  | .giveBack .. | .leave _ | .print .. | .evaluate .. | .inclusion .. => by
    simp [Stmt.declarations, Stmt.inner, Stmt.introduces]
termination_by structural s => s

theorem isDeclared_block : (body : Block) →
    isDeclared body.declarations name = introduced name body.statements
  | ⟨body, _⟩ => isDeclared_stmts body
termination_by structural body => body

theorem isDeclared_stmts : (body : List Stmt) →
    isDeclared (declarations body) name = introduced name (bodyStatements body)
  | [] => rfl
  | s :: others => by
    rw [declarations, isDeclared_append, isDeclared_stmt s, isDeclared_stmts others]
    simp [bodyStatements, Bool.or_assoc]
termination_by structural body => body

theorem isDeclared_arms : (cases : List Case) →
    isDeclared (casesDeclarations cases) name = introduced name (armsStatements cases)
  | [] => rfl
  | ⟨_, body, _⟩ :: others => by
    rw [casesDeclarations, isDeclared_append, isDeclared_block body, isDeclared_arms others,
      armsStatements, introduced_append]
termination_by structural cases => cases

end

end

namespace Program

/-- The names that are collected before the walk are those that the program declares. -/
theorem isDeclared_iff (p : Program) (name : String) :
    isDeclared (declarations p.body) name ↔ p.Declares name := by
  simp [isDeclared_stmts, introduced, Declares, statements]

/-- The walk uses every identifier once. -/
theorem used_perm_occurrences (p : Program) {used : List Occurrence}
    (same : ∀ o, used.count o = useCount o p.steps) : used.Perm p.occurrences :=
  List.perm_iff_count.mpr fun o => (same o).trans (useCount_stmts o p.body)

end Program
end Curly
