import Curly.Scope.Analysis

/-! The walk of the analyzer as a list of steps: scopes are opened and closed, names declared and
used. Analysis takes one step after the other. -/
namespace Curly

/-- An identifier in an expression, as a variable or as a function that is called. -/
structure Occurrence where
  isCall : Bool
  name : Identifier
deriving DecidableEq, Repr

inductive Step where
  | opens
  | closes
  | uses (o : Occurrence)
  | variable (ty : Ty) (name : String) (position : Position)
  | prototype (ty : Ty) (name : String) (params : List Ty) (position : Position)
  | function (ty : Ty) (name : String) (params : List Ty) (position : Position)
  | main (position : Position)
  | param (earlier : List String) (p : Param)
  | enumeration (name : String) (values : List Identifier) (position : Position)
deriving DecidableEq, Repr

mutual

/-- The identifiers in an expression, in the order of the text. -/
def Expr.occurrences : Expr → List Occurrence
  | .symbol name => [⟨false, name⟩]
  | .binary _ left right _ => left.occurrences ++ right.occurrences
  | .unary _ operand _ _ => operand.occurrences
  | .call callee args _ => ⟨true, callee⟩ :: occurrencesIn args
  | .int .. | .float .. | .string .. | .char .. | .bool .. => []
termination_by structural e => e

def occurrencesIn : List Expr → List Occurrence
  | [] => []
  | e :: others => e.occurrences ++ occurrencesIn others
termination_by structural es => es

end

def Expr.steps (e : Expr) : List Step :=
  e.occurrences.map .uses

def optionalSteps : Option Expr → List Step
  | none => []
  | some e => e.steps

def paramSteps (earlier : List String) : List Param → List Step
  | [] => []
  | p :: others => .param earlier p :: paramSteps (p.name :: earlier) others

/-- Steps in a scope of their own. -/
def inScope (steps : List Step) : List Step :=
  .opens :: steps ++ [.closes]

mutual

/-- The value of a variable comes before its declaration, the condition of a loop that tests last
behind its body. Blocks, functions and the heads of for loops are scopes. -/
def Stmt.steps : Stmt → List Step
  | .variable ty name initial span => optionalSteps initial ++ [.variable ty name span.start]
  | .prototype ty name ps span => [.prototype ty name (signature ps) span.start]
  | .function ty name ps body span =>
    .function ty name (signature ps) span.start :: inScope (paramSteps [] ps ++ body.steps)
  | .main body span => .main span.start :: inScope body.steps
  | .enumeration name values _ span => [.enumeration name values span.start]
  | .block body => inScope body.steps
  | .branch e yes no _ =>
    e.steps ++ inScope yes.steps ++
      match no with
      | none => []
      | some no => inScope no.steps
  | .whileLoop e body _ => e.steps ++ inScope body.steps
  | .doLoop body e _ => inScope body.steps ++ e.steps
  | .forLoop initial e update body _ =>
    inScope ((match initial with
        | none => []
        | some initial => initial.steps) ++
      optionalSteps e ++ optionalSteps update ++ inScope body.steps)
  | .switch e cases fallback _ =>
    e.steps ++ armsSteps cases ++
      match fallback with
      | none => []
      | some fallback => inScope fallback.steps
  | .giveBack value _ => optionalSteps value
  | .print args _ => (occurrencesIn args).map .uses
  | .evaluate e _ => e.steps
  | .leave _ | .inclusion .. => []
termination_by structural s => s

def Block.steps : Block → List Step
  | ⟨body, _⟩ => bodySteps body
termination_by structural body => body

def bodySteps : List Stmt → List Step
  | [] => []
  | s :: others => s.steps ++ bodySteps others
termination_by structural body => body

def armsSteps : List Case → List Step
  | [] => []
  | ⟨value, body, _⟩ :: others =>
    value.steps ++ inScope body.steps ++ armsSteps others
termination_by structural cases => cases

end

namespace Analysis

section

variable (declared : String → Bool)

def step (a : Analysis) : Step → Analysis
  | .opens => a.enter
  | .closes => a.exit
  | .uses o => resolve declared o.isCall o.name a
  | .variable ty name position => a.obey name position (.onVariable a.table ty name position)
  | .prototype ty name params position =>
    a.obey name position (.onPrototype a.table ty name params position)
  | .function ty name params position =>
    a.obey name position (.onFunction a.table ty name params position)
  | .main position => a.obey "main" position (.onMain a.table position)
  | .param earlier p => a.obey p.name p.span.start (.onParam earlier p)
  | .enumeration name values position => enumeration name values position a

def run (steps : List Step) (a : Analysis) : Analysis :=
  steps.foldl (step declared) a

theorem run_append (first second : List Step) (a : Analysis) :
    run declared (first ++ second) a = run declared second (run declared first a) :=
  List.foldl_append

theorem run_cons (s : Step) (steps : List Step) (a : Analysis) :
    run declared (s :: steps) a = run declared steps (step declared a s) := rfl

mutual

theorem run_expr : (e : Expr) → (a : Analysis) → run declared e.steps a = expr declared e a
  | .int .., _ | .float .., _ | .string .., _ | .char .., _ | .bool .., _ | .symbol _, _ => rfl
  | .binary _ left right _, a => by
    rw [Expr.steps, Expr.occurrences, List.map_append, run_append]
    exact (run_expr right _).trans (congrArg _ (run_expr left a))
  | .unary _ operand _ _, a => run_expr operand a
  | .call callee args _, a => run_exprs args _
termination_by structural e => e

theorem run_exprs : (es : List Expr) → (a : Analysis) →
    run declared ((occurrencesIn es).map .uses) a = exprs declared es a
  | [], _ => rfl
  | e :: others, a => by
    rw [occurrencesIn, List.map_append, run_append]
    exact (run_exprs others _).trans (congrArg _ (run_expr e a))
termination_by structural es => es

end

theorem run_optional (e : Option Expr) (a : Analysis) :
    run declared (optionalSteps e) a = optional declared e a := by
  cases e with
  | none => rfl
  | some e => exact run_expr declared e a

theorem run_params (earlier : List String) (ps : List Param) (a : Analysis) :
    run declared (paramSteps earlier ps) a = params earlier ps a := by
  induction ps generalizing earlier a with
  | nil => rfl
  | cons p others ih => exact ih _ _

theorem run_inScope (steps : List Step) (a : Analysis) :
    run declared (inScope steps) a = (run declared steps a.enter).exit := by
  rw [inScope, List.cons_append, run_cons, run_append]
  rfl

theorem block_eq (body : Block) (a : Analysis) :
    block declared body a = (within declared body a.enter).exit := by
  cases body
  rfl

mutual

/-- Taking the steps of a statement is analyzing it. -/
theorem run_stmt : (s : Stmt) → (a : Analysis) → run declared s.steps a = stmt declared s a
  | .variable _ _ initial _, a => by
    simp only [Stmt.steps, run_append, run_optional, stmt]
    rfl
  | .prototype .., _ | .enumeration .., _ => rfl
  | .function _ _ ps body _, a => by
    simp only [Stmt.steps, run_cons, run_inScope, run_append, run_params, run_within body, stmt]
    rfl
  | .main body _, a => by
    simp only [Stmt.steps, run_cons, run_inScope, run_within body, stmt]
    rfl
  | .block body, a => by simp only [Stmt.steps, run_inScope, run_within body, stmt, block_eq]
  | .branch e yes none _, a => by
    simp only [Stmt.steps, run_append, run_expr, run_inScope, run_within yes, stmt, block_eq]
    rfl
  | .branch e yes (some no) _, a => by
    simp only [Stmt.steps, run_append, run_expr, run_inScope, run_within yes, run_within no, stmt,
      block_eq]
  | .whileLoop e body _, a => by
    simp only [Stmt.steps, run_append, run_expr, run_inScope, run_within body, stmt, block_eq]
  | .doLoop body e _, a => by
    simp only [Stmt.steps, run_append, run_expr, run_inScope, run_within body, stmt, block_eq]
  | .forLoop none e update body _, a => by
    simp only [Stmt.steps, run_append, run_optional, run_inScope, run_within body, stmt, block_eq]
    rfl
  | .forLoop (some initial) e update body _, a => by
    simp only [Stmt.steps, run_append, run_stmt initial, run_optional, run_inScope, run_within body,
      stmt, block_eq]
  | .switch e cases none _, a => by
    simp only [Stmt.steps, run_append, run_expr, run_arms cases, stmt]
    rfl
  | .switch e cases (some fallback) _, a => by
    simp only [Stmt.steps, run_append, run_expr, run_arms cases, run_inScope, run_within fallback,
      stmt, block_eq]
  | .giveBack value _, a => run_optional declared value a
  | .print args _, a => run_exprs declared args a
  | .evaluate e _, a => run_expr declared e a
  | .leave _, _ | .inclusion .., _ => rfl
termination_by structural s => s

theorem run_within : (body : Block) → (a : Analysis) →
    run declared body.steps a = within declared body a
  | ⟨body, _⟩, a => run_stmts body a
termination_by structural body => body

theorem run_stmts : (body : List Stmt) → (a : Analysis) →
    run declared (bodySteps body) a = stmts declared body a
  | [], _ => rfl
  | s :: others, a => by
    rw [bodySteps, run_append, run_stmt s, run_stmts others]
    rfl
termination_by structural body => body

theorem run_arms : (cases : List Case) → (a : Analysis) →
    run declared (armsSteps cases) a = arms declared cases a
  | [], _ => rfl
  | ⟨value, body, _⟩ :: others, a => by
    simp only [armsSteps, run_append, run_expr, run_inScope, run_within body, run_arms others, arms,
      block_eq]
termination_by structural cases => cases

end

end

end Analysis

def Program.steps (p : Program) : List Step :=
  bodySteps p.body

theorem analyze_eq_run (p : Program) :
    analyze p = Analysis.run (isDeclared (declarations p.body)) p.steps .empty :=
  (Analysis.run_stmts _ p.body .empty).symm

end Curly
