import Curly.Scope.Analysis

/-! Scope analysis that ends without a complaint. It had none at any moment before, and it found
every name that it looked for. -/
namespace Curly

namespace Analysis

theorem report_not_clean (a : Analysis) (kind : ScopeError.Kind) (name : String)
    (position : Position) : (a.report kind name position).errors ≠ [] := by
  simp [report]

theorem clean_obey {a : Analysis} {name : String} {position : Position} {ruling : Ruling}
    (clean : (a.obey name position ruling).errors = []) :
    a.errors = [] ∧ ruling.isReject = false := by
  cases ruling with
  | reject kind => exact absurd clean (a.report_not_clean kind name position)
  | _ => exact ⟨clean, rfl⟩

theorem clean_params {earlier : List String} {ps : List Param} {a : Analysis}
    (clean : (params earlier ps a).errors = []) : a.errors = [] := by
  induction ps generalizing earlier a with
  | nil => exact clean
  | cons p others ih => exact (clean_obey (ih clean)).1

theorem clean_enumValues {earlier : List String} {values : List Identifier} {a : Analysis}
    (clean : (enumValues earlier values a).errors = []) : a.errors = [] := by
  induction values generalizing earlier a with
  | nil => exact clean
  | cons value others ih => exact (clean_obey (ih clean)).1

theorem clean_enumeration {name : String} {values : List Identifier} {position : Position}
    {a : Analysis} (clean : (enumeration name values position a).errors = []) :
    (a.obey name position (.onEnumeration a.table name position)).errors = [] := by
  simp only [enumeration] at clean
  split at clean
  · exact clean
  · exact clean_enumValues clean

section

variable (declared : String → Bool)

theorem clean_resolve {isCall : Bool} {name : Identifier} {a : Analysis}
    (clean : (resolve declared isCall name a).errors = []) :
    resolve declared isCall name a = a ∧ a.table.lookupAll name.name ≠ [] := by
  unfold resolve at clean ⊢
  split at clean
  case isTrue found =>
    refine ⟨if_pos found, fun missing => ?_⟩
    simp [Table.lookup, missing] at found
  case isFalse => exact absurd clean (a.report_not_clean _ _ _)

end

end Analysis

mutual

/-- The names in an expression, those of functions too. -/
def Expr.uses : Expr → List String
  | .symbol name => [name.name]
  | .binary _ left right _ => left.uses ++ right.uses
  | .unary _ operand _ _ => operand.uses
  | .call callee args _ => callee.name :: usesIn args
  | _ => []
termination_by structural e => e

def usesIn : List Expr → List String
  | [] => []
  | e :: others => e.uses ++ usesIn others
termination_by structural es => es

end

namespace Analysis

section

variable (declared : String → Bool)

mutual

/-- An expression without complaint changes nothing, and all its names are found. -/
theorem clean_expr : (e : Expr) → (a : Analysis) → (expr declared e a).errors = [] →
    expr declared e a = a ∧ ∀ name ∈ e.uses, a.table.lookupAll name ≠ []
  | .int .., a, _ | .float .., a, _ | .string .., a, _ | .char .., a, _ | .bool .., a, _ =>
    ⟨rfl, fun _ member => nomatch member⟩
  | .symbol name, a, clean => by
    obtain ⟨same, found⟩ := clean_resolve declared clean
    exact ⟨same, fun other member => List.mem_singleton.mp member ▸ found⟩
  | .binary _ left right _, a, clean => by
    obtain ⟨same, behind⟩ := clean_expr right (expr declared left a) clean
    simp only [expr] at clean ⊢
    rw [same] at clean ⊢
    obtain ⟨here, before⟩ := clean_expr left a clean
    rw [here] at behind ⊢
    refine ⟨rfl, fun name member => ?_⟩
    rcases List.mem_append.mp member with member | member
    · exact before name member
    · exact behind name member
  | .unary _ operand _ _, a, clean => clean_expr operand a clean
  | .call callee args _, a, clean => by
    obtain ⟨same, behind⟩ := clean_exprs args (resolve declared true callee a) clean
    simp only [expr] at clean ⊢
    rw [same] at clean ⊢
    obtain ⟨here, found⟩ := clean_resolve declared clean
    rw [here] at behind ⊢
    refine ⟨rfl, fun name member => ?_⟩
    rcases List.mem_cons.mp member with rfl | member
    · exact found
    · exact behind name member
termination_by structural e => e

theorem clean_exprs : (es : List Expr) → (a : Analysis) → (exprs declared es a).errors = [] →
    exprs declared es a = a ∧ ∀ name ∈ usesIn es, a.table.lookupAll name ≠ []
  | [], a, _ => ⟨rfl, fun _ member => nomatch member⟩
  | e :: others, a, clean => by
    obtain ⟨same, behind⟩ := clean_exprs others (expr declared e a) clean
    simp only [exprs] at clean ⊢
    rw [same] at clean ⊢
    obtain ⟨here, before⟩ := clean_expr e a clean
    rw [here] at behind ⊢
    refine ⟨rfl, fun name member => ?_⟩
    rcases List.mem_append.mp member with member | member
    · exact before name member
    · exact behind name member
termination_by structural es => es

end

theorem clean_optional {e : Option Expr} {a : Analysis}
    (clean : (optional declared e a).errors = []) : optional declared e a = a := by
  cases e with
  | none => rfl
  | some e => exact (clean_expr declared e a clean).1

/-- The test and the change in the head of a loop. -/
theorem clean_heads {test update : Option Expr} {a : Analysis}
    (clean : (optional declared update (optional declared test a)).errors = []) :
    optional declared update (optional declared test a) = a := by
  have same := clean_optional declared clean
  rw [same] at clean ⊢
  exact clean_optional declared clean

mutual

theorem clean_stmt : (s : Stmt) → (a : Analysis) → (stmt declared s a).errors = [] → a.errors = []
  | .variable _ _ initial _, a, clean => by
    have before := (clean_obey clean).1
    rwa [clean_optional declared before] at before
  | .prototype .., a, clean => (clean_obey clean).1
  | .function _ _ ps body _, a, clean =>
    (clean_obey (clean_params (a := Analysis.enter _) (clean_within body _ clean))).1
  | .main body _, a, clean => (clean_obey (clean_within body (Analysis.enter _) clean)).1
  | .enumeration .., a, clean => (clean_obey (clean_enumeration clean)).1
  | .block body, a, clean => clean_block body a clean
  | .branch e yes none _, a, clean => by
    have before := clean_block yes _ clean
    rwa [(clean_expr declared e a before).1] at before
  | .branch e yes (some no) _, a, clean => by
    have before := clean_block yes _ (clean_block no _ clean)
    rwa [(clean_expr declared e a before).1] at before
  | .whileLoop e body _, a, clean => by
    have before := clean_block body _ clean
    rwa [(clean_expr declared e a before).1] at before
  | .doLoop body e _, a, clean => by
    simp only [stmt] at clean
    have same := (clean_expr declared e _ clean).1
    rw [same] at clean
    exact clean_block body a clean
  | .forLoop none e update body _, a, clean => by
    have before := clean_block body _ clean
    rwa [clean_heads declared before] at before
  | .forLoop (some initial) e update body _, a, clean => by
    have before := clean_block body _ clean
    rw [clean_heads declared before] at before
    exact clean_stmt initial a.enter before
  | .switch e cases none _, a, clean => by
    have before := clean_arms cases _ clean
    rwa [(clean_expr declared e a before).1] at before
  | .switch e cases (some fallback) _, a, clean => by
    have before := clean_arms cases _ (clean_block fallback _ clean)
    rwa [(clean_expr declared e a before).1] at before
  | .giveBack value _, a, clean => by
    simp only [stmt] at clean
    rwa [clean_optional declared clean] at clean
  | .print args _, a, clean => by
    simp only [stmt] at clean
    rwa [(clean_exprs declared args a clean).1] at clean
  | .evaluate e _, a, clean => by
    simp only [stmt] at clean
    rwa [(clean_expr declared e a clean).1] at clean
  | .leave _, _, clean | .inclusion .., _, clean => clean
termination_by structural s => s

theorem clean_block : (body : Block) → (a : Analysis) → (block declared body a).errors = [] →
    a.errors = []
  | ⟨body, _⟩, a, clean => clean_stmts body a.enter clean
termination_by structural body => body

theorem clean_within : (body : Block) → (a : Analysis) → (within declared body a).errors = [] →
    a.errors = []
  | ⟨body, _⟩, a, clean => clean_stmts body a clean
termination_by structural body => body

theorem clean_stmts : (body : List Stmt) → (a : Analysis) → (stmts declared body a).errors = [] →
    a.errors = []
  | [], _, clean => clean
  | s :: others, a, clean => clean_stmt s a (clean_stmts others _ clean)
termination_by structural body => body

theorem clean_arms : (cases : List Case) → (a : Analysis) → (arms declared cases a).errors = [] →
    a.errors = []
  | [], _, clean => clean
  | ⟨value, body, _⟩ :: others, a, clean => by
    have before := clean_block body _ (clean_arms others _ clean)
    rwa [(clean_expr declared value a before).1] at before
termination_by structural cases => cases

end

end

end Analysis
end Curly
