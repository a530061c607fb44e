import Curly.Proofs.Scope.Lockstep

/-! The moments at which the analyzer and the type checker come to an expression, in the order of
their walk, and what both of them find there. -/
namespace Curly

/-- An expression with the table in which its names are looked up, by the analyzer and by the
checker. -/
structure Visit where
  expr : Expr
  analyzed : Table
  checked : Table

section

variable (declared : String → Bool)

namespace Visit

def ofOptional : Option Expr → Analysis → Checker → List Visit
  | none, _, _ => []
  | some e, a, c => [⟨e, a.table, c.table⟩]

def ofAll : List Expr → Analysis → Checker → List Visit
  | [], _, _ => []
  | e :: others, a, c =>
    ⟨e, a.table, c.table⟩ :: ofAll others (Analysis.expr declared e a) (Checker.value e c)

end Visit

mutual

def Stmt.visits : Stmt → Analysis → Checker → List Visit
  | .variable _ _ initial _, a, c => Visit.ofOptional initial a c
  | .function ty name ps body span, a, c =>
    let a := a.obey name span.start (.onFunction a.table ty name (signature ps) span.start)
    let c := Checker.declareFunction name ty (signature ps) span.start c
    body.visits (Analysis.params [] ps a.enter)
      (Checker.begin ⟨name, ty, false, false⟩ (Checker.params ps c.enter))
  | .main body span, a, c =>
    body.visits (a.obey "main" span.start (.onMain a.table span.start)).enter
      (Checker.begin ⟨"main", .int, true, false⟩
        (Checker.declareFunction "main" .int [] span.start c).enter)
  | .block body, a, c => body.visits a.enter c.enter
  | .branch e yes no span, a, c =>
    let tried := Analysis.expr declared e a
    let checked := Checker.condition "if" span.start e c
    ⟨e, a.table, c.table⟩ :: yes.visits tried.enter checked.enter ++
      match no with
      | none => []
      | some no =>
        no.visits (Analysis.block declared yes tried).enter (Checker.block yes checked).enter
  | .whileLoop e body span, a, c =>
    ⟨e, a.table, c.table⟩ :: body.visits (Analysis.expr declared e a).enter
      (Checker.condition "while" span.start e c).deeper.enter
  | .doLoop body e _, a, c =>
    body.visits a.enter c.deeper.enter ++
      [⟨e, (Analysis.block declared body a).table, (Checker.block body c.deeper).shallower.table⟩]
  | .forLoop initial e update body span, a, c =>
    let begun := match initial with
      | none => a.enter
      | some initial => Analysis.stmt declared initial a.enter
    let checked := match initial with
      | none => c.enter
      | some initial => Checker.stmt initial c.enter
    let tried := Analysis.optional declared e begun
    let tested := match e with
      | none => checked
      | some e => Checker.condition "for" span.start e checked
    let changed := match update with
      | none => tested
      | some update => Checker.expr update tested
    (match initial with
      | none => []
      | some initial => initial.visits a.enter c.enter) ++
      Visit.ofOptional e begun checked ++ Visit.ofOptional update tried tested ++
      body.visits (Analysis.optional declared update tried).enter changed.deeper.enter
  | .switch e cases fallback _, a, c =>
    let tried := Analysis.expr declared e a
    let (ty, checked) := Checker.subject e c
    ⟨e, a.table, c.table⟩ :: armsVisits cases ty tried checked.deeper ++
      match fallback with
      | none => []
      | some fallback =>
        fallback.visits (Analysis.arms declared cases tried).enter
          (Checker.arms ty cases checked.deeper).enter
  | .giveBack value _, a, c => Visit.ofOptional value a c
  | .print args _, a, c => Visit.ofAll declared args a c
  | .evaluate e _, a, c => [⟨e, a.table, c.table⟩]
  | .prototype .., _, _ | .enumeration .., _, _ | .leave _, _, _ | .inclusion .., _, _ => []
termination_by structural s => s

def Block.visits : Block → Analysis → Checker → List Visit
  | ⟨body, _⟩, a, c => bodyVisits body a c
termination_by structural body => body

def bodyVisits : List Stmt → Analysis → Checker → List Visit
  | [], _, _ => []
  | s :: others, a, c =>
    s.visits a c ++ bodyVisits others (Analysis.stmt declared s a) (Checker.stmt s c)
termination_by structural body => body

def armsVisits : List Case → Ty → Analysis → Checker → List Visit
  | [], _, _, _ => []
  | ⟨value, body, _⟩ :: others, ty, a, c =>
    let tried := Analysis.expr declared value a
    let checked := Checker.caseValue ty value c
    ⟨value, a.table, c.table⟩ :: body.visits tried.enter checked.enter ++
      armsVisits others ty (Analysis.block declared body tried) (Checker.block body checked)
termination_by structural cases => cases

end

end

/-- Both tables are the same but for prototypes, and every name of the expression stands for
something. -/
structure Visit.Resolved (v : Visit) : Prop where
  same : v.checked = v.analyzed.settled
  found : ∀ name ∈ v.expr.uses, v.analyzed.lookupAll name ≠ []

/-- What the analyzer finds is found by the type checker. -/
theorem Visit.Resolved.checked {v : Visit} (resolved : v.Resolved) :
    ∀ name ∈ v.expr.uses, v.checked.lookupAll name ≠ [] := by
  intro name used
  rw [resolved.same, Table.lookupAll_settled, ne_eq, List.map_eq_nil_iff]
  exact resolved.found name used

/-- Visits that resolve everything, with the states of both walks behind them. -/
structure Walked (visits : List Visit) (a : Analysis) (c : Checker) : Prop where
  ends : Alongside a c
  resolved : ∀ v ∈ visits, v.Resolved

namespace Walked

variable {visits others : List Visit} {a b : Analysis} {c d : Checker}

theorem none (same : Alongside a c) : Walked [] a c :=
  ⟨same, fun _ member => nomatch member⟩

theorem append (first : Walked visits a c) (second : Walked others b d) :
    Walked (visits ++ others) b d := by
  refine ⟨second.ends, fun v member => ?_⟩
  rcases List.mem_append.mp member with member | member
  · exact first.resolved v member
  · exact second.resolved v member

theorem of_table (walked : Walked visits a c) (same : Alongside b d) : Walked visits b d :=
  ⟨same, walked.resolved⟩

end Walked

section

variable (declared : String → Bool)

theorem walked_expr {e : Expr} {a : Analysis} {c : Checker} (same : Alongside a c)
    (clean : (Analysis.expr declared e a).errors = []) :
    Analysis.expr declared e a = a ∧ Walked [⟨e, a.table, c.table⟩] a c := by
  obtain ⟨kept, found⟩ := Analysis.clean_expr declared e a clean
  refine ⟨kept, same, fun v member => ?_⟩
  obtain rfl := List.mem_singleton.mp member
  exact ⟨same, found⟩

theorem walked_optional {e : Option Expr} {a : Analysis} {c : Checker} (same : Alongside a c)
    (clean : (Analysis.optional declared e a).errors = []) :
    Analysis.optional declared e a = a ∧ Walked (Visit.ofOptional e a c) a c := by
  cases e with
  | none => exact ⟨rfl, .none same⟩
  | some e => exact walked_expr declared same clean

theorem walked_exprs {es : List Expr} {a : Analysis} {c : Checker} (same : Alongside a c)
    (clean : (Analysis.exprs declared es a).errors = []) :
    Analysis.exprs declared es a = a ∧ Walked (Visit.ofAll declared es a c) a c := by
  induction es generalizing a c with
  | nil => exact ⟨rfl, .none same⟩
  | cons e others ih =>
    obtain ⟨kept, -⟩ := Analysis.clean_exprs declared (e :: others) a clean
    have rest := (Analysis.clean_exprs declared others (Analysis.expr declared e a) clean).1
    have before : (Analysis.expr declared e a).errors = [] := rest ▸ clean
    obtain ⟨here, first⟩ := walked_expr declared same before
    have clean : (Analysis.exprs declared others a).errors = [] := by rwa [← here]
    refine ⟨kept, ?_⟩
    rw [Visit.ofAll, here]
    exact first.append ((ih (c := Checker.value e c) same clean).2.of_table same)

theorem walked_heads {e u : Option Expr} {a : Analysis} {c : Checker} (span : Span)
    (same : Alongside a c) :
    let tested := match e with
      | none => c
      | some e => Checker.condition "for" span.start e c
    let changed := match u with
      | none => tested
      | some u => Checker.expr u tested
    (Analysis.optional declared u (Analysis.optional declared e a)).errors = [] →
    Analysis.optional declared e a = a ∧ Analysis.optional declared u a = a ∧
      Walked (Visit.ofOptional e a c ++ Visit.ofOptional u a tested) a changed := by
  intro tested changed clean
  have before : (Analysis.optional declared e a).errors = [] :=
    Analysis.clean_optional declared clean ▸ clean
  obtain ⟨kept, first⟩ := walked_optional declared same before
  rw [kept] at clean
  have middle : Alongside a tested := by
    cases e with
    | none => exact same
    | some e => exact (Checker.table_condition ..).trans same
  obtain ⟨also, second⟩ := walked_optional declared middle clean
  refine ⟨kept, also, (first.append second).of_table ?_⟩
  cases u with
  | none => exact middle
  | some u => exact middle

mutual

theorem walked_stmt : (s : Stmt) → (a : Analysis) → (c : Checker) → Alongside a c →
    (Analysis.stmt declared s a).errors = [] →
    Walked (s.visits declared a c) (Analysis.stmt declared s a) (Checker.stmt s c)
  | .variable ty name initial span, a, c, same, clean => by
    have before := (Analysis.clean_obey clean).1
    obtain ⟨kept, walked⟩ := walked_optional declared same before
    simp only [Analysis.stmt, kept] at clean ⊢
    refine walked.of_table ?_
    have ends := same.onVariable clean
    rw [Alongside] at ends ⊢
    rw [← ends]
    exact Checker.table_variableStatement ..
  | .prototype .., a, c, same, clean => .none (same.onPrototype clean)
  | .function ty name ps body span, a, c, same, clean => by
    have inside := Analysis.clean_within declared body _ clean
    have begun := Analysis.clean_params inside
    have entered := (same.onFunction begun).enter.params inside
    have walked := walked_within body _ (Checker.begin ⟨name, ty, false, false⟩ _) entered clean
    exact walked.of_table walked.ends.exit
  | .main body span, a, c, same, clean => by
    have begun := Analysis.clean_within declared body _ clean
    have entered := (same.onMain begun).enter
    have walked := walked_within body _ (Checker.begin ⟨"main", .int, true, false⟩
      (Checker.declareFunction "main" .int [] span.start c).enter) entered clean
    exact walked.of_table walked.ends.exit
  | .enumeration .., a, c, same, clean => .none (same.enumeration clean)
  | .block body, a, c, same, clean => walked_block body a c same clean
  | .branch e yes none span, a, c, same, clean => by
    obtain ⟨kept, first⟩ := walked_expr declared same (Analysis.clean_block declared yes _ clean)
    simp only [Analysis.stmt, Stmt.visits, kept, List.append_nil] at clean ⊢
    have tested : Alongside a (Checker.condition "if" span.start e c) :=
      (Checker.table_condition ..).trans same
    exact first.append (walked_block yes a _ tested clean)
  | .branch e yes (some no) span, a, c, same, clean => by
    have before := Analysis.clean_block declared no _ clean
    obtain ⟨kept, first⟩ := walked_expr declared same (Analysis.clean_block declared yes _ before)
    simp only [Analysis.stmt, Stmt.visits, kept] at before clean ⊢
    have tested : Alongside a (Checker.condition "if" span.start e c) :=
      (Checker.table_condition ..).trans same
    have second := walked_block yes a _ tested before
    exact (first.append second).append (walked_block no _ _ second.ends clean)
  | .whileLoop e body span, a, c, same, clean => by
    obtain ⟨kept, first⟩ := walked_expr declared same (Analysis.clean_block declared body _ clean)
    simp only [Analysis.stmt, Stmt.visits, kept] at clean ⊢
    have tested : Alongside a (Checker.condition "while" span.start e c).deeper :=
      (Checker.table_condition ..).trans same
    have second := walked_block body a _ tested clean
    exact (first.append second).of_table second.ends
  | .doLoop body e span, a, c, same, clean => by
    simp only [Analysis.stmt, Stmt.visits] at clean ⊢
    have before : (Analysis.block declared body a).errors = [] :=
      (Analysis.clean_expr declared e _ clean).1 ▸ clean
    have first := walked_block body a c.deeper same before
    obtain ⟨kept, second⟩ := walked_expr declared first.ends clean
    rw [kept]
    exact (first.append second).of_table ((Checker.table_condition ..).trans first.ends)
  | .forLoop none e update body span, a, c, same, clean => by
    obtain ⟨kept, also, first⟩ := walked_heads declared span (e := e) (u := update) same.enter
      (Analysis.clean_block declared body _ clean)
    simp only [Analysis.stmt, Stmt.visits, kept, also, List.nil_append] at clean ⊢
    have second := walked_block body _ (Checker.deeper _) first.ends clean
    exact (first.append second).of_table second.ends.exit
  | .forLoop (some initial) e update body span, a, c, same, clean => by
    have inside := Analysis.clean_block declared body _ clean
    have begun : (Analysis.stmt declared initial a.enter).errors = [] :=
      Analysis.clean_heads declared inside ▸ inside
    have start := walked_stmt initial a.enter c.enter same.enter begun
    obtain ⟨kept, also, first⟩ :=
      walked_heads declared span (e := e) (u := update) start.ends inside
    simp only [Analysis.stmt, Stmt.visits, kept, also] at clean ⊢
    have second := walked_block body _ (Checker.deeper _) first.ends clean
    have whole := (start.append first).append second
    rw [← List.append_assoc] at whole
    exact whole.of_table second.ends.exit
  | .switch e cases none span, a, c, same, clean => by
    obtain ⟨kept, first⟩ := walked_expr declared same (Analysis.clean_arms declared cases _ clean)
    simp only [Analysis.stmt, Stmt.visits, kept, List.append_nil] at clean ⊢
    have chosen : Alongside a (Checker.subject e c).2.deeper :=
      (Checker.table_subject e c).trans same
    have second := walked_arms cases (Checker.subject e c).1 a _ chosen clean
    exact (first.append second).of_table second.ends
  | .switch e cases (some fallback) span, a, c, same, clean => by
    have before := Analysis.clean_block declared fallback _ clean
    obtain ⟨kept, first⟩ := walked_expr declared same (Analysis.clean_arms declared cases _ before)
    simp only [Analysis.stmt, Stmt.visits, kept] at before clean ⊢
    have chosen : Alongside a (Checker.subject e c).2.deeper :=
      (Checker.table_subject e c).trans same
    have second := walked_arms cases (Checker.subject e c).1 a _ chosen before
    have third := walked_block fallback _ _ second.ends clean
    exact ((first.append second).append third).of_table third.ends
  | .giveBack value span, a, c, same, clean => by
    obtain ⟨kept, walked⟩ := walked_optional declared same clean
    simp only [Analysis.stmt, Stmt.visits, kept]
    exact walked.of_table ((Checker.table_giveBack ..).trans same)
  | .print args span, a, c, same, clean => by
    obtain ⟨kept, walked⟩ := walked_exprs declared same clean
    simp only [Analysis.stmt, Stmt.visits, kept]
    exact walked.of_table ((Checker.table_values args c).trans same)
  | .evaluate e span, a, c, same, clean => by
    obtain ⟨kept, walked⟩ := walked_expr declared same clean
    simp only [Analysis.stmt, Stmt.visits, kept]
    exact walked.of_table same
  | .leave span, a, c, same, clean => .none ((Checker.table_leave ..).trans same)
  | .inclusion .., a, c, same, _ => .none same
termination_by structural s => s

theorem walked_block : (body : Block) → (a : Analysis) → (c : Checker) → Alongside a c →
    (Analysis.block declared body a).errors = [] →
    Walked (body.visits declared a.enter c.enter) (Analysis.block declared body a)
      (Checker.block body c)
  | ⟨body, _⟩, a, c, same, clean => by
    have walked := walked_stmts body a.enter c.enter same.enter clean
    exact walked.of_table walked.ends.exit
termination_by structural body => body

theorem walked_within : (body : Block) → (a : Analysis) → (c : Checker) → Alongside a c →
    (Analysis.within declared body a).errors = [] →
    Walked (body.visits declared a c) (Analysis.within declared body a) (Checker.within body c)
  | ⟨body, _⟩, a, c, same, clean => walked_stmts body a c same clean
termination_by structural body => body

theorem walked_stmts : (body : List Stmt) → (a : Analysis) → (c : Checker) → Alongside a c →
    (Analysis.stmts declared body a).errors = [] →
    Walked (bodyVisits declared body a c) (Analysis.stmts declared body a) (Checker.stmts body c)
  | [], _, _, same, _ => .none same
  | s :: others, a, c, same, clean => by
    have first := walked_stmt s a c same (Analysis.clean_stmts declared others _ clean)
    exact first.append (walked_stmts others _ _ first.ends clean)
termination_by structural body => body

theorem walked_arms : (cases : List Case) → (ty : Ty) → (a : Analysis) → (c : Checker) →
    Alongside a c → (Analysis.arms declared cases a).errors = [] →
    Walked (armsVisits declared cases ty a c) (Analysis.arms declared cases a)
      (Checker.arms ty cases c)
  | [], _, _, _, same, _ => .none same
  | ⟨value, body, _⟩ :: others, ty, a, c, same, clean => by
    have before := Analysis.clean_arms declared others _ clean
    obtain ⟨kept, first⟩ := walked_expr declared same (Analysis.clean_block declared body _ before)
    simp only [Analysis.arms, armsVisits, kept] at before clean ⊢
    have fitted : Alongside a (Checker.caseValue ty value c) :=
      (Checker.table_caseValue ty value c).trans same
    have second := walked_block body a _ fitted before
    exact (first.append second).append (walked_arms others ty _ _ second.ends clean)
termination_by structural cases => cases

end

end

def Program.visits (p : Program) : List Visit :=
  bodyVisits (isDeclared (declarations p.body)) p.body .empty .empty

theorem Program.walked {p : Program} (clean : (analyze p).errors = []) :
    Walked p.visits (analyze p) (Checker.stmts p.body .empty) := by
  have start : Alongside .empty .empty := by
    simp [Alongside, Analysis.empty, Checker.empty, Table.empty, Table.settled, Frame.settled]
  exact walked_stmts _ p.body .empty .empty start clean

/-- The type checker rebuilds the table of the analyzer, prototypes taken for definitions, if the
analyzer has no complaint. Wherever it looks at an expression, it finds for every name the symbols
that the analyzer found there, and there are some. -/
theorem checker_follows_analyzer (p : Program) (clean : (analyze p).errors = []) :
    (Checker.stmts p.body .empty).table = (analyze p).table.settled ∧
      ∀ v ∈ p.visits, v.checked = v.analyzed.settled ∧ ∀ name ∈ v.expr.uses,
        v.analyzed.lookupAll name ≠ [] ∧
          v.checked.lookupAll name = (v.analyzed.lookupAll name).map Symbol.completed := by
  obtain ⟨ends, resolved⟩ := Program.walked clean
  refine ⟨ends, fun v member => ?_⟩
  obtain ⟨same, found⟩ := resolved v member
  refine ⟨same, fun name used => ⟨found name used, ?_⟩⟩
  rw [same, Table.lookupAll_settled]

/-- A prototype with its definition, an enumeration, and a variable that hides another one. -/
def hidingProgram (span : Span) : Program :=
  let a : Param := ⟨.int, "a", span⟩
  let name (text : String) : Expr := .symbol ⟨text, span⟩
  ⟨[.prototype .int "f" [a] span,
    .enumeration "Color" [⟨"RED", span⟩, ⟨"GREEN", span⟩] span span,
    .function .int "f" [a]
      ⟨[.giveBack (some (.binary .add (name "a") (name "GREEN") span)) span], span⟩ span,
    .main ⟨[
      .variable .int "x" (some (.call ⟨"f", span⟩ [.int 1 span] span)) span,
      .block ⟨[.variable .int "x" (some (name "x")) span, .print [name "x"] span], span⟩], span⟩
      span], span⟩

theorem checker_follows_hiding :
    (Checker.stmts (hidingProgram default).body .empty).table =
        (analyze (hidingProgram default)).table.settled ∧
      ∀ v ∈ (hidingProgram default).visits, v.checked = v.analyzed.settled ∧ ∀ name ∈ v.expr.uses,
        v.analyzed.lookupAll name ≠ [] ∧
          v.checked.lookupAll name = (v.analyzed.lookupAll name).map Symbol.completed :=
  checker_follows_analyzer (hidingProgram default) (by decide +kernel)

end Curly
