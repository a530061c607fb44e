import Curly.Proofs.Grammar.Declared
import Curly.Proofs.Typing.Complaints
import Curly.Proofs.Typing.Held
import Mathlib.Data.List.Basic

/-! Variables without a type of value. The type checker does not accept a variable that is declared
`void`, but it does not look at the parameters of a definition, so `void` parameters are the only
such variables of an accepted program. -/
namespace Curly

namespace Stmt

/-- The statement declares a variable that holds no value. -/
def declaresVoid : Stmt → Bool
  | .variable ty .. => ty = .void
  | _ => false

end Stmt

/-- No statement declares a variable that holds no value. -/
def NoVoid (body : List Stmt) : Prop :=
  ∀ s ∈ body, s.declaresVoid = false

theorem noVoid_append {first second : List Stmt} (before : NoVoid first) (behind : NoVoid second) :
    NoVoid (first ++ second) :=
  List.forall_mem_append.mpr ⟨before, behind⟩

theorem noVoid_cons {s : Stmt} {others : List Stmt} (first : s.declaresVoid = false)
    (behind : NoVoid others) : NoVoid (s :: others) :=
  List.forall_mem_cons.mpr ⟨first, behind⟩

theorem noVoid_nil : NoVoid [] :=
  fun _ => nofun

namespace Checker

mutual

theorem noVoid_stmt : (s : Stmt) → (c : Checker) → (stmt s c).errors = [] → NoVoid (s :: s.inner)
  | .variable .., _, clean =>
    noVoid_cons (decide_eq_false ((errors_variableStatement_iff ..).mp clean).2.1) noVoid_nil
  | .function _ _ _ body _, _, clean =>
    noVoid_cons rfl (noVoid_within body _ (List.append_eq_nil_iff.mp clean).1)
  | .main body _, _, clean => noVoid_cons rfl (noVoid_within body _ clean)
  | .block body, c, clean => noVoid_cons rfl (noVoid_block body c clean)
  | .branch _ yes none _, _, clean =>
    noVoid_cons rfl (noVoid_append (noVoid_block yes _ clean) noVoid_nil)
  | .branch _ yes (some no) _, _, clean =>
    noVoid_cons rfl (noVoid_append (noVoid_block yes _ (inside_scope no _ clean).1)
      (noVoid_block no _ clean))
  | .whileLoop e body span, c, clean =>
    noVoid_cons rfl (noVoid_block body (condition "while" span.start e c).deeper clean)
  | .doLoop body e span, c, clean =>
    noVoid_cons rfl (noVoid_block body c.deeper ((errors_condition_iff ..).mp clean).1)
  | .forLoop none e update body span, c, clean =>
    noVoid_cons rfl (noVoid_block body (heads span.start e update c.enter).deeper clean)
  | .forLoop (some initial) e update body span, c, clean => by
    have before :=
      (inside_deeper body (heads span.start e update (stmt initial c.enter)) clean).1
    exact noVoid_cons rfl (noVoid_append (noVoid_stmt initial c.enter (clean_heads before))
      (noVoid_block body (heads span.start e update (stmt initial c.enter)).deeper clean))
  | .switch _ cases none _, _, clean =>
    noVoid_cons rfl (noVoid_append (noVoid_arms cases _ _ (Nat.succ_pos _) clean) noVoid_nil)
  | .switch _ cases (some fallback) _, _, clean =>
    noVoid_cons rfl (noVoid_append
      (noVoid_arms cases _ _ (Nat.succ_pos _) (inside_scope fallback _ clean).1)
      (noVoid_block fallback _ clean))
  | .prototype .., _, _ | .enumeration .., _, _ | .giveBack .., _, _ | .leave _, _, _
  | .print .., _, _ | .evaluate .., _, _ | .inclusion .., _, _ => noVoid_cons rfl noVoid_nil
termination_by structural s => s

theorem noVoid_block : (body : Block) → (c : Checker) → (block body c).errors = [] →
    NoVoid body.statements
  | ⟨body, _⟩, c, clean => noVoid_stmts body c.enter clean
termination_by structural body => body

theorem noVoid_within : (body : Block) → (c : Checker) → (within body c).errors = [] →
    NoVoid body.statements
  | ⟨body, _⟩, c, clean => noVoid_stmts body c clean
termination_by structural body => body

theorem noVoid_stmts : (body : List Stmt) → (c : Checker) → (stmts body c).errors = [] →
    NoVoid (bodyStatements body)
  | [], _, _ => noVoid_nil
  | s :: others, c, clean => noVoid_append
    (noVoid_stmt s c (inside_stmts others _ clean).1) (noVoid_stmts others _ clean)
termination_by structural body => body

theorem noVoid_arms : (cases : List Case) → (ty : Ty) → (c : Checker) → 0 < c.depth →
    (arms ty cases c).errors = [] → NoVoid (armsStatements cases)
  | [], _, _, _, _ => noVoid_nil
  | ⟨value, body, _⟩ :: others, ty, c, deep, clean => by
    have kept : 0 < (block body (caseValue ty value c)).depth := by
      rwa [(around_block body _).depth, (around_caseValue ty value c).depth]
    exact noVoid_append (noVoid_block body _ (inside_arms others ty _ kept clean).1)
      (noVoid_arms others ty _ kept clean)
termination_by structural cases => cases

end

end Checker

namespace Stmt

theorem void_symbols : (s : Stmt) → s.declaresVoid = false →
    (s.symbols.filter Symbol.isVariable).filter (·.ty = .void) =
      (s.parameters.map Param.symbol).filter (·.ty = .void)
  | .variable .., value => by
    simp [symbols, parameters, Symbol.ofVariable, Symbol.isVariable, of_decide_eq_false value]
  | .function _ name ps _ _, _ => by
    have params : (ps.map Param.symbol).filter Symbol.isVariable = ps.map Param.symbol :=
      List.filter_eq_self.mpr (List.forall_mem_map.mpr fun _ _ => rfl)
    rw [symbols, List.filter_cons_of_neg Bool.false_ne_true, params, parameters]
  | .enumeration name values _ span, _ => by
    have none : (values.map Identifier.enumValue).filter Symbol.isVariable = [] :=
      List.filter_eq_nil_iff.mpr (List.forall_mem_map.mpr fun _ _ => Bool.false_ne_true)
    rw [symbols, List.filter_cons_of_neg Bool.false_ne_true, none]
    rfl
  | .prototype .., _ | .main .., _ | .block _, _ | .branch .., _ | .whileLoop .., _
  | .doLoop .., _ | .forLoop .., _ | .switch .., _ | .giveBack .., _ | .leave _, _ | .print .., _
  | .evaluate .., _ | .inclusion .., _ => rfl

end Stmt

namespace Program

/-- The variables that the type checker holds are those that are declared, by statements and as
parameters of definitions, each as often as it is declared. -/
theorem variableSymbols_checked (p : Program) :
    (Checker.stmts p.body .empty).table.variableSymbols.Perm (p.symbols.filter Symbol.isVariable) :=
  (Checker.gains_stmts (fun _ => false) p.body .empty .empty Table.linked_empty rfl).variableSymbols

/-- So are those of the analyzer, if it has no complaint. -/
theorem variableSymbols_analyzed {p : Program} (clean : (analyze p).errors = []) :
    (analyze p).table.variableSymbols.Perm (p.symbols.filter Symbol.isVariable) := by
  have same := (checker_follows_analyzer p clean).1
  rw [← Table.variableSymbols_settled, ← same]
  exact p.variableSymbols_checked

/-- Without complaints, a declared variable without a value is a parameter of a definition. -/
theorem void_declared {p : Program} (typed : typeCheck p = []) :
    (p.symbols.filter Symbol.isVariable).filter (·.ty = .void) =
      ((p.statements.flatMap Stmt.parameters).map Param.symbol).filter (·.ty = .void) := by
  have noVoid := Checker.noVoid_stmts p.body .empty typed
  simp only [symbols, List.filter_flatMap, List.map_flatMap]
  exact List.flatMap_congr fun s member => s.void_symbols (noVoid s member)

/-- In all frames of both tables of an accepted program, the variables without a value are the
parameters without a value of its definitions. So there are none just if no definition has such a
parameter. -/
theorem void_variables {p : Program} (clean : (analyze p).errors = []) (typed : typeCheck p = []) :
    ∀ t ∈ [(analyze p).table, (Checker.stmts p.body .empty).table],
      (t.variableSymbols.filter (·.ty = .void)).Perm
          (((p.statements.flatMap Stmt.parameters).map Param.symbol).filter (·.ty = .void)) ∧
        ((∀ f ∈ t.frames, ∀ s ∈ f.symbols, s.isVariable → s.ty ≠ .void) ↔
          ∀ s ∈ p.statements, ∀ q ∈ s.parameters, q.ty ≠ .void) := by
  intro t either
  have declared : t.variableSymbols.Perm (p.symbols.filter Symbol.isVariable) := by
    rcases List.mem_pair.mp either with rfl | rfl
    · exact variableSymbols_analyzed clean
    · exact p.variableSymbols_checked
  have perm := declared.filter (·.ty = .void)
  rw [void_declared typed] at perm
  have held (s : Symbol) := perm.mem_iff (a := s)
  simp only [Table.variableSymbols, List.mem_filter, List.mem_map, List.mem_flatMap,
    Table.mem_symbols_iff, decide_eq_true_eq] at held
  refine ⟨perm, ?_, ?_⟩
  · intro none s member q param void
    obtain ⟨⟨⟨f, listed, here⟩, isVariable⟩, -⟩ :=
      (held q.symbol).mpr ⟨⟨q, ⟨s, member, param⟩, rfl⟩, void⟩
    exact none f listed _ here isVariable void
  · intro none f listed s here isVariable void
    obtain ⟨⟨q, ⟨x, member, param⟩, rfl⟩, -⟩ :=
      (held s).mp ⟨⟨⟨f, listed, here⟩, isVariable⟩, void⟩
    exact none x member q param void

end Program

/-- Functions with and without parameters, and a variable in the head of a loop. -/
def valued : String :=
  "void f(void) \x7b \x7d\nint g(int a, double b) \x7b int x = a; return x; \x7d\n" ++
  "main \x7b for (int i = 0; i < 3; i++) \x7b g(i, 1); \x7d \x7d\n"

theorem valued_accepted : ∃ p, readProgram valued = .ok p ∧ (analyze p).errors = [] ∧
    typeCheck p = [] ∧ ∀ t ∈ [(analyze p).table, (Checker.stmts p.body .empty).table],
      ∀ f ∈ t.frames, ∀ s ∈ f.symbols, s.isVariable → s.ty ≠ .void := by
  have accepted : (readProgram valued).toOption.any fun p => (analyze p).errors.isEmpty &&
      (typeCheck p).isEmpty && p.statements.all fun s => s.parameters.all (·.ty != .void) := by
    decide +kernel
  obtain ⟨p, read, facts⟩ := exists_of_readProgram accepted
  obtain ⟨⟨clean, typed⟩, plain⟩ : ((analyze p).errors = [] ∧ typeCheck p = []) ∧
      ∀ s ∈ p.statements, ∀ q ∈ s.parameters, q.ty ≠ .void := by simpa using facts
  exact ⟨p, read, clean, typed, fun t either =>
    (Program.void_variables clean typed t either).2.mpr plain⟩

/-- A function with a parameter that holds no value. -/
def voided : String :=
  "void f(void x) \x7b \x7d main \x7b \x7d"

/-- Both tables hold the parameter. -/
theorem voided_held : ∃ p, readProgram voided = .ok p ∧ (analyze p).errors = [] ∧
    typeCheck p = [] ∧ ∀ t ∈ [(analyze p).table, (Checker.stmts p.body .empty).table],
      ∃ f ∈ t.frames, ∃ s ∈ f.symbols, s.isVariable ∧ s.ty = .void := by
  have accepted : (readProgram voided).toOption.any fun p => (analyze p).errors.isEmpty &&
      (typeCheck p).isEmpty && [(analyze p).table, (Checker.stmts p.body .empty).table].all
        fun t => t.variableSymbols.any (·.ty = .void) := by decide +kernel
  obtain ⟨p, read, facts⟩ := exists_of_readProgram accepted
  obtain ⟨⟨clean, typed⟩, found⟩ : ((analyze p).errors = [] ∧ typeCheck p = []) ∧
      [(analyze p).table, (Checker.stmts p.body .empty).table].all
        fun t => t.variableSymbols.any (·.ty = .void) := by
    simpa only [Bool.and_eq_true, List.isEmpty_iff] using facts
  refine ⟨p, read, clean, typed, fun t either => ?_⟩
  obtain ⟨s, member, void⟩ := List.any_eq_true.mp (List.all_eq_true.mp found t either)
  obtain ⟨held, isVariable⟩ := List.mem_filter.mp member
  obtain ⟨f, listed, here⟩ := Table.mem_symbols_iff.mp held
  exact ⟨f, listed, s, here, isVariable, of_decide_eq_true void⟩

end Curly
