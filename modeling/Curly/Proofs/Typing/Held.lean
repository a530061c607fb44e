import Curly.Proofs.Scope.Globals
import Curly.Proofs.Scope.Occurrences
import Curly.Proofs.Scope.Visits
import Curly.Proofs.Typing.Context
import Curly.Proofs.Typing.WellTyped

/-! The symbols that the type checker holds in all frames of its table. They are those that the
statements of the program stand for, and each variable and parameter is there as often as it is
declared. -/
namespace Curly

namespace Stmt

/-- The parameters of a definition. Those of a prototype are never declared. -/
def parameters : Stmt → List Param
  | .function _ _ ps _ _ => ps
  | _ => []

/-- The symbols that a statement stands for, without those of the statements in it. -/
def symbols : Stmt → List Symbol
  | .variable ty name _ span => [.ofVariable name ty span.start]
  | .prototype ty name ps span => [.ofFunction name ty (signature ps) false span.start]
  | .function ty name ps _ span =>
    .ofFunction name ty (signature ps) false span.start :: ps.map Param.symbol
  | .main _ span => [.ofFunction "main" .int [] false span.start]
  | .enumeration name values _ span =>
    .ofEnumeration name span.start :: values.map Identifier.enumValue
  | .block _ | .branch .. | .whileLoop .. | .doLoop .. | .forLoop .. | .switch .. | .giveBack ..
  | .leave _ | .print .. | .evaluate .. | .inclusion .. => []

end Stmt

/-- What the statements of a program stand for. -/
def Program.symbols (p : Program) : List Symbol :=
  p.statements.flatMap Stmt.symbols

theorem Symbol.plain_of_isVariable {s : Symbol} (isVariable : s.isVariable) :
    s.isFunction = false := by
  cases s with
  | mk name ty position kind => cases kind <;> simp_all [Symbol.isVariable, Symbol.isFunction,
    Symbol.params?]

/-- A change that adds to what one element of a list yields. -/
theorem flatMap_modify_perm {α β : Type} {f : α → List β} {change : α → α} {new : List β}
    (adds : ∀ x, f (change x) = f x ++ new) {xs : List α} {i : Nat} (bound : i < xs.length) :
    ((xs.modify i change).flatMap f).Perm (xs.flatMap f ++ new) := by
  induction xs generalizing i with
  | nil => exact nomatch bound
  | cons x others ih =>
    cases i with
    | zero =>
      simp only [List.modify_zero_cons, List.flatMap_cons, adds, List.append_assoc]
      exact List.perm_append_comm.append_left (f x)
    | succ i =>
      simp only [List.modify_succ_cons, List.flatMap_cons, List.append_assoc]
      exact (ih (Nat.lt_of_succ_lt_succ bound)).append_left (f x)

namespace Table

variable {t : Table}

/-- The symbols of all frames. -/
def symbols (t : Table) : List Symbol :=
  t.frames.toList.flatMap Frame.symbols

theorem mem_symbols_iff {s : Symbol} : s ∈ t.symbols ↔ ∃ f ∈ t.frames, s ∈ f.symbols := by
  simp [symbols, List.mem_flatMap]

theorem mem_symbols_of_scopes {scope : List Symbol} (listed : scope ∈ t.scopes) {s : Symbol}
    (member : s ∈ scope) : s ∈ t.symbols := by
  obtain ⟨id, -, rfl⟩ := List.mem_map.mp listed
  unfold frameSymbols at member
  cases known : t.frame? id with
  | none => simp [known] at member
  | some f =>
    rw [known] at member
    exact mem_symbols_iff.mpr ⟨f, Array.mem_of_getElem? known, member⟩

/-- What a name is found to stand for is in some frame. -/
theorem mem_symbols_of_lookup {name : String} {s : Symbol} (found : t.lookup name = some s) :
    s ∈ t.symbols := by
  have member : s ∈ t.lookupAll name := List.mem_of_head? found
  rw [lookupAll_eq] at member
  obtain ⟨scope, listed, here⟩ := Scopes.mem_of_visible member
  exact mem_symbols_of_scopes listed here

theorem symbols_modify (linked : t.Linked) {change : Frame → Frame} {new : List Symbol}
    (adds : ∀ f, (change f).symbols = f.symbols ++ new) :
    (t.modify change).symbols.Perm (t.symbols ++ new) := by
  have bound : t.current < t.frames.toList.length := linked.present
  rw [symbols, modify, Array.toList_modify]
  exact flatMap_modify_perm adds bound

theorem symbols_declare (linked : t.Linked) (s : Symbol) :
    (t.declare s).symbols.Perm (t.symbols ++ [s]) :=
  symbols_modify linked fun _ => rfl

theorem symbols_enter (linked : t.Linked) : t.enter.symbols.Perm t.symbols := by
  have kept : (t.modify fun f => { f with children := f.children ++ [t.size] }).symbols.Perm
      (t.symbols ++ []) := symbols_modify linked fun f => (List.append_nil _).symm
  simpa [symbols, enter] using kept

theorem symbols_exit : t.exit.symbols = t.symbols := by
  unfold exit
  split <;> rfl

theorem symbols_settled : t.settled.symbols = t.symbols.map Symbol.completed := by
  simp only [symbols, settled, Array.toList_map, List.flatMap_map, List.map_flatMap]
  rfl

/-- The variables in all frames. -/
def variableSymbols (t : Table) : List Symbol :=
  t.symbols.filter Symbol.isVariable

theorem variableSymbols_settled : t.settled.variableSymbols = t.variableSymbols := by
  have same : Symbol.isVariable ∘ Symbol.completed = Symbol.isVariable :=
    funext Symbol.isVariable_completed
  have kept : ∀ s ∈ t.symbols.filter Symbol.isVariable, s.completed = s := fun s member =>
    Symbol.completed_of_plain (Symbol.plain_of_isVariable (List.mem_filter.mp member).2)
  rw [variableSymbols, symbols_settled, List.filter_map, same]
  exact (List.map_congr_left kept).trans (List.map_id _)

/-- From one table to a later one. Only new symbols came in, every new variable among them, and a
visit in between sees no other ones either. -/
structure Gains (visits : List Visit) (new : List Symbol) (t u : Table) : Prop where
  linked : u.Linked
  held : ∀ s ∈ u.symbols, s ∈ t.symbols ∨ s ∈ new
  variableSymbols : u.variableSymbols.Perm (t.variableSymbols ++ new.filter Symbol.isVariable)
  visited : ∀ v ∈ visits, ∀ s ∈ v.checked.symbols, s ∈ t.symbols ∨ s ∈ new

namespace Gains

variable {visits others : List Visit} {new more : List Symbol} {t u v : Table}

theorem refl (linked : t.Linked) : Gains [] [] t t :=
  ⟨linked, fun _ => .inl, by simp, fun _ => nofun⟩

theorem trans (first : Gains visits new t u) (second : Gains others more u v) :
    Gains (visits ++ others) (new ++ more) t v := by
  have before {s : Symbol} (either : s ∈ u.symbols ∨ s ∈ more) :
      s ∈ t.symbols ∨ s ∈ new ++ more := by
    rw [List.mem_append, ← or_assoc]
    exact either.imp_left (first.held s)
  refine ⟨second.linked, fun s member => before (second.held s member), ?_, ?_⟩
  · rw [List.filter_append, ← List.append_assoc]
    exact second.variableSymbols.trans (first.variableSymbols.append_right _)
  · intro x member s seen
    rcases List.mem_append.mp member with member | member
    · rw [List.mem_append, ← or_assoc]
      exact .inl (first.visited x member s seen)
    · exact before (second.visited x member s seen)

/-- Nothing new came in before it. -/
theorem behind (first : Gains [] [] t u) (second : Gains visits new u v) : Gains visits new t v :=
  first.trans second

/-- Nothing new came in after it. -/
theorem before (first : Gains visits new t u) (second : Gains [] [] u v) :
    Gains visits new t v := by
  simpa using first.trans second

theorem visit (linked : t.Linked) (x : Visit) (seen : x.checked = t) : Gains [x] [] t t := by
  refine ⟨linked, fun _ => .inl, by simp, ?_⟩
  rw [List.forall_mem_singleton, seen]
  exact fun _ => .inl

theorem enter (linked : t.Linked) : Gains [] [] t t.enter := by
  have same := symbols_enter linked
  refine ⟨linked.enter, fun s member => .inl (same.mem_iff.mp member), ?_, fun _ => nofun⟩
  rw [List.filter_nil, List.append_nil]
  exact same.filter _

theorem exit (gains : Gains visits new t u) : Gains visits new t u.exit := by
  refine ⟨gains.linked.exit, ?_, ?_, gains.visited⟩
  · rw [symbols_exit]
    exact gains.held
  · rw [Table.variableSymbols, symbols_exit]
    exact gains.variableSymbols

theorem declare (linked : t.Linked) (s : Symbol) : Gains [] [s] t (t.declare s) := by
  have added := symbols_declare linked s
  refine ⟨linked.modify _, ?_, ?_, fun _ => nofun⟩
  · intro other member
    exact List.mem_append.mp (added.mem_iff.mp member)
  · rw [Table.variableSymbols, Table.variableSymbols, ← List.filter_append]
    exact added.filter _

/-- What is no variable need not come in. -/
theorem spare (linked : t.Linked) {new : List Symbol} (other : ∀ s ∈ new, s.isVariable = false) :
    Gains [] new t t := by
  have none : new.filter Symbol.isVariable = [] := by simpa [List.filter_eq_nil_iff] using other
  exact ⟨linked, fun _ => .inl, by simp [none], fun _ => nofun⟩

end Gains
end Table

open Table

namespace Checker

theorem gains_declareFunction {c : Checker} (linked : c.table.Linked) (name : String) (ty : Ty)
    (params : List Ty) (position : Position) :
    Gains [] [.ofFunction name ty params false position] c.table
      (declareFunction name ty params position c).table := by
  unfold declareFunction
  split
  · exact .spare linked (List.forall_mem_singleton.mpr rfl)
  · exact .declare linked _

theorem gains_params {c : Checker} (linked : c.table.Linked) (ps : List Param) :
    Gains [] (ps.map Param.symbol) c.table (params ps c).table := by
  induction ps generalizing c with
  | nil => exact .refl linked
  | cons p others ih =>
    have first := Gains.declare linked p.symbol
    exact first.trans (ih (c := c.declare p.symbol) first.linked)

theorem gains_enumValues {c : Checker} (linked : c.table.Linked) (values : List Identifier) :
    Gains [] (values.map Identifier.enumValue) c.table (enumValues values c).table := by
  induction values generalizing c with
  | nil => exact .refl linked
  | cons value others ih =>
    have first : Gains [] [value.enumValue] c.table (if (c.table.lookup value.name).isSome then c
        else c.declare value.enumValue).table := by
      split
      · exact .spare linked (List.forall_mem_singleton.mpr rfl)
      · exact .declare linked _
    exact first.trans (ih first.linked)

theorem gains_enumeration {c : Checker} (linked : c.table.Linked) (name : String)
    (values : List Identifier) (position : Position) :
    Gains [] (.ofEnumeration name position :: values.map Identifier.enumValue) c.table
      (enumeration name values position c).table := by
  unfold enumeration
  split
  · exact .spare linked (List.forall_mem_cons.mpr ⟨rfl, List.forall_mem_map.mpr fun _ _ => rfl⟩)
  · have first := Gains.declare linked (.ofEnumeration name position)
    exact first.trans (gains_enumValues (c := c.declare _) first.linked values)

section

variable (declared : String → Bool)

theorem gains_optional {c : Checker} {t : Table} (linked : t.Linked) (same : c.table = t)
    (e : Option Expr) (a : Analysis) : Gains (Visit.ofOptional e a c) [] t t := by
  cases e with
  | none => exact .refl linked
  | some e => exact .visit linked _ same

theorem gains_values {c : Checker} (linked : c.table.Linked) (es : List Expr) (a : Analysis) :
    Gains (Visit.ofAll declared es a c) [] c.table (values es c).table := by
  induction es generalizing a c with
  | nil => exact .refl linked
  | cons e others ih =>
    exact (Gains.visit linked ⟨e, a.table, c.table⟩ rfl).trans (ih (c := value e c) linked _)

/-- The test and the change of a loop leave the table alone. -/
theorem gains_heads {c : Checker} {t : Table} (linked : t.Linked) (same : c.table = t)
    (position : Position) (e update : Option Expr) (a b : Analysis) :
    (heads position e update c).table = t ∧
      Gains (Visit.ofOptional e a c ++ Visit.ofOptional update b (heads position e none c)) []
        t t := by
  have tested : (heads position e none c).table = t := by cases e <;> simp [heads, same]
  have changed : (heads position e update c).table = t := by cases update <;> exact tested
  exact ⟨changed, (gains_optional linked same e a).trans (gains_optional linked tested update b)⟩

mutual

theorem gains_stmt : (s : Stmt) → (a : Analysis) → (c : Checker) → {t : Table} → t.Linked →
    c.table = t →
    Gains (s.visits declared a c) ((s :: s.inner).flatMap Stmt.symbols) t (stmt s c).table
  | .variable ty name initial span, a, c, t, linked, same => by
    have first := gains_optional linked same initial a
    have second := Gains.declare linked (.ofVariable name ty span.start)
    simpa [stmt, Stmt.visits, Stmt.inner, Stmt.symbols, same] using first.trans second
  | .prototype .., _, _, _, linked, rfl => gains_declareFunction linked ..
  | .function ty name ps body span, a, c, _, linked, rfl => by
    have first := gains_declareFunction linked name ty (signature ps) span.start
    have second := first.before (.enter first.linked)
    have third := second.trans
      (gains_params (c := (declareFunction name ty (signature ps) span.start c).enter)
        second.linked ps)
    exact (third.trans (gains_within body _ (begin ⟨name, ty, false, false⟩ (params ps
      (declareFunction name ty (signature ps) span.start c).enter)) third.linked rfl)).exit
  | .main body span, a, c, _, linked, rfl => by
    have first := gains_declareFunction linked "main" .int [] span.start
    have second := first.before (.enter first.linked)
    exact (second.trans (gains_within body _ (begin ⟨"main", .int, true, false⟩
      (declareFunction "main" .int [] span.start c).enter) second.linked rfl)).exit
  | .enumeration name values _ span, _, _, _, linked, rfl => by
    simpa [stmt, Stmt.visits, Stmt.inner, Stmt.symbols] using
      gains_enumeration linked name values span.start
  | .block body, a, c, _, linked, same => gains_block body a c linked same
  | .branch e yes none span, a, c, t, linked, same => by
    have tested := Gains.visit linked ⟨e, a.table, c.table⟩ same
    have first := gains_block yes (Analysis.expr declared e a) _ linked
      ((table_condition "if" span.start e c).trans same)
    simpa [stmt, Stmt.visits, Stmt.inner, Stmt.symbols] using tested.trans first
  | .branch e yes (some no) span, a, c, t, linked, same => by
    have tested := Gains.visit linked ⟨e, a.table, c.table⟩ same
    have first := gains_block yes (Analysis.expr declared e a) _ linked
      ((table_condition "if" span.start e c).trans same)
    have second := gains_block no
      (Analysis.block declared yes (Analysis.expr declared e a)) _ first.linked rfl
    simpa [stmt, Stmt.visits, Stmt.inner, Stmt.symbols] using tested.trans (first.trans second)
  | .whileLoop e body span, a, c, t, linked, same => by
    have tested := Gains.visit linked ⟨e, a.table, c.table⟩ same
    have turned := gains_block body (Analysis.expr declared e a)
      (condition "while" span.start e c).deeper linked
      ((table_condition "while" span.start e c).trans same)
    exact tested.trans turned
  | .doLoop body e span, a, c, t, linked, same => by
    have turned := gains_block body a c.deeper linked same
    have tested := Gains.visit turned.linked ⟨e, (Analysis.block declared body a).table,
      (block body c.deeper).shallower.table⟩ rfl
    have ends : (stmt (.doLoop body e span) c).table = (block body c.deeper).table :=
      table_condition ..
    rw [ends]
    simpa [Stmt.visits, Stmt.inner, Stmt.symbols] using turned.trans tested
  | .forLoop none e update body span, a, c, t, linked, same => by
    have begun : c.enter.table = t.enter := congrArg Table.enter same
    obtain ⟨kept, headed⟩ := gains_heads linked.enter begun span.start e update a.enter
      (Analysis.optional declared e a.enter)
    have turned := gains_block body
      (Analysis.optional declared update (Analysis.optional declared e a.enter))
      (heads span.start e update c.enter).deeper linked.enter kept
    exact ((Gains.enter linked).behind (headed.trans turned)).exit
  | .forLoop (some initial) e update body span, a, c, t, linked, same => by
    have first := gains_stmt initial a.enter c.enter linked.enter (congrArg Table.enter same)
    let begun := Analysis.stmt declared initial a.enter
    obtain ⟨kept, headed⟩ := gains_heads first.linked rfl span.start e update begun
      (Analysis.optional declared e begun)
    have turned := gains_block body
      (Analysis.optional declared update (Analysis.optional declared e begun))
      (heads span.start e update (stmt initial c.enter)).deeper first.linked kept
    have whole := ((Gains.enter linked).behind ((first.trans headed).trans turned)).exit
    rw [List.append_nil, ← List.flatMap_append, ← List.append_assoc] at whole
    exact whole
  | .switch e cases none _, a, c, t, linked, same => by
    have tested := Gains.visit linked ⟨e, a.table, c.table⟩ same
    have chosen := gains_arms cases (subject e c).1 (Analysis.expr declared e a)
      (subject e c).2.deeper linked ((table_subject e c).trans same)
    simpa [stmt, shallower, Stmt.visits, Stmt.inner, Stmt.symbols] using tested.trans chosen
  | .switch e cases (some fallback) _, a, c, t, linked, same => by
    have tested := Gains.visit linked ⟨e, a.table, c.table⟩ same
    have chosen := gains_arms cases (subject e c).1 (Analysis.expr declared e a)
      (subject e c).2.deeper linked ((table_subject e c).trans same)
    have last := gains_block fallback
      (Analysis.arms declared cases (Analysis.expr declared e a)) _ chosen.linked rfl
    simpa [stmt, shallower, Stmt.visits, Stmt.inner, Stmt.symbols] using
      tested.trans (chosen.trans last)
  | .giveBack value span, a, c, t, linked, same => by
    have ends : (stmt (.giveBack value span) c).table = t := (table_giveBack ..).trans same
    rw [ends]
    exact gains_optional linked same value a
  | .leave span, a, c, t, linked, same => by
    have ends : (stmt (.leave span) c).table = t := (table_leave ..).trans same
    rw [ends]
    exact .refl linked
  | .print args _, a, _, _, linked, rfl => gains_values declared linked args a
  | .evaluate .., _, _, _, linked, rfl => .visit linked _ rfl
  | .inclusion .., _, _, _, linked, rfl => .refl linked
termination_by structural s => s

theorem gains_block : (body : Block) → (a : Analysis) → (c : Checker) → {t : Table} → t.Linked →
    c.table = t → Gains (body.visits declared a.enter c.enter)
      (body.statements.flatMap Stmt.symbols) t (block body c).table
  | ⟨body, _⟩, a, c, _, linked, same =>
    ((Gains.enter linked).behind (gains_stmts body a.enter c.enter linked.enter
      (congrArg Table.enter same))).exit
termination_by structural body => body

theorem gains_within : (body : Block) → (a : Analysis) → (c : Checker) → {t : Table} →
    t.Linked → c.table = t → Gains (body.visits declared a c)
      (body.statements.flatMap Stmt.symbols) t (within body c).table
  | ⟨body, _⟩, a, c, _, linked, same => gains_stmts body a c linked same
termination_by structural body => body

theorem gains_stmts : (body : List Stmt) → (a : Analysis) → (c : Checker) → {t : Table} →
    t.Linked → c.table = t → Gains (bodyVisits declared body a c)
      ((bodyStatements body).flatMap Stmt.symbols) t (stmts body c).table
  | [], _, _, _, linked, rfl => .refl linked
  | s :: others, a, c, _, linked, same => by
    have first := gains_stmt s a c linked same
    rw [bodyVisits, bodyStatements, List.flatMap_append]
    exact first.trans (gains_stmts others _ _ first.linked rfl)
termination_by structural body => body

theorem gains_arms : (cases : List Case) → (ty : Ty) → (a : Analysis) → (c : Checker) →
    {t : Table} → t.Linked → c.table = t → Gains (armsVisits declared cases ty a c)
      ((armsStatements cases).flatMap Stmt.symbols) t (arms ty cases c).table
  | [], _, _, _, _, linked, rfl => .refl linked
  | ⟨value, body, _⟩ :: others, ty, a, c, _, linked, same => by
    have tested := Gains.visit linked ⟨value, a.table, c.table⟩ same
    have first := gains_block body (Analysis.expr declared value a) _ linked
      ((table_caseValue ty value c).trans same)
    have rest := gains_arms others ty
      (Analysis.block declared body (Analysis.expr declared value a)) _ first.linked rfl
    rw [armsVisits, armsStatements, List.flatMap_append]
    exact (tested.trans first).trans rest
termination_by structural cases => cases

end

end

end Checker
end Curly
