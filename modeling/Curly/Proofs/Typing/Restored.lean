import Curly.Proofs.Scope.Frames
import Curly.Proofs.Scope.Lockstep
import Curly.Proofs.Typing.Raised

/-! The type checker behind a statement. It is in the scope it was in, at the depth and in the
function it was in, with all symbols and complaints from before; and on its way it never leaves a
loop or a switch that it did not enter. -/
namespace Curly

namespace Table

variable {t u v : Table}

/-- The second table is in the same scope, and each frame has its symbols with others behind. -/
structure Keeps (t u : Table) : Prop where
  current : u.current = t.current
  outer : u.outer = t.outer
  symbols : ∀ id, t.frameSymbols id <+: u.frameSymbols id

namespace Keeps

theorem refl (t : Table) : t.Keeps t :=
  ⟨rfl, rfl, fun _ => List.prefix_rfl⟩

theorem trans (first : t.Keeps u) (second : u.Keeps v) : t.Keeps v :=
  ⟨second.current.trans first.current, second.outer.trans first.outer,
    fun id => (first.symbols id).trans (second.symbols id)⟩

theorem of_eq (same : u = t) : t.Keeps u :=
  same ▸ refl t

theorem declare (t : Table) (s : Symbol) : t.Keeps (t.declare s) := by
  refine ⟨rfl, rfl, fun id => ?_⟩
  simp only [frameSymbols, Table.declare, frame?_modify]
  cases t.frame? id with
  | none => exact List.nil_prefix
  | some f =>
    split
    · exact List.prefix_append ..
    · exact List.prefix_rfl

/-- Leaving the scope that was opened leads back to where it was opened. -/
theorem exit (inside : t.enter.Keeps u) : t.Keeps u.exit := by
  have left : u.exit = { u with current := t.current, outer := t.outer } := by
    rw [Table.exit, inside.outer]
    rfl
  rw [left]
  refine ⟨rfl, rfl, fun id => List.IsPrefix.trans ?_ (inside.symbols id)⟩
  rw [frameSymbols_enter]
  split
  next new =>
    have none : t.frame? id = none := Array.getElem?_eq_none (Nat.le_of_eq new.symm)
    rw [frameSymbols, none]
    exact List.nil_prefix
  · exact List.prefix_rfl

end Keeps
end Table

theorem Enclosing.noting_cases (f : Enclosing) (returns : Bool) : f.noting returns = f ∨
    f.returnsValue = false ∧ f.noting returns = { f with returnsValue := true } := by
  obtain ⟨name, ty, isMain, returnsValue⟩ := f
  unfold noting
  cases returnsValue with
  | true => exact .inl rfl
  | false =>
    cases returns && decide (ty ≠ .void) with
    | true => exact .inr ⟨rfl, rfl⟩
    | false => exact .inl rfl

namespace Checker

theorem keeps_declareFunction (name : String) (ty : Ty) (params : List Ty) (position : Position)
    (c : Checker) : c.table.Keeps (declareFunction name ty params position c).table := by
  unfold declareFunction
  split
  · exact .refl _
  · exact .declare ..

theorem keeps_params (ps : List Param) (c : Checker) : c.table.Keeps (params ps c).table := by
  induction ps generalizing c with
  | nil => exact .refl _
  | cons p others ih => exact (Table.Keeps.declare ..).trans (ih (c.declare _))

theorem keeps_enumValues (values : List Identifier) (c : Checker) :
    c.table.Keeps (enumValues values c).table := by
  induction values generalizing c with
  | nil => exact .refl _
  | cons value others ih =>
    refine Table.Keeps.trans ?_ (ih (if _ then c else c.declare _))
    split
    · exact .refl _
    · exact .declare ..

theorem keeps_enumeration (name : String) (values : List Identifier) (position : Position)
    (c : Checker) : c.table.Keeps (enumeration name values position c).table := by
  unfold enumeration
  split
  · exact .refl _
  · exact (Table.Keeps.declare ..).trans (keeps_enumValues values (c.declare _))

theorem table_heads (position : Position) (e update : Option Expr) (c : Checker) :
    (heads position e update c).table = c.table := by
  cases e <;> cases update <;> simp [heads]

mutual

theorem keeps_stmt : (s : Stmt) → (c : Checker) → c.table.Keeps (stmt s c).table
  | .variable .., c => by
    rw [stmt, table_variableStatement]
    exact .declare ..
  | .prototype .., c => keeps_declareFunction _ _ _ _ c
  | .function ty name ps body span, c => by
    let named := declareFunction name ty (signature ps) span.start c
    have inside : named.table.enter.Keeps _ := (keeps_params ps named.enter).trans
      (keeps_within body (begin ⟨name, ty, false, false⟩ (params ps named.enter)))
    exact (keeps_declareFunction name ty (signature ps) span.start c).trans inside.exit
  | .main body span, c => by
    let named := declareFunction "main" .int [] span.start c
    have inside : named.table.enter.Keeps _ :=
      keeps_within body (begin ⟨"main", .int, true, false⟩ named.enter)
    exact (keeps_declareFunction "main" .int [] span.start c).trans inside.exit
  | .enumeration name values _ span, c => keeps_enumeration name values span.start c
  | .block body, c => keeps_block body c
  | .branch e yes none span, c => by
    have tested : c.table.Keeps (condition "if" span.start e c).table := .of_eq (table_condition ..)
    exact tested.trans (keeps_block yes _)
  | .branch e yes (some no) span, c => by
    have tested : c.table.Keeps (condition "if" span.start e c).table := .of_eq (table_condition ..)
    exact (tested.trans (keeps_block yes _)).trans (keeps_block no _)
  | .whileLoop e body span, c => by
    have tested : c.table.Keeps (condition "while" span.start e c).table :=
      .of_eq (table_condition ..)
    exact tested.trans (keeps_block body (deeper _))
  | .doLoop body e span, c =>
    (keeps_block body c.deeper).trans (.of_eq (table_condition ..))
  | .forLoop none e update body span, c => by
    have headed : c.enter.table.Keeps (heads span.start e update c.enter).table :=
      .of_eq (table_heads ..)
    exact (headed.trans (keeps_block body (deeper _))).exit
  | .forLoop (some initial) e update body span, c => by
    have headed : (stmt initial c.enter).table.Keeps
        (heads span.start e update (stmt initial c.enter)).table := .of_eq (table_heads ..)
    exact (((keeps_stmt initial c.enter).trans headed).trans (keeps_block body (deeper _))).exit
  | .switch e cases none _, c => by
    have asked : c.table.Keeps (subject e c).2.table := .of_eq (table_subject ..)
    exact asked.trans (keeps_arms cases _ (deeper _))
  | .switch e cases (some fallback) _, c => by
    have asked : c.table.Keeps (subject e c).2.table := .of_eq (table_subject ..)
    exact (asked.trans (keeps_arms cases _ (deeper _))).trans (keeps_block fallback _)
  | .giveBack .., _ => .of_eq (table_giveBack ..)
  | .leave _, _ => .of_eq (table_leave ..)
  | .print args _, c => .of_eq (table_values args c)
  | .evaluate .., _ => .refl _
  | .inclusion .., _ => .refl _
termination_by structural s => s

theorem keeps_block : (body : Block) → (c : Checker) → c.table.Keeps (block body c).table
  | ⟨body, _⟩, c => (keeps_stmts body c.enter).exit
termination_by structural body => body

theorem keeps_within : (body : Block) → (c : Checker) → c.table.Keeps (within body c).table
  | ⟨body, _⟩, c => keeps_stmts body c
termination_by structural body => body

theorem keeps_stmts : (body : List Stmt) → (c : Checker) → c.table.Keeps (stmts body c).table
  | [], _ => .refl _
  | s :: others, c => (keeps_stmt s c).trans (keeps_stmts others _)
termination_by structural body => body

theorem keeps_arms : (cases : List Case) → (ty : Ty) → (c : Checker) →
    c.table.Keeps (arms ty cases c).table
  | [], _, _ => .refl _
  | ⟨value, body, _⟩ :: others, ty, c => by
    have judged : c.table.Keeps (caseValue ty value c).table := .of_eq (table_caseValue ..)
    exact (judged.trans (keeps_block body _)).trans (keeps_arms others ty _)
termination_by structural cases => cases

end

/-- One loop or switch less, where there is one. -/
def shallower? (c : Checker) : Option Checker :=
  if c.depth = 0 then none else some c.shallower

mutual

/-- The walk over a statement that stops where it would leave a loop or switch and is in none. -/
def stmt? : Stmt → Checker → Option Checker
  | .function ty name ps body span, c =>
    let around := params ps (declareFunction name ty (signature ps) span.start c).enter
    (within? body (begin ⟨name, ty, false, false⟩ around)).map fun inside =>
      let c := resume around inside
      { c with errors := c.errors ++ (missingReturn span.start inside).toList }.exit
  | .main body span, c =>
    let around := (declareFunction "main" .int [] span.start c).enter
    (within? body (begin ⟨"main", .int, true, false⟩ around)).map fun inside =>
      (resume around inside).exit
  | .block body, c => block? body c
  | .branch e yes no span, c =>
    (block? yes (condition "if" span.start e c)).bind fun c =>
      match no with
      | none => some c
      | some no => block? no c
  | .whileLoop e body span, c =>
    (block? body (condition "while" span.start e c).deeper).bind shallower?
  | .doLoop body e span, c =>
    ((block? body c.deeper).bind shallower?).map (condition "do-while" span.start e)
  | .forLoop initial e update body span, c =>
    let begun := match initial with
      | none => some c.enter
      | some initial => stmt? initial c.enter
    begun.bind fun c =>
      ((block? body (heads span.start e update c).deeper).bind shallower?).map exit
  | .switch e cases fallback _, c =>
    (arms? (subject e c).1 cases (subject e c).2.deeper).bind fun c =>
      (match fallback with
        | none => some c
        | some fallback => block? fallback c).bind shallower?
  -- All other statements leave the depth alone.
  | s@(.variable ..), c | s@(.prototype ..), c | s@(.enumeration ..), c | s@(.giveBack ..), c
  | s@(.leave _), c | s@(.print ..), c | s@(.evaluate ..), c | s@(.inclusion ..), c =>
    some (stmt s c)
termination_by structural s => s

def block? : Block → Checker → Option Checker
  | ⟨body, _⟩, c => (stmts? body c.enter).map exit
termination_by structural body => body

def within? : Block → Checker → Option Checker
  | ⟨body, _⟩, c => stmts? body c
termination_by structural body => body

def stmts? : List Stmt → Checker → Option Checker
  | [], c => some c
  | s :: others, c => (stmt? s c).bind (stmts? others)
termination_by structural body => body

def arms? (ty : Ty) : List Case → Checker → Option Checker
  | [], c => some c
  | ⟨value, body, _⟩ :: others, c => (block? body (caseValue ty value c)).bind (arms? ty others)
termination_by structural cases => cases

end

/-- What was entered one deeper can be left. -/
theorem Around.shallower? {returns : Bool} {c d : Checker} (around : Around returns c.deeper d) :
    d.shallower? = some d.shallower :=
  if_neg (around.depth ▸ Nat.succ_ne_zero c.depth)

mutual

theorem stmt?_eq : (s : Stmt) → (c : Checker) → stmt? s c = some (stmt s c)
  | .function _ _ _ body _, c => by
    rw [stmt?, within?_eq body]
    rfl
  | .main body _, c => by
    rw [stmt?, within?_eq body]
    rfl
  | .block body, c => block?_eq body c
  | .branch _ yes none _, c => by
    rw [stmt?, block?_eq yes]
    rfl
  | .branch _ yes (some no) _, c => by
    rw [stmt?, block?_eq yes]
    exact block?_eq no _
  | .whileLoop _ body _, c => by
    rw [stmt?, block?_eq body]
    exact (around_block body _).shallower?
  | .doLoop body _ _, c => by
    rw [stmt?, block?_eq body, Option.bind_some, (around_block body _).shallower?]
    rfl
  | .forLoop none _ _ body _, c => by
    rw [stmt?, Option.bind_some, block?_eq body, Option.bind_some,
      (around_block body _).shallower?]
    rfl
  | .forLoop (some initial) _ _ body _, c => by
    rw [stmt?, stmt?_eq initial, Option.bind_some, block?_eq body, Option.bind_some,
      (around_block body _).shallower?]
    rfl
  | .switch e cases none _, c => by
    rw [stmt?, arms?_eq cases]
    exact (around_arms cases _ _).shallower?
  | .switch e cases (some fallback) _, c => by
    rw [stmt?, arms?_eq cases, Option.bind_some]
    refine (congrArg (Option.bind · shallower?) (block?_eq fallback _)).trans ?_
    exact ((around_arms cases _ _).trans (around_block fallback _)).shallower?
  | .variable .., _ | .prototype .., _ | .enumeration .., _ | .giveBack .., _ | .leave _, _
  | .print .., _ | .evaluate .., _ | .inclusion .., _ => rfl
termination_by structural s => s

theorem block?_eq : (body : Block) → (c : Checker) → block? body c = some (block body c)
  | ⟨body, _⟩, c => by
    rw [block?, stmts?_eq body]
    rfl
termination_by structural body => body

theorem within?_eq : (body : Block) → (c : Checker) → within? body c = some (within body c)
  | ⟨body, _⟩, c => stmts?_eq body c
termination_by structural body => body

theorem stmts?_eq : (body : List Stmt) → (c : Checker) → stmts? body c = some (stmts body c)
  | [], _ => rfl
  | s :: others, c => by
    rw [stmts?, stmt?_eq s]
    exact stmts?_eq others _
termination_by structural body => body

theorem arms?_eq : (cases : List Case) → {ty : Ty} → {c : Checker} →
    arms? ty cases c = some (arms ty cases c)
  | [], _, _ => rfl
  | ⟨value, body, _⟩ :: others, ty, c => by
    rw [arms?, block?_eq body]
    exact arms?_eq others
termination_by structural cases => cases

end

/-- The second checker is where the first one was. It may have found that the function returns a
value, and it has symbols and complaints from before first. -/
structure Restored (c d : Checker) : Prop where
  current : d.table.current = c.table.current
  outer : d.table.outer = c.table.outer
  depth : d.depth = c.depth
  function : d.function = c.function ∨ ∃ f, c.function = some f ∧ f.returnsValue = false ∧
    d.function = some { f with returnsValue := true }
  symbols : ∀ id, c.table.frameSymbols id <+: d.table.frameSymbols id
  errors : c.errors <+: d.errors

theorem Raises.isPrefix {Q : TypeError → Prop} {c d : Checker} (raises : Raises Q c d) :
    c.errors <+: d.errors := by
  obtain ⟨more, added, -⟩ := raises
  exact ⟨more, added.symm⟩

/-- That the function returns a value is all that can be noted. -/
theorem Around.function_cases {returns : Bool} {c d : Checker} (around : Around returns c d) :
    d.function = c.function ∨ ∃ f, c.function = some f ∧ f.returnsValue = false ∧
      d.function = some { f with returnsValue := true } := by
  rw [around.function]
  cases c.function with
  | none => exact .inl rfl
  | some f =>
    rcases f.noting_cases returns with same | ⟨before, behind⟩
    · exact .inl (congrArg some same)
    · exact .inr ⟨f, rfl, before, congrArg some behind⟩

/-- A statement leaves the checker where it was, for any checker; on the way no loop or switch is
left that was not entered; and an expression, with a value or without, adds complaints only. -/
theorem restored_stmt (s : Stmt) (c : Checker) :
    Restored c (stmt s c) ∧ stmt? s c = some (stmt s c) ∧
    ∀ e, (∃ new, expr e c = { c with errors := c.errors ++ new }) ∧
      ∃ new, value e c = { c with errors := c.errors ++ new } := by
  have tells : Tells (fun _ => True) fun _ => True :=
    ⟨fun _ _ _ => trivial, fun _ _ _ _ _ => trivial⟩
  have keeps := keeps_stmt s c
  have around := around_stmt s c
  have raises := raises_stmt tells s (fun _ _ _ _ => trivial) c
  exact ⟨⟨keeps.current, keeps.outer, around.depth, around.function_cases, keeps.symbols,
    raises.isPrefix⟩, stmt?_eq s c, fun e => ⟨⟨_, rfl⟩, _, rfl⟩⟩

end Checker
end Curly
