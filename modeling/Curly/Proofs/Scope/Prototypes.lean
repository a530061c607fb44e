import Curly.Proofs.Grammar.Declared
import Curly.Proofs.Scope.Clean
import Curly.Proofs.Scope.Unambiguous

/-! Prototypes and definitions. A scope may declare a function more than once, by prototypes and by
a definition, in any order. If nothing is wrong with the names of a program, one symbol stands for
all of these declarations. -/
namespace Curly

/-- A prototype or a definition of a function. -/
structure FunctionDeclaration where
  name : String
  params : List Ty
  ty : Ty
  position : Position
  defines : Bool
deriving DecidableEq, Repr

/-- Whether the function is the one with a name and parameters. -/
def FunctionDeclaration.isOf (name : String) (params : List Ty) (d : FunctionDeclaration) : Bool :=
  d.name = name && d.params = params

/-- The symbol of a function that is declared for the first time. -/
def FunctionDeclaration.symbol (d : FunctionDeclaration) : Symbol :=
  .ofFunction d.name d.ty d.params (!d.defines) d.position

def Symbol.isOf (name : String) (params : List Ty) (s : Symbol) : Bool :=
  s.name = name && s.params? = some params

def Stmt.function? : Stmt → Option FunctionDeclaration
  | .prototype ty name ps span => some ⟨name, signature ps, ty, span.start, false⟩
  | .function ty name ps _ span => some ⟨name, signature ps, ty, span.start, true⟩
  | .main _ span => some ⟨"main", [], .int, span.start, true⟩
  | .variable .. | .enumeration .. | .block _ | .branch .. | .whileLoop .. | .doLoop ..
  | .forLoop .. | .switch .. | .giveBack .. | .leave _ | .print .. | .evaluate ..
  | .inclusion .. => none

/-- The functions that are declared directly in a scope. -/
def functionsIn (body : List Stmt) : List FunctionDeclaration :=
  body.filterMap Stmt.function?

theorem functionsIn_cons (s : Stmt) (others : List Stmt) :
    functionsIn (s :: others) = s.function?.toList ++ functionsIn others := by
  rw [functionsIn, List.filterMap_cons]
  cases s.function? <;> rfl

mutual

/-- The scopes that are opened in a statement, in this order. Each is given by the statements
directly in it. -/
def Stmt.scopes : Stmt → List (List Stmt)
  | .function _ _ _ body _ | .main body _ | .block body | .whileLoop _ body _
  | .doLoop body _ _ => body.scopes
  | .branch _ yes no _ =>
    yes.scopes ++
      match no with
      | none => []
      | some no => no.scopes
  | .forLoop initial _ _ body _ =>
    initial.toList :: (match initial with
      | none => []
      | some initial => initial.scopes) ++ body.scopes
  | .switch _ cases fallback _ =>
    armsScopes cases ++
      match fallback with
      | none => []
      | some fallback => fallback.scopes
  | .variable .. | .prototype .. | .enumeration .. | .giveBack .. | .leave _ | .print ..
  | .evaluate .. | .inclusion .. => []
termination_by structural s => s

def Block.scopes : Block → List (List Stmt)
  | ⟨body, _⟩ => body :: bodyScopes body
termination_by structural b => b

def bodyScopes : List Stmt → List (List Stmt)
  | [] => []
  | s :: others => s.scopes ++ bodyScopes others
termination_by structural body => body

def armsScopes : List Case → List (List Stmt)
  | [] => []
  | ⟨_, body, _⟩ :: others => body.scopes ++ armsScopes others
termination_by structural cases => cases

end

/-- The scopes of a program, the global one first. -/
def Program.scopes (p : Program) : List (List Stmt) :=
  p.body :: bodyScopes p.body

/-- A symbol stands for some declarations of one function together. -/
structure Symbol.Unites (ds : List FunctionDeclaration) (s : Symbol) : Prop where
  first : ds.head?.map FunctionDeclaration.position = some s.position
  ty : ∀ d ∈ ds, d.ty = s.ty
  once : ds.countP FunctionDeclaration.defines ≤ 1
  isPrototype : s.isPrototype ↔ ∀ d ∈ ds, d.defines = false

/-- Each function that is declared has one symbol for all of its declarations, and no other function
has a symbol. -/
def Reconciled (ds : List FunctionDeclaration) (symbols : List Symbol) : Prop :=
  ∀ name params,
    (ds.filter (·.isOf name params) = [] ∧ symbols.filter (·.isOf name params) = []) ∨
      ∃ s, symbols.filter (·.isOf name params) = [s] ∧ s.Unites (ds.filter (·.isOf name params))

section

variable {ds : List FunctionDeclaration} {d : FunctionDeclaration} {s : Symbol}
  {symbols : List Symbol} {name : String} {params : List Ty}

theorem FunctionDeclaration.isOf_iff :
    d.isOf name params = true ↔ d.name = name ∧ d.params = params := by
  simp [isOf]

theorem FunctionDeclaration.isOf_self (d : FunctionDeclaration) : d.isOf d.name d.params :=
  isOf_iff.mpr ⟨rfl, rfl⟩

theorem Symbol.isOf_iff : s.isOf name params = true ↔ s.name = name ∧ s.params? = some params := by
  simp [isOf]

@[simp] theorem Symbol.isOf_completed (s : Symbol) (name : String) (params : List Ty) :
    s.completed.isOf name params = s.isOf name params := by
  simp [isOf]

@[simp] theorem FunctionDeclaration.isOf_symbol (d : FunctionDeclaration) (name : String)
    (params : List Ty) : d.symbol.isOf name params = d.isOf name params := by
  rw [Bool.eq_iff_iff, Symbol.isOf_iff, isOf_iff]
  exact and_congr_right fun _ => Option.some_inj

theorem Symbol.isPrototype_completed (s : Symbol) : s.completed.isPrototype = false := by
  obtain ⟨name, ty, position, kind⟩ := s
  cases kind <;> rfl

namespace Symbol.Unites

theorem single (d : FunctionDeclaration) : d.symbol.Unites [d] where
  first := rfl
  ty := List.forall_mem_singleton.mpr rfl
  once := List.countP_le_length
  isPrototype := by
    rw [List.forall_mem_singleton, ← Bool.not_eq_true']
    rfl

theorem head?_concat (unites : s.Unites ds) (d : FunctionDeclaration) :
    (ds ++ [d]).head?.map FunctionDeclaration.position = some s.position := by
  have first := unites.first
  cases ds with
  | nil => cases first
  | cons _ _ => exact first

theorem ty_concat (unites : s.Unites ds) (same : d.ty = s.ty) : ∀ e ∈ ds ++ [d], e.ty = s.ty :=
  List.forall_mem_append.mpr ⟨unites.ty, List.forall_mem_singleton.mpr same⟩

/-- The definition behind prototypes. -/
theorem complete (unites : s.Unites ds) (prototype : s.isPrototype) (same : d.ty = s.ty)
    (defines : d.defines = true) : s.completed.Unites (ds ++ [d]) := by
  have none := unites.isPrototype.mp prototype
  refine ⟨?_, ?_, ?_, ?_⟩
  · rw [completed_position]
    exact unites.head?_concat d
  · rw [completed_ty]
    exact unites.ty_concat same
  · have before : ds.countP FunctionDeclaration.defines = 0 :=
      List.countP_eq_zero.mpr fun e member => by simp [none e member]
    rw [List.countP_append, before, Nat.zero_add]
    exact List.countP_le_length
  · rw [isPrototype_completed]
    refine ⟨nofun, fun absent => ?_⟩
    have own := absent d (List.mem_append_right _ (.head _))
    exact absurd defines (own ▸ Bool.false_ne_true)

/-- A prototype behind other declarations. -/
theorem ignore (unites : s.Unites ds) (same : d.ty = s.ty) (prototype : d.defines = false) :
    s.Unites (ds ++ [d]) := by
  refine ⟨unites.head?_concat d, unites.ty_concat same, ?_, ?_⟩
  · rw [List.countP_append, List.countP_singleton, prototype]
    exact unites.once
  · rw [unites.isPrototype, List.forall_mem_append, List.forall_mem_singleton]
    exact ⟨fun absent => ⟨absent, prototype⟩, And.left⟩

end Symbol.Unites

namespace Reconciled

theorem nil : Reconciled [] [] :=
  fun _ _ => .inl ⟨rfl, rfl⟩

/-- A symbol of something that is not a function. -/
theorem plain (reconciled : Reconciled ds symbols) (plain : s.params? = none) :
    Reconciled ds (symbols ++ [s]) := by
  intro name params
  have other : [s].filter (·.isOf name params) = [] := by simp [Symbol.isOf, plain]
  rw [List.filter_append, other, List.append_nil]
  exact reconciled name params

/-- One more declaration changes the symbol of its own function only. -/
theorem join (reconciled : Reconciled ds symbols) {after : List Symbol}
    (others : ∀ name params, d.isOf name params = false →
      after.filter (·.isOf name params) = symbols.filter (·.isOf name params))
    (own : ∃ s, after.filter (·.isOf d.name d.params) = [s] ∧
      s.Unites (ds.filter (·.isOf d.name d.params) ++ [d])) : Reconciled (ds ++ [d]) after := by
  intro name params
  rw [List.filter_append, List.filter_cons, List.filter_nil]
  cases mine : d.isOf name params with
  | true =>
    obtain ⟨rfl, rfl⟩ := FunctionDeclaration.isOf_iff.mp mine
    exact .inr own
  | false =>
    rw [others name params mine, if_neg Bool.false_ne_true, List.append_nil]
    exact reconciled name params

/-- The first declaration of a function. -/
theorem add (reconciled : Reconciled ds symbols)
    (none : symbols.filter (·.isOf d.name d.params) = []) :
    Reconciled (ds ++ [d]) (symbols ++ [d.symbol]) := by
  have new : ds.filter (·.isOf d.name d.params) = [] := by
    rcases reconciled d.name d.params with ⟨new, -⟩ | ⟨s, found, -⟩
    · exact new
    · exact absurd (none.symm.trans found) (List.cons_ne_nil _ _).symm
  refine reconciled.join (fun name params other => ?_) ⟨d.symbol, ?_, ?_⟩
  · rw [List.filter_append, List.filter_cons, d.isOf_symbol, other]
    exact List.append_nil _
  · rw [List.filter_append, List.filter_cons, d.isOf_symbol, d.isOf_self, none]
    rfl
  · rw [new]
    exact .single d

/-- The symbol of a function that has one already. -/
theorem known (reconciled : Reconciled ds symbols)
    (found : (symbols.filter (·.isOf name params)).head? = some s) :
    symbols.filter (·.isOf name params) = [s] ∧ s.Unites (ds.filter (·.isOf name params)) := by
  rcases reconciled name params with ⟨-, none⟩ | ⟨other, only, unites⟩
  · rw [none] at found
    exact nomatch found
  · rw [only] at found
    obtain rfl := Option.some.inj found
    exact ⟨only, unites⟩

theorem filter_completeFirst_of_apart {p q : Symbol → Bool} (apart : ∀ s, p s → q s = false)
    (same : ∀ s, q s.completed = q s) (symbols : List Symbol) :
    (Frame.completeFirst p symbols).filter q = symbols.filter q := by
  induction symbols with
  | nil => rfl
  | cons s others ih =>
    unfold Frame.completeFirst
    split
    · rw [List.filter_cons, List.filter_cons, same, apart s ‹_›]
      rfl
    · rw [List.filter_cons, List.filter_cons, ih]

theorem filter_completeFirst_self {p : Symbol → Bool} (same : ∀ s, p s.completed = p s)
    (symbols : List Symbol) : (Frame.completeFirst p symbols).filter p =
      (symbols.filter p).modifyHead Symbol.completed := by
  induction symbols with
  | nil => rfl
  | cons s others ih =>
    unfold Frame.completeFirst
    split
    · rename_i first
      rw [List.filter_cons, List.filter_cons, same, first]
      rfl
    · rename_i other
      rw [List.filter_cons, List.filter_cons, if_neg other, if_neg other, ih]

/-- The definition of a function that has a prototype. -/
theorem complete (reconciled : Reconciled ds symbols)
    (found : (symbols.filter (·.isOf d.name d.params)).head? = some s) (prototype : s.isPrototype)
    (same : d.ty = s.ty) (defines : d.defines = true) :
    Reconciled (ds ++ [d]) (Frame.completeFirst (Symbol.isOf d.name d.params) symbols) := by
  obtain ⟨only, unites⟩ := reconciled.known found
  refine reconciled.join (fun name params other => ?_)
    ⟨s.completed, ?_, unites.complete prototype same defines⟩
  · refine filter_completeFirst_of_apart (fun s own => ?_) (fun s => s.isOf_completed ..) symbols
    obtain ⟨named, listed⟩ := Symbol.isOf_iff.mp own
    rw [← other, Bool.eq_iff_iff, Symbol.isOf_iff, FunctionDeclaration.isOf_iff, named, listed,
      Option.some_inj]
  · rw [filter_completeFirst_self (fun s => s.isOf_completed ..), only]
    rfl

/-- A prototype of a function that is declared. -/
theorem ignore (reconciled : Reconciled ds symbols)
    (found : (symbols.filter (·.isOf d.name d.params)).head? = some s) (same : d.ty = s.ty)
    (prototype : d.defines = false) : Reconciled (ds ++ [d]) symbols := by
  obtain ⟨only, unites⟩ := reconciled.known found
  exact reconciled.join (fun _ _ _ => rfl) ⟨s, only, unites.ignore same prototype⟩

end Reconciled

end

namespace Table

variable {t : Table}

theorem lookupOverload_eq (name : String) (params : List Ty) : t.lookupOverload name params =
    ((t.frameSymbols t.current).filter (·.isOf name params)).head? := by
  rw [lookupOverload, lookupLocalAll, namedIn_eq, List.find?_filter, List.head?_filter]
  congr 1
  funext s
  simp [Symbol.isOf]

end Table

/-- From a table to a later one, functions are declared in the current frame, and scopes are opened
and left again. -/
structure Builds (ds : List FunctionDeclaration) (scopes : List (List Stmt)) (t u : Table) :
    Prop where
  current : u.current = t.current
  outer : u.outer = t.outer
  size : u.size = t.size + scopes.length
  others : ∀ id < t.size, id ≠ t.current → u.frameSymbols id = t.frameSymbols id
  here : ∀ known, Reconciled known (t.frameSymbols t.current) →
    Reconciled (known ++ ds) (u.frameSymbols t.current)
  inside : ∀ place body, scopes[place]? = some body →
    Reconciled (functionsIn body) (u.frameSymbols (t.size + place))

namespace Builds

variable {ds es : List FunctionDeclaration} {opened more : List (List Stmt)} {t u v : Table}

/-- Only the current frame changes. -/
theorem modify (linked : t.Linked) {change : Frame → Frame} (after : List Symbol → List Symbol)
    (same : ∀ f, (change f).symbols = after f.symbols)
    (kept : ∀ known, Reconciled known (t.frameSymbols t.current) →
      Reconciled (known ++ ds) (after (t.frameSymbols t.current))) :
    Builds ds [] t (t.modify change) where
  current := rfl
  outer := rfl
  size := by simp [Table.modify, Table.size]
  others id _ other := by rw [Table.frameSymbols_modify linked after same, if_neg other]
  here known reconciled := by
    rw [Table.frameSymbols_modify linked after same, if_pos rfl]
    exact kept known reconciled
  inside := nofun

theorem same (kept : ∀ known, Reconciled known (t.frameSymbols t.current) →
    Reconciled (known ++ ds) (t.frameSymbols t.current)) : Builds ds [] t t :=
  ⟨rfl, rfl, rfl, fun _ _ _ => rfl, kept, nofun⟩

theorem refl (t : Table) : Builds [] [] t t :=
  same fun known reconciled => by rwa [List.append_nil]

theorem linked (builds : Builds ds opened t u) (linked : t.Linked) : u.Linked := by
  refine ⟨?_, ?_⟩
  · rw [builds.current, builds.size]
    exact Nat.lt_add_right _ linked.present
  · rw [builds.current, builds.outer]
    exact linked.older

theorem trans (linked : t.Linked) (first : Builds ds opened t u) (second : Builds es more u v) :
    Builds (ds ++ es) (opened ++ more) t v where
  current := second.current.trans first.current
  outer := second.outer.trans first.outer
  size := by rw [second.size, first.size, List.length_append, Nat.add_assoc]
  others id within other := by
    have reached : id < u.size := first.size ▸ Nat.lt_add_right _ within
    rw [second.others id reached (first.current ▸ other), first.others id within other]
  here known reconciled := by
    have behind := second.here (known ++ ds) (first.current ▸ first.here known reconciled)
    rwa [first.current, List.append_assoc] at behind
  inside place body found := by
    -- Scopes that were opened first are left, so what comes behind does not change them.
    by_cases early : place < opened.length
    · have reached : t.size + place < u.size := first.size ▸ Nat.add_lt_add_left early _
      have apart : t.size + place ≠ u.current := by
        rw [first.current]
        exact Nat.ne_of_gt (Nat.lt_of_lt_of_le linked.present (Nat.le_add_right ..))
      rw [second.others _ reached apart]
      exact first.inside place body (List.getElem?_append_left early ▸ found)
    · have late := Nat.le_of_not_lt early
      rw [List.getElem?_append_right late] at found
      have here := second.inside _ body found
      rwa [first.size, Nat.add_assoc, Nat.add_sub_cancel' late] at here

/-- A scope is opened and left. -/
theorem scope (linked : t.Linked) {body : List Stmt}
    (inside : Builds (functionsIn body) opened t.enter u) :
    Builds [] (body :: opened) t u.exit := by
  have left : u.exit = { u with current := t.current, outer := t.outer } := by
    have outer : u.outer = t.current :: t.outer := inside.outer
    rw [Table.exit, outer]
  have entered : t.enter.size = t.size + 1 := by simp [Table.enter, Table.modify, Table.size]
  have kept (id : FrameId) (within : id < t.size) : u.frameSymbols id = t.frameSymbols id := by
    rw [inside.others id (entered ▸ Nat.lt_succ_of_lt within) (Nat.ne_of_lt within),
      Table.frameSymbols_enter, if_neg (Nat.ne_of_lt within)]
  rw [left]
  refine ⟨rfl, rfl, ?_, fun id within _ => kept id within, fun known reconciled => ?_, ?_⟩
  · have size := inside.size
    rw [entered] at size
    exact size.trans (by simp [Nat.add_assoc, Nat.add_comm 1])
  · rw [List.append_nil]
    exact kept _ linked.present ▸ reconciled
  · intro place other found
    cases place with
    | zero =>
      obtain rfl := Option.some.inj found
      have fresh : t.enter.frameSymbols t.enter.current = [] := by
        rw [Table.frameSymbols_enter]
        exact if_pos rfl
      exact inside.here [] (fresh ▸ .nil)
    | succ place =>
      have here := inside.inside place other found
      rwa [entered, Nat.add_right_comm, Nat.add_assoc] at here

end Builds

namespace Ruling

variable {t : Table} {ds : List FunctionDeclaration} {d : FunctionDeclaration}

/-- What becomes of the symbols of the frame. -/
def after (name : String) (symbols : List Symbol) : Ruling → List Symbol
  | .add s => symbols ++ [s]
  | .complete params => Frame.completeFirst (Symbol.isOf name params) symbols
  | .ignore | .reject _ => symbols

/-- A ruling on something that is not a function. -/
def Plain : Ruling → Prop
  | .add s => s.params? = none
  | .reject _ => True
  | .complete _ | .ignore => False

theorem Plain.reconciled {ruling : Ruling} (plain : ruling.Plain) (name : String)
    {symbols : List Symbol} (reconciled : Reconciled ds symbols) :
    Reconciled ds (ruling.after name symbols) := by
  cases ruling with
  | add s => exact reconciled.plain plain
  | reject kind => exact reconciled
  | complete | ignore => exact nomatch plain

theorem plain_onVariable (t : Table) (ty : Ty) (name : String) (position : Position) :
    (onVariable t ty name position).Plain := by
  unfold onVariable
  split
  · trivial
  · split
    · rfl
    · trivial
  · rfl

theorem plain_onParam (earlier : List String) (p : Param) : (onParam earlier p).Plain := by
  unfold onParam
  split
  · trivial
  · rfl

theorem plain_onEnumeration (t : Table) (name : String) (position : Position) :
    (onEnumeration t name position).Plain := by
  unfold onEnumeration
  split
  · trivial
  · split
    · trivial
    · rfl

theorem plain_onEnumValue (t : Table) (earlier : List String) (value : Identifier) :
    (onEnumValue t earlier value).Plain := by
  unfold onEnumValue
  split
  · trivial
  · split
    · trivial
    · rfl

theorem filter_of_lookupOverload {name : String} {params : List Ty}
    (none : t.lookupOverload name params = none) :
    (t.frameSymbols t.current).filter (·.isOf name params) = [] :=
  List.head?_eq_none_iff.mp (Table.lookupOverload_eq name params ▸ none)

theorem reconciled_onPrototype (prototype : d.defines = false)
    (accepted : (onPrototype t d.ty d.name d.params d.position).isReject = false)
    (reconciled : Reconciled ds (t.frameSymbols t.current)) :
    Reconciled (ds ++ [d]) ((onPrototype t d.ty d.name d.params d.position).after d.name
      (t.frameSymbols t.current)) := by
  have new : d.symbol = .ofFunction d.name d.ty d.params true d.position := by
    rw [FunctionDeclaration.symbol, prototype]
    rfl
  revert accepted
  unfold onPrototype
  split
  · exact nofun
  · split
    · exact fun _ => new ▸ reconciled.add (filter_of_lookupOverload ‹_›)
    · rename_i here found
      rw [Table.lookupOverload_eq] at found
      split
      · exact nofun
      · rename_i same
        split
        · exact nofun
        · exact fun _ => reconciled.ignore found (of_not_not same).symm prototype

theorem reconciled_onFunction (defines : d.defines = true)
    (accepted : (onFunction t d.ty d.name d.params d.position).isReject = false)
    (reconciled : Reconciled ds (t.frameSymbols t.current)) :
    Reconciled (ds ++ [d]) ((onFunction t d.ty d.name d.params d.position).after d.name
      (t.frameSymbols t.current)) := by
  have new : d.symbol = .ofFunction d.name d.ty d.params false d.position := by
    rw [FunctionDeclaration.symbol, defines]
    rfl
  revert accepted
  unfold onFunction
  split
  · exact nofun
  · split
    · exact fun _ => new ▸ reconciled.add (filter_of_lookupOverload ‹_›)
    · rename_i here found
      rw [Table.lookupOverload_eq] at found
      split
      · rename_i open_
        exact fun _ => reconciled.complete found open_.1 open_.2.symm defines
      · exact nofun

theorem reconciled_onMain {position : Position} (accepted : (onMain t position).isReject = false)
    (reconciled : Reconciled ds (t.frameSymbols t.current)) :
    Reconciled (ds ++ [⟨"main", [], .int, position, true⟩]) ((onMain t position).after "main"
      (t.frameSymbols t.current)) := by
  revert accepted
  unfold onMain
  split
  · exact nofun
  · rename_i absent
    have none := Table.lookupLocalAll_of_lookupLocal (Option.not_isSome_iff_eq_none.mp absent)
    refine fun _ => reconciled.add (filter_of_lookupOverload ?_)
    rw [Table.lookupOverload, none]
    rfl

end Ruling

namespace Analysis

variable {ds : List FunctionDeclaration} {a : Analysis}

theorem builds_obey (linked : a.table.Linked) (name : String) (position : Position)
    (ruling : Ruling) (kept : ∀ known, Reconciled known (a.table.frameSymbols a.table.current) →
      Reconciled (known ++ ds) (ruling.after name (a.table.frameSymbols a.table.current))) :
    Builds ds [] a.table (a.obey name position ruling).table := by
  cases ruling with
  | add s => exact .modify linked (· ++ [s]) (fun _ => rfl) kept
  | complete params =>
    exact .modify linked (Frame.completeFirst (Symbol.isOf name params)) (fun _ => rfl) kept
  | ignore | reject => exact .same kept

theorem builds_plain (linked : a.table.Linked) (name : String) (position : Position)
    {ruling : Ruling} (plain : ruling.Plain) :
    Builds [] [] a.table (a.obey name position ruling).table :=
  builds_obey linked name position ruling fun known reconciled => by
    rw [List.append_nil]
    exact plain.reconciled name reconciled

theorem builds_params (linked : a.table.Linked) (earlier : List String) (ps : List Param) :
    Builds [] [] a.table (params earlier ps a).table := by
  induction ps generalizing earlier a with
  | nil => exact .refl _
  | cons p others ih =>
    have first := builds_plain linked p.name p.span.start (Ruling.plain_onParam earlier p)
    exact first.trans linked (ih (first.linked linked) _)

theorem builds_enumValues (linked : a.table.Linked) (earlier : List String)
    (values : List Identifier) : Builds [] [] a.table (enumValues earlier values a).table := by
  induction values generalizing earlier a with
  | nil => exact .refl _
  | cons value others ih =>
    have first := builds_plain linked value.name value.span.start
      (Ruling.plain_onEnumValue a.table earlier value)
    exact first.trans linked (ih (first.linked linked) _)

theorem builds_enumeration (linked : a.table.Linked) (name : String) (values : List Identifier)
    (position : Position) : Builds [] [] a.table (enumeration name values position a).table := by
  have first := builds_plain linked name position
    (Ruling.plain_onEnumeration a.table name position)
  unfold enumeration
  dsimp only
  split
  · exact first
  · exact first.trans linked (builds_enumValues (first.linked linked) [] values)

section

variable (declared : String → Bool)

mutual

theorem builds_stmt : (s : Stmt) → (a : Analysis) → a.table.Linked →
    (stmt declared s a).errors = [] →
    Builds s.function?.toList s.scopes a.table (stmt declared s a).table
  | .variable ty name initial span, a, linked, clean => by
    have same := clean_optional declared (clean_obey clean).1
    rw [stmt, same]
    exact builds_plain linked name span.start (Ruling.plain_onVariable ..)
  | .prototype ty name ps span, a, linked, clean => by
    let d : FunctionDeclaration := ⟨name, signature ps, ty, span.start, false⟩
    have accepted := (clean_obey clean).2
    exact builds_obey linked name span.start _ fun _ reconciled =>
      Ruling.reconciled_onPrototype (d := d) rfl accepted reconciled
  | .function ty name ps body span, a, linked, clean => by
    let d : FunctionDeclaration := ⟨name, signature ps, ty, span.start, true⟩
    let b := a.obey name span.start (.onFunction a.table ty name (signature ps) span.start)
    have before : b.errors = [] := clean_params (a := b.enter) (clean_within declared body _ clean)
    have accepted := (clean_obey before).2
    have first : Builds [d] [] a.table b.table := builds_obey linked name span.start _
      fun _ reconciled => Ruling.reconciled_onFunction (d := d) rfl accepted reconciled
    have reached := first.linked linked
    have opened := builds_params (a := b.enter) reached.enter [] ps
    exact first.trans linked (builds_scope body reached opened clean)
  | .main body span, a, linked, clean => by
    have before := clean_within declared body _ clean
    have accepted := (clean_obey before).2
    have first := builds_obey linked "main" span.start _
      fun _ reconciled => Ruling.reconciled_onMain accepted reconciled
    exact first.trans linked (builds_scope body (first.linked linked) (.refl _) clean)
  | .enumeration name values _ span, a, linked, clean =>
    builds_enumeration linked name values span.start
  | .block body, a, linked, clean => builds_block body a linked clean
  | .branch e yes none _, a, linked, clean => by
    -- Here and below, an expression without complaint leaves the analysis as it is.
    have same := (clean_expr declared e a (clean_block declared yes _ clean)).1
    simp only [stmt, same] at clean ⊢
    rw [Stmt.scopes, List.append_nil]
    exact builds_block yes a linked clean
  | .branch e yes (some no) _, a, linked, clean => by
    have before := clean_block declared no _ clean
    have same := (clean_expr declared e a (clean_block declared yes _ before)).1
    simp only [stmt, same] at before clean ⊢
    have first := builds_block yes a linked before
    exact first.trans linked (builds_block no _ (first.linked linked) clean)
  | .whileLoop e body _, a, linked, clean => by
    have same := (clean_expr declared e a (clean_block declared body _ clean)).1
    simp only [stmt, same] at clean ⊢
    exact builds_block body a linked clean
  | .doLoop body e _, a, linked, clean => by
    simp only [stmt] at clean ⊢
    have same := (clean_expr declared e _ clean).1
    rw [same] at clean ⊢
    exact builds_block body a linked clean
  | .forLoop none e update body _, a, linked, clean => by
    have same := clean_heads declared (clean_block declared body _ clean)
    simp only [stmt, same] at clean ⊢
    exact .scope linked (builds_block body a.enter linked.enter clean)
  | .forLoop (some initial) e update body _, a, linked, clean => by
    have between := clean_block declared body _ clean
    have same := clean_heads declared between
    have before : (stmt declared initial a.enter).errors = [] := same ▸ between
    simp only [stmt, same] at clean ⊢
    have first := builds_stmt initial a.enter linked.enter before
    have inside := first.trans linked.enter (builds_block body _ (first.linked linked.enter) clean)
    have single : functionsIn [initial] = initial.function?.toList ++ [] := functionsIn_cons ..
    rw [← single] at inside
    exact .scope linked inside
  | .switch e cases none _, a, linked, clean => by
    have same := (clean_expr declared e a (clean_arms declared cases _ clean)).1
    simp only [stmt, same] at clean ⊢
    rw [Stmt.scopes, List.append_nil]
    exact builds_arms cases a linked clean
  | .switch e cases (some fallback) _, a, linked, clean => by
    have before := clean_block declared fallback _ clean
    have same := (clean_expr declared e a (clean_arms declared cases _ before)).1
    simp only [stmt, same] at before clean ⊢
    have first := builds_arms cases a linked before
    exact first.trans linked (builds_block fallback _ (first.linked linked) clean)
  | .giveBack value _, a, linked, clean => by
    rw [stmt, clean_optional declared clean]
    exact .refl _
  | .print args _, a, linked, clean => by
    rw [stmt, (clean_exprs declared args a clean).1]
    exact .refl _
  | .evaluate e _, a, linked, clean => by
    rw [stmt, (clean_expr declared e a clean).1]
    exact .refl _
  | .leave _, a, _, _ | .inclusion .., a, _, _ => .refl _
termination_by structural s => s

theorem builds_block : (body : Block) → (a : Analysis) → a.table.Linked →
    (block declared body a).errors = [] →
    Builds [] body.scopes a.table (block declared body a).table
  | ⟨body, _⟩, a, linked, clean =>
    .scope linked (builds_stmts body a.enter linked.enter clean)
termination_by structural body => body

/-- The statements of a block in a new scope, in which other things are declared before. -/
theorem builds_scope : (body : Block) → {t : Table} → {a : Analysis} → t.Linked →
    Builds [] [] t.enter a.table → (within declared body a).errors = [] →
    Builds [] body.scopes t (within declared body a).exit.table
  | ⟨body, _⟩, t, a, linked, opened, clean => by
    have inside := builds_stmts body a (opened.linked linked.enter) clean
    exact .scope linked (opened.trans linked.enter inside)
termination_by structural body => body

theorem builds_stmts : (body : List Stmt) → (a : Analysis) → a.table.Linked →
    (stmts declared body a).errors = [] →
    Builds (functionsIn body) (bodyScopes body) a.table (stmts declared body a).table
  | [], a, _, _ => .refl _
  | s :: others, a, linked, clean => by
    have first := builds_stmt s a linked (clean_stmts declared others _ clean)
    have whole := first.trans linked (builds_stmts others _ (first.linked linked) clean)
    rwa [← functionsIn_cons] at whole
termination_by structural body => body

theorem builds_arms : (cases : List Case) → (a : Analysis) → a.table.Linked →
    (arms declared cases a).errors = [] →
    Builds [] (armsScopes cases) a.table (arms declared cases a).table
  | [], a, _, _ => .refl _
  | ⟨value, body, _⟩ :: others, a, linked, clean => by
    have before := clean_arms declared others _ clean
    have same := (clean_expr declared value a (clean_block declared body _ before)).1
    simp only [arms, same] at before clean ⊢
    have first := builds_block body a linked before
    exact first.trans linked (builds_arms others _ (first.linked linked) clean)
termination_by structural cases => cases

end

end

end Analysis

/-- If nothing is wrong with the names of a program, there is a frame for each of its scopes, in the
order in which they are opened. In this frame the prototypes and definitions of a function that
stand directly in the scope have one symbol. There is at most one definition among them, and the
symbol has the place of the first of them, and the type of each. It is that of a prototype just if
all of them are. -/
theorem Program.functions_reconciled {p : Program} (clean : (analyze p).errors = []) :
    (analyze p).table.size = p.scopes.length ∧
      ∀ id body, p.scopes[id]? = some body →
        Reconciled (functionsIn body) ((analyze p).table.frameSymbols id) := by
  -- The global frame stays the current one, and the frames of the other scopes come behind it.
  have whole := Analysis.builds_stmts _ p.body .empty Table.linked_empty clean
  refine ⟨whole.size.trans (Nat.add_comm ..), fun id body found => ?_⟩
  cases id with
  | zero =>
    obtain rfl := Option.some.inj found
    exact whole.here [] .nil
  | succ place =>
    have inside := whole.inside place body found
    rwa [Nat.add_comm] at inside

/-- Prototypes before and behind a definition, in the global scope and in one inside. -/
def prototyped : String :=
  "int f(int a);\ndouble f(double b) \x7b return b; \x7d\n" ++
  "int f(int b) \x7b void f(); void f() \x7b \x7d void f(); return b; \x7d\n" ++
  "int f(int c);\nmain \x7b \x7d\n"

/-- Three declarations of a function in the scope of another one have one symbol, which is not that
of a prototype. -/
theorem prototyped_reconciled : ∃ p, readProgram prototyped = .ok p ∧ (analyze p).errors = [] ∧
    ∃ body s, p.scopes[2]? = some body ∧
      ((functionsIn body).filter (·.isOf "f" [])).map (·.defines) = [false, true, false] ∧
      ((analyze p).table.frameSymbols 2).filter (·.isOf "f" []) = [s] ∧
      s.Unites ((functionsIn body).filter (·.isOf "f" [])) ∧ s.isPrototype = false := by
  have checked : (readProgram prototyped).toOption.any fun p => (analyze p).errors.isEmpty &&
      p.scopes[2]?.any fun body =>
        ((functionsIn body).filter (·.isOf "f" [])).map (·.defines) = [false, true, false] := by
    decide +kernel
  obtain ⟨p, read, facts⟩ := exists_of_readProgram checked
  obtain ⟨clean, body, opened, declared⟩ : (analyze p).errors = [] ∧ ∃ body,
      p.scopes[2]? = some body ∧
        ((functionsIn body).filter (·.isOf "f" [])).map (·.defines) = [false, true, false] := by
    simpa [Option.any_eq_true] using facts
  have reconciled := (Program.functions_reconciled clean).2 2 body opened
  rcases reconciled "f" [] with ⟨none, -⟩ | ⟨s, only, unites⟩
  · rw [none] at declared
    exact nomatch declared
  · refine ⟨p, read, clean, body, s, opened, declared, only, unites, ?_⟩
    have defined : true ∈ ((functionsIn body).filter (·.isOf "f" [])).map (·.defines) := by
      simp [declared]
    obtain ⟨d, member, defines⟩ := List.mem_map.mp defined
    refine Bool.eq_false_iff.mpr fun prototype => ?_
    exact Bool.false_ne_true ((unites.isPrototype.mp prototype d member).symm.trans defines)

end Curly
