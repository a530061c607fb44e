import Curly.Proofs.Scope.Clean
import Curly.Proofs.Scope.Path
import Curly.Proofs.Typing.Rules

/-! The types that expressions have by the rules, in the scopes around them. Where every name stands
for something, the checker finds no fault with an expression just if the rules give it a type, and
finds the same one. -/
namespace Curly

/-- A symbol has types that can be written. -/
structure Symbol.Proper (s : Symbol) : Prop where
  ty : s.ty ≠ .invalid
  params : ∀ params, s.params? = some params → .invalid ∉ params

def Scopes.Proper (scopes : Scopes) : Prop :=
  ∀ scope ∈ scopes, ∀ s ∈ scope, s.Proper

theorem Scopes.Proper.visible {scopes : Scopes} (proper : scopes.Proper) {name : String}
    {s : Symbol} (found : s ∈ scopes.visible name) : s.Proper := by
  obtain ⟨scope, listed, member⟩ := mem_of_visible found
  exact proper scope listed s member

/-- What a call of a name may mean that stands for these symbols. -/
def Typing.Overload.among (symbols : List Symbol) : List Overload :=
  symbols.filterMap fun s => s.params?.map (⟨·, s.ty⟩)

namespace Typing

section

variable (scopes : Scopes)

mutual

/-- An expression has a type, which is `void` if it has no value. -/
inductive Derives : Expr → Ty → Prop
  | int (value : Int) (span : Span) : Derives (.int value span) .int
  | float (value : Double) (span : Span) : Derives (.float value span) .float
  | string (value : String) (span : Span) : Derives (.string value span) .string
  | char (value : Char) (span : Span) : Derives (.char value span) .char
  | bool (value : Bool) (span : Span) : Derives (.bool value span) .bool
  | symbol {name : Identifier} {s : Symbol} (found : (scopes.visible name.name).head? = some s)
      (plain : s.isFunction = false) : Derives (.symbol name) s.ty
  | assign {target : Identifier} {s : Symbol} {e : Expr} {ty : Ty} (span : Span)
      (found : (scopes.visible target.name).head? = some s) (isVariable : s.isVariable)
      (value : Derives e ty) (isValue : ty ≠ .void) (fits : s.ty.Compatible ty) :
      Derives (.binary .assign (.symbol target) e span) s.ty
  | binary {op : BinaryOp} {left right : Expr} {a b ty : Ty} (span : Span)
      (first : Derives left a) (isFirst : a ≠ .void)
      (second : Derives right b) (isSecond : b ≠ .void) (rule : op.Rule a b ty) :
      Derives (.binary op left right span) ty
  | unary {op : UnaryOp} {e : Expr} {a ty : Ty} (side : Side) (span : Span)
      (operand : Derives e a) (isValue : a ≠ .void) (rule : op.Rule e.symbol?.isSome a ty) :
      Derives (.unary op e side span) ty
  | call {callee : Identifier} {args : List Expr} {types : List Ty} {o : Overload} (span : Span)
      (arguments : DerivesAll args types)
      (chosen : o.Chosen (Overload.among (scopes.visible callee.name)) types) :
      Derives (.call callee args span) o.ty

/-- Expressions have values of these types. -/
inductive DerivesAll : List Expr → List Ty → Prop
  | nil : DerivesAll [] []
  | cons {e : Expr} {others : List Expr} {ty : Ty} {types : List Ty} (first : Derives e ty)
      (isValue : ty ≠ .void) (behind : DerivesAll others types) :
      DerivesAll (e :: others) (ty :: types)

end

/-- An expression has a value of this type. -/
def Gives (e : Expr) (ty : Ty) : Prop :=
  Derives scopes e ty ∧ ty ≠ .void

end

theorem Verdict.typed_eq_iff {v : Verdict} {position : Position} {before : List TypeError}
    {ty : Ty} : v.typed position before = ⟨ty, []⟩ ↔ v = (ty, none) ∧ before = [] := by
  obtain ⟨found, cause⟩ := v
  cases cause <;> simp [Verdict.typed, and_comm]

theorem asValue_eq_iff {t : Typed} {position : Position} {ty : Ty} :
    t.asValue position = ⟨ty, []⟩ ↔ t = ⟨ty, []⟩ ∧ ty ≠ .void := by
  unfold Typed.asValue
  split
  · rename_i void
    constructor
    · intro same
      simp at same
    · rintro ⟨rfl, isValue⟩
      exact absurd void isValue
  · rename_i isValue
    refine ⟨?_, And.left⟩
    rintro rfl
    exact ⟨rfl, isValue⟩

theorem Overload.mem_among {symbols : List Symbol} {o : Overload} (member : o ∈ among symbols) :
    ∃ s ∈ symbols, s.params? = some o.params ∧ s.ty = o.ty := by
  obtain ⟨s, known, same⟩ := List.mem_filterMap.mp member
  obtain ⟨params, found, rfl⟩ := Option.map_eq_some_iff.mp same
  exact ⟨s, known, found, rfl⟩

theorem Overload.Chosen.mem {candidates : List Overload} {arguments : List Ty} {o : Overload}
    (chosen : o.Chosen candidates arguments) : o ∈ candidates := by
  obtain ⟨-, before, behind, rfl, -⟩ | ⟨-, -, before, behind, rfl, -⟩ := chosen <;> simp

theorem Derives.ne_invalid {scopes : Scopes} (proper : scopes.Proper) {e : Expr} {ty : Ty}
    (derives : Derives scopes e ty) : ty ≠ .invalid := by
  cases derives with
  | symbol found => exact (proper.visible (List.mem_of_mem_head? found)).ty
  | assign _ found => exact (proper.visible (List.mem_of_mem_head? found)).ty
  | binary _ _ _ _ _ rule => exact rule.ne_invalid
  | unary _ _ _ _ rule => exact rule.ne_invalid
  | call _ _ chosen =>
    obtain ⟨s, member, -, same⟩ := Overload.mem_among chosen.mem
    exact same ▸ (proper.visible member).ty
  | _ => exact nofun

theorem DerivesAll.ne_invalid {scopes : Scopes} (proper : scopes.Proper) {es : List Expr}
    {types : List Ty} (derives : DerivesAll scopes es types) : .invalid ∉ types := by
  induction es generalizing types with
  | nil =>
    cases derives
    exact nofun
  | cons e others ih =>
    cases derives with
    | cons first isValue behind =>
      rw [List.mem_cons, not_or]
      exact ⟨(first.ne_invalid proper).symm, ih behind⟩

variable {t : Table}

theorem lookup_eq (name : String) : t.lookup name = (t.scopes.visible name).head? := by
  rw [Table.lookup, Table.lookupAll_eq]

theorem overloads_eq (name : String) :
    overloads t name = Overload.among (t.scopes.visible name) := by
  rw [overloads, Table.lookupAll_eq]
  rfl

theorem exists_visible {name : String} (found : t.lookupAll name ≠ []) :
    ∃ s, (t.scopes.visible name).head? = some s := by
  rwa [← Option.isSome_iff_exists, List.isSome_head?, ← Table.lookupAll_eq]

theorem argumentErrors_eq_nil_iff (name : String) (number : Nat) (params : List Ty)
    (arguments : List (Ty × Position)) :
    argumentErrors name number params arguments = [] ↔
      ∀ x ∈ params.zip (arguments.map Prod.fst), x.1.fits x.2 := by
  induction params generalizing number arguments with
  | nil => simp [argumentErrors]
  | cons param params ih =>
    cases arguments with
    | nil => simp [argumentErrors]
    | cons argument arguments =>
      obtain ⟨argument, position⟩ := argument
      unfold argumentErrors
      split <;> simp_all

/-- A call without fault has the type of the overload that is chosen. -/
theorem callTyped_eq_iff {name : String} (found : t.lookupAll name ≠ []) (position : Position)
    (arguments : List (Ty × Position)) (ty : Ty) :
    callTyped t name position arguments = ⟨ty, []⟩ ↔
      ∃ o, choose? (overloads t name) (arguments.map Prod.fst) = some o ∧ o.ty = ty := by
  have known : (t.lookup name).isSome := by
    rwa [Table.lookup, List.isSome_head?]
  generalize choice : choose? (overloads t name) (arguments.map Prod.fst) = chosen?
  simp only [callTyped, choice]
  generalize overloads t name = candidates at choice ⊢
  cases chosen? with
  | some chosen => simp [Typed.pure]
  | none =>
    cases candidates with
    | nil => simp [known]
    | cons first others =>
      rw [choose?, Option.or_eq_none_iff, List.find?_eq_none, List.find?_eq_none] at choice
      dsimp only
      split
      · rename_i nearest nearby
        have sized := List.find?_some nearby
        have unfit := choice.2 nearest (List.mem_of_find?_eq_some nearby)
        refine iff_of_false (fun same => unfit ?_) (by simp)
        have fits := (argumentErrors_eq_nil_iff ..).mp (congrArg Typed.errors same)
        rw [Overload.accepts, Bool.and_eq_true, List.all_eq_true]
        exact ⟨sized, fits⟩
      · simp

/-- Faults before those of an expression. -/
theorem Typed.behind_eq_iff {x : Typed} {before : List TypeError} {ty : Ty} :
    (⟨x.ty, before ++ x.errors⟩ : Typed) = ⟨ty, []⟩ ↔ before = [] ∧ x = ⟨ty, []⟩ := by
  obtain ⟨found, errors⟩ := x
  simp only [Typed.mk.injEq, List.append_eq_nil_iff]
  exact and_left_comm

theorem Typed.eq_of_clean {x : Typed} (clean : x.errors = []) : x = ⟨x.ty, []⟩ := by
  rw [← clean]

/-- A value may be assigned only to a variable that it fits. -/
theorem assignmentVerdict_eq {target : Expr} {value ty : Ty}
    (found : ∀ name ∈ target.uses, t.lookupAll name ≠ [])
    (fine : assignmentVerdict t target value = (ty, none)) :
    ∃ name s, target = .symbol name ∧ (t.scopes.visible name.name).head? = some s ∧
      s.isVariable = true ∧ s.ty.fits value = true ∧ s.ty = ty := by
  unfold assignmentVerdict at fine
  split at fine
  · rename_i name
    obtain ⟨s, known⟩ := exists_visible (found name.name (by simp [Expr.uses]))
    rw [lookup_eq, known] at fine
    dsimp only at fine
    split at fine
    · simp at fine
    · rename_i isVariable
      split at fine
      · rename_i fits
        exact ⟨name, s, rfl, known, by simpa using isVariable, fits, (Prod.mk.inj fine).1⟩
      · simp at fine
  · simp at fine

/-- The checker finds no fault with an expression just where the rules give it a type. -/
def Adequate (t : Table) (e : Expr) : Prop :=
  ∀ ty, typeOf t e = ⟨ty, []⟩ ↔ Derives t.scopes e ty

namespace Adequate

variable {e left right : Expr}

theorem gives (adequate : Adequate t e) (ty : Ty) :
    valueOf t e = ⟨ty, []⟩ ↔ Gives t.scopes e ty := by
  rw [valueOf, asValue_eq_iff, adequate ty, Gives]

theorem gives_of_clean (adequate : Adequate t e) (clean : (valueOf t e).errors = []) :
    Gives t.scopes e (valueOf t e).ty :=
  (adequate.gives _).mp (Typed.eq_of_clean clean)

theorem literal {found : Ty} (typed : typeOf t e = .pure found) (derives : Derives t.scopes e found)
    (only : ∀ {ty : Ty}, Derives t.scopes e ty → found = ty) : Adequate t e := by
  intro ty
  rw [typed, Typed.pure, Typed.mk.injEq, and_iff_left rfl]
  exact ⟨fun same => same ▸ derives, only⟩

/-- A name that stands for something has the type of it, unless that is a function. -/
theorem symbol {name : Identifier} (found : t.lookupAll name.name ≠ []) :
    Adequate t (.symbol name) := by
  intro ty
  obtain ⟨s, known⟩ := exists_visible found
  rw [typeOf, Verdict.typed_eq_iff]
  simp only [nameVerdict, lookup_eq, known, Verdict.fine, and_true]
  constructor
  · intro same
    split at same
    · simp at same
    · rename_i plain
      obtain rfl := (Prod.mk.inj same).1
      exact .symbol known (Bool.eq_false_iff.mpr plain)
  · intro derives
    cases derives with
    | symbol found plain =>
      obtain rfl := Option.some.inj (known.symm.trans found)
      rw [plain]
      rfl

theorem assign (proper : t.scopes.Proper) {target : Expr} (span : Span) (adequate : Adequate t e)
    (found : ∀ name ∈ target.uses, t.lookupAll name ≠ []) :
    Adequate t (.binary .assign target e span) := by
  intro ty
  rw [typeOf, if_pos rfl, Verdict.typed_eq_iff]
  constructor
  · rintro ⟨verdict, clean⟩
    obtain ⟨derives, isValue⟩ := adequate.gives_of_clean clean
    obtain ⟨name, s, rfl, known, isVariable, fits, rfl⟩ := assignmentVerdict_eq found verdict
    have symbol := (proper.visible (List.mem_of_mem_head? known)).ty
    exact .assign span known isVariable derives isValue
      ((Ty.fits_iff symbol (derives.ne_invalid proper)).mp fits)
  · intro derives
    cases derives with
    | binary _ _ _ _ _ rule => exact rule.elim
    | @assign name s _ _ _ known isVariable value isValue fits =>
      have one : (typeOf t e).asValue e.start = _ := (adequate.gives _).mpr ⟨value, isValue⟩
      have symbol := (proper.visible (List.mem_of_mem_head? known)).ty
      have fits := (Ty.fits_iff symbol (value.ne_invalid proper)).mpr fits
      rw [one]
      exact ⟨by simp [assignmentVerdict, lookup_eq, known, isVariable, fits, Verdict.fine], rfl⟩

theorem binary (proper : t.scopes.Proper) {op : BinaryOp} (plain : op ≠ .assign) (span : Span)
    (first : Adequate t left) (second : Adequate t right) :
    Adequate t (.binary op left right span) := by
  intro ty
  rw [typeOf, if_neg plain, Verdict.typed_eq_iff, List.append_eq_nil_iff]
  constructor
  · rintro ⟨verdict, leftClean, rightClean⟩
    obtain ⟨derivesLeft, isLeft⟩ := first.gives_of_clean leftClean
    obtain ⟨derivesRight, isRight⟩ := second.gives_of_clean rightClean
    have known := And.intro (derivesLeft.ne_invalid proper) (derivesRight.ne_invalid proper)
    exact .binary span derivesLeft isLeft derivesRight isRight
      ((op.verdict_eq_iff known plain).mp verdict)
  · intro derives
    cases derives with
    | assign => exact absurd rfl plain
    | binary _ derivesLeft isLeft derivesRight isRight rule =>
      have known := And.intro (derivesLeft.ne_invalid proper) (derivesRight.ne_invalid proper)
      have one : (typeOf t left).asValue left.start = _ := (first.gives _).mpr ⟨derivesLeft, isLeft⟩
      have two : (typeOf t right).asValue right.start = _ :=
        (second.gives _).mpr ⟨derivesRight, isRight⟩
      rw [one, two]
      exact ⟨(op.verdict_eq_iff known plain).mpr rule, rfl, rfl⟩

theorem unary (proper : t.scopes.Proper) {op : UnaryOp} (side : Side) (span : Span)
    (adequate : Adequate t e) : Adequate t (.unary op e side span) := by
  intro ty
  rw [typeOf, Verdict.typed_eq_iff]
  constructor
  · rintro ⟨verdict, clean⟩
    obtain ⟨derives, isValue⟩ := adequate.gives_of_clean clean
    exact .unary side span derives isValue
      ((op.verdict_eq_iff _ (derives.ne_invalid proper)).mp verdict)
  · intro derives
    cases derives with
    | unary _ _ operand isValue rule =>
      have one : (typeOf t e).asValue e.start = _ := (adequate.gives _).mpr ⟨operand, isValue⟩
      rw [one]
      exact ⟨(op.verdict_eq_iff _ (operand.ne_invalid proper)).mpr rule, rfl⟩

end Adequate

theorem length_typesOf (t : Table) (es : List Expr) : (typesOf t es).length = es.length := by
  induction es with
  | nil => rfl
  | cons e others ih => simp [typesOf, ih]

/-- Values without fault have types by the rules. -/
def AdequateAll (t : Table) (es : List Expr) : Prop :=
  ∀ types, typesOf t es = types.map Typed.pure ↔ DerivesAll t.scopes es types

theorem AdequateAll.nil : AdequateAll t [] := by
  intro types
  constructor
  · intro same
    cases types with
    | nil => exact .nil
    | cons => simp [typesOf] at same
  · intro derives
    cases derives
    rfl

theorem AdequateAll.cons {e : Expr} {others : List Expr} (first : Adequate t e)
    (behind : AdequateAll t others) : AdequateAll t (e :: others) := by
  intro types
  constructor
  · intro same
    cases types with
    | nil => simp [typesOf] at same
    | cons ty types =>
      obtain ⟨here, rest⟩ := List.cons.inj same
      obtain ⟨derives, isValue⟩ := (first.gives ty).mp here
      exact .cons derives isValue ((behind types).mp rest)
  · intro derives
    cases derives with
    | cons derives isValue rest =>
      exact congr (congrArg List.cons ((first.gives _).mpr ⟨derives, isValue⟩))
        ((behind _).mpr rest)

theorem pure_types_of_clean {values : List Typed} (clean : values.flatMap Typed.errors = []) :
    values = (values.map Typed.ty).map Typed.pure := by
  rw [List.map_map]
  refine (List.map_id _).symm.trans (List.map_congr_left fun value member => ?_)
  exact Typed.eq_of_clean (List.flatMap_eq_nil_iff.mp clean value member)

/-- A call without fault has the type of the overload that its arguments choose. -/
theorem typeOf_call_eq_iff {callee : Identifier} (found : t.lookupAll callee.name ≠ [])
    (args : List Expr) (span : Span) (ty : Ty) :
    typeOf t (.call callee args span) = ⟨ty, []⟩ ↔
      (typesOf t args).flatMap Typed.errors = [] ∧ ∃ o,
        choose? (overloads t callee.name) ((typesOf t args).map Typed.ty) = some o ∧ o.ty = ty := by
  have types : (List.zip ((typesOf t args).map Typed.ty) (args.map Expr.start)).map Prod.fst =
      (typesOf t args).map Typed.ty :=
    List.map_fst_zip (by simp [length_typesOf])
  rw [typeOf, Typed.behind_eq_iff, callTyped_eq_iff found, types]

theorem Adequate.call (proper : t.scopes.Proper) {callee : Identifier} {args : List Expr}
    (span : Span) (adequate : AdequateAll t args) (found : t.lookupAll callee.name ≠ []) :
    Adequate t (.call callee args span) := by
  intro ty
  have params (o : Overload) (member : o ∈ Overload.among (t.scopes.visible callee.name)) :
      .invalid ∉ o.params := by
    obtain ⟨s, known, same, -⟩ := Overload.mem_among member
    exact (proper.visible known).params _ same
  have chosen {types : List Ty} (derives : DerivesAll t.scopes args types) (o : Overload) :=
    Overload.choose?_eq_some_iff (o := o) params (derives.ne_invalid proper)
  rw [typeOf_call_eq_iff found, overloads_eq]
  constructor
  · rintro ⟨clean, o, choice, rfl⟩
    have derives := (adequate _).mp (pure_types_of_clean clean)
    exact .call span derives ((chosen derives o).mp choice)
  · intro derives
    cases derives with
    | @call _ _ types o _ arguments choice =>
      have same := (adequate types).mpr arguments
      have kept : (types.map Typed.pure).map Typed.ty = types :=
        List.map_map.trans (List.map_id types)
      have clean : (types.map Typed.pure).flatMap Typed.errors = [] := by simp [Typed.pure]
      rw [same, kept]
      exact ⟨clean, o, (chosen arguments o).mpr choice, rfl⟩

mutual

/-- Where all names stand for something, the checker goes by the rules. -/
theorem adequate (proper : t.scopes.Proper) : (e : Expr) →
    (∀ name ∈ e.uses, t.lookupAll name ≠ []) → Adequate t e
  | .int value span, _ =>
    .literal rfl (.int value span) fun derives => by cases derives; rfl
  | .float value span, _ =>
    .literal rfl (.float value span) fun derives => by cases derives; rfl
  | .string value span, _ =>
    .literal rfl (.string value span) fun derives => by cases derives; rfl
  | .char value span, _ =>
    .literal rfl (.char value span) fun derives => by cases derives; rfl
  | .bool value span, _ =>
    .literal rfl (.bool value span) fun derives => by cases derives; rfl
  | .symbol name, found => .symbol (found name.name (by simp [Expr.uses]))
  | .binary op left right span, found => by
    rw [Expr.uses, List.forall_mem_append] at found
    by_cases assigns : op = .assign
    · exact assigns ▸ .assign proper span (adequate proper right found.2) found.1
    · exact .binary proper assigns span (adequate proper left found.1)
        (adequate proper right found.2)
  | .unary _ operand side span, found => .unary proper side span (adequate proper operand found)
  | .call callee args span, found => by
    rw [Expr.uses, List.forall_mem_cons] at found
    exact .call proper span (adequateAll proper args found.2) found.1
termination_by structural e => e

theorem adequateAll (proper : t.scopes.Proper) : (es : List Expr) →
    (∀ name ∈ usesIn es, t.lookupAll name ≠ []) → AdequateAll t es
  | [], _ => .nil
  | e :: others, found => by
    rw [usesIn, List.forall_mem_append] at found
    exact .cons (adequate proper e found.1) (adequateAll proper others found.2)
termination_by structural es => es

end

namespace Adequate

variable {e : Expr}

/-- What is asked of the type that the checker finds may be asked of the type by the rules. -/
theorem typed_iff (adequate : Adequate t e) (P : Ty → Prop) :
    (typeOf t e).errors = [] ∧ P (typeOf t e).ty ↔ ∃ ty, Derives t.scopes e ty ∧ P ty := by
  constructor
  · rintro ⟨clean, holds⟩
    exact ⟨_, (adequate _).mp (Typed.eq_of_clean clean), holds⟩
  · rintro ⟨ty, derives, holds⟩
    rw [(adequate ty).mpr derives]
    exact ⟨rfl, holds⟩

theorem value_iff (adequate : Adequate t e) (P : Ty → Prop) :
    (valueOf t e).errors = [] ∧ P (valueOf t e).ty ↔ ∃ ty, Gives t.scopes e ty ∧ P ty := by
  constructor
  · rintro ⟨clean, holds⟩
    exact ⟨_, adequate.gives_of_clean clean, holds⟩
  · rintro ⟨ty, gives, holds⟩
    rw [(adequate.gives ty).mpr gives]
    exact ⟨rfl, holds⟩

end Adequate

end Typing
end Curly
