import Curly.Proofs.Scope.Path
import Curly.Proofs.Scope.Steps
import Mathlib.Data.List.Nodup

/-! What a name stands for in one frame. Whatever the analyzer has come to in a program, a name has
a single symbol there, or functions only, which differ in the types of their parameters. -/
namespace Curly

/-- Symbols that can share a name: a single one that is no function, or functions that differ in
the types of their parameters. -/
def Distinguished (symbols : List Symbol) : Prop :=
  (∃ s, symbols = [s] ∧ s.isFunction = false) ∨
    (∀ s ∈ symbols, s.isFunction) ∧ (symbols.map Symbol.params?).Nodup

namespace Distinguished

variable {symbols others : List Symbol} {s : Symbol}

theorem single (s : Symbol) : Distinguished [s] := by
  cases isFunction : s.isFunction with
  | false => exact .inl ⟨s, rfl, isFunction⟩
  | true => exact .inr ⟨by simpa using isFunction, List.nodup_singleton _⟩

/-- Nothing but the types of parameters matters. -/
theorem congr (same : symbols.map Symbol.params? = others.map Symbol.params?)
    (distinguished : Distinguished symbols) : Distinguished others := by
  have functions (list : List Symbol) :
      (∀ s ∈ list, s.isFunction) ↔ none ∉ list.map Symbol.params? := by
    simp [Symbol.isFunction, Option.isSome_iff_ne_none]
  rcases distinguished with ⟨s, rfl, isFunction⟩ | ⟨all, nodup⟩
  · obtain ⟨t, rfl⟩ : ∃ t, others = [t] :=
      List.length_eq_one_iff.mp (by simpa using (congrArg List.length same).symm)
    exact single t
  · rw [functions, same, ← functions] at all
    exact .inr ⟨all, same ▸ nodup⟩

theorem concat (functions : ∀ other ∈ symbols, other.isFunction) (isFunction : s.isFunction)
    (new : s.params? ∉ symbols.map Symbol.params?) (distinguished : Distinguished symbols) :
    Distinguished (symbols ++ [s]) := by
  rcases distinguished with ⟨t, rfl, other⟩ | ⟨_, nodup⟩
  · rw [functions t (.head _)] at other
    exact nomatch other
  · refine .inr ⟨?_, ?_⟩
    · simpa [or_imp, forall_and] using ⟨functions, isFunction⟩
    · rw [List.map_append]
      exact nodup.append (List.nodup_singleton _) (by simpa using new)

end Distinguished

namespace Frame

/-- Every symbol is found under its name and under no other one, and the symbols of each name can
share it. -/
structure Unambiguous (f : Frame) : Prop where
  own : ∀ s ∈ f.symbols, ∀ name, s ∈ f.named name ↔ s.name = name
  distinguished : ∀ name, Distinguished (f.named name)

variable {f : Frame}

theorem unambiguous_iff : f.Unambiguous ↔ ∀ name, Distinguished (f.named name) :=
  ⟨Unambiguous.distinguished, fun holds => ⟨fun s member name => by simp [named, member], holds⟩⟩

theorem unambiguous_of_nil (empty : f.symbols = []) : f.Unambiguous :=
  unambiguous_iff.mpr fun name => .inr (by simp [named, empty])

theorem named_declare (f : Frame) (s : Symbol) (name : String) :
    (f.declare s).named name = f.named name ++ if s.name = name then [s] else [] := by
  simp [named, declare, List.filter_append, List.filter_cons]

theorem params_complete (p : Symbol → Bool) (name : String) :
    ((f.complete p).named name).map Symbol.params? = (f.named name).map Symbol.params? := by
  simp only [named, complete]
  induction f.symbols with
  | nil => rfl
  | cons s others ih =>
    unfold completeFirst
    split
    · simp only [List.filter_cons, Symbol.completed_name]
      split <;> simp
    · simp only [List.filter_cons]
      split <;> simp [ih]

/-- A symbol may come to those of its name if there are none, or if all are functions and the
parameters are new. -/
def Admits (f : Frame) (s : Symbol) : Prop :=
  f.named s.name = [] ∨ (∀ other ∈ f.named s.name, other.isFunction) ∧ s.isFunction ∧
    s.params? ∉ (f.named s.name).map Symbol.params?

namespace Unambiguous

theorem declare {s : Symbol} (unambiguous : f.Unambiguous) (admits : f.Admits s) :
    (f.declare s).Unambiguous := by
  refine unambiguous_iff.mpr fun name => ?_
  rw [named_declare]
  by_cases same : s.name = name
  · subst same
    rw [if_pos rfl]
    rcases admits with none | ⟨functions, isFunction, new⟩
    · rw [none]
      exact .single s
    · exact (unambiguous.distinguished s.name).concat functions isFunction new
  · rw [if_neg same, List.append_nil]
    exact unambiguous.distinguished name

theorem complete (unambiguous : f.Unambiguous) (p : Symbol → Bool) : (f.complete p).Unambiguous :=
  unambiguous_iff.mpr fun name =>
    (unambiguous.distinguished name).congr (params_complete p name).symm

end Unambiguous
end Frame

namespace Table

def Unambiguous (t : Table) : Prop :=
  ∀ id f, t.frame? id = some f → f.Unambiguous

/-- The current frame lets a symbol be declared. -/
def Admits (t : Table) (s : Symbol) : Prop :=
  ∀ f, t.frame? t.current = some f → f.Admits s

variable {t : Table} {s : Symbol}

theorem named_of_frame? {f : Frame} (found : t.frame? t.current = some f) (name : String) :
    f.named name = t.lookupLocalAll name := by
  rw [lookupLocalAll, namedIn, found]

theorem admits_of_nil (none : t.lookupLocalAll s.name = []) : t.Admits s :=
  fun _ found => .inl ((named_of_frame? found s.name).trans none)

theorem admits_of_overload {params : List Ty}
    (functions : ((t.lookupLocalAll s.name).any fun s => !s.isFunction) = false)
    (shows : s.params? = some params) (new : t.lookupOverload s.name params = none) :
    t.Admits s := by
  intro f found
  rw [List.any_eq_false] at functions
  rw [lookupOverload, List.find?_eq_none] at new
  refine .inr ?_
  rw [named_of_frame? found]
  refine ⟨fun other member => by simpa using functions other member, ?_, ?_⟩
  · rw [Symbol.isFunction, shows]
    rfl
  · simpa [shows] using new

theorem lookupLocalAll_of_lookupLocal {name : String} (none : t.lookupLocal name = none) :
    t.lookupLocalAll name = [] :=
  List.head?_eq_none_iff.mp none

theorem lookupLocalAll_of_lookup {name : String} (none : (t.lookup name).isSome = false) :
    t.lookupLocalAll name = [] := by
  rw [lookup, Option.isSome_eq_false_iff, Option.isNone_iff_eq_none, List.head?_eq_none_iff,
    lookupAll, search] at none
  split at none
  · assumption
  · exact absurd none ‹_›

theorem mem_frameNames_declare {name : String}
    (member : name ∈ (t.declare s).frameNames (t.declare s).current) :
    name ∈ t.frameNames t.current ∨ name = s.name := by
  have current : (t.declare s).current = t.current := rfl
  rw [current, frameNames, frame?, declare, modify, Array.getElem?_modify, if_pos rfl] at member
  rw [frameNames, frame?]
  cases found : t.frames[t.current]? with
  | none => simp [found] at member
  | some f => simpa [found, Frame.names, Frame.declare] using member

theorem unambiguous_iff : t.Unambiguous ↔ ∀ id name, Distinguished (t.namedIn id name) := by
  refine ⟨fun holds id name => ?_, fun holds id f found => ?_⟩
  · unfold namedIn
    split
    · exact (holds id _ ‹_›).distinguished name
    · exact .inr (by simp)
  · refine Frame.unambiguous_iff.mpr fun name => ?_
    have here := holds id name
    rwa [namedIn, found] at here

theorem unambiguous_modify {change : Frame → Frame} (unambiguous : t.Unambiguous)
    (keeps : ∀ f, t.frame? t.current = some f → f.Unambiguous → (change f).Unambiguous) :
    (t.modify change).Unambiguous := by
  intro id f found
  simp only [frame?, modify, Array.getElem?_modify] at found
  split at found
  · obtain ⟨before, here, rfl⟩ := Option.map_eq_some_iff.mp found
    subst id
    exact keeps before here (unambiguous t.current before here)
  · exact unambiguous id f found

namespace Unambiguous

theorem empty : Unambiguous .empty := by
  intro id f found
  cases id with
  | zero =>
    obtain rfl := Option.some.inj found
    exact Frame.unambiguous_of_nil rfl
  | succ id => exact nomatch found

theorem declare (unambiguous : t.Unambiguous) (admits : t.Admits s) : (t.declare s).Unambiguous :=
  unambiguous_modify unambiguous fun f found before => before.declare (admits f found)

theorem completeOverload (unambiguous : t.Unambiguous) (name : String) (params : List Ty) :
    (t.completeOverload name params).Unambiguous :=
  unambiguous_modify unambiguous fun _ _ before => before.complete _

theorem enter (unambiguous : t.Unambiguous) : t.enter.Unambiguous := by
  rw [unambiguous_iff] at unambiguous ⊢
  intro id name
  rw [namedIn_eq, frameSymbols_enter]
  split
  · exact .inr (by simp)
  · rw [← namedIn_eq]
    exact unambiguous id name

theorem exit (unambiguous : t.Unambiguous) : t.exit.Unambiguous := by
  unfold Table.exit
  split
  · exact unambiguous
  · exact unambiguous

end Unambiguous
end Table

namespace Ruling

/-- Only what the current frame admits is declared. -/
def Careful (t : Table) : Ruling → Prop
  | .add s => t.Admits s
  | .complete _ | .ignore | .reject _ => True

variable {t : Table}

theorem careful_onVariable (ty : Ty) (name : String) (position : Position) :
    (onVariable t ty name position).Careful t := by
  unfold onVariable
  split
  · trivial
  · split
    · exact Table.admits_of_nil (Table.lookupLocalAll_of_lookupLocal ‹_›)
    · trivial
  · exact Table.admits_of_nil (Table.lookupLocalAll_of_lookupLocal ‹_›)

theorem careful_onPrototype (ty : Ty) (name : String) (params : List Ty) (position : Position) :
    (onPrototype t ty name params position).Careful t := by
  unfold onPrototype
  split
  · trivial
  · split
    · exact Table.admits_of_overload (eq_false_of_ne_true ‹_›) rfl ‹_›
    · repeat' split
      all_goals trivial

theorem careful_onFunction (ty : Ty) (name : String) (params : List Ty) (position : Position) :
    (onFunction t ty name params position).Careful t := by
  unfold onFunction
  split
  · trivial
  · split
    · exact Table.admits_of_overload (eq_false_of_ne_true ‹_›) rfl ‹_›
    · split <;> trivial

theorem careful_onMain (position : Position) : (onMain t position).Careful t := by
  unfold onMain
  split
  · trivial
  next absent =>
    exact Table.admits_of_nil
      (Table.lookupLocalAll_of_lookupLocal (Option.not_isSome_iff_eq_none.mp absent))

/-- Nothing but earlier parameters can be in the frame. -/
theorem careful_onParam {earlier : List String}
    (known : ∀ name ∈ t.frameNames t.current, name ∈ earlier) (p : Param) :
    (onParam earlier p).Careful t := by
  unfold onParam
  split
  · trivial
  next absent =>
    refine Table.admits_of_nil ((Table.namedIn_eq_nil_iff _ _).mpr fun member => absent ?_)
    exact List.contains_iff_mem.mpr (known p.name member)

theorem careful_onEnumeration (name : String) (position : Position) :
    (onEnumeration t name position).Careful t := by
  unfold onEnumeration
  split
  · trivial
  · split
    · trivial
    · exact Table.admits_of_nil (Table.lookupLocalAll_of_lookupLocal ‹_›)

theorem careful_onEnumValue (earlier : List String) (value : Identifier) :
    (onEnumValue t earlier value).Careful t := by
  unfold onEnumValue
  split
  · trivial
  · split
    · trivial
    · exact Table.admits_of_nil (Table.lookupLocalAll_of_lookup (eq_false_of_ne_true ‹_›))

end Ruling

namespace Analysis

abbrev Unambiguous (a : Analysis) : Prop :=
  a.table.Unambiguous

theorem unambiguous_obey {a : Analysis} (unambiguous : a.Unambiguous) (name : String)
    (position : Position) {ruling : Ruling} (careful : ruling.Careful a.table) :
    (a.obey name position ruling).Unambiguous := by
  cases ruling with
  | add s => exact unambiguous.declare careful
  | complete params => exact unambiguous.completeOverload name params
  | ignore | reject => exact unambiguous

/-- The states of an analysis behind each value of an enumeration. -/
def valueMoments (earlier : List String) : List Identifier → Analysis → List Analysis
  | [], _ => []
  | value :: others, a =>
    let b := a.obey value.name value.span.start (.onEnumValue a.table earlier value)
    b :: valueMoments (value.name :: earlier) others b

section

variable (declared : String → Bool)

/-- The states that a step leads through. Only an enumeration declares more than one name. -/
def stepMoments (a : Analysis) : Step → List Analysis
  | .enumeration name values position =>
    let ruling := Ruling.onEnumeration a.table name position
    let b := a.obey name position ruling
    b :: if ruling.isReject then [] else valueMoments [] values b
  | s => [step declared a s]

/-- The states that some steps lead through, the first and the last one included. -/
def moments : List Step → Analysis → List Analysis
  | [], a => [a]
  | s :: steps, a => a :: stepMoments declared a s ++ moments steps (step declared a s)

theorem enumValues_mem_moments (earlier : List String) (values : List Identifier) (a : Analysis) :
    enumValues earlier values a ∈ a :: valueMoments earlier values a := by
  induction values generalizing earlier a with
  | nil => exact .head _
  | cons value others ih => exact .tail _ (ih _ _)

theorem step_mem_moments (a : Analysis) (s : Step) :
    step declared a s ∈ stepMoments declared a s := by
  cases s with
  | enumeration name values position =>
    simp only [step, enumeration, stepMoments]
    split
    · exact .head _
    · exact enumValues_mem_moments [] values _
  | _ => exact .head _

theorem run_mem_moments (steps : List Step) (a : Analysis) :
    run declared steps a ∈ moments declared steps a := by
  induction steps generalizing a with
  | nil => exact .head _
  | cons s others ih => exact List.mem_append_right _ (ih (step declared a s))

/-- Steps that lead from a state through unambiguous ones. -/
def Clear (steps : List Step) (a : Analysis) : Prop :=
  ∀ b ∈ moments declared steps a, b.Unambiguous

variable {declared} {first second steps : List Step} {a : Analysis}

theorem Clear.behind (clear : Clear declared steps a) : (run declared steps a).Unambiguous :=
  clear _ (run_mem_moments declared steps a)

theorem clear_nil (unambiguous : a.Unambiguous) : Clear declared [] a :=
  fun _ member => List.mem_singleton.mp member ▸ unambiguous

theorem Clear.append (before : Clear declared first a)
    (behind : Clear declared second (run declared first a)) :
    Clear declared (first ++ second) a := by
  induction first generalizing a with
  | nil => exact behind
  | cons s others ih =>
    obtain ⟨here, before⟩ := List.forall_mem_append.mp before
    exact List.forall_mem_append.mpr ⟨here, ih before behind⟩

theorem unambiguous_valueMoments (earlier : List String) (values : List Identifier)
    (unambiguous : a.Unambiguous) : ∀ b ∈ valueMoments earlier values a, b.Unambiguous := by
  induction values generalizing earlier a with
  | nil => exact fun _ member => nomatch member
  | cons value others ih =>
    have next := unambiguous_obey unambiguous value.name value.span.start
      (Ruling.careful_onEnumValue earlier value)
    exact List.forall_mem_cons.mpr ⟨next, ih _ next⟩

theorem unambiguous_stepMoments (unambiguous : a.Unambiguous) : (s : Step) →
    (∀ earlier p, s = .param earlier p → ∀ name ∈ a.table.frameNames a.table.current,
      name ∈ earlier) →
    ∀ b ∈ stepMoments declared a s, b.Unambiguous
  | .opens, _ => List.forall_mem_singleton.mpr unambiguous.enter
  | .closes, _ => List.forall_mem_singleton.mpr unambiguous.exit
  | .uses o, _ => by
    refine List.forall_mem_singleton.mpr ?_
    simp only [step, resolve]
    split <;> exact unambiguous
  | .variable ty name position, _ => List.forall_mem_singleton.mpr
    (unambiguous_obey unambiguous _ _ (Ruling.careful_onVariable ty name position))
  | .prototype ty name params position, _ => List.forall_mem_singleton.mpr
    (unambiguous_obey unambiguous _ _ (Ruling.careful_onPrototype ty name params position))
  | .function ty name params position, _ => List.forall_mem_singleton.mpr
    (unambiguous_obey unambiguous _ _ (Ruling.careful_onFunction ty name params position))
  | .main position, _ => List.forall_mem_singleton.mpr
    (unambiguous_obey unambiguous _ _ (Ruling.careful_onMain position))
  | .param earlier p, known => List.forall_mem_singleton.mpr
    (unambiguous_obey unambiguous _ _ (Ruling.careful_onParam (known earlier p rfl) p))
  | .enumeration name values position, _ => by
    have named := unambiguous_obey unambiguous name position
      (Ruling.careful_onEnumeration name position)
    refine List.forall_mem_cons.mpr ⟨named, ?_⟩
    split
    · exact fun _ member => nomatch member
    · exact unambiguous_valueMoments [] values named

/-- Steps that keep a table unambiguous wherever they begin. -/
def Steady (steps : List Step) : Prop :=
  ∀ (declared : String → Bool) (a : Analysis), a.Unambiguous → Clear declared steps a

theorem steady_nil : Steady [] :=
  fun _ _ => clear_nil

theorem Steady.append (before : Steady first) (behind : Steady second) : Steady (first ++ second) :=
  fun declared a unambiguous =>
    (before declared a unambiguous).append
      (behind declared _ (before declared a unambiguous).behind)

theorem clear_cons {s : Step} (unambiguous : a.Unambiguous)
    (here : ∀ b ∈ stepMoments declared a s, b.Unambiguous)
    (behind : (step declared a s).Unambiguous → Clear declared steps (step declared a s)) :
    Clear declared (s :: steps) a := by
  refine List.forall_mem_append.mpr ⟨List.forall_mem_cons.mpr ⟨unambiguous, here⟩, ?_⟩
  exact behind (here _ (step_mem_moments declared a s))

theorem Steady.cons {s : Step} (noParam : ∀ earlier p, s ≠ .param earlier p)
    (behind : Steady steps) : Steady (s :: steps) :=
  fun declared _ unambiguous => clear_cons unambiguous
    (unambiguous_stepMoments unambiguous s fun earlier p same => absurd same (noParam earlier p))
    (behind declared _)

theorem steady_single {s : Step} (noParam : ∀ earlier p, s ≠ .param earlier p) : Steady [s] :=
  steady_nil.cons noParam

theorem Steady.inScope (steady : Steady steps) : Steady (inScope steps) := by
  have closed : Steady (steps ++ [.closes]) := steady.append (steady_single nofun)
  exact closed.cons nofun

theorem steady_uses (os : List Occurrence) : Steady (os.map .uses) := by
  induction os with
  | nil => exact steady_nil
  | cons o others ih => exact ih.cons nofun

theorem steady_optional (e : Option Expr) : Steady (optionalSteps e) := by
  cases e with
  | none => exact steady_nil
  | some e => exact steady_uses e.occurrences

theorem mem_frameNames_param {earlier : List String} {p : Param} {name : String}
    (member : name ∈ (step declared a (.param earlier p)).table.frameNames
      (step declared a (.param earlier p)).table.current) :
    name ∈ a.table.frameNames a.table.current ∨ name = p.name := by
  simp only [step, Ruling.onParam] at member
  split at member
  · exact .inl member
  · exact Table.mem_frameNames_declare member

/-- Parameters are declared first in their frame, so only earlier ones can be there. -/
theorem clear_params (earlier : List String) (ps : List Param) (unambiguous : a.Unambiguous)
    (known : ∀ name ∈ a.table.frameNames a.table.current, name ∈ earlier) :
    Clear declared (paramSteps earlier ps) a := by
  induction ps generalizing earlier a with
  | nil => exact clear_nil unambiguous
  | cons p others ih =>
    refine clear_cons unambiguous (unambiguous_stepMoments unambiguous _ ?_) fun next =>
      ih _ next ?_
    · rintro _ _ ⟨⟩
      exact known
    · intro name member
      rcases mem_frameNames_param member with old | new
      · exact .tail _ (known name old)
      · exact new ▸ .head _

theorem steady_function (ps : List Param) (behind : Steady steps) :
    Steady (Curly.inScope (paramSteps [] ps ++ steps)) := by
  intro declared a unambiguous
  have fresh : a.enter.table.frameNames a.enter.table.current = [] := by
    have opened := Table.frameSymbols_enter (t := a.table) a.table.size
    rw [if_pos rfl] at opened
    rw [Table.frameNames_eq]
    exact congrArg (List.map Symbol.name) opened
  have inside : Clear declared (paramSteps [] ps ++ steps) a.enter := by
    have given : Clear declared (paramSteps [] ps) _ :=
      clear_params [] ps unambiguous.enter fun name member => by rwa [← fresh]
    exact given.append (behind declared _ given.behind)
  have closed := inside.append (steady_single (s := .closes) nofun declared _ inside.behind)
  exact clear_cons unambiguous (unambiguous_stepMoments unambiguous .opens nofun) fun _ => closed

end

mutual

theorem steady_stmt : (s : Stmt) → Steady s.steps
  | .variable _ _ initial _ => (steady_optional initial).append (steady_single nofun)
  | .prototype .. | .enumeration .. => steady_single nofun
  | .function _ _ ps body _ => (steady_function ps (steady_block body)).cons nofun
  | .main body _ => (steady_block body).inScope.cons nofun
  | .block body => (steady_block body).inScope
  | .branch e yes none _ =>
    ((steady_uses e.occurrences).append (steady_block yes).inScope).append steady_nil
  | .branch e yes (some no) _ =>
    ((steady_uses e.occurrences).append (steady_block yes).inScope).append
      (steady_block no).inScope
  | .whileLoop e body _ => (steady_uses e.occurrences).append (steady_block body).inScope
  | .doLoop body e _ => (steady_block body).inScope.append (steady_uses e.occurrences)
  | .forLoop none e update body _ =>
    (((steady_nil.append (steady_optional e)).append (steady_optional update)).append
      (steady_block body).inScope).inScope
  | .forLoop (some initial) e update body _ =>
    ((((steady_stmt initial).append (steady_optional e)).append (steady_optional update)).append
      (steady_block body).inScope).inScope
  | .switch e cases none _ =>
    ((steady_uses e.occurrences).append (steady_arms cases)).append steady_nil
  | .switch e cases (some fallback) _ =>
    ((steady_uses e.occurrences).append (steady_arms cases)).append (steady_block fallback).inScope
  | .giveBack value _ => steady_optional value
  | .print .. => steady_uses _
  | .evaluate e _ => steady_uses e.occurrences
  | .leave _ | .inclusion .. => steady_nil
termination_by structural s => s

theorem steady_block : (body : Block) → Steady body.steps
  | ⟨body, _⟩ => steady_stmts body
termination_by structural body => body

theorem steady_stmts : (body : List Stmt) → Steady (bodySteps body)
  | [] => steady_nil
  | s :: others => (steady_stmt s).append (steady_stmts others)
termination_by structural body => body

theorem steady_arms : (cases : List Case) → Steady (armsSteps cases)
  | [] => steady_nil
  | ⟨value, body, _⟩ :: others =>
    ((steady_uses value.occurrences).append (steady_block body).inScope).append (steady_arms others)
termination_by structural cases => cases

end

end Analysis

/-- The states that the analysis of a program leads through. -/
def Program.moments (p : Program) : List Analysis :=
  Analysis.moments (isDeclared (declarations p.body)) p.steps .empty

theorem Program.analyze_mem_moments (p : Program) : analyze p ∈ p.moments := by
  rw [analyze_eq_run]
  exact Analysis.run_mem_moments _ p.steps .empty

/-- At every moment of the analysis, each name of a frame has a single symbol that is no function,
or functions only, with parameters of their own. -/
theorem Program.unambiguous_at_moments (p : Program) :
    ∀ a ∈ p.moments, ∀ id f, a.table.frame? id = some f → f.Unambiguous :=
  Analysis.steady_stmts p.body _ _ Table.Unambiguous.empty

/-- `enum Color { red } int f(int x); int f(int x) { } int f(double x) { int f; }` -/
def overloading : Program :=
  let place (line : Nat) : Span := ⟨⟨line, 1⟩, ⟨line, 2⟩⟩
  let x (ty : Ty) (line : Nat) : List Param := [⟨ty, "x", place line⟩]
  ⟨[.enumeration "Color" [⟨"red", place 1⟩] (place 1) (place 1),
    .prototype .int "f" (x .int 2) (place 2),
    .function .int "f" (x .int 3) ⟨[], place 3⟩ (place 3),
    .function .int "f" (x .double 4) ⟨[.variable .int "f" none (place 4)], place 4⟩ (place 4)],
    place 0⟩

theorem unambiguous_overloading :
    ∃ f, analyze overloading ∈ overloading.moments ∧
      (analyze overloading).table.frame? 0 = some f ∧ (f.named "f").length = 2 ∧ f.Unambiguous := by
  have here := overloading.analyze_mem_moments
  have counted : ((analyze overloading).table.frame? 0).map (fun f => (f.named "f").length) =
      some 2 := by
    decide +kernel
  obtain ⟨f, found, two⟩ := Option.map_eq_some_iff.mp counted
  exact ⟨f, here, found, two, overloading.unambiguous_at_moments _ here 0 f found⟩

end Curly
