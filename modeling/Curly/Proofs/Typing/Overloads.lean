import Curly.Proofs.Scope.Unambiguous
import Curly.Proofs.Typing.Kept
import Curly.Proofs.Typing.Rules
import Curly.Proofs.Typing.Suppression
import Mathlib.Data.List.Forall2
import Mathlib.Data.List.Nodup

/-! Which overload a call means, and what is complained about where it means none. The overloads of
a name in one frame differ in their parameters, so the one with exactly the types of the arguments
is found in whatever order they are declared. -/
namespace Curly

namespace Table

/-- In each frame, the functions of one name differ in the types of their parameters. -/
def Distinct (t : Table) : Prop :=
  ∀ id name, ((t.namedIn id name).filterMap Symbol.params?).Nodup

variable {t : Table}

theorem namedIn_declare (t : Table) (s : Symbol) (id : FrameId) (name : String) :
    (t.declare s).namedIn id name = t.namedIn id name ∨
      id = t.current ∧ s.name = name ∧
        (t.declare s).namedIn id name = t.namedIn id name ++ [s] := by
  unfold namedIn
  rw [frame?, declare, modify, Array.getElem?_modify, ← frame?]
  by_cases here : t.current = id
  · rw [if_pos here]
    cases t.frame? id with
    | none => exact .inl rfl
    | some f =>
      by_cases same : s.name = name
      · exact .inr ⟨here.symm, same, by simp [Frame.named_declare, same]⟩
      · exact .inl (by simp [Frame.named_declare, same])
  · rw [if_neg here]
    exact .inl rfl

namespace Distinct

theorem empty : Distinct .empty := by
  intro id name
  rw [namedIn_eq]
  cases id <;> simp [frameSymbols, frame?, Table.empty]

theorem enter (distinct : t.Distinct) : t.enter.Distinct := by
  intro id name
  rw [namedIn_eq, frameSymbols_enter]
  split
  · exact List.nodup_nil
  · rw [← namedIn_eq]
    exact distinct id name

theorem exit (distinct : t.Distinct) : t.exit.Distinct := by
  unfold Table.exit
  split
  · exact distinct
  · exact distinct

/-- A function may come into the frame if its parameters are new there. -/
theorem declare (distinct : t.Distinct) {s : Symbol}
    (new : ∀ params, s.params? = some params →
      params ∉ (t.lookupLocalAll s.name).filterMap Symbol.params?) : (t.declare s).Distinct := by
  intro id name
  rcases t.namedIn_declare s id name with same | ⟨rfl, rfl, added⟩
  · rw [same]
    exact distinct id name
  · rw [added, List.filterMap_append]
    refine (distinct t.current s.name).append ?_ ?_
    · cases known : s.params? <;> simp [known]
    · cases known : s.params? with
      | none => simp [known]
      | some params => simpa [known, lookupLocalAll] using new params known

theorem invariant : Table.Invariant Distinct where
  enter := enter
  exit := exit
  plain := fun none distinct => distinct.declare fun _ some => nomatch none.symm.trans some
  overload := fun ty position absent distinct => by
    refine distinct.declare fun params same member => ?_
    obtain ⟨s, here, shows⟩ := List.mem_filterMap.mp member
    cases same
    rw [lookupOverload, List.find?_eq_none] at absent
    exact absent s here (decide_eq_true shows)

theorem lookupAll (distinct : t.Distinct) (name : String) :
    ((t.lookupAll name).filterMap Symbol.params?).Nodup := by
  unfold Table.lookupAll
  induction t.current :: t.outer with
  | nil => exact List.nodup_nil
  | cons id others ih =>
    unfold search
    split
    · exact ih
    · exact distinct id name

end Distinct
end Table

namespace Typing

namespace Overload

/-- Each argument fits the parameter at its place. -/
def Fits (o : Overload) (arguments : List Ty) : Prop :=
  List.Forall₂ (fun param argument => param.fits argument) o.params arguments

theorem accepts_iff_fits {o : Overload} {arguments : List Ty} :
    o.accepts arguments ↔ o.Fits arguments := by
  simp [accepts, Fits, List.forall₂_iff_zip]

theorem fits_of_params {o : Overload} {arguments : List Ty} (same : o.params = arguments) :
    o.Fits arguments := by
  rw [Fits, same, List.forall₂_same]
  exact fun ty _ => ty.fits_refl

end Overload

section

variable {candidates : List Overload} {arguments : List Ty} {o : Overload}

theorem choose?_eq_none (unfit : ∀ o ∈ candidates, ¬o.Fits arguments) :
    choose? candidates arguments = none := by
  rw [choose?, Option.or_eq_none_iff, List.find?_eq_none, List.find?_eq_none]
  constructor
  · intro o member same
    exact unfit o member (Overload.fits_of_params (of_decide_eq_true same))
  · intro o member accepts
    exact unfit o member (Overload.accepts_iff_fits.mp accepts)

theorem choose?_of_fits (member : o ∈ candidates) (fits : o.Fits arguments) :
    ∃ chosen ∈ candidates, chosen.Fits arguments ∧
      choose? candidates arguments = some chosen := by
  cases found : choose? candidates arguments with
  | none =>
    rw [choose?, Option.or_eq_none_iff, List.find?_eq_none] at found
    exact absurd (Overload.accepts_iff_fits.mpr fits) (List.find?_eq_none.mp found.2 o member)
  | some chosen =>
    rcases Option.or_eq_some_iff.mp found with exactly | ⟨-, accepts⟩
    · have same : chosen.params = arguments := by simpa using List.find?_some exactly
      exact ⟨chosen, List.mem_of_find?_eq_some exactly, Overload.fits_of_params same, rfl⟩
    · have fits : chosen.accepts arguments := by simpa using List.find?_some accepts
      exact ⟨chosen, List.mem_of_find?_eq_some accepts, Overload.accepts_iff_fits.mp fits, rfl⟩

/-- Among overloads that differ in their parameters, there is only one to find. -/
theorem choose?_of_params (distinct : (candidates.map Overload.params).Nodup)
    (member : o ∈ candidates) (same : o.params = arguments) :
    choose? candidates arguments = some o := by
  rw [choose?, Option.or_eq_some_iff]
  left
  cases found : candidates.find? (·.params = arguments) with
  | none =>
    exact absurd (decide_eq_true same) (List.find?_eq_none.mp found o member)
  | some other =>
    have also : other.params = arguments := by simpa using List.find?_some found
    rw [List.inj_on_of_nodup_map distinct (List.mem_of_find?_eq_some found) member
      (also.trans same.symm)]

/-- Some candidate is the first one with a property that one of them has. -/
theorem exists_first (Fit : Overload → Prop) [DecidablePred Fit] (member : o ∈ candidates)
    (fit : Fit o) : ∃ first, Overload.First candidates Fit first ∧
      candidates.find? (fun x => Fit x) = some first := by
  cases found : candidates.find? (fun x => decide (Fit x)) with
  | none => exact absurd (decide_eq_true fit) (List.find?_eq_none.mp found o member)
  | some first =>
    exact ⟨first, (Overload.find?_eq_some_iff Fit fun x _ => decide_eq_true_iff).mp found, rfl⟩

end

section

variable (t : Table)

theorem overloads_params (name : String) :
    (overloads t name).map Overload.params = (t.lookupAll name).filterMap Symbol.params? := by
  rw [overloads, List.map_filterMap]
  congr 1
  funext s
  cases s.params? <;> rfl

theorem typesOf_eq_map (es : List Expr) : typesOf t es = es.map (valueOf t) := by
  induction es with
  | nil => rfl
  | cons e others ih =>
    rw [typesOf, ih]
    rfl

/-- The complaints about arguments that do not fit, at the arguments and with their numbers. -/
def misfits (name : String) (params : List Ty) (args : List Expr) : List TypeError :=
  ((params.zip args).zipIdx 1).filterMap fun ((param, e), number) =>
    if param.fits (valueOf t e).ty then none
    else some ⟨.argument number name param (valueOf t e).ty, e.start⟩

theorem argumentErrors_eq (name : String) (number : Nat) (params : List Ty) (args : List Expr) :
    argumentErrors name number params (args.map fun e => ((valueOf t e).ty, e.start)) =
      ((params.zip args).zipIdx number).filterMap fun ((param, e), number) =>
        if param.fits (valueOf t e).ty then none
        else some ⟨.argument number name param (valueOf t e).ty, e.start⟩ := by
  induction params generalizing number args with
  | nil => rfl
  | cons param params ih =>
    cases args with
    | nil => rfl
    | cons e others =>
      simp only [List.map_cons, argumentErrors, List.zip_cons_cons, List.zipIdx_cons,
        List.filterMap_cons, ih]
      split <;> rfl

variable {t}

/-- As many arguments as parameters, with nothing to complain about, fit. -/
theorem fits_of_misfits {name : String} {o : Overload} {args : List Expr}
    (counted : o.params.length = args.length) (none : misfits t name o.params args = []) :
    o.Fits (args.map fun e => (valueOf t e).ty) := by
  rw [misfits, List.filterMap_eq_nil_iff] at none
  rw [Overload.Fits, List.forall₂_map_right_iff, List.forall₂_iff_zip]
  refine ⟨counted, fun {param e} member => ?_⟩
  obtain ⟨i, at'⟩ := List.mem_iff_getElem?.mp member
  have numbered : ((param, e), i + 1) ∈ (o.params.zip args).zipIdx 1 := by
    rw [List.mk_mem_zipIdx_iff_le_and_getElem?_sub]
    exact ⟨by omega, by simpa using at'⟩
  by_contra unfit
  simpa [unfit] using none _ numbered

theorem typeOf_call (t : Table) (callee : Identifier) (args : List Expr) (span : Span) :
    typeOf t (.call callee args span) =
      let called := callTyped t callee.name span.start
        (args.map fun e => ((valueOf t e).ty, e.start))
      ⟨called.ty, args.flatMap (fun e => (valueOf t e).errors) ++ called.errors⟩ := by
  rw [typeOf, typesOf_eq_map, List.map_map, List.zip_map', List.flatMap_map]
  rfl

/-- How the overloads of a name, in the order of their declaration, decide a call of it. -/
structure Decides (t : Table) (callee : Identifier) (args : List Expr) (span : Span) : Prop where
  /-- If one fits the arguments, the call is well-typed by one that does. -/
  fitting : ∀ o ∈ overloads t callee.name, o.Fits (args.map fun e => (valueOf t e).ty) →
    ∃ chosen ∈ overloads t callee.name, chosen.Fits (args.map fun e => (valueOf t e).ty) ∧
      typeOf t (.call callee args span) =
        ⟨chosen.ty, args.flatMap fun e => (valueOf t e).errors⟩
  /-- One with exactly the types of the arguments is preferred, in whatever order they are
  declared. -/
  exactly : ∀ u : Table, (overloads u callee.name).Perm (overloads t callee.name) →
    ∀ o ∈ overloads t callee.name, o.params = args.map (fun e => (valueOf u e).ty) →
      typeOf u (.call callee args span) = ⟨o.ty, args.flatMap fun e => (valueOf u e).errors⟩
  /-- If none has as many parameters, the number of arguments is held against the first one. -/
  miscounted : (∀ o ∈ overloads t callee.name, o.params.length ≠ args.length) →
    ∃ first, (overloads t callee.name).head? = some first ∧
      typeOf t (.call callee args span) =
        ⟨first.ty, args.flatMap (fun e => (valueOf t e).errors) ++
          [⟨.argumentCount callee.name first.params.length args.length, span.start⟩]⟩
  /-- If some have, but none fits, the arguments are held against the first one that has. -/
  unfit : (∃ o ∈ overloads t callee.name, o.params.length = args.length) →
    (∀ o ∈ overloads t callee.name, ¬o.Fits (args.map fun e => (valueOf t e).ty)) →
    ∃ nearest, Overload.First (overloads t callee.name) (·.params.length = args.length) nearest ∧
      misfits t callee.name nearest.params args ≠ [] ∧
      typeOf t (.call callee args span) =
        ⟨nearest.ty, args.flatMap (fun e => (valueOf t e).errors) ++
          misfits t callee.name nearest.params args⟩

theorem map_fst_arguments (t : Table) (args : List Expr) :
    (args.map fun e => ((valueOf t e).ty, e.start)).map Prod.fst =
      args.map fun e => (valueOf t e).ty :=
  List.map_map

/-- A call for which an overload is chosen. -/
theorem typeOf_chosen {callee : Identifier} {args : List Expr} {chosen : Overload} (span : Span)
    (found : choose? (overloads t callee.name) (args.map fun e => (valueOf t e).ty) =
      some chosen) :
    typeOf t (.call callee args span) =
      ⟨chosen.ty, args.flatMap fun e => (valueOf t e).errors⟩ := by
  rw [typeOf_call]
  simp only [callTyped, map_fst_arguments, found, Typed.pure, List.append_nil]

/-- A call for which there are overloads, but none that can be chosen. -/
theorem callTyped_unfit {name : String} {position : Position} {arguments : List (Ty × Position)}
    {first : Overload} {others : List Overload} (known : overloads t name = first :: others)
    (unfit : ∀ o ∈ overloads t name, ¬o.Fits (arguments.map Prod.fst)) :
    callTyped t name position arguments =
      match (overloads t name).find? (·.params.length = arguments.length) with
      | some nearest => ⟨nearest.ty, argumentErrors name 1 nearest.params arguments⟩
      | none =>
        ⟨first.ty, [⟨.argumentCount name first.params.length arguments.length, position⟩]⟩ := by
  have missed := choose?_eq_none unfit
  rw [known] at missed ⊢
  cases nearest : (first :: others).find? (·.params.length = arguments.length) <;>
    simp only [callTyped, known, missed, List.length_map, nearest]

theorem overloads_ne_nil {name : String} (functions : ∃ s ∈ t.lookupAll name, s.isFunction) :
    overloads t name ≠ [] := by
  obtain ⟨s, member, isFunction⟩ := functions
  obtain ⟨params, known⟩ := Option.isSome_iff_exists.mp isFunction
  exact List.ne_nil_of_mem (List.mem_filterMap.mpr ⟨s, member, by rw [known]; rfl⟩)

theorem decides {callee : Identifier} {args : List Expr} {span : Span} (distinct : t.Distinct)
    (functions : ∃ s ∈ t.lookupAll callee.name, s.isFunction) : Decides t callee args span := by
  obtain ⟨first, others, known⟩ := List.exists_cons_of_ne_nil (overloads_ne_nil functions)
  constructor
  case fitting =>
    intro o member fits
    obtain ⟨chosen, listed, accepted, found⟩ := choose?_of_fits member fits
    exact ⟨chosen, listed, accepted, typeOf_chosen span found⟩
  case exactly =>
    -- No two overloads have the same parameters, so only one has these, in any order.
    intro u same o member equal
    have nodup : ((overloads u callee.name).map Overload.params).Nodup := by
      rw [(same.map _).nodup_iff, overloads_params]
      exact distinct.lookupAll callee.name
    exact typeOf_chosen span (choose?_of_params nodup (same.mem_iff.mpr member) equal)
  case miscounted =>
    intro miscounted
    have unfit : ∀ o ∈ overloads t callee.name, ¬o.Fits
        ((args.map fun e => ((valueOf t e).ty, e.start)).map Prod.fst) := fun o member fits =>
      miscounted o member (by simpa using fits.length_eq)
    have absent : (overloads t callee.name).find? (·.params.length = args.length) = none := by
      simpa using miscounted
    refine ⟨first, by rw [known]; rfl, ?_⟩
    rw [typeOf_call, callTyped_unfit known unfit, List.length_map, absent]
  case unfit =>
    rintro ⟨o, member, counted⟩ unfit
    obtain ⟨nearest, here, found⟩ :=
      exists_first (·.params.length = args.length) member counted
    refine ⟨nearest, here, fun quiet => ?_, ?_⟩
    · have listed := List.mem_of_find?_eq_some found
      exact unfit nearest listed (fits_of_misfits here.1 quiet)
    · rw [← map_fst_arguments] at unfit
      rw [typeOf_call, callTyped_unfit known unfit, List.length_map, found]
      simp only [argumentErrors_eq, misfits]

end
end Typing

open Typing

namespace Program

/-- Wherever the type checker looks at a call of a name that stands for functions, the overloads of
the name decide it. -/
theorem calls_decided (p : Program) :
    (p.visits.map Visit.expr).Perm (p.statements.flatMap Stmt.expressions) ∧
      ∀ v ∈ p.visits, ∀ callee args span, .call callee args span ∈ v.expr.subterms →
        (∃ s ∈ v.checked.lookupAll callee.name, s.isFunction) →
        Decides v.checked callee args span := by
  refine ⟨p.visits_perm, fun v visited callee args span _ functions => ?_⟩
  exact decides (Table.Distinct.invariant.visited .empty visited) functions

end Program

/-- The parts of a call. -/
def Expr.call? : Expr → Option (Identifier × List Expr × Span)
  | .call callee args span => some (callee, args, span)
  | _ => none

theorem Expr.eq_of_call? {e : Expr} {callee : Identifier} {args : List Expr} {span : Span}
    (called : e.call? = some (callee, args, span)) : e = .call callee args span := by
  cases e with
  | call => cases called; rfl
  | _ => cases called

/-- Three overloads, with a call that fits two of them, one that fits none, and one with more
arguments than any of them takes. -/
def overloaded : String :=
  "double f(double a) \x7b return a; \x7d\nint f(int a) \x7b return a; \x7d\n" ++
  "int f(int a, char b) \x7b return a; \x7d\n" ++
  "main \x7b f(1); f(2, \"b\"); f(1, 2, 3); \x7d\n"

/-- The first call means the function that takes a whole number, and each other one is complained
about once. -/
theorem overloaded_decided : ∃ p, readProgram overloaded = .ok p ∧ (analyze p).errors = [] ∧
    (typeCheck p).map (·.cause) = [.argument 2 "f" .char .string, .argumentCount "f" 1 3] ∧
    ∃ v ∈ p.visits, ∃ callee args span, v.expr = .call callee args span ∧
      (∃ s ∈ v.checked.lookupAll callee.name, s.isFunction) ∧
      args.map (fun e => (valueOf v.checked e).ty) = [.int] ∧
      (overloads v.checked callee.name).map Overload.params = [[.double], [.int], [.int, .char]] ∧
      Decides v.checked callee args span := by
  have checked : (readProgram overloaded).toOption.any fun p => (analyze p).errors.isEmpty &&
      (typeCheck p).map (·.cause) = [.argument 2 "f" .char .string, .argumentCount "f" 1 3] &&
      p.visits.any fun v => v.expr.call?.any fun (callee, args, _) =>
        (v.checked.lookupAll callee.name).any Symbol.isFunction &&
          args.map (fun e => (valueOf v.checked e).ty) = [.int] &&
          (overloads v.checked callee.name).map Overload.params =
            [[.double], [.int], [.int, .char]] := by decide +kernel
  obtain ⟨p, read, facts⟩ := exists_of_readProgram checked
  simp only [Bool.and_eq_true, List.isEmpty_iff, decide_eq_true_eq, List.any_eq_true,
    Option.any_eq_true, Prod.exists] at facts
  obtain ⟨⟨clean, causes⟩, v, visited, callee, args, span, found, ⟨functions, types⟩, params⟩ :=
    facts
  have call := Expr.eq_of_call? found
  have part : .call callee args span ∈ v.expr.subterms := by simp [call, Expr.subterms]
  exact ⟨p, read, clean, causes, v, visited, callee, args, span, call, functions, types, params,
    p.calls_decided.2 v visited callee args span part functions⟩

end Curly
