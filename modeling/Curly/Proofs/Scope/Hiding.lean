import Curly.Proofs.Scope.Globals
import Curly.Proofs.Typing.Standing
import Mathlib.Data.List.Nodup

/-! What can hide an enumeration value. It is alone with its name in the global scope, and a
variable of its name is a parameter, or hides one. -/
namespace Curly

namespace Scopes

variable {params : List String} {here : List Symbol} {around scopes : Scopes} {s : Symbol}

/-- The names around a place inside functions with the given parameters. -/
structure Tidy (params : List String) (scopes : Scopes) : Prop where
  single : ∀ v ∈ scopes.globals, v.isEnumValue → ∀ s ∈ scopes.globals, s.name = v.name → s = v
  inside : ∀ s ∈ scopes.locals, s.isVariable ∨ s.isFunction
  held : ∀ name ∈ params, ∃ s ∈ scopes.locals, s.isVariable ∧ s.name = name
  covered : ∀ s ∈ scopes.locals, s.isVariable → ∀ v ∈ scopes.globals, v.isEnumValue →
    s.name = v.name → s.name ∈ params

namespace Tidy

theorem outermost : Tidy [] [[]] where
  single := by simp [globals]
  inside := by simp [locals]
  held := by simp
  covered := by simp [locals]

theorem enter (tidy : Tidy params (here :: around)) : Tidy params ([] :: here :: around) :=
  ⟨tidy.single, tidy.inside, tidy.held, tidy.covered⟩

theorem not_isEnumValue (plain : s.isVariable ∨ s.isFunction) : s.isEnumValue = false := by
  cases s with
  | mk name ty position kind =>
    cases kind <;> simp_all [Symbol.isVariable, Symbol.isFunction, Symbol.isEnumValue,
      Symbol.params?]

/-- One more variable or function in the current scope. -/
theorem declare (tidy : Tidy params (here :: around)) (plain : s.isVariable ∨ s.isFunction)
    (fresh : ∀ v ∈ here, v.isEnumValue → s.name ≠ v.name)
    (hides : s.isVariable → around ≠ [] → ∀ v ∈ around.globals, v.isEnumValue →
      s.name = v.name → s.name ∈ params) : Tidy params ((here ++ [s]) :: around) := by
  cases around with
  | nil =>
    refine ⟨fun v member value other listed same => ?_, nofun, tidy.held, nofun⟩
    have old : v ∈ here := by
      refine (List.mem_append.mp member).resolve_right fun new => ?_
      obtain rfl := List.mem_singleton.mp new
      simp [not_isEnumValue plain] at value
    rcases List.mem_append.mp listed with known | new
    · exact tidy.single v old value other known same
    · exact absurd (List.mem_singleton.mp new ▸ same) (fresh v old value)
  | cons next rest =>
    have listed (other : Symbol) : other ∈ locals ((here ++ [s]) :: next :: rest) ↔
        other ∈ locals (here :: next :: rest) ∨ other = s := by
      simp only [locals, List.mem_append, List.mem_singleton, or_right_comm]
    refine ⟨tidy.single, fun other member => ?_, fun name known => ?_,
      fun other member isVariable v global value same => ?_⟩
    · rcases (listed other).mp member with old | rfl
      · exact tidy.inside other old
      · exact plain
    · obtain ⟨other, member, found⟩ := tidy.held name known
      exact ⟨other, (listed other).mpr (.inl member), found⟩
    · rcases (listed other).mp member with old | rfl
      · exact tidy.covered other old isVariable v global value same
      · exact hides isVariable (List.cons_ne_nil _ _) v global value same

/-- A variable may hide a variable only. -/
theorem declareVariable (tidy : Tidy params (here :: around)) {name : String} (ty : Ty)
    (position : Position) (absent : ∀ s ∈ here, s.name ≠ name)
    (hidden : ∀ s, (around.visible name).head? = some s → s.isVariable) :
    Tidy params ((here ++ [.ofVariable name ty position]) :: around) := by
  refine tidy.declare (.inl rfl) (fun v member _ same => absent v member same.symm) ?_
  rintro - inside v global value rfl
  -- Something around has the name of the value: a variable that hides it already.
  obtain ⟨s, found⟩ := Option.isSome_iff_exists.mp
    (List.isSome_head?.mpr (visible_ne_nil global))
  have member := List.mem_of_head? found
  have same := name_of_visible member
  obtain ⟨scope, listed, declared⟩ := mem_of_visible member
  cases around with
  | nil => exact absurd rfl inside
  | cons next rest =>
    rcases mem_locals_or_globals listed declared with within | outside
    · have known : s ∈ locals (here :: next :: rest) := List.mem_append_right _ within
      exact same ▸ tidy.covered s known (hidden s found) v global value same
    · obtain rfl := tidy.single v global value s outside same
      simp [not_isEnumValue (.inl (hidden s found))] at value

/-- A function may stand beside functions only. -/
theorem declareFunction (tidy : Tidy params (here :: around)) {name : String} (ty : Ty)
    (ps : List Ty) (position : Position) (free : ∀ s ∈ here, s.name = name → s.isFunction) :
    Tidy params (withFunction name ty ps position here :: around) := by
  unfold withFunction
  split
  · exact tidy
  · refine tidy.declare (.inr rfl) (fun v member value same => ?_) nofun
    simp [not_isEnumValue (.inr (free v member same.symm))] at value

/-- Into the body of a function. -/
theorem parameters (tidy : Tidy params (here :: around)) (ps : List Param) :
    Tidy (params ++ ps.map Param.name) (ps.map Param.symbol :: here :: around) := by
  refine ⟨tidy.single, fun s member => ?_, fun name known => ?_,
    fun s member isVariable v global value same => ?_⟩
  · rcases List.mem_append.mp member with new | old
    · obtain ⟨p, -, rfl⟩ := List.mem_map.mp new
      exact .inl rfl
    · exact tidy.inside s old
  · rcases List.mem_append.mp known with old | new
    · obtain ⟨s, member, found⟩ := tidy.held name old
      exact ⟨s, List.mem_append_right _ member, found⟩
    · obtain ⟨p, listed, rfl⟩ := List.mem_map.mp new
      exact ⟨p.symbol, List.mem_append_left _ (List.mem_map_of_mem listed), rfl, rfl⟩
  · rcases List.mem_append.mp member with new | old
    · obtain ⟨p, listed, rfl⟩ := List.mem_map.mp new
      exact List.mem_append_right _ (List.mem_map_of_mem listed)
    · exact List.mem_append_left _ (tidy.covered s old isVariable v global value same)

/-- An enumeration is declared in the global scope, and all its names are new there. -/
theorem enumeration (tidy : Tidy params [here]) {name : String} (position : Position)
    {values : List Identifier} (absent : ∀ s ∈ here, s.name ≠ name)
    (fresh : ∀ value ∈ values, value.name ≠ name ∧ ∀ s ∈ here, s.name ≠ value.name)
    (distinct : (values.map Identifier.name).Nodup) :
    Tidy params [here ++ .ofEnumeration name position :: values.map Identifier.enumValue] := by
  refine ⟨fun v member value s listed same => ?_, nofun, tidy.held, nofun⟩
  have cases {u : Symbol}
      (u_mem : u ∈ here ++ .ofEnumeration name position :: values.map Identifier.enumValue) :
      u ∈ here ∨ u = .ofEnumeration name position ∨ ∃ i ∈ values, i.enumValue = u := by
    simpa using u_mem
  rcases cases member with old | rfl | ⟨i, known, rfl⟩
  · rcases cases listed with also | rfl | ⟨j, new, rfl⟩
    · exact tidy.single v old value s also same
    · exact absurd same.symm (absent v old)
    · exact absurd same.symm ((fresh j new).2 v old)
  · exact nomatch value
  · rcases cases listed with also | rfl | ⟨j, new, rfl⟩
    · exact absurd same ((fresh i known).2 s also)
    · exact absurd same.symm (fresh i known).1
    · rw [List.inj_on_of_nodup_map distinct new known same]

/-- An enumeration value in sight is no parameter's name. -/
theorem global_of_visible (tidy : Tidy params scopes) {name : String}
    (seen : s ∈ scopes.visible name) (value : s.isEnumValue) :
    s ∈ scopes.globals ∧ name ∉ params := by
  have outside : s ∉ scopes.locals := fun within => by
    simp [not_isEnumValue (tidy.inside s within)] at value
  refine ⟨?_, fun known => ?_⟩
  · obtain ⟨scope, listed, member⟩ := mem_of_visible seen
    exact (mem_locals_or_globals listed member).resolve_left outside
  · obtain ⟨other, member, -, same⟩ := tidy.held name known
    exact outside (mem_locals_of_visible seen ⟨other, member, same⟩)

/-- What hides an enumeration value is a variable, and the parameters have its name. -/
theorem hides (tidy : Tidy params scopes) {name : String} (seen : s ∈ scopes.visible name)
    (other : s.isEnumValue = false) (plain : s.isFunction = false) {v : Symbol}
    (global : v ∈ scopes.globals) (value : v.isEnumValue) (same : v.name = name) :
    s.isVariable ∧ name ∈ params := by
  have named := name_of_visible seen
  obtain ⟨scope, listed, member⟩ := mem_of_visible seen
  have within : s ∈ scopes.locals := by
    refine (mem_locals_or_globals listed member).resolve_right fun outside => ?_
    rw [tidy.single v global value s outside (named.trans same.symm), value] at other
    exact nomatch other
  have isVariable := (tidy.inside s within).resolve_right (by simp [plain])
  have covered := tidy.covered s within isVariable v global value (named.trans same.symm)
  exact ⟨isVariable, named ▸ covered⟩

end Tidy
end Scopes

namespace Table

/-- A table with tidy scopes, prototypes taken for definitions. -/
structure Tidy (params : List String) (scopes : Scopes) (t : Table) : Prop where
  shows : t.settled.Shows scopes
  rooted : t.settled.Rooted
  names : scopes.Tidy params

namespace Tidy

variable {t : Table} {params : List String} {scope here : List Symbol} {around : Scopes}
  {name : String}

theorem outermost : Tidy [] [[]] .empty := by
  have same : empty.settled = empty := by simp [empty, settled, Frame.settled]
  refine ⟨?_, ?_, .outermost⟩
  · rw [same]
    exact .empty
  · rw [same]
    exact rooted_empty

theorem enter (tidy : t.Tidy params (here :: around)) :
    t.enter.Tidy params ([] :: here :: around) := by
  refine ⟨?_, ?_, tidy.names.enter⟩
  · exact t.settled_enter ▸ tidy.shows.enter
  · exact t.settled_enter ▸ tidy.rooted.enter

/-- Back to the scopes that were there before. -/
theorem exit {u : Table} {more : List String} (outer : t.Tidy params (here :: around))
    (inner : u.Tidy more (scope :: here :: around)) : u.exit.Tidy params (here :: around) := by
  refine ⟨?_, ?_, outer.names⟩
  · exact u.settled_exit ▸ inner.shows.exit
  · exact u.settled_exit ▸ inner.rooted.exit

theorem filter_eq (tidy : t.Tidy params (here :: around)) (name : String) :
    here.filter (·.name = name) = (t.lookupLocalAll name).map Symbol.completed := by
  rw [← tidy.shows.frame.1, ← namedIn_eq]
  exact t.namedIn_settled t.current name

theorem absent (tidy : t.Tidy params (here :: around)) (none : t.lookupLocal name = none) :
    ∀ s ∈ here, s.name ≠ name := by
  intro s member same
  have empty : here.filter (·.name = name) = [] := by
    rw [tidy.filter_eq, List.head?_eq_none_iff.mp none, List.map_nil]
  have found : s ∈ here.filter (·.name = name) := by simp [member, same]
  exact nomatch empty ▸ found

theorem free (tidy : t.Tidy params (here :: around))
    (plain : ¬(t.lookupLocalAll name).any fun s => !s.isFunction) :
    ∀ s ∈ here, s.name = name → s.isFunction := by
  intro s member same
  have found : s ∈ here.filter (·.name = name) := by simp [member, same]
  rw [tidy.filter_eq] at found
  obtain ⟨u, listed, rfl⟩ := List.mem_map.mp found
  simp only [List.any_eq_true, not_exists, not_and] at plain
  simpa using plain u listed

theorem head?_eq (tidy : t.Tidy params (here :: around)) (name : String) :
    (around.visible name).head? = (t.lookupEnclosing name).map Symbol.completed := by
  rw [← tidy.shows.frame.2, ← search_eq, lookupEnclosing, ← List.head?_map, ← search_settled]
  rfl

theorem lookup_eq {scopes : Scopes} (tidy : t.Tidy params scopes) (name : String) :
    (scopes.visible name).head? = (t.lookup name).map Symbol.completed := by
  rw [← tidy.shows.scopes, ← lookupAll_eq, ← lookup_settled]
  rfl

end Tidy
end Table

section

variable {a : Analysis} {params : List String} {here : List Symbol} {around : Scopes}
  {name : String} {position : Position}

/-- A checker with the table of the analyzer. -/
def Analysis.checker (a : Analysis) : Checker :=
  { Checker.empty with table := a.table.settled }

theorem tidy_of_alongside {b : Analysis} {d : Checker} {scopes : Scopes} (same : Alongside b d)
    (shows : d.table.Shows scopes) (rooted : d.table.Rooted) (names : scopes.Tidy params) :
    b.table.Tidy params scopes := by
  rw [Alongside] at same
  exact ⟨same ▸ shows, same ▸ rooted, names⟩

theorem tidy_variable {ty : Ty} (tidy : a.table.Tidy params (here :: around))
    (clean : (a.obey name position (.onVariable a.table ty name position)).errors = []) :
    (a.obey name position (.onVariable a.table ty name position)).table.Tidy params
      ((here ++ [.ofVariable name ty position]) :: around) := by
  have same : Alongside a a.checker := rfl
  refine tidy_of_alongside (same.onVariable clean) (tidy.shows.declare _) (tidy.rooted.declare _) ?_
  have accepted := (Analysis.clean_obey clean).2
  have facts : a.table.lookupLocal name = none ∧
      ∀ s, a.table.lookupEnclosing name = some s → s.isVariable := by
    unfold Ruling.onVariable at accepted
    split at accepted
    · simp [Ruling.isReject] at accepted
    · rename_i s absent known
      refine ⟨absent, fun other found => ?_⟩
      obtain rfl := Option.some.inj (known.symm.trans found)
      by_contra plain
      simp [plain, Ruling.isReject] at accepted
    · exact ⟨‹_›, by simp_all⟩
  refine tidy.names.declareVariable ty position (tidy.absent facts.1) fun s found => ?_
  rw [tidy.head?_eq] at found
  obtain ⟨u, known, rfl⟩ := Option.map_eq_some_iff.mp found
  simpa using facts.2 u known

theorem rooted_declareFunction {c : Checker} (rooted : c.table.Rooted) (ty : Ty) (ps : List Ty) :
    (Checker.declareFunction name ty ps position c).table.Rooted := by
  unfold Checker.declareFunction
  split
  · exact rooted
  · exact rooted.declare _

/-- A function, or a prototype of one, that was accepted. -/
theorem tidy_declareFunction {b : Analysis} {ty : Ty} {ps : List Ty}
    (tidy : a.table.Tidy params (here :: around))
    (same : Alongside b (Checker.declareFunction name ty ps position a.checker))
    (free : ∀ s ∈ here, s.name = name → s.isFunction) :
    b.table.Tidy params (withFunction name ty ps position here :: around) :=
  tidy_of_alongside same (Checker.shows_declareFunction (c := a.checker) tidy.shows ..)
    (rooted_declareFunction (c := a.checker) tidy.rooted ty ps)
    (tidy.names.declareFunction ty ps position free)

theorem tidy_prototype {ty : Ty} {ps : List Ty} (tidy : a.table.Tidy params (here :: around))
    (clean : (a.obey name position (.onPrototype a.table ty name ps position)).errors = []) :
    (a.obey name position (.onPrototype a.table ty name ps position)).table.Tidy params
      (withFunction name ty ps position here :: around) := by
  have same : Alongside a a.checker := rfl
  refine tidy_declareFunction tidy (same.onPrototype clean) (tidy.free fun other => ?_)
  have accepted := (Analysis.clean_obey clean).2
  simp [Ruling.onPrototype, other, Ruling.isReject] at accepted

theorem tidy_function {ty : Ty} {ps : List Ty} (tidy : a.table.Tidy params (here :: around))
    (clean : (a.obey name position (.onFunction a.table ty name ps position)).errors = []) :
    (a.obey name position (.onFunction a.table ty name ps position)).table.Tidy params
      (withFunction name ty ps position here :: around) := by
  have same : Alongside a a.checker := rfl
  refine tidy_declareFunction tidy (same.onFunction clean) (tidy.free fun other => ?_)
  have accepted := (Analysis.clean_obey clean).2
  simp [Ruling.onFunction, other, Ruling.isReject] at accepted

theorem tidy_main (tidy : a.table.Tidy params (here :: around))
    (clean : (a.obey "main" position (.onMain a.table position)).errors = []) :
    (a.obey "main" position (.onMain a.table position)).table.Tidy params
      (withFunction "main" .int [] position here :: around) := by
  have same : Alongside a a.checker := rfl
  have absent : a.table.lookupLocal "main" = none := by
    have accepted := (Analysis.clean_obey clean).2
    by_contra known
    simp [Ruling.onMain, Option.isSome_iff_ne_none.mpr known, Ruling.isReject] at accepted
  exact tidy_declareFunction tidy (same.onMain clean) fun s member found =>
    absurd found (tidy.absent absent s member)

theorem rooted_params {c : Checker} (rooted : c.table.Rooted) (ps : List Param) :
    (Checker.params ps c).table.Rooted := by
  induction ps generalizing c with
  | nil => exact rooted
  | cons p others ih => exact ih (c := c.declare p.symbol) (rooted.declare _)

/-- Into the body of a function. -/
theorem tidy_params {ps : List Param} (tidy : a.table.Tidy params (here :: around))
    (clean : (Analysis.params [] ps a.enter).errors = []) :
    (Analysis.params [] ps a.enter).table.Tidy (params ++ ps.map Param.name)
      (ps.map Param.symbol :: here :: around) := by
  have same : Alongside a a.checker := rfl
  exact tidy_of_alongside (same.enter.params clean)
    (Checker.shows_params (c := a.checker.enter) tidy.shows.enter ps)
    (rooted_params (c := a.checker.enter) tidy.rooted.enter ps) (tidy.names.parameters ps)

theorem rooted_enumeration {c : Checker} (rooted : c.table.Rooted) (values : List Identifier) :
    (Checker.enumeration name values position c).table.Rooted := by
  have listed {c : Checker} (rooted : c.table.Rooted) :
      (Checker.enumValues values c).table.Rooted := by
    induction values generalizing c with
    | nil => exact rooted
    | cons value others ih =>
      rw [Checker.enumValues]
      split
      · exact ih rooted
      · exact ih (c := c.declare value.enumValue) (rooted.declare _)
  unfold Checker.enumeration
  split
  · exact rooted
  · exact listed (c := c.declare _) (rooted.declare _)

/-- The values of an enumeration have new names, each one another. -/
theorem fresh_enumValues {earlier : List String} {values : List Identifier}
    (shows : a.table.settled.Shows [here])
    (clean : (Analysis.enumValues earlier values a).errors = []) :
    (values.map Identifier.name).Nodup ∧ ∀ value ∈ values, ∀ s ∈ here, s.name ≠ value.name := by
  induction values generalizing earlier a here with
  | nil => exact ⟨.nil, nofun⟩
  | cons value others ih =>
    have accepted := (Analysis.clean_obey (Analysis.clean_enumValues clean)).2
    obtain ⟨absent, added⟩ : a.table.lookup value.name = none ∧
        Ruling.onEnumValue a.table earlier value = .add value.enumValue := by
      unfold Ruling.onEnumValue at accepted ⊢
      split at accepted
      · simp [Ruling.isReject] at accepted
      · rename_i new
        split at accepted
        · simp [Ruling.isReject] at accepted
        · rename_i unknown
          rw [if_neg new, if_neg unknown]
          exact ⟨Option.not_isSome_iff_eq_none.mp unknown, rfl⟩
    have next : (a.table.declare value.enumValue).settled.Shows [here ++ [value.enumValue]] := by
      rw [Table.settled_declare]
      exact shows.declare _
    rw [Analysis.enumValues, added] at clean
    obtain ⟨distinct, fresh⟩ := ih next clean
    refine ⟨List.nodup_cons.mpr ⟨fun listed => ?_, distinct⟩,
      List.forall_mem_cons.mpr ⟨fun s member same => ?_, fun other listed s member => ?_⟩⟩
    · obtain ⟨other, member, same⟩ := List.mem_map.mp listed
      exact fresh other member value.enumValue (by simp) same.symm
    · have none : a.table.settled.lookupAll value.name = [] := by
        rw [← List.head?_eq_none_iff]
        exact (a.table.lookup_settled value.name).trans (by rw [absent]; rfl)
      rw [Table.lookupAll_eq, shows.scopes] at none
      have global : s ∈ Scopes.globals [here] := member
      exact Scopes.visible_ne_nil global (same ▸ none)
    · exact fresh other listed s (List.mem_append_left _ member)

/-- An enumeration stands outside of all functions and blocks, and its names are new there. -/
theorem tidy_enumeration {values : List Identifier} (tidy : a.table.Tidy params (here :: around))
    (clean : (Analysis.enumeration name values position a).errors = []) :
    around = [] ∧ (values.map Identifier.name).Nodup ∧
      (∀ value ∈ values, ∀ s ∈ here, s.name ≠ value.name) ∧
      (Analysis.enumeration name values position a).table.Tidy params
        [here ++ .ofEnumeration name position :: values.map Identifier.enumValue] := by
  have accepted := (Analysis.clean_obey (Analysis.clean_enumeration clean)).2
  obtain ⟨top, absent, added⟩ : ¬0 < a.table.level ∧ a.table.lookupLocal name = none ∧
      Ruling.onEnumeration a.table name position = .add (.ofEnumeration name position) := by
    unfold Ruling.onEnumeration at accepted ⊢
    split at accepted
    · simp [Ruling.isReject] at accepted
    · split at accepted
      · simp [Ruling.isReject] at accepted
      · exact ⟨‹_›, ‹_›, by simp [*]⟩
  obtain rfl : around = [] := by
    have alone := tidy.rooted.outer_eq_nil (a.table.level_settled ▸ top)
    rw [← tidy.shows.frame.2, alone, List.map_nil]
  have next : (a.table.declare (.ofEnumeration name position)).settled.Shows
      [here ++ [.ofEnumeration name position]] := by
    rw [Table.settled_declare]
    exact tidy.shows.declare _
  have begun := clean
  simp only [Analysis.enumeration, added, Ruling.isReject, Bool.false_eq_true, if_false] at begun
  obtain ⟨distinct, fresh⟩ := fresh_enumValues next begun
  have before (value : Identifier) (listed : value ∈ values) (s : Symbol) (member : s ∈ here) :
      s.name ≠ value.name := fresh value listed s (List.mem_append_left _ member)
  have same : Alongside a a.checker := rfl
  refine ⟨rfl, distinct, before, tidy_of_alongside (same.enumeration clean)
    (Checker.shows_enumeration same clean tidy.shows) (rooted_enumeration tidy.rooted values) ?_⟩
  refine tidy.names.enumeration position (tidy.absent absent) (fun value listed => ?_) distinct
  refine ⟨fun same => ?_, before value listed⟩
  exact fresh value listed (.ofEnumeration name position) (by simp) same.symm

end
end Curly
