import Curly.Proofs.Scope.Visits
import Curly.Proofs.Typing.WellTyped

/-! The analyzer and the type checker on their way over a program, and where they stand. As long as
the analyzer has no complaint, the scopes of the checker hold what the statements before declare. -/
namespace Curly

namespace Table

/-- The scopes of a table from the current one outwards. -/
structure Shows (t : Table) (scopes : Scopes) : Prop where
  linked : t.Linked
  scopes : t.scopes = scopes

namespace Shows

variable {t : Table} {here : List Symbol} {around : Scopes}

theorem empty : Shows .empty [[]] :=
  ⟨linked_empty, rfl⟩

theorem frame (shows : t.Shows (here :: around)) :
    t.frameSymbols t.current = here ∧ t.outer.map t.frameSymbols = around :=
  List.cons.inj shows.scopes

theorem declare (shows : t.Shows (here :: around)) (s : Symbol) :
    (t.declare s).Shows ((here ++ [s]) :: around) := by
  refine ⟨shows.linked.modify _, ?_⟩
  rw [scopes_declare shows.linked, shows.frame.1, shows.frame.2]

theorem enter {scopes : Scopes} (shows : t.Shows scopes) : t.enter.Shows ([] :: scopes) := by
  refine ⟨shows.linked.enter, ?_⟩
  rw [scopes_enter shows.linked, shows.scopes]

theorem exit {scope : List Symbol} (shows : t.Shows (scope :: here :: around)) :
    t.exit.Shows (here :: around) := by
  refine ⟨shows.linked.exit, ?_⟩
  have inside : 1 < t.scopes.length := by simp [shows.scopes]
  rw [scopes_exit inside, shows.scopes]
  rfl

theorem lookupOverload_isSome (shows : t.Shows (here :: around)) (name : String)
    (params : List Ty) : (t.lookupOverload name params).isSome ↔
      ∃ s ∈ here, s.name = name ∧ s.params? = some params := by
  rw [lookupOverload, lookupLocalAll, namedIn_eq, shows.frame.1, List.find?_isSome]
  simp [and_assoc]

end Shows
end Table

namespace Checker

open Table (Shows)

variable {c : Checker} {here : List Symbol} {around : Scopes}

theorem shows_declareFunction (shows : c.table.Shows (here :: around)) (name : String) (ty : Ty)
    (params : List Ty) (position : Position) :
    (declareFunction name ty params position c).table.Shows
      (withFunction name ty params position here :: around) := by
  have known := shows.lookupOverload_isSome name params
  unfold declareFunction withFunction
  split
  · rename_i found
    rw [if_pos (known.mp found)]
    exact shows
  · rename_i absent
    rw [if_neg fun found => absent (known.mpr found)]
    exact shows.declare _

theorem shows_params (shows : c.table.Shows (here :: around)) (ps : List Param) :
    (params ps c).table.Shows ((here ++ ps.map Param.symbol) :: around) := by
  induction ps generalizing c here with
  | nil => rwa [List.map_nil, List.append_nil]
  | cons p others ih =>
    have one := ih (c := c.declare p.symbol) (shows.declare _)
    rwa [List.append_assoc] at one

theorem shows_enumValues {a : Analysis} {earlier : List String} {values : List Identifier}
    (same : Alongside a c) (clean : (Analysis.enumValues earlier values a).errors = [])
    (shows : c.table.Shows (here :: around)) :
    (enumValues values c).table.Shows ((here ++ values.map Identifier.enumValue) :: around) := by
  induction values generalizing a c here earlier with
  | nil => rwa [List.map_nil, List.append_nil]
  | cons value others ih =>
    have begun : (Analysis.enumValues earlier [value] a).errors = [] :=
      Analysis.clean_enumValues clean
    have next : Alongside _ (enumValues [value] c) := same.enumValues begun
    have absent : ¬(c.table.lookup value.name).isSome := by
      rw [show c.table = a.table.settled from same, Table.lookup_settled, Option.isSome_map]
      have accepted := (Analysis.clean_obey begun).2
      unfold Ruling.onEnumValue at accepted
      split at accepted
      · simp [Ruling.isReject] at accepted
      · split at accepted
        · simp [Ruling.isReject] at accepted
        · assumption
    have added : enumValues [value] c = c.declare value.enumValue := if_neg absent
    rw [added] at next
    have rest := ih next clean (shows.declare _)
    rw [enumValues, if_neg absent]
    rwa [List.append_assoc] at rest

theorem shows_enumeration {a : Analysis} {name : String} {values : List Identifier}
    {position : Position} (same : Alongside a c)
    (clean : (Analysis.enumeration name values position a).errors = [])
    (shows : c.table.Shows (here :: around)) :
    (enumeration name values position c).table.Shows
      ((here ++ .ofEnumeration name position :: values.map Identifier.enumValue) :: around) := by
  have begun := Analysis.clean_enumeration clean
  have accepted := (Analysis.clean_obey begun).2
  have split (others : List Identifier) : Analysis.enumeration name others position a =
      Analysis.enumValues [] others
        (a.obey name position (.onEnumeration a.table name position)) := by
    simp only [Analysis.enumeration, accepted, Bool.false_eq_true, if_false]
  have next : Alongside _ (enumeration name [] position c) :=
    same.enumeration ((congrArg Analysis.errors (split [])).trans begun)
  have top : ¬0 < c.table.level := by
    rw [show c.table = a.table.settled from same, Table.level_settled]
    unfold Ruling.onEnumeration at accepted
    split at accepted
    · simp [Ruling.isReject] at accepted
    · assumption
  have declared : enumeration name [] position c = c.declare (.ofEnumeration name position) :=
    if_neg top
  rw [split] at clean
  rw [split, declared] at next
  have rest := shows_enumValues next clean (shows.declare _)
  rw [enumeration, if_neg top]
  rwa [List.append_assoc] at rest

end Checker

open Checker (Around)

/-- The analyzer and the checker have come to a site, and its types can be written. -/
structure Stands (site : Site) (a : Analysis) (c : Checker) : Prop where
  same : Alongside a c
  shows : c.table.Shows site.scopes
  returns : c.function.map Enclosing.ty = site.returns?
  breakable : site.breakable ↔ 0 < c.depth
  proper : site.scopes.Proper
  known : site.returns? ≠ some .invalid

namespace Stands

variable {site : Site} {a b : Analysis} {c d : Checker} {returns : Bool}

theorem outermost : Stands .outermost .empty .empty := by
  refine ⟨?_, .empty, rfl, by simp [Site.outermost, Checker.empty], ?_, nofun⟩
  · simp [Alongside, Analysis.empty, Checker.empty, Table.empty, Table.settled, Frame.settled]
  · simp [Scopes.Proper, Site.scopes, Site.outermost]

/-- On to scopes in the same function and the same loops. -/
theorem behind {scope : List Symbol} (stands : Stands site a c) (around : Around returns c d)
    (same : Alongside b d) (shows : d.table.Shows (scope :: site.around))
    (proper : ∀ s ∈ scope, s.Proper) : Stands { site with here := scope } b d where
  same := same
  shows := shows
  returns := by
    rw [around.function, Option.map_map]
    exact stands.returns
  breakable := around.depth ▸ stands.breakable
  proper := List.forall_mem_cons.mpr ⟨proper, (List.forall_mem_cons.mp stands.proper).2⟩
  known := stands.known

/-- Back at a site, with the scopes that were there. -/
theorem back (stands : Stands site a c) (around : Around returns c d) (same : Alongside b d)
    (shows : d.table.Shows site.scopes) : Stands site b d :=
  stands.behind around same shows (List.forall_mem_cons.mp stands.proper).1

theorem here (stands : Stands site a c) (around : Around returns c d)
    (table : d.table = c.table) : Stands site a d :=
  stands.back around (table.trans stands.same) (table ▸ stands.shows)

theorem enter (stands : Stands site a c) : Stands site.enter a.enter c.enter where
  same := stands.same.enter
  shows := stands.shows.enter
  returns := stands.returns
  breakable := stands.breakable
  proper := List.forall_mem_cons.mpr ⟨nofun, stands.proper⟩
  known := stands.known

theorem exit {scope : List Symbol} (stands : Stands site a c) (around : Around returns c.enter d)
    (inner : Stands { site.enter with here := scope } b d) : Stands site b.exit d.exit :=
  stands.back ((Around.refl c).enter.behind around).exit inner.same.exit inner.shows.exit

theorem deeper (stands : Stands site a c) : Stands site.breaking a c.deeper where
  same := stands.same
  shows := stands.shows
  returns := stands.returns
  breakable := by simp [Site.breaking, Checker.deeper]
  proper := stands.proper
  known := stands.known

theorem shallower (stands : Stands site a c) (around : Around returns c.deeper d)
    (inner : Stands site.breaking b d) : Stands site b d.shallower :=
  stands.back around.shallower inner.same inner.shows

theorem declareFunction {name : String} {ty : Ty} {params : List Ty} {position : Position}
    (stands : Stands site a c) (written : ty ≠ .invalid) (known : .invalid ∉ params)
    (same : Alongside b (Checker.declareFunction name ty params position c)) :
    Stands { site with here := withFunction name ty params position site.here } b
      (Checker.declareFunction name ty params position c) := by
  refine stands.behind (Checker.around_declareFunction ..) same
    (Checker.shows_declareFunction stands.shows ..) ?_
  have proper := (List.forall_mem_cons.mp stands.proper).1
  unfold withFunction
  split
  · exact proper
  · refine List.forall_mem_append.mpr ⟨proper, List.forall_mem_singleton.mpr ⟨written, ?_⟩⟩
    rintro types ⟨⟩
    exact known

/-- Into the body of a function. -/
theorem within {ty : Ty} {ps : List Param} {name : String} {isMain : Bool}
    (stands : Stands site a c) (written : ty ≠ .invalid) (params : .invalid ∉ signature ps)
    (clean : (Analysis.params [] ps a.enter).errors = []) :
    Stands (site.within ty ps) (Analysis.params [] ps a.enter)
      (Checker.begin ⟨name, ty, isMain, false⟩ (Checker.params ps c.enter)) where
  same := stands.same.enter.params clean
  shows := Checker.shows_params (c := c.enter) stands.shows.enter ps
  returns := rfl
  breakable := iff_of_false Bool.false_ne_true (Nat.lt_irrefl 0)
  proper := by
    refine List.forall_mem_cons.mpr ⟨fun s member => ?_, stands.proper⟩
    obtain ⟨p, listed, rfl⟩ := List.mem_map.mp member
    exact ⟨fun same => params (List.mem_map.mpr ⟨p, listed, same⟩), nofun⟩
  known := fun same => written (Option.some.inj same)

section

open Typing

variable {declared : String → Bool} {e : Expr}

/-- The checker goes by the rules wherever the analyzer finds all names. -/
theorem adequate (stands : Stands site a c) (clean : (Analysis.expr declared e a).errors = []) :
    Adequate c.table e := by
  refine Typing.adequate (stands.shows.scopes ▸ stands.proper) e fun name used => ?_
  rw [show c.table = a.table.settled from stands.same, Table.lookupAll_settled, ne_eq,
    List.map_eq_nil_iff]
  exact (Analysis.clean_expr declared e a clean).2 name used

theorem typed_iff (stands : Stands site a c) (clean : (Analysis.expr declared e a).errors = [])
    (P : Ty → Prop) : (typeOf c.table e).errors = [] ∧ P (typeOf c.table e).ty ↔
      ∃ ty, Derives site.scopes e ty ∧ P ty :=
  stands.shows.scopes ▸ (stands.adequate clean).typed_iff P

theorem value_iff (stands : Stands site a c) (clean : (Analysis.expr declared e a).errors = [])
    (P : Ty → Prop) : (valueOf c.table e).errors = [] ∧ P (valueOf c.table e).ty ↔
      ∃ ty, Gives site.scopes e ty ∧ P ty :=
  stands.shows.scopes ▸ (stands.adequate clean).value_iff P

theorem fits_iff {ty : Ty} (stands : Stands site a c) (written : ty ≠ .invalid)
    (clean : (Analysis.expr declared e a).errors = []) :
    (valueOf c.table e).errors = [] ∧ ty.fits (valueOf c.table e).ty ↔
      ∃ found, Gives site.scopes e found ∧ ty.Compatible found := by
  rw [stands.value_iff clean (ty.fits ·)]
  refine exists_congr fun found => and_congr_right fun gives => ?_
  exact Ty.fits_iff written (gives.1.ne_invalid stands.proper)

end

end Stands

end Curly
