import Curly.Proofs.Grammar.Declared
import Curly.Proofs.Typing.Complaints
import Curly.Proofs.Typing.Standing

/-! The type checker as a decision of well-typedness. Where the scope analyzer has no complaint, the
type checker has none just if every statement is well typed where it stands. -/
namespace Curly

open Typing

/-- A walk of the checker from one moment to another. It ends at a site, and it is without complaint
just if it was so at its start and the judgement holds. -/
structure Judged (holds : Prop) (c : Checker) (site : Site) (a : Analysis) (d : Checker) :
    Prop where
  stands : Stands site a d
  clean_iff : d.errors = [] ↔ c.errors = [] ∧ holds

namespace Judged

variable {p q : Prop} {c d e : Checker} {site next : Site} {a b : Analysis}

theorem trans (first : Judged p c site a d) (second : Judged q d next b e) :
    Judged (p ∧ q) c next b e := by
  refine ⟨second.stands, ?_⟩
  rw [second.clean_iff, first.clean_iff, and_assoc]

theorem congr (judged : Judged p c site a d) (same : p ↔ q) : Judged q c site a d :=
  ⟨judged.stands, judged.clean_iff.trans (and_congr_right' same)⟩

theorem of_errors (judged : Judged p d site a e) (same : d.errors = c.errors) :
    Judged p c site a e :=
  ⟨judged.stands, same ▸ judged.clean_iff⟩

theorem quiet (stands : Stands site a d) (same : d.errors = c.errors) : Judged True c site a d :=
  ⟨stands, by rw [same, and_true]⟩

/-- Out of a scope. -/
theorem exit {returns : Bool} {scope : List Symbol}
    (judged : Judged p c.enter { site.enter with here := scope } b d) (stands : Stands site a c)
    (around : Checker.Around returns c.enter d) : Judged p c site b.exit d.exit :=
  ⟨stands.exit around judged.stands, judged.clean_iff⟩

/-- Out of a loop. -/
theorem shallower {returns : Bool} (judged : Judged p c.deeper site.breaking b d)
    (stands : Stands site a c) (around : Checker.Around returns c.deeper d) :
    Judged p c site b d.shallower :=
  ⟨stands.shallower around judged.stands, judged.clean_iff⟩

end Judged

section

variable {declared : String → Bool} {site : Site} {a : Analysis} {c : Checker} {e : Expr}

theorem judged_expr (stands : Stands site a c)
    (clean : (Analysis.expr declared e a).errors = []) :
    Judged (∃ ty, Derives site.scopes e ty) c site a (Checker.expr e c) := by
  refine ⟨stands.here (Checker.around_expr e c) rfl, ?_⟩
  have known := stands.typed_iff clean fun _ => True
  simp only [and_true] at known
  rw [Checker.errors_expr_iff, known]

theorem judged_condition (construct : String) (position : Position) (stands : Stands site a c)
    (clean : (Analysis.expr declared e a).errors = []) :
    Judged (Derives site.scopes e .bool) c site a
      (Checker.condition construct position e c) := by
  refine ⟨stands.here (Checker.around_condition ..) (Checker.table_condition ..), ?_⟩
  have known := stands.typed_iff clean fun ty => ty = .bool ∨ ty = .invalid
  rw [Checker.errors_condition_iff, known]
  refine and_congr_right fun _ => ⟨?_, fun derives => ⟨.bool, derives, .inl rfl⟩⟩
  rintro ⟨ty, derives, rfl | rfl⟩
  · exact derives
  · exact absurd rfl (derives.ne_invalid stands.proper)

theorem judged_value (stands : Stands site a c)
    (clean : (Analysis.expr declared e a).errors = []) :
    Judged (∃ ty, Gives site.scopes e ty) c site a (Checker.value e c) := by
  refine ⟨stands.here ((Checker.Around.refl c).note _) rfl, ?_⟩
  have known := stands.value_iff clean fun _ => True
  simp only [and_true] at known
  rw [Checker.errors_value_iff, known]

theorem judged_values {es : List Expr} (stands : Stands site a c)
    (clean : (Analysis.exprs declared es a).errors = []) :
    Judged (∀ e ∈ es, ∃ ty, Gives site.scopes e ty) c site a (Checker.values es c) := by
  induction es generalizing c with
  | nil => exact (Judged.quiet stands rfl).congr (by simp)
  | cons e others ih =>
    have rest := (Analysis.clean_exprs declared others (Analysis.expr declared e a) clean).1
    have before : (Analysis.expr declared e a).errors = [] := rest ▸ clean
    have here := (Analysis.clean_expr declared e a before).1
    have first := judged_value stands before
    have behind : (Analysis.exprs declared others a).errors = [] := by rwa [← here]
    refine (first.trans (ih first.stands behind)).congr ?_
    rw [List.forall_mem_cons]

/-- The subject of a switch, with the type that its arms are compared with. -/
theorem judged_subject (stands : Stands site a c)
    (clean : (Analysis.expr declared e a).errors = []) :
    Judged (∃ ty, Gives site.scopes e ty ∧ (ty = .int ∨ ty = .char)) c site a
      (Checker.subject e c).2 := by
  refine ⟨stands.here (Checker.around_subject e c) (Checker.table_subject e c), ?_⟩
  have known := stands.value_iff clean fun ty => ty = .invalid ∨ ty = .int ∨ ty = .char
  rw [Checker.errors_subject_iff]
  refine and_congr_right fun _ => known.trans ?_
  refine exists_congr fun ty => and_congr_right fun gives => ?_
  exact or_iff_right (gives.1.ne_invalid stands.proper)

/-- The value of an arm where the subject has a type, or has none. -/
theorem judged_caseValue (ty : Ty) (stands : Stands site a c)
    (clean : (Analysis.expr declared e a).errors = []) :
    Judged (∃ found, Gives site.scopes e found ∧ (ty = .invalid ∨ found = ty)) c site a
      (Checker.caseValue ty e c) := by
  refine ⟨stands.here (Checker.around_caseValue ..) (Checker.table_caseValue ..), ?_⟩
  have known := stands.value_iff clean fun found => ty = .invalid ∨ found = .invalid ∨ found = ty
  rw [Checker.errors_caseValue_iff]
  refine and_congr_right fun _ => known.trans ?_
  refine exists_congr fun found => and_congr_right fun gives => ?_
  exact or_congr_right (or_iff_right (gives.1.ne_invalid stands.proper))

/-- The test and the change in the head of a loop. -/
theorem judged_heads {test update : Option Expr} (position : Position) (stands : Stands site a c)
    (clean : (Analysis.optional declared update (Analysis.optional declared test a)).errors = []) :
    Judged ((∀ e ∈ test, Derives site.scopes e .bool) ∧
      ∀ e ∈ update, ∃ ty, Derives site.scopes e ty) c site a
      (Checker.heads position test update c) := by
  have before : (Analysis.optional declared test a).errors = [] :=
    Analysis.clean_optional declared clean ▸ clean
  have here := Analysis.clean_optional declared before
  have tested : Judged (∀ e ∈ test, Derives site.scopes e .bool) c site a
      (Checker.heads position test none c) := by
    cases test with
    | none => exact (Judged.quiet stands rfl).congr (by simp)
    | some e => exact (judged_condition "for" position stands before).congr (by simp)
  rw [here] at clean
  cases update with
  | none => exact tested.congr (by simp)
  | some e => exact (tested.trans (judged_expr tested.stands clean)).congr (by simp)

theorem judged_variable {ty : Ty} {name : String} {initial : Option Expr} {position : Position}
    {b : Analysis} (written : ty ≠ .invalid) (stands : Stands site a c)
    (clean : (Analysis.optional declared initial a).errors = [])
    (same : Alongside b (c.declare (.ofVariable name ty position))) :
    Judged (ty ≠ .void ∧ ∀ e ∈ initial, ∃ found, Gives site.scopes e found ∧ ty.Compatible found)
      c { site with here := site.here ++ [.ofVariable name ty position] } b
      (Checker.variableStatement ty name initial position c) := by
  have table := Checker.table_variableStatement ty name initial position c
  have proper := (List.forall_mem_cons.mp stands.proper).1
  refine ⟨stands.behind (Checker.around_variableStatement ..) (table.trans same) ?_ ?_, ?_⟩
  · rw [table]
    exact stands.shows.declare _
  · exact List.forall_mem_append.mpr ⟨proper, List.forall_mem_singleton.mpr ⟨written, nofun⟩⟩
  · rw [Checker.errors_variableStatement_iff]
    refine and_congr_right fun _ => and_congr_right fun _ => ?_
    cases initial with
    | none => simp
    | some e => simpa using stands.fits_iff written clean

theorem judged_giveBack {value : Option Expr} (span : Span) (stands : Stands site a c)
    (clean : (Analysis.optional declared value a).errors = []) :
    Judged ((Stmt.giveBack value span).WellTyped site) c site a
      (Checker.giveBack value span.start c) := by
  refine ⟨stands.here (Checker.around_giveBack ..) (Checker.table_giveBack ..), ?_⟩
  rw [Checker.errors_giveBack_iff]
  refine and_congr_right fun _ => ?_
  have returns := stands.returns
  cases value with
  | none =>
    have fine (f : Enclosing) : Checker.returnCause f none = none ↔ f.ty = .void := by
      simp [Checker.returnCause]
    rw [Stmt.WellTyped, ← returns, Option.map_eq_some_iff]
    simp [fine]
  | some e =>
    have fine (f : Enclosing) (found : Ty) :
        Checker.returnCause f (some found) = none ↔ f.ty ≠ .void ∧ f.ty.fits found := by
      by_cases void : f.ty = .void <;> simp [Checker.returnCause, void]
    have written (f : Enclosing) (given : site.returns? = some f.ty) : f.ty ≠ .invalid :=
      fun same => stands.known (given.trans (congrArg some same))
    rw [Stmt.WellTyped]
    constructor
    · rintro ⟨typed, f, known, cause⟩
      have given : site.returns? = some f.ty := by
        rw [← returns, known]
        rfl
      obtain ⟨isValue, fits⟩ := (fine f _).mp cause
      obtain ⟨found, gives, compatible⟩ :=
        (stands.fits_iff (written f given) clean).mp ⟨typed e rfl, fits⟩
      exact ⟨f.ty, found, given, isValue, gives, compatible⟩
    · rintro ⟨ty, found, given, isValue, gives, compatible⟩
      obtain ⟨f, known, rfl⟩ := Option.map_eq_some_iff.mp (returns.trans given)
      obtain ⟨typed, fits⟩ :=
        (stands.fits_iff (written f given) clean).mpr ⟨found, gives, compatible⟩
      refine ⟨?_, f, known, (fine f _).mpr ⟨isValue, fits⟩⟩
      rintro value ⟨⟩
      exact typed

/-- What is asked of the subject of a switch and of the values of its arms. -/
theorem subject_iff {cases : List Case} (stands : Stands site a c)
    (clean : (Analysis.expr declared e a).errors = []) :
    ((∃ ty, Gives site.scopes e ty ∧ (ty = .int ∨ ty = .char)) ∧
      ∀ arm ∈ cases, ∃ found, Gives site.scopes arm.value found ∧
        ((Checker.subject e c).1 = .invalid ∨ found = (Checker.subject e c).1)) ↔
      ∃ ty, Derives site.scopes e ty ∧ (ty = .int ∨ ty = .char) ∧
        ∀ arm ∈ cases, Derives site.scopes arm.value ty := by
  have same {ty : Ty} (gives : Gives site.scopes e ty) : (Checker.subject e c).1 = ty := by
    rw [← stands.shows.scopes] at gives
    exact congrArg Typed.ty (((stands.adequate clean).gives ty).mpr gives)
  constructor
  · rintro ⟨⟨ty, gives, allowed⟩, values⟩
    refine ⟨ty, gives.1, allowed, fun arm listed => ?_⟩
    obtain ⟨found, value, agrees⟩ := values arm listed
    rw [same gives] at agrees
    rcases agrees with rfl | rfl
    · simp at allowed
    · exact value.1
  · rintro ⟨ty, derives, allowed, values⟩
    have isValue : ty ≠ .void := by
      rintro rfl
      simp at allowed
    refine ⟨⟨ty, ⟨derives, isValue⟩, allowed⟩, fun arm listed => ?_⟩
    exact ⟨ty, ⟨values arm listed, isValue⟩, .inr (same ⟨derives, isValue⟩).symm⟩

/-- A function body is without complaint about its returns if it returns a value that is wanted. -/
theorem missingReturn_iff (name : String) (ty : Ty) (isMain : Bool) (body : Block)
    (position : Position) (c : Checker) :
    Checker.missingReturn position
        (Checker.within body (Checker.begin ⟨name, ty, isMain, false⟩ c)) = none ↔
      ty = .void ∨ body.returnsValue := by
  obtain ⟨body, span⟩ := body
  have known := (Checker.around_stmts body (Checker.begin ⟨name, ty, isMain, false⟩ c)).function
  have begun : (Checker.begin ⟨name, ty, isMain, false⟩ c).function =
      some ⟨name, ty, isMain, false⟩ := rfl
  rw [begun, Option.map_some] at known
  rw [Checker.errors_missingReturn_iff]
  simp only [Checker.within, known, Option.some.injEq, forall_eq', Enclosing.noting,
    Block.returnsValue]
  by_cases void : ty = .void <;> simp [void]

/-- Back behind a function, whose body was judged by itself. -/
theorem Judged.resume {p : Prop} {f : Enclosing} {ps : List Param} {scope : List Symbol}
    {b : Analysis} {d : Checker} (stands : Stands site a c)
    (inner : Judged p (Checker.begin f (Checker.params ps c.enter))
      { site.within f.ty ps with here := scope } b d) :
    Judged p c site b.exit (Checker.resume (Checker.params ps c.enter) d).exit := by
  have around : Checker.Around false c (Checker.resume (Checker.params ps c.enter) d).exit :=
    (((Checker.Around.refl c).enter).before (Checker.around_params ps c.enter)).of_same rfl rfl
  refine ⟨stands.back around inner.stands.same.exit inner.stands.shows.exit, ?_⟩
  exact inner.clean_iff.trans (and_congr_left' (by simp [Checker.begin, Checker.enter]))

/-- A function whose body was judged. Behind it, a value may still be missing. -/
theorem judged_function {ty : Ty} {name : String} {ps : List Param} {body : Block} {span : Span}
    {scope : List Symbol} {b : Analysis}
    (behind : Stands (site.behind (.function ty name ps body span)) a
      (Checker.declareFunction name ty (signature ps) span.start c))
    (inner : Judged (body.WellTyped ((site.behind (.function ty name ps body span)).within ty ps))
      (Checker.begin ⟨name, ty, false, false⟩
        (Checker.params ps (Checker.declareFunction name ty (signature ps) span.start c).enter))
      { (site.behind (.function ty name ps body span)).within ty ps with here := scope } b
      (Checker.within body (Checker.begin ⟨name, ty, false, false⟩
        (Checker.params ps (Checker.declareFunction name ty (signature ps) span.start c).enter)))) :
    Judged ((Stmt.function ty name ps body span).WellTyped site) c
      (site.behind (.function ty name ps body span)) b.exit
      (Checker.stmt (.function ty name ps body span) c) := by
  have resumed := (inner.resume behind).of_errors (Checker.errors_declareFunction ..)
  refine ⟨resumed.stands.here ((Checker.Around.refl _).of_same rfl rfl) rfl, ?_⟩
  have wanted := missingReturn_iff name ty false body span.start
    (Checker.params ps (Checker.declareFunction name ty (signature ps) span.start c).enter)
  refine List.append_eq_nil_iff.trans ((and_congr resumed.clean_iff ?_).trans and_assoc)
  exact Option.toList_eq_nil_iff.trans wanted

section

variable {body : Block} {b : Analysis} {span : Span}

/-- The body of a loop, where the loop stands. -/
theorem judged_turn (stands : Stands site a c)
    (inner : Judged (body.WellTyped site.breaking.enter) c.deeper site.breaking b
      (Checker.block body c.deeper)) :
    Judged (body.WellTyped site.breaking.enter) c site b (Checker.block body c.deeper).shallower :=
  inner.shallower stands (Checker.around_block body _)

theorem judged_whileLoop (stands : Stands site a c)
    (clean : (Analysis.expr declared e a).errors = [])
    (each : ∀ d, Stands site.breaking a d →
      Judged (body.WellTyped site.breaking.enter) d site.breaking b (Checker.block body d)) :
    Judged ((Stmt.whileLoop e body span).WellTyped site) c site b
      (Checker.stmt (.whileLoop e body span) c) := by
  have first := judged_condition "while" span.start stands clean
  exact first.trans (judged_turn first.stands (each _ first.stands.deeper))

theorem judged_doLoop (stands : Stands site a c)
    (clean : (Analysis.expr declared e b).errors = [])
    (each : ∀ d, Stands site.breaking a d →
      Judged (body.WellTyped site.breaking.enter) d site.breaking b (Checker.block body d)) :
    Judged ((Stmt.doLoop body e span).WellTyped site) c site b
      (Checker.stmt (.doLoop body e span) c) := by
  have first := judged_turn stands (each _ stands.deeper)
  exact (first.trans (judged_condition "do-while" span.start first.stands clean)).congr and_comm

/-- The turns of a loop behind its initial statement. -/
theorem judged_turns {test update : Option Expr} (position : Position) (stands : Stands site a c)
    (clean : (Analysis.optional declared update (Analysis.optional declared test a)).errors = [])
    (each : ∀ d, Stands site.breaking a d →
      Judged (body.WellTyped site.breaking.enter) d site.breaking b (Checker.block body d)) :
    Judged ((∀ e ∈ test, Derives site.scopes e .bool) ∧
      (∀ e ∈ update, ∃ ty, Derives site.scopes e ty) ∧ body.WellTyped site.breaking.enter) c site b
      (Checker.block body (Checker.heads position test update c).deeper).shallower := by
  have first := judged_heads position stands clean
  exact (first.trans (judged_turn first.stands (each _ first.stands.deeper))).congr and_assoc

/-- A switch whose arms were judged, with what else is asked of them. -/
theorem judged_switch {cases : List Case} {rest : Prop} {returns : Bool} {d : Checker}
    (stands : Stands site a c) (clean : (Analysis.expr declared e a).errors = [])
    (inner : Judged ((∀ arm ∈ cases, ∃ found, Gives site.scopes arm.value found ∧
      ((Checker.subject e c).1 = .invalid ∨ found = (Checker.subject e c).1)) ∧ rest)
      (Checker.subject e c).2.deeper site.breaking b d)
    (around : Checker.Around returns (Checker.subject e c).2.deeper d) :
    Judged ((∃ ty, Derives site.scopes e ty ∧ (ty = .int ∨ ty = .char) ∧
      ∀ arm ∈ cases, Derives site.scopes arm.value ty) ∧ rest) c site b d.shallower := by
  have first := judged_subject stands clean
  have second := inner.shallower first.stands around
  refine (first.trans second).congr (and_assoc.symm.trans ?_)
  exact and_congr_left' (subject_iff stands clean)

end

end

section

variable (declared : String → Bool)

mutual

/-- A statement is judged where it stands, as the analyzer and the checker come to it. -/
theorem judged_stmt : (s : Stmt) → {site : Site} → {a : Analysis} → {c : Checker} →
    s.TypesWritten → Stands site a c → (Analysis.stmt declared s a).errors = [] →
    Judged (s.WellTyped site) c (site.behind s) (Analysis.stmt declared s a) (Checker.stmt s c)
  | .variable ty name initial span, site, a, c, written, stands, clean => by
    have before := (Analysis.clean_obey clean).1
    have here := Analysis.clean_optional declared before
    have typed := written _ (.head _) ty (.head _)
    simp only [Analysis.stmt, here] at clean ⊢
    exact judged_variable typed.ne_invalid stands before (stands.same.onVariable clean)
  | .prototype ty name ps span, site, a, c, written, stands, clean => by
    obtain ⟨typed, params⟩ := ne_invalid_of_written (written _ (.head _))
    have behind : Stands (site.behind (.prototype ty name ps span)) _ _ :=
      stands.declareFunction typed params (stands.same.onPrototype clean)
    exact .quiet behind (Checker.errors_declareFunction ..)
  | .function ty name ps body span, site, a, c, written, stands, clean => by
    obtain ⟨here, rest⟩ := typesWritten_cons.mp written
    obtain ⟨typed, params⟩ := ne_invalid_of_written here
    have inside := Analysis.clean_within declared body _ clean
    have begun := Analysis.clean_params inside
    have behind : Stands (site.behind (.function ty name ps body span)) _ _ :=
      stands.declareFunction typed params (stands.same.onFunction begun)
    have entered : Stands _ _ (Checker.begin ⟨name, ty, false, false⟩ _) :=
      behind.within typed params inside
    obtain ⟨scope, judged⟩ := judged_within body rest entered clean
    exact judged_function behind judged
  | .main body span, site, a, c, written, stands, clean => by
    obtain ⟨-, rest⟩ := typesWritten_cons.mp written
    have inside := Analysis.clean_within declared body _ clean
    have behind : Stands (site.behind (.main body span)) _ _ :=
      stands.declareFunction nofun List.not_mem_nil (stands.same.onMain inside)
    have entered : Stands (Site.within .int [] _) _ (Checker.begin ⟨"main", .int, true, false⟩ _) :=
      behind.within nofun List.not_mem_nil inside
    obtain ⟨scope, judged⟩ := judged_within body rest entered clean
    exact (judged.resume behind).of_errors (Checker.errors_declareFunction ..)
  | .enumeration name values _ span, site, a, c, _, stands, clean => by
    have shows := Checker.shows_enumeration stands.same clean stands.shows
    have proper := (List.forall_mem_cons.mp stands.proper).1
    refine .quiet (stands.behind (Checker.around_enumeration ..) (stands.same.enumeration clean)
      shows ?_) (Checker.errors_enumeration ..)
    have named : ∀ s ∈ values.map Identifier.enumValue, s.Proper :=
      List.forall_mem_map.mpr fun value _ => ⟨nofun, nofun⟩
    exact List.forall_mem_append.mpr ⟨proper, List.forall_mem_cons.mpr ⟨⟨nofun, nofun⟩, named⟩⟩
  | .block body, site, a, c, written, stands, clean =>
    judged_block body (typesWritten_cons.mp written).2 stands clean
  | .branch e yes none span, site, a, c, written, stands, clean => by
    have before := Analysis.clean_block declared yes _ clean
    have here := (Analysis.clean_expr declared e a before).1
    simp only [Stmt.TypesWritten, Stmt.inner, typesWritten_cons, typesWritten_append] at written
    simp only [Analysis.stmt, here] at clean ⊢
    have first := judged_condition "if" span.start stands before
    exact (first.trans (judged_block yes written.2.1 first.stands clean)).congr
      (by simp [Stmt.WellTyped])
  | .branch e yes (some no) span, site, a, c, written, stands, clean => by
    have between := Analysis.clean_block declared no _ clean
    have before := Analysis.clean_block declared yes _ between
    have here := (Analysis.clean_expr declared e a before).1
    simp only [Stmt.TypesWritten, Stmt.inner, typesWritten_cons, typesWritten_append] at written
    simp only [Analysis.stmt, here] at between clean ⊢
    have first := judged_condition "if" span.start stands before
    have second := judged_block yes written.2.1 first.stands between
    have third := judged_block no written.2.2 second.stands clean
    exact first.trans (second.trans third)
  | .whileLoop e body span, site, a, c, written, stands, clean => by
    have before := Analysis.clean_block declared body _ clean
    have here := (Analysis.clean_expr declared e a before).1
    simp only [Analysis.stmt, here] at clean ⊢
    exact judged_whileLoop stands before fun _ inside =>
      judged_block body (typesWritten_cons.mp written).2 inside clean
  | .doLoop body e span, site, a, c, written, stands, clean => by
    simp only [Analysis.stmt] at clean ⊢
    have here := (Analysis.clean_expr declared e _ clean).1
    have before : (Analysis.block declared body a).errors = [] := here ▸ clean
    rw [here]
    exact judged_doLoop stands clean fun _ inside =>
      judged_block body (typesWritten_cons.mp written).2 inside before
  | .forLoop none e update body span, site, a, c, written, stands, clean => by
    have before := Analysis.clean_block declared body _ clean
    simp only [Analysis.stmt, Analysis.clean_heads declared before] at clean ⊢
    have turns := judged_turns span.start stands.enter before fun _ inside =>
      judged_block body (typesWritten_cons.mp written).2 inside clean
    have around := (Checker.around_heads span.start e update c.enter).behind
      (Checker.around_block body _).shallower
    exact (turns.exit stands around).congr (and_iff_right trivial).symm
  | .forLoop (some initial) e update body span, site, a, c, written, stands, clean => by
    simp only [Stmt.TypesWritten, Stmt.inner, typesWritten_cons, typesWritten_append] at written
    have between := Analysis.clean_block declared body _ clean
    have here := Analysis.clean_heads declared between
    have before : (Analysis.stmt declared initial a.enter).errors = [] := here ▸ between
    simp only [Analysis.stmt, here] at clean ⊢
    have begun := judged_stmt initial (typesWritten_cons.mpr written.2.1) stands.enter before
    have turns := judged_turns span.start begun.stands between fun _ inside =>
      judged_block body written.2.2 inside clean
    have around := ((Checker.around_stmt initial c.enter).before
      (Checker.around_heads span.start e update _)).trans (Checker.around_block body _).shallower
    exact (begun.trans turns).exit stands around
  | .switch e cases none span, site, a, c, written, stands, clean => by
    have before := Analysis.clean_arms declared cases _ clean
    have here := (Analysis.clean_expr declared e a before).1
    simp only [Stmt.TypesWritten, Stmt.inner, typesWritten_cons, typesWritten_append] at written
    simp only [Analysis.stmt, here] at clean ⊢
    have inside := (judged_subject stands before).stands.deeper
    have inner := judged_arms cases (Checker.subject e c).1 written.2.1 inside clean
    exact (judged_switch stands before inner (Checker.around_arms cases _ _)).congr
      (and_congr_right' (and_iff_left trivial).symm)
  | .switch e cases (some fallback) span, site, a, c, written, stands, clean => by
    have between := Analysis.clean_block declared fallback _ clean
    have before := Analysis.clean_arms declared cases _ between
    have here := (Analysis.clean_expr declared e a before).1
    simp only [Stmt.TypesWritten, Stmt.inner, typesWritten_cons, typesWritten_append] at written
    simp only [Analysis.stmt, here] at between clean ⊢
    have inside := (judged_subject stands before).stands.deeper
    have inner := judged_arms cases (Checker.subject e c).1 written.2.1 inside between
    have last := judged_block fallback written.2.2 inner.stands clean
    exact judged_switch stands before ((inner.trans last).congr and_assoc)
      ((Checker.around_arms cases _ _).trans (Checker.around_block fallback _))
  | .giveBack value span, site, a, c, _, stands, clean => by
    have here := Analysis.clean_optional declared clean
    simp only [Analysis.stmt, here]
    exact judged_giveBack span stands clean
  | .leave span, site, a, c, _, stands, _ => by
    refine ⟨stands.here (Checker.around_leave ..) (Checker.table_leave ..), ?_⟩
    exact (Checker.errors_leave_iff ..).trans (and_congr_right' stands.breakable.symm)
  | .print args _, site, a, c, _, stands, clean => by
    have here := (Analysis.clean_exprs declared args a clean).1
    simp only [Analysis.stmt, here]
    exact judged_values stands clean
  | .evaluate e _, site, a, c, _, stands, clean => by
    have here := (Analysis.clean_expr declared e a clean).1
    simp only [Analysis.stmt, here]
    exact judged_expr stands clean
  | .inclusion .., _, _, _, _, stands, _ => .quiet stands rfl
termination_by structural s => s

theorem judged_block : (body : Block) → {site : Site} → {a : Analysis} → {c : Checker} →
    body.TypesWritten → Stands site a c → (Analysis.block declared body a).errors = [] →
    Judged (body.WellTyped site.enter) c site (Analysis.block declared body a)
      (Checker.block body c)
  | ⟨body, _⟩, site, a, c, written, stands, clean => by
    obtain ⟨scope, judged⟩ := judged_stmts body written stands.enter clean
    exact ⟨stands.exit (Checker.around_stmts body _) judged.stands, judged.clean_iff⟩
termination_by structural body => body

theorem judged_within : (body : Block) → {site : Site} → {a : Analysis} → {c : Checker} →
    body.TypesWritten → Stands site a c → (Analysis.within declared body a).errors = [] →
    ∃ scope, Judged (body.WellTyped site) c { site with here := scope }
      (Analysis.within declared body a) (Checker.within body c)
  | ⟨body, _⟩, _, _, _, written, stands, clean => judged_stmts body written stands clean
termination_by structural body => body

theorem judged_stmts : (body : List Stmt) → {site : Site} → {a : Analysis} → {c : Checker} →
    TypesWritten (bodyStatements body) → Stands site a c →
    (Analysis.stmts declared body a).errors = [] →
    ∃ scope, Judged (BodyWellTyped body site) c { site with here := scope }
      (Analysis.stmts declared body a) (Checker.stmts body c)
  | [], site, _, _, _, stands, _ => ⟨site.here, .quiet stands rfl⟩
  | s :: others, site, a, c, written, stands, clean => by
    obtain ⟨one, rest⟩ := typesWritten_append.mp written
    have between := Analysis.clean_stmts declared others _ clean
    have first := judged_stmt s one stands between
    obtain ⟨scope, second⟩ := judged_stmts others rest first.stands clean
    exact ⟨scope, first.trans second⟩
termination_by structural body => body

theorem judged_arms : (cases : List Case) → (ty : Ty) → {site : Site} → {a : Analysis} →
    {c : Checker} → TypesWritten (armsStatements cases) → Stands site a c →
    (Analysis.arms declared cases a).errors = [] →
    Judged ((∀ arm ∈ cases, ∃ found, Gives site.scopes arm.value found ∧
      (ty = .invalid ∨ found = ty)) ∧ ArmsWellTyped cases site) c site
      (Analysis.arms declared cases a) (Checker.arms ty cases c)
  | [], _, _, _, _, _, stands, _ => (Judged.quiet stands rfl).congr (by simp [ArmsWellTyped])
  | ⟨value, body, _⟩ :: others, ty, site, a, c, written, stands, clean => by
    obtain ⟨one, rest⟩ := typesWritten_append.mp written
    have between := Analysis.clean_arms declared others _ clean
    have before := Analysis.clean_block declared body _ between
    have here := (Analysis.clean_expr declared value a before).1
    simp only [Analysis.arms, here] at between clean ⊢
    have first := judged_caseValue ty stands before
    have second := judged_block body one first.stands between
    have third := judged_arms others ty rest second.stands clean
    refine (first.trans (second.trans third)).congr ?_
    rw [List.forall_mem_cons, ArmsWellTyped]
    exact ⟨fun ⟨h, i, j, k⟩ => ⟨⟨h, j⟩, i, k⟩, fun ⟨⟨h, j⟩, i, k⟩ => ⟨h, i, j, k⟩⟩
termination_by structural cases => cases

end

end

/-- The types of a program that the scope analyzer accepts are right just if it is well typed. -/
theorem Program.typeCheck_eq_nil_iff {tokens : List Token} {p : Program}
    (parsed : Parse.ofTokens tokens = .ok p) (clean : (analyze p).errors = []) :
    typeCheck p = [] ↔ p.WellTyped := by
  obtain ⟨scope, judged⟩ := judged_stmts (isDeclared (declarations p.body)) p.body
    (Parse.typesWritten_of_parsed parsed) .outermost clean
  exact judged.clean_iff.trans (and_iff_right rfl)

/-- `float half(int n) { return n / 2.5; }
main { float x = half(7); while (x > 1) { break; } print(x); }` -/
def halvingTokens : List Token :=
  let name (text : String) : Token := ⟨.identifier, text, .none⟩
  let mark (k : Token.Kind) : Token := ⟨k, "", .none⟩
  let int (text : String) : Token := ⟨.intLiteral, text, .none⟩
  [mark .floatType, name "half", mark .openParen, mark .intType, name "n", mark .closeParen,
    mark .openCurly, mark .returnWord, name "n", mark .slash, ⟨.floatLiteral, "2.5", .none⟩,
    mark .semicolon, mark .closeCurly,
    mark .mainWord, mark .openCurly,
    mark .floatType, name "x", mark .assignment, name "half", mark .openParen, int "7",
    mark .closeParen, mark .semicolon,
    mark .whileWord, mark .openParen, name "x", mark .greater, int "1", mark .closeParen,
    mark .openCurly, mark .breakWord, mark .semicolon, mark .closeCurly,
    mark .printWord, mark .openParen, name "x", mark .closeParen, mark .semicolon,
    mark .closeCurly]

def halving : Program :=
  (Parse.ofTokens halvingTokens).toOption.getD default

theorem ofTokens_halving : Parse.ofTokens halvingTokens = .ok halving := by
  have read : (Parse.ofTokens halvingTokens).toOption.isSome := by decide +kernel
  unfold halving
  cases parsed : Parse.ofTokens halvingTokens with
  | ok p => rfl
  | error e => simp [parsed, Except.toOption] at read

theorem Program.wellTyped_halving :
    Parse.ofTokens halvingTokens = .ok halving ∧ (analyze halving).errors = [] ∧
      halving.WellTyped := by
  have clean : (analyze halving).errors = [] := by decide +kernel
  have typed : typeCheck halving = [] := by decide +kernel
  exact ⟨ofTokens_halving, clean, (typeCheck_eq_nil_iff ofTokens_halving clean).mp typed⟩

end Curly
