import Curly.Proofs.Lowering.Reads
import Curly.Proofs.Scope.Hiding

/-! Which names are lowered to constants. A name that stands for an enumeration value is lowered to
its ordinal, and any other one to a variable, as long as lowering knows the parameters around. It
forgets them at every function inside theirs, and takes a parameter with the name of an enumeration
value for that value from there on. -/
namespace Curly

/-- The values of an enumeration with their ordinals. -/
def Stmt.enumerators : Stmt → List (Identifier × Nat)
  | .enumeration _ values _ _ => values.zipIdx
  | _ => []

namespace Program

def enumerators (p : Program) : List (Identifier × Nat) :=
  p.body.flatMap Stmt.enumerators

/-- The symbol stands for the enumeration value with the ordinal. -/
def Counts (p : Program) (s : Symbol) (i : Nat) : Prop :=
  ∃ value, (value, i) ∈ p.enumerators ∧ value.enumValue = s

end Program

namespace Lowering

section

variable (Counts : Symbol → Nat → Prop)

/-- Just the enumeration values of the global scope have ordinals. -/
structure Numbered (globals : List Symbol) (ordinals : List (String × Nat)) : Prop where
  counted : ∀ name i, ordinals.lookup name = some i →
    ∃ v ∈ globals, v.isEnumValue ∧ v.name = name ∧ Counts v i
  complete : ∀ v ∈ globals, v.isEnumValue → (ordinals.lookup v.name).isSome

/-- What the builder knows of the names around. -/
structure Agrees (scopes : Scopes) (ps : Parameters) (b : Builder) : Prop where
  numbered : Numbered Counts scopes.globals b.ordinals
  params : b.params = ps.known
  among : ∀ name ∈ ps.known, name ∈ ps.around

/-- The analyzer and lowering have come to a place with the given scopes and parameters. -/
structure Met (scopes : Scopes) (ps : Parameters) (a : Analysis) (b : Builder) : Prop where
  tidy : a.table.Tidy ps.around scopes
  agrees : Agrees Counts scopes ps b

end

variable {Counts : Symbol → Nat → Prop} {here scope : List Symbol} {around scopes : Scopes}
  {ps qs : Parameters} {a a' : Analysis} {b c : Builder}

namespace Numbered

variable {globals : List Symbol} {ordinals : List (String × Nat)}

theorem empty : Numbered Counts [] [] :=
  ⟨nofun, nofun⟩

theorem of_same {others : List Symbol} (numbered : Numbered Counts globals ordinals)
    (same : ∀ v, v.isEnumValue → (v ∈ others ↔ v ∈ globals)) : Numbered Counts others ordinals := by
  refine ⟨fun name i known => ?_, fun v member value => ?_⟩
  · obtain ⟨v, member, value, found⟩ := numbered.counted name i known
    exact ⟨v, (same v value).mpr member, value, found⟩
  · exact numbered.complete v ((same v value).mp member) value

/-- One more enumeration. -/
theorem enumeration (numbered : Numbered Counts globals ordinals) (name : String)
    (position : Position) {values : List Identifier}
    (counts : ∀ entry ∈ values.zipIdx, Counts entry.1.enumValue entry.2) :
    Numbered Counts (globals ++ .ofEnumeration name position :: values.map Identifier.enumValue)
      ((values.map Identifier.name).zipIdx.reverse ++ ordinals) := by
  have entries (name : String) (i : Nat) : (name, i) ∈ (values.map Identifier.name).zipIdx.reverse ↔
      ∃ value, (value, i) ∈ values.zipIdx ∧ value.name = name := by
    simp [List.zipIdx_map, and_comm]
  refine ⟨fun name i known => ?_, fun v member value => ?_⟩
  · rw [List.lookup_append, Option.or_eq_some_iff] at known
    rcases known with new | ⟨-, old⟩
    · obtain ⟨before, behind, split, -⟩ := List.lookup_eq_some_iff.mp new
      obtain ⟨value, listed, rfl⟩ := (entries name i).mp (split ▸ by simp)
      have known : value ∈ values := by
        rw [List.mk_mem_zipIdx_iff_getElem?] at listed
        exact List.mem_of_getElem? listed
      have named := List.mem_map_of_mem (f := Identifier.enumValue) known
      exact ⟨value.enumValue, List.mem_append_right _ (.tail _ named), rfl, rfl, counts _ listed⟩
    · obtain ⟨v, member, found⟩ := numbered.counted name i old
      exact ⟨v, List.mem_append_left _ member, found⟩
  · rw [List.lookup_append, Option.isSome_or, Bool.or_eq_true]
    rcases List.mem_append.mp member with old | new
    · exact .inr (numbered.complete v old value)
    · rcases List.mem_cons.mp new with rfl | new
      · exact nomatch value
      · obtain ⟨known, listed, rfl⟩ := List.mem_map.mp new
        obtain ⟨i, here⟩ := List.mem_iff_getElem?.mp listed
        refine .inl (List.lookup_isSome_iff.mpr ⟨(known.name, i), (entries _ i).mpr ?_, ?_⟩)
        · exact ⟨known, List.mk_mem_zipIdx_iff_getElem?.mpr here, rfl⟩
        · exact beq_self_eq_true _

end Numbered

namespace Agrees

theorem of_same (agrees : Agrees Counts scopes ps b) (ordinals : c.ordinals = b.ordinals)
    (params : c.params = b.params) : Agrees Counts scopes ps c :=
  ⟨ordinals ▸ agrees.numbered, params.trans agrees.params, agrees.among⟩

theorem alike (agrees : Agrees Counts scopes ps b) (alike : Alike b c) :
    Agrees Counts scopes ps c :=
  agrees.of_same alike.ordinals alike.params

theorem operand_of_known (agrees : Agrees Counts scopes ps b) {name : String}
    (known : name ∈ ps.known) : nameOperand name b = .variable name := by
  refine nameOperand_of_none (if_pos ?_)
  rw [agrees.params, List.contains_iff_mem]
  exact known

theorem ordinal?_eq (agrees : Agrees Counts scopes ps b) {name : String}
    (unknown : name ∉ ps.known) : b.ordinal? name = b.ordinals.lookup name := by
  refine if_neg ?_
  rw [agrees.params, List.contains_iff_mem]
  exact unknown

theorem operand_of_some (agrees : Agrees Counts scopes ps b) {name : String} {i : Nat}
    (unknown : name ∉ ps.known) (counts : b.ordinals.lookup name = some i) :
    nameOperand name b = intOperand i := by
  rw [nameOperand, agrees.ordinal?_eq unknown, counts]

/-- Other symbols in the current scope, but the same enumeration values. -/
theorem declare (agrees : Agrees Counts (here :: around) ps b)
    (same : ∀ v, v.isEnumValue → (v ∈ scope ↔ v ∈ here)) :
    Agrees Counts (scope :: around) ps b := by
  refine ⟨?_, agrees.params, agrees.among⟩
  cases around with
  | nil => exact agrees.numbered.of_same same
  | cons next rest => exact agrees.numbered

theorem head_eq (name : String) (params : List String) (b : Builder) :
    (head name params b).ordinals = b.ordinals ∧ (head name params b).params = params := by
  have listed (names : List String) (c : Builder) :
      (names.foldl (fun b param => b.emit (.param param)) c).ordinals = c.ordinals ∧
        (names.foldl (fun b param => b.emit (.param param)) c).params = c.params := by
    induction names generalizing c with
    | nil => exact ⟨rfl, rfl⟩
    | cons first others ih => exact ih (c.emit (.param first))
  exact listed params _

/-- Into the body of a function. -/
theorem head (agrees : Agrees Counts (here :: around) ps b) (name : String)
    (params : List String) :
    Agrees Counts (scope :: here :: around) (ps.enter params) (Lowering.head name params b) := by
  obtain ⟨ordinals, known⟩ := head_eq name params b
  exact ⟨ordinals ▸ agrees.numbered, known, fun _ => List.mem_append_right _⟩

/-- Behind the body of a function. -/
theorem foot (agrees : Agrees Counts (scope :: here :: around) qs b) (name : String)
    (value : Option Operand) (ps : Parameters) :
    Agrees Counts (here :: around) (ps.behind true) (Lowering.foot name value b) := by
  have ordinals : (Lowering.foot name value b).ordinals = b.ordinals := by
    unfold Lowering.foot
    cases b.last? with
    | none => rfl
    | some i => cases returns : i.isReturn <;> simp [returns] <;> rfl
  exact ⟨ordinals ▸ agrees.numbered, rfl, nofun⟩

end Agrees

namespace Met

theorem of_same (met : Met Counts scopes ps a b) (ordinals : c.ordinals = b.ordinals)
    (params : c.params = b.params) : Met Counts scopes ps a c :=
  ⟨met.tidy, met.agrees.of_same ordinals params⟩

theorem alike (met : Met Counts scopes ps a b) (alike : Alike b c) : Met Counts scopes ps a c :=
  ⟨met.tidy, met.agrees.alike alike⟩

theorem enter (met : Met Counts (here :: around) ps a b) :
    Met Counts ([] :: here :: around) ps a.enter b :=
  ⟨met.tidy.enter, met.agrees.numbered, met.agrees.params, met.agrees.among⟩

/-- Out of a scope. -/
theorem exit (met : Met Counts (here :: around) ps a b)
    (inner : Met Counts (scope :: here :: around) qs a' c) (same : qs.around = ps.around) :
    Met Counts (here :: around) qs a'.exit c :=
  ⟨same ▸ met.tidy.exit inner.tidy, inner.agrees.numbered, inner.agrees.params, inner.agrees.among⟩

end Met

end Lowering

open Lowering

/-- The analyzer and lowering agree about the names at the place. -/
def Read.Placed (Counts : Symbol → Nat → Prop) (x : Read) : Prop :=
  ∃ scopes, x.table.Tidy x.params.around scopes ∧
    Lowering.Agrees Counts scopes x.params x.before

/-- They agree about the names in the expression. -/
def Stop.Placed (Counts : Symbol → Nat → Prop) (x : Stop) : Prop :=
  ∃ scopes, x.visit.analyzed.Tidy x.params.around scopes ∧
    Lowering.Agrees Counts scopes x.params x.before

namespace Lowering

variable {Counts : Symbol → Nat → Prop} {here scope : List Symbol} {around scopes : Scopes}
  {ps qs : Parameters} {a a' : Analysis} {b c : Builder} {k : Checker}

theorem placed_reads {x : Stop} (placed : x.Placed Counts) : ∀ y ∈ x.reads, y.Placed Counts := by
  intro y member
  obtain ⟨scopes, tidy, agrees⟩ := placed
  obtain ⟨table, params, alike⟩ := alike_reads _ _ _ _ y member
  refine ⟨scopes, ?_, ?_⟩
  · rwa [table, params]
  · rw [params]
    exact agrees.alike alike

/-- The stops in statements that were passed, whatever the type checker knows, and the place behind
them. -/
structure Passed (Counts : Symbol → Nat → Prop) (here : List Symbol) (around : Scopes)
    (stops : Checker → List Stop) (ps : Parameters) (a : Analysis) (b : Builder) : Prop where
  ends : ∃ scope, here <+: scope ∧ Met Counts (scope :: around) ps a b
  placed : ∀ k, ∀ x ∈ stops k, x.Placed Counts

/-- Nothing was declared in the scope. -/
theorem Passed.of_met {stops : Checker → List Stop} (met : Met Counts (here :: around) ps a b)
    (placed : ∀ k, ∀ x ∈ stops k, x.Placed Counts) : Passed Counts here around stops ps a b :=
  ⟨⟨here, List.prefix_refl _, met⟩, placed⟩

/-- The expression means what it means at one moment, and is lowered at another one. -/
theorem Met.placed (met : Met Counts scopes ps a b) (agrees : Agrees Counts scopes qs c)
    (same : qs.around = ps.around) (e : Expr) (t : Table) (role : Role) :
    Stop.Placed Counts ⟨⟨e, a.table, t⟩, qs, c, role⟩ :=
  ⟨scopes, same ▸ met.tidy, agrees⟩

theorem Met.placed_optional (met : Met Counts scopes ps a b) (agrees : Agrees Counts scopes qs c)
    (same : qs.around = ps.around) (role : Role) (e : Option Expr) :
    ∀ x ∈ optionalStops role qs e a k c, x.Placed Counts := by
  cases e with
  | none => exact nofun
  | some e => exact List.forall_mem_singleton.mpr (met.placed agrees same e k.table role)

theorem placed_all (declared : String → Bool) (es : List Expr) (met : Met Counts scopes ps a b) :
    ∀ x ∈ allStops declared ps es a k b, x.Placed Counts := by
  induction es generalizing a k b with
  | nil => exact nofun
  | cons e others ih =>
    have next : Met Counts scopes ps (Analysis.expr declared e a) (expr e b).2 :=
      ⟨by rw [Analysis.table_expr]; exact met.tidy, met.agrees.alike (straight_expr e b).alike⟩
    exact List.forall_mem_cons.mpr ⟨met.placed met.agrees rfl e k.table .wanted, ih next⟩

/-- From behind the body of a loop to the end of its code. -/
theorem Met.loop (loop : Loop)
    (behind : Met Counts scopes qs a (block loop.body (b.pushBreak loop.finish))) :
    (∀ l, Agrees Counts scopes qs ((loop.turned b).emit (.label l))) ∧
      Agrees Counts scopes qs ((loop.advanced b).emit (.label loop.test)) ∧
      Met Counts scopes qs a (loop.lowered b) := by
  have turned : Met Counts scopes qs a (loop.turned b) := behind.of_same rfl rfl
  have advanced := turned.alike (alike_advanced loop b)
  exact ⟨fun _ => turned.agrees.of_same rfl rfl, advanced.agrees.of_same rfl rfl, advanced.alike
    ((((Alike.refl _).emit _).trans (straight_repeatWhile _ _ _).alike).emit _)⟩

/-- From before a branch to its first block. -/
theorem Met.branched (met : Met Counts scopes ps a b) (e : Expr) :
    Met Counts scopes ps a (branched e b) :=
  met.alike ((straight_expr e b).alike.newLabel.emit _)

/-- From before a switch to the tests and to the first arm. -/
theorem Met.switched (met : Met Counts scopes ps a b) (e : Expr) (cases : List Case)
    (fallback : Option Block) : Agrees Counts scopes ps (expr e b).2.newLabel.2 ∧
      Met Counts scopes ps a (switched e cases fallback b).begun := by
  have tried := (straight_expr e b).alike.newLabel
  have tested := tried.trans (alike_tests (expr e b).1 cases _)
  exact ⟨met.agrees.alike tried, (met.alike tested).of_same (by cases fallback <;> rfl)
    (by cases fallback <;> rfl)⟩

theorem mem_snoc_iff {s v : Symbol} (plain : s.isEnumValue = false) (value : v.isEnumValue) :
    v ∈ here ++ [s] ↔ v ∈ here := by
  refine ⟨fun member => (List.mem_append.mp member).resolve_right fun new => ?_,
    List.mem_append_left _⟩
  simp [List.mem_singleton.mp new, plain] at value

theorem mem_withFunction_iff {name : String} {ty : Ty} {params : List Ty} {position : Position}
    {v : Symbol} (value : v.isEnumValue) :
    v ∈ withFunction name ty params position here ↔ v ∈ here := by
  unfold withFunction
  split
  · rfl
  · exact mem_snoc_iff rfl value

theorem prefix_withFunction (name : String) (ty : Ty) (params : List Ty) (position : Position)
    (here : List Symbol) : here <+: withFunction name ty params position here := by
  unfold withFunction
  split
  · exact List.prefix_refl _
  · exact List.prefix_append ..

/-- Wherever lowering comes to the body together with the analyzer, they agree about what is in it
and behind it. -/
def Walked (Counts : Symbol → Nat → Prop) (declared : String → Bool) (body : Block)
    (scopes : Scopes) (ps : Parameters) (a : Analysis) : Prop :=
  ∀ b, Met Counts scopes ps a b →
    Met Counts scopes (ps.behind body.definesFunction) (Analysis.block declared body a)
        (block body b) ∧
      ∀ k, ∀ x ∈ blockStops declared body ps a.enter k b, x.Placed Counts

section

variable {declared : String → Bool} {body : Block} {span : Span}

theorem passed_whileLoop {e : Expr} (kept : Analysis.expr declared e a = a)
    (met : Met Counts (here :: around) ps a b)
    (walked : Walked Counts declared body (here :: around) ps a) :
    Passed Counts here around (stmtStops declared (.whileLoop e body span) ps a · b)
      (ps.behind body.definesFunction) (Analysis.stmt declared (.whileLoop e body span) a)
      (stmt (.whileLoop e body span) b) := by
  simp only [Analysis.stmt, stmtStops, kept]
  let loop := whileLoop e body b.labels
  have begun : Met Counts (here :: around) ps a
      (((b.newLabel.2.newLabel.2.newLabel.2.emit (.jump loop.test)).emit
        (.label loop.start)).pushBreak loop.finish) := met.of_same rfl rfl
  obtain ⟨inside, placed⟩ := walked _ begun
  obtain ⟨-, advanced, behind⟩ := Met.loop loop inside
  -- The condition means what it means before the body, but is lowered behind it.
  have test (t : Table) := met.placed advanced (ps.around_behind _) e t .wanted
  exact .of_met behind fun _ => List.forall_mem_cons.mpr ⟨test _, placed _⟩

theorem passed_doLoop {e : Expr}
    (kept : Analysis.expr declared e (Analysis.block declared body a) =
      Analysis.block declared body a)
    (met : Met Counts (here :: around) ps a b)
    (walked : Walked Counts declared body (here :: around) ps a) :
    Passed Counts here around (stmtStops declared (.doLoop body e span) ps a · b)
      (ps.behind body.definesFunction) (Analysis.stmt declared (.doLoop body e span) a)
      (stmt (.doLoop body e span) b) := by
  simp only [Analysis.stmt, stmtStops, kept]
  let loop := whileLoop e body b.labels
  have begun : Met Counts (here :: around) ps a
      ((b.newLabel.2.newLabel.2.newLabel.2.emit (.label loop.start)).pushBreak loop.finish) :=
    met.of_same rfl rfl
  obtain ⟨inside, placed⟩ := walked _ begun
  obtain ⟨-, advanced, behind⟩ := Met.loop loop inside
  have test (t : Table) := inside.placed advanced rfl e t .wanted
  exact .of_met behind fun _ =>
    List.forall_mem_append.mpr ⟨placed _, List.forall_mem_singleton.mpr (test _)⟩

/-- The turns of a loop, from behind its initial statement. -/
theorem passed_turns (e update : Option Expr) (met : Met Counts scopes ps a b)
    (walked : Walked Counts declared body scopes ps a) :
    let loop := forLoop e update body b.labels
    let d := (b.newLabel.2.newLabel.2.newLabel.2.newLabel.2.emit (.jump loop.test)).emit
      (.label loop.start)
    Met Counts scopes (ps.behind body.definesFunction) (Analysis.block declared body a)
        (loop.lowered d) ∧
      (∀ k, ∀ x ∈ optionalStops .wanted (ps.behind body.definesFunction) e a k
        ((loop.advanced d).emit (.label loop.test)), x.Placed Counts) ∧
      (∀ k, ∀ x ∈ optionalStops .update (ps.behind body.definesFunction) update a k
        ((loop.turned d).emit (.label ⟨b.labels + 1⟩)), x.Placed Counts) ∧
      ∀ k, ∀ x ∈ blockStops declared body ps a.enter k (d.pushBreak loop.finish),
        x.Placed Counts := by
  intro loop d
  have begun : Met Counts scopes ps a (d.pushBreak loop.finish) := met.of_same rfl rfl
  obtain ⟨inside, placed⟩ := walked _ begun
  obtain ⟨turned, advanced, behind⟩ := Met.loop loop inside
  exact ⟨behind, fun _ => met.placed_optional advanced (ps.around_behind _) .wanted e,
    fun _ => met.placed_optional (turned _) (ps.around_behind _) .update update, placed⟩

end

section

variable (Counts : Symbol → Nat → Prop) (declared : String → Bool)

mutual

theorem passed_stmt : (s : Stmt) → {here : List Symbol} → {around : Scopes} → {ps : Parameters} →
    {a : Analysis} → {b : Builder} →
    (around = [] → ∀ entry ∈ s.enumerators, Counts entry.1.enumValue entry.2) →
    Met Counts (here :: around) ps a b → (Analysis.stmt declared s a).errors = [] →
    Passed Counts here around (stmtStops declared s ps a · b) (ps.behind s.definesFunction)
      (Analysis.stmt declared s a) (stmt s b)
  | .variable ty name initial span, here, around, ps, a, b, _, met, clean => by
    have kept := Analysis.clean_optional declared (Analysis.clean_obey clean).1
    simp only [Analysis.stmt, kept] at clean ⊢
    have agrees : Agrees Counts ((here ++ [.ofVariable name ty span.start]) :: around) ps b :=
      met.agrees.declare fun _ => mem_snoc_iff rfl
    have behind : Met Counts _ ps _ b := ⟨tidy_variable met.tidy clean, agrees⟩
    exact ⟨⟨_, List.prefix_append .., behind.alike (straight_variableStatement ..).alike⟩,
      fun _ => met.placed_optional met.agrees rfl .wanted initial⟩
  | .prototype ty name params span, here, around, ps, a, b, _, met, clean =>
    ⟨⟨_, prefix_withFunction .., tidy_prototype met.tidy clean,
      met.agrees.declare fun _ => mem_withFunction_iff⟩, fun _ => nofun⟩
  | .function ty name params body span, here, around, ps, a, b, _, met, clean => by
    have inside := Analysis.clean_within declared body _ clean
    have declares : Met Counts (withFunction name ty (signature params) span.start here :: around)
        ps _ b := ⟨tidy_function met.tidy (Analysis.clean_params (a := Analysis.enter _) inside),
      met.agrees.declare fun _ => mem_withFunction_iff⟩
    have entered : Met Counts _ (ps.enter (params.map Param.name)) _ _ :=
      ⟨tidy_params declares.tidy inside, declares.agrees.head name (params.map Param.name)⟩
    have walked := passed_within body entered clean
    obtain ⟨scope, -, behind⟩ := walked.ends
    exact ⟨⟨_, prefix_withFunction name ty (signature params) span.start here,
      declares.tidy.exit behind.tidy, behind.agrees.foot name _ ps⟩, fun _ => walked.placed _⟩
  | .main body span, here, around, ps, a, b, _, met, clean => by
    have inside := Analysis.clean_within declared body _ clean
    have declares : Met Counts (withFunction "main" .int [] span.start here :: around) ps _ b :=
      ⟨tidy_main met.tidy inside, met.agrees.declare fun _ => mem_withFunction_iff⟩
    have entered : Met Counts _ (ps.enter []) (Analysis.enter _) _ :=
      ⟨@tidy_params _ _ _ _ [] declares.tidy inside, declares.agrees.head "main" []⟩
    have walked := passed_within body entered clean
    obtain ⟨scope, -, behind⟩ := walked.ends
    exact ⟨⟨_, prefix_withFunction "main" .int [] span.start here,
      declares.tidy.exit behind.tidy, behind.agrees.foot "main" _ ps⟩, fun _ => walked.placed _⟩
  | .enumeration name values valuesSpan span, here, around, ps, a, b, counts, met, clean => by
    obtain ⟨rfl, -, -, tidy⟩ := tidy_enumeration met.tidy clean
    have numbered := met.agrees.numbered.enumeration name span.start (counts rfl)
    exact ⟨⟨_, List.prefix_append .., tidy, numbered, met.agrees.params, met.agrees.among⟩,
      fun _ => nofun⟩
  | .block body, here, around, ps, a, b, _, met, clean => by
    obtain ⟨behind, placed⟩ := passed_block body clean b met
    exact .of_met behind fun _ => placed _
  | .branch e yes none span, here, around, ps, a, b, _, met, clean => by
    have kept := (Analysis.clean_expr declared e a (Analysis.clean_block declared yes _ clean)).1
    have test (t : Table) := met.placed met.agrees rfl e t .wanted
    simp only [Analysis.stmt, stmtStops, kept, Stmt.definesFunction, Bool.or_false] at clean ⊢
    obtain ⟨behind, first⟩ := passed_block yes clean _ (met.branched e)
    exact .of_met (behind.of_same rfl rfl) fun _ => List.forall_mem_append.mpr
      ⟨List.forall_mem_cons.mpr ⟨test _, first _⟩, nofun⟩
  | .branch e yes (some no) span, here, around, ps, a, b, _, met, clean => by
    have between := Analysis.clean_block declared no _ clean
    have kept := (Analysis.clean_expr declared e a (Analysis.clean_block declared yes _ between)).1
    have test (t : Table) := met.placed met.agrees rfl e t .wanted
    simp only [Analysis.stmt, stmtStops, kept, Stmt.definesFunction] at between clean ⊢
    obtain ⟨middle, first⟩ := passed_block yes between _ (met.branched e)
    have turned : Met Counts (here :: around) (ps.behind yes.definesFunction)
        (Analysis.block declared yes a) (turnedAway e yes b) := middle.of_same rfl rfl
    obtain ⟨behind, second⟩ := passed_block no clean _ turned
    rw [← Parameters.behind_behind]
    exact .of_met (behind.of_same rfl rfl) fun _ => List.forall_mem_append.mpr
      ⟨List.forall_mem_cons.mpr ⟨test _, first _⟩, second _⟩
  | .whileLoop e body span, here, around, ps, a, b, _, met, clean => by
    have kept := (Analysis.clean_expr declared e a (Analysis.clean_block declared body _ clean)).1
    refine passed_whileLoop kept met (passed_block body ?_)
    rwa [Analysis.stmt, kept] at clean
  | .doLoop body e span, here, around, ps, a, b, _, met, clean => by
    obtain ⟨kept, -⟩ := Analysis.clean_expr declared e (Analysis.block declared body a) clean
    refine passed_doLoop kept met (passed_block body ?_)
    rwa [Analysis.stmt, kept] at clean
  | .forLoop none e update body span, here, around, ps, a, b, _, met, clean => by
    have inside := Analysis.clean_block declared body _ clean
    have also := Analysis.clean_optional declared inside
    rw [also] at inside
    have kept := Analysis.clean_optional declared inside
    rw [kept] at also
    simp only [Analysis.stmt, stmtStops, kept, also, Stmt.definesFunction, Bool.false_or] at clean ⊢
    obtain ⟨last, tests, updates, placed⟩ :=
      passed_turns e update met.enter (passed_block body clean)
    rw [stmt_forLoop]
    exact .of_met (met.exit last (ps.around_behind _)) fun _ => List.forall_mem_append.mpr
      ⟨List.forall_mem_append.mpr ⟨tests _, updates _⟩, placed _⟩
  | .forLoop (some initial) e update body span, here, around, ps, a, b, _, met, clean => by
    have inside := Analysis.clean_block declared body _ clean
    have also := Analysis.clean_optional declared inside
    rw [also] at inside
    have kept := Analysis.clean_optional declared inside
    rw [kept] at also inside
    have first := passed_stmt initial (fun outermost => absurd outermost (List.cons_ne_nil _ _))
      met.enter inside
    obtain ⟨scope, -, started⟩ := first.ends
    simp only [Analysis.stmt, stmtStops, kept, also, Stmt.definesFunction] at clean ⊢
    obtain ⟨last, tests, updates, placed⟩ :=
      passed_turns e update started (passed_block body clean)
    have same := Parameters.around_behind body.definesFunction (ps.behind initial.definesFunction)
    rw [stmt_forLoop, ← Parameters.behind_behind]
    exact .of_met (met.exit last (same.trans (ps.around_behind _))) fun _ =>
      List.forall_mem_append.mpr ⟨List.forall_mem_append.mpr
        ⟨List.forall_mem_append.mpr ⟨first.placed _, tests _⟩, updates _⟩, placed _⟩
  | .switch e cases none span, here, around, ps, a, b, _, met, clean => by
    have kept := (Analysis.clean_expr declared e a (Analysis.clean_arms declared cases _ clean)).1
    have test (t : Table) := met.placed met.agrees rfl e t .wanted
    simp only [Analysis.stmt, stmtStops, kept, Stmt.definesFunction, Bool.or_false] at clean ⊢
    obtain ⟨tried, begun⟩ := met.switched e cases none
    obtain ⟨behind, placed⟩ := passed_arms (expr e b).1 (switched e cases none b).finish cases
      tried rfl (switched_labels e cases none b) begun clean
    rw [stmt_switched]
    exact .of_met (behind.of_same rfl rfl) fun _ => List.forall_mem_append.mpr
      ⟨List.forall_mem_cons.mpr ⟨test _, placed _ _⟩, nofun⟩
  | .switch e cases (some fallback) span, here, around, ps, a, b, _, met, clean => by
    have between := Analysis.clean_block declared fallback _ clean
    have kept := (Analysis.clean_expr declared e a (Analysis.clean_arms declared cases _ between)).1
    have test (t : Table) := met.placed met.agrees rfl e t .wanted
    simp only [Analysis.stmt, stmtStops, kept, Stmt.definesFunction] at between clean ⊢
    obtain ⟨tried, begun⟩ := met.switched e cases (some fallback)
    obtain ⟨middle, placed⟩ := passed_arms (expr e b).1 (switched e cases (some fallback) b).finish
      cases tried rfl (switched_labels e cases (some fallback) b) begun between
    have last : Met Counts (here :: around) (ps.behind (armsDefineFunction cases))
        (Analysis.arms declared cases a) (fallbackBegun e cases fallback b) :=
      middle.of_same rfl rfl
    obtain ⟨behind, second⟩ := passed_block fallback clean _ last
    rw [stmt_switched, ← Parameters.behind_behind]
    exact .of_met (behind.of_same rfl rfl) fun _ => List.forall_mem_append.mpr
      ⟨List.forall_mem_cons.mpr ⟨test _, placed _ _⟩, second _⟩
  | .giveBack value span, here, around, ps, a, b, _, met, clean => by
    have kept := Analysis.clean_optional declared clean
    simp only [Analysis.stmt, kept]
    exact .of_met (met.alike (straight_giveBack value b).alike) fun _ =>
      met.placed_optional met.agrees rfl .wanted value
  | .print args span, here, around, ps, a, b, _, met, clean => by
    have kept := (Analysis.clean_exprs declared args a clean).1
    simp only [Analysis.stmt, kept]
    exact .of_met (met.alike (straight_print args b).alike) fun _ => placed_all declared args met
  | .evaluate e span, here, around, ps, a, b, _, met, clean => by
    have kept := (Analysis.clean_expr declared e a clean).1
    simp only [Analysis.stmt, kept]
    exact .of_met (met.alike (straight_effect e b).alike) fun _ =>
      List.forall_mem_singleton.mpr (met.placed met.agrees rfl e _ .dropped)
  | .leave span, here, around, ps, a, b, _, met, clean =>
    .of_met (met.alike (straight_leave b).alike) fun _ => nofun
  | .inclusion .., here, around, ps, a, b, _, met, clean => .of_met met fun _ => nofun
termination_by structural s => s

theorem passed_block : (body : Block) → {here : List Symbol} → {around : Scopes} →
    {ps : Parameters} → {a : Analysis} → (Analysis.block declared body a).errors = [] →
    Walked Counts declared body (here :: around) ps a
  | ⟨body, _⟩, here, around, ps, a, clean => fun b met => by
    have walked := passed_stmts body (fun outermost => absurd outermost (List.cons_ne_nil _ _))
      met.enter clean
    obtain ⟨scope, -, behind⟩ := walked.ends
    exact ⟨met.exit behind (ps.around_behind _), walked.placed⟩
termination_by structural body => body

theorem passed_within : (body : Block) → {here scope : List Symbol} → {around : Scopes} →
    {ps : Parameters} → {a : Analysis} → {b : Builder} →
    Met Counts (scope :: here :: around) ps a b → (Analysis.within declared body a).errors = [] →
    Passed Counts scope (here :: around) (blockStops declared body ps a · b)
      (ps.behind body.definesFunction) (Analysis.within declared body a) (block body b)
  | ⟨body, _⟩, _, _, _, _, _, _, met, clean =>
    passed_stmts body nofun met clean
termination_by structural body => body

theorem passed_stmts : (body : List Stmt) → {here : List Symbol} → {around : Scopes} →
    {ps : Parameters} → {a : Analysis} → {b : Builder} →
    (around = [] → ∀ s ∈ body, ∀ entry ∈ s.enumerators, Counts entry.1.enumValue entry.2) →
    Met Counts (here :: around) ps a b → (Analysis.stmts declared body a).errors = [] →
    Passed Counts here around (stmtsStops declared body ps a · b)
      (ps.behind (bodyDefinesFunction body)) (Analysis.stmts declared body a) (stmts body b)
  | [], _, _, _, _, _, _, met, _ => .of_met met fun _ => nofun
  | s :: others, here, around, ps, a, b, counts, met, clean => by
    have first := passed_stmt s (fun outermost => counts outermost s (.head _)) met
      (Analysis.clean_stmts declared others _ clean)
    obtain ⟨scope, longer, between⟩ := first.ends
    have rest := passed_stmts others (fun outermost t listed =>
      counts outermost t (.tail _ listed)) between clean
    obtain ⟨last, further, behind⟩ := rest.ends
    refine ⟨⟨last, longer.trans further, ?_⟩, fun _ =>
      List.forall_mem_append.mpr ⟨first.placed _, rest.placed _⟩⟩
    rw [bodyDefinesFunction, ← Parameters.behind_behind]
    exact behind
termination_by structural body => body

theorem passed_arms (subject : Operand) (finish : Label) : (cases : List Case) →
    {here : List Symbol} → {around : Scopes} → {tested ps : Parameters} → {a : Analysis} →
    {c : Builder} → {labels : List Label} → {d : Builder} →
    Agrees Counts (here :: around) tested c → ps.around = tested.around →
    labels.length = cases.length → Met Counts (here :: around) ps a d →
    (Analysis.arms declared cases a).errors = [] →
    Met Counts (here :: around) (ps.behind (armsDefineFunction cases))
        (Analysis.arms declared cases a) (arms finish labels cases d) ∧
      ∀ ty k, ∀ x ∈ armsStops declared subject finish tested cases ty ps a k c labels d,
        x.Placed Counts
  | [], _, _, _, _, _, _, _, _, _, _, _, met, _ => ⟨met, fun _ _ => nofun⟩
  | ⟨value, body, _⟩ :: others, here, around, tested, ps, a, c, l :: labels, d, agrees, same, sized,
      met, clean => by
    have before := Analysis.clean_arms declared others _ clean
    have kept :=
      (Analysis.clean_expr declared value a (Analysis.clean_block declared body _ before)).1
    have test (t : Table) := met.placed agrees same.symm value t .wanted
    simp only [Analysis.arms, armsStops, kept] at before clean ⊢
    have begun : Met Counts (here :: around) ps a (d.emit (.label l)) := met.of_same rfl rfl
    obtain ⟨middle, first⟩ := passed_block body before _ begun
    have next : Met Counts (here :: around) (ps.behind body.definesFunction)
        (Analysis.block declared body a) ((block body (d.emit (.label l))).emit (.jump finish)) :=
      middle.of_same rfl rfl
    have tried := agrees.alike ((straight_expr value c).alike.newLabel.emit
      (.jumpIfEqual subject (expr value c).1 (expr value c).2.newLabel.1))
    obtain ⟨behind, rest⟩ := passed_arms subject finish others tried
      ((ps.around_behind _).trans same) (Nat.succ.inj sized) next clean
    rw [armsDefineFunction, ← Parameters.behind_behind]
    exact ⟨behind, fun _ _ => List.forall_mem_append.mpr
      ⟨List.forall_mem_cons.mpr ⟨test _, first _⟩, rest _ _⟩⟩
termination_by structural cases => cases

end

end

/-- No two enumeration values of a program have the same name. -/
theorem distinct_enumerators (declared : String → Bool) {body : List Stmt}
    (met : Met (fun _ _ => True) [here] ps a b)
    (clean : (Analysis.stmts declared body a).errors = []) :
    ((body.flatMap Stmt.enumerators).map (·.1.name)).Nodup ∧
      ∀ entry ∈ body.flatMap Stmt.enumerators, ∀ s ∈ here, s.name ≠ entry.1.name := by
  induction body generalizing here ps a b with
  | nil => exact ⟨.nil, nofun⟩
  | cons s others ih =>
    have before := Analysis.clean_stmts declared others _ clean
    obtain ⟨scope, longer, between⟩ :=
      (passed_stmt _ declared s (fun _ _ _ => trivial) met before).ends
    obtain ⟨distinct, fresh⟩ := ih between clean
    have own : (s.enumerators.map (·.1.name)).Nodup ∧ ∀ entry ∈ s.enumerators,
        entry.1.enumValue ∈ scope ∧ ∀ u ∈ here, u.name ≠ entry.1.name := by
      cases s with
      | enumeration name values valuesSpan span =>
        obtain ⟨-, apart, new, tidy⟩ := tidy_enumeration met.tidy before
        have same := between.tidy.shows.scopes.symm.trans tidy.shows.scopes
        obtain rfl := (List.cons.inj same).1
        refine ⟨?_, fun entry listed => ?_⟩
        · have names : values.zipIdx.map (·.1.name) = values.map Identifier.name := by
            conv_rhs => rw [← List.zipIdx_map_fst 0 values, List.map_map]
            rfl
          exact names ▸ apart
        · have known : entry.1 ∈ values := List.fst_mem_of_mem_zipIdx listed
          exact ⟨List.mem_append_right _ (.tail _ (List.mem_map_of_mem known)), new _ known⟩
      | _ => exact ⟨.nil, nofun⟩
    rw [List.flatMap_cons, List.map_append, List.nodup_append]
    refine ⟨⟨own.1, distinct, ?_⟩, List.forall_mem_append.mpr ⟨fun entry listed =>
      (own.2 entry listed).2, fun entry listed u member =>
        fresh entry listed u (longer.subset member)⟩⟩
    intro _ first _ second
    obtain ⟨entry, listed, rfl⟩ := List.mem_map.mp first
    obtain ⟨later, after, rfl⟩ := List.mem_map.mp second
    exact fresh later after entry.1.enumValue (own.2 entry listed).1

end Lowering

namespace Read

/-- The name is that of a parameter around, which lowering has forgotten, and of an enumeration
value, which the parameter hides. -/
def Forgotten (x : Read) : Prop :=
  x.name.name ∈ x.params.around ∧ x.name.name ∉ x.params.known ∧
    ∃ v ∈ x.table.scopes.globals, v.isEnumValue ∧ v.name = x.name.name

instance (x : Read) : Decidable x.Forgotten :=
  inferInstanceAs (Decidable (x.name.name ∈ x.params.around ∧ x.name.name ∉ x.params.known ∧
    ∃ v ∈ x.table.scopes.globals, v.isEnumValue ∧ v.name = x.name.name))

/-- What the name stands for decides on its operand. -/
def Faithful (p : Program) (x : Read) : Prop :=
  ∃ s, x.table.lookup x.name.name = some s ∧
    if s.isEnumValue then ∃ i, p.Counts s i ∧ x.operand = intOperand i
    else x.operand = .variable x.name.name

/-- The name stands for a variable and is taken for an enumeration value. -/
def Mistaken (p : Program) (x : Read) : Prop :=
  ∃ s v i, x.table.lookup x.name.name = some s ∧ s.isVariable ∧ v.name = x.name.name ∧
    p.Counts v i ∧ x.operand = intOperand i

/-- What a name is lowered to, where the analyzer and lowering agree. -/
theorem Placed.resolved {p : Program} {x : Read} (placed : x.Placed p.Counts) {s : Symbol}
    (found : x.table.lookup x.name.name = some s) (plain : s.isFunction = false) :
    if x.Forgotten then x.Mistaken p else x.Faithful p := by
  obtain ⟨scopes, tidy, agrees⟩ := placed
  have seen : s ∈ scopes.visible x.name.name := by
    refine List.mem_of_head? ?_
    rw [tidy.lookup_eq, found, Option.map_some, Symbol.completed_of_plain plain]
  have globals {v : Symbol} (value : v.isEnumValue) :
      v ∈ scopes.globals ↔ v ∈ x.table.scopes.globals := by
    rw [← tidy.shows.scopes, Table.mem_globals_settled_iff value]
  cases value : s.isEnumValue with
  | true =>
    -- No parameter has the name, or it would hide the value.
    obtain ⟨global, free⟩ := tidy.names.global_of_visible seen value
    have named := Scopes.name_of_visible seen
    obtain ⟨i, counts⟩ := Option.isSome_iff_exists.mp (agrees.numbered.complete s global value)
    rw [named] at counts
    obtain ⟨v, member, also, same, counted⟩ := agrees.numbered.counted _ i counts
    obtain rfl := tidy.names.single v member also s global (named.trans same.symm)
    rw [if_neg fun forgotten => free forgotten.1]
    refine ⟨s, found, ?_⟩
    rw [if_pos value]
    exact ⟨i, counted, agrees.operand_of_some (fun known => free (agrees.among _ known)) counts⟩
  | false =>
    by_cases known : x.name.name ∈ x.params.known
    · rw [if_neg fun forgotten => forgotten.2.1 known]
      refine ⟨s, found, ?_⟩
      rw [if_neg (by simp [value])]
      exact agrees.operand_of_known known
    cases counts : x.before.ordinals.lookup x.name.name with
    | none =>
      rw [if_neg]
      · refine ⟨s, found, ?_⟩
        rw [if_neg (by simp [value])]
        exact nameOperand_of_none ((agrees.ordinal?_eq known).trans counts)
      · rintro ⟨-, -, v, member, also, same⟩
        have some := agrees.numbered.complete v ((globals also).mpr member) also
        rw [same, counts] at some
        exact nomatch some
    | some i =>
      -- The name is that of a value that something hides, and lowering does not know of it.
      obtain ⟨v, member, also, same, counted⟩ := agrees.numbered.counted _ i counts
      obtain ⟨isVariable, around⟩ := tidy.names.hides seen value plain member also same
      rw [if_pos ⟨around, known, v, (globals also).mp member, also, same⟩]
      exact ⟨s, v, i, found, isVariable, same, counted, agrees.operand_of_some known counts⟩

end Read

namespace Program

theorem met_outermost (Counts : Symbol → Nat → Prop) : Met Counts [[]] .none .empty .empty :=
  ⟨.outermost, .empty, rfl, nofun⟩

/-- Without complaints, every name that is read stands for something, which decides on its operand
unless it is forgotten. -/
theorem resolved_reads {p : Program} (clean : (analyze p).errors = []) (typed : typeCheck p = [])
    {x : Read} (member : x ∈ p.reads) :
    ∃ s, x.table.lookup x.name.name = some s ∧ s.isFunction = false ∧
      if x.Forgotten then x.Mistaken p else x.Faithful p := by
  have counted (s : Stmt) (listed : s ∈ p.body) (entry : Identifier × Nat)
      (value : entry ∈ s.enumerators) : p.Counts entry.1.enumValue entry.2 :=
    ⟨entry.1, List.mem_flatMap.mpr ⟨s, listed, value⟩, rfl⟩
  have passed := passed_stmts p.Counts _ p.body (fun _ => counted) (met_outermost p.Counts) clean
  obtain ⟨v, visited, same, read⟩ := exists_visit member
  obtain ⟨s, found, plain⟩ := found_of_reads clean typed visited read
  rw [same] at found
  obtain ⟨stop, stops, here⟩ := List.mem_flatMap.mp member
  exact ⟨s, found, plain,
    (placed_reads (passed.placed .empty stop stops) x here).resolved found plain⟩

/-- Without complaints, a name that stands for an enumeration value is lowered to its ordinal, and
any other one to a variable, unless lowering has forgotten the parameter of that name. Then a
variable is taken for the enumeration value that it hides. -/
theorem reads_by_scope {p : Program} (clean : (analyze p).errors = []) (typed : typeCheck p = []) :
    (p.reads.map Read.name).Perm ((p.statements.flatMap Stmt.expressions).flatMap Expr.reads) ∧
      (p.enumerators.map (·.1.name)).Nodup ∧
      ∀ x ∈ p.reads, x.before.code.toList <+: Lowering.program p ∧
        if x.Forgotten then x.Mistaken p else x.Faithful p := by
  refine ⟨p.reads_perm, (distinct_enumerators _ (met_outermost _) clean).1, fun x member =>
    ⟨written_reads member, ?_⟩⟩
  obtain ⟨_, -, -, resolved⟩ := resolved_reads clean typed member
  exact resolved

/-- A function in a function, which has a parameter with the name of an enumeration value. -/
def shadowingProgram (span : Span) : Program :=
  let give (name : String) : Stmt := .giveBack (some (.symbol ⟨name, span⟩)) span
  ⟨[.enumeration "Color" [⟨"RED", span⟩] span span,
    .function .int "f" [⟨.int, "RED", span⟩]
      ⟨[.branch (.bool true span) ⟨[give "RED"], span⟩ none span,
        .function .void "g" [] ⟨[], span⟩ span, give "RED"], span⟩ span,
    .main ⟨[.print [.symbol ⟨"RED", span⟩] span], span⟩ span], span⟩

/-- The first read of the shadowing program is that of a parameter, the second one that of the same
parameter, forgotten, and the last one that of the enumeration value. -/
theorem shadowing_reads :
    (shadowingProgram default).reads.map (fun x => decide x.Forgotten) = [false, true, false] ∧
      ∀ x ∈ (shadowingProgram default).reads,
        if x.Forgotten then x.Mistaken (shadowingProgram default)
        else x.Faithful (shadowingProgram default) :=
  ⟨by decide +kernel, fun x member =>
    ((reads_by_scope (by decide +kernel) (by decide +kernel)).2.2 x member).2⟩

/-- Nothing is wrong with the names and types of the shadowing program, but a read of a parameter is
lowered to a constant. -/
theorem shadowing_misread :
    (analyze (shadowingProgram default)).errors = [] ∧ typeCheck (shadowingProgram default) = [] ∧
      ¬∀ x ∈ (shadowingProgram default).reads, x.Faithful (shadowingProgram default) := by
  refine ⟨by decide +kernel, by decide +kernel, fun faithful => ?_⟩
  obtain ⟨x, member, plain, constant⟩ : ∃ x ∈ (shadowingProgram default).reads,
      (∀ s ∈ x.table.lookup x.name.name, s.isEnumValue = false) ∧
        x.operand ≠ .variable x.name.name := by
    decide +kernel
  obtain ⟨s, found, lowered⟩ := faithful x member
  rw [if_neg (by simp [plain s found])] at lowered
  exact constant lowered

end Program
end Curly
