import Curly.Proofs.Grammar.Declared
import Curly.Proofs.Typing.Placement

/-! Which function a return belongs to. Every return is judged by what the innermost function around
it is to return, and a definition that is to return a value is complained about just if no value is
returned in its body, apart from the functions in it. -/
namespace Curly

namespace Enclosure

/-- What the type checker knows of a function as its body begins. -/
def begun? : Enclosure → Option Enclosing
  | .function ty name => some ⟨name, ty, false, false⟩
  | .main => some ⟨"main", .int, true, false⟩
  | .loop | .arm | .block | .branch => none

end Enclosure

/-- The innermost function around a statement. -/
def functionAround? (around : List Enclosure) : Option Enclosing :=
  around.findSome? Enclosure.begun?

/-- What may be returned from a function: nothing, if that is what it is to return, and otherwise a
value that fits. -/
def Enclosing.Takes (f : Enclosing) : Option Ty → Prop
  | none => f.ty = .void
  | some found => f.ty ≠ .void ∧ f.ty.fits found

namespace Placed

def givesValue (x : Placed) : Bool :=
  match x.stmt with
  | .giveBack (some _) _ => true
  | _ => false

theorem givesValue_iff {x : Placed} :
    x.givesValue ↔ ∃ e span, x.stmt = .giveBack (some e) span := by
  unfold givesValue
  split <;> simp_all

/-- A return of a value with no function around it. -/
def ReturnsOut (x : Placed) : Prop :=
  x.givesValue ∧ ∀ y ∈ x.around, ¬y.isFunction

instance (x : Placed) : Decidable x.ReturnsOut :=
  inferInstanceAs (Decidable (_ ∧ ∀ y ∈ x.around, ¬y.isFunction))

end Placed

/-- No function is around. -/
def outside (around : List Enclosure) : Bool :=
  around.all (!·.isFunction)

@[simp] theorem outside_cons (e : Enclosure) (around : List Enclosure) :
    outside (e :: around) = (!e.isFunction && outside around) := rfl

theorem Placed.returnsOut_iff (x : Placed) :
    x.ReturnsOut ↔ (x.givesValue && outside x.around) := by
  simp [ReturnsOut, outside]

/-- The complaint about a definition that is to return a value and returns none. -/
def Stmt.missingReturn? : Stmt → Option TypeError
  | .function ty name _ body span =>
    if ty ≠ .void ∧ ∀ x ∈ body.placed [], ¬x.ReturnsOut then
      some ⟨.missingReturn name ty, span.start⟩
    else none
  | _ => none

/-- The complaint about a return of a value of the given type, or of none, by what the innermost
function around it is to return. -/
def returnComplaint? (around : List Enclosure) (found : Option Ty) (position : Position) :
    Option TypeError :=
  match functionAround? around with
  | none => some ⟨.strayReturn, position⟩
  | some f => (Checker.returnCause f found).map (⟨·, position⟩)

/-- A statement as the type checker comes to it, with the table for the names in it. -/
structure Reached extends Placed where
  table : Table

namespace Reached

/-- The complaint about the statement if it is a return. -/
def returnFault? (x : Reached) : Option TypeError :=
  match x.stmt with
  | .giveBack value span =>
    returnComplaint? x.around (value.map fun e => (Typing.valueOf x.table e).ty) span.start
  | _ => none

/-- There is none just if the function takes what is returned. -/
theorem returnFault?_eq_none_iff {x : Reached} {value : Option Expr} {span : Span}
    (returns : x.stmt = .giveBack value span) :
    x.returnFault? = none ↔ ∃ f, functionAround? x.around = some f ∧
      f.Takes (value.map fun e => (Typing.valueOf x.table e).ty) := by
  unfold returnFault?
  rw [returns]
  dsimp only
  unfold returnComplaint?
  cases functionAround? x.around with
  | none => simp
  | some f =>
    cases value with
    | none => simp [Checker.returnCause, Enclosing.Takes]
    | some e =>
      by_cases nothing : f.ty = .void <;> simp [Checker.returnCause, Enclosing.Takes, nothing]

end Reached

mutual

/-- The statements inside a statement, as the type checker comes to them. -/
def Stmt.reached : Stmt → (around : List Enclosure) → Checker → List Reached
  | .function ty name ps body span, around, c =>
    body.reached (.function ty name :: around) (Checker.begin ⟨name, ty, false, false⟩
      (Checker.params ps (Checker.declareFunction name ty (signature ps) span.start c).enter))
  | .main body span, around, c =>
    body.reached (.main :: around) (Checker.begin ⟨"main", .int, true, false⟩
      (Checker.declareFunction "main" .int [] span.start c).enter)
  | .block body, around, c => body.reached (.block :: around) c.enter
  | .branch e yes no span, around, c =>
    let c := Checker.condition "if" span.start e c
    yes.reached (.branch :: around) c.enter ++
      match no with
      | none => []
      | some no => no.reached (.branch :: around) (Checker.block yes c).enter
  | .whileLoop e body span, around, c =>
    body.reached (.loop :: around) (Checker.condition "while" span.start e c).deeper.enter
  | .doLoop body _ _, around, c => body.reached (.loop :: around) c.deeper.enter
  | .forLoop initial e update body span, around, c =>
    let begun := match initial with
      | none => c.enter
      | some initial => Checker.stmt initial c.enter
    (match initial with
      | none => []
      | some initial => ⟨⟨initial, around⟩, c.enter.table⟩ :: initial.reached around c.enter) ++
      body.reached (.loop :: around) (Checker.heads span.start e update begun).deeper.enter
  | .switch e cases fallback _, around, c =>
    let (ty, c) := Checker.subject e c
    armsReached cases ty around c.deeper ++
      match fallback with
      | none => []
      | some fallback =>
        fallback.reached (.arm :: around) (Checker.arms ty cases c.deeper).enter
  | .variable .., _, _ | .prototype .., _, _ | .enumeration .., _, _ | .giveBack .., _, _
  | .leave _, _, _ | .print .., _, _ | .evaluate .., _, _ | .inclusion .., _, _ => []
termination_by structural s => s

def Block.reached : Block → (around : List Enclosure) → Checker → List Reached
  | ⟨body, _⟩, around, c => bodyReached body around c
termination_by structural body => body

def bodyReached : List Stmt → (around : List Enclosure) → Checker → List Reached
  | [], _, _ => []
  | s :: others, around, c =>
    ⟨⟨s, around⟩, c.table⟩ :: s.reached around c ++ bodyReached others around (Checker.stmt s c)
termination_by structural body => body

def armsReached : List Case → Ty → (around : List Enclosure) → Checker → List Reached
  | [], _, _, _ => []
  | ⟨value, body, _⟩ :: others, ty, around, c =>
    let c := Checker.caseValue ty value c
    body.reached (.arm :: around) c.enter ++ armsReached others ty around (Checker.block body c)
termination_by structural cases => cases

end

def Program.reached (p : Program) : List Reached :=
  bodyReached p.body [] .empty

mutual

theorem placed_reached : (s : Stmt) → (around : List Enclosure) → (c : Checker) →
    (s.reached around c).map Reached.toPlaced = s.placed around
  | .function _ _ _ body _, around, c => placed_blockReached body _ _
  | .main body _, around, c | .block body, around, c | .whileLoop _ body _, around, c
  | .doLoop body _ _, around, c => placed_blockReached body _ _
  | .branch _ yes none _, around, c => by
    simp [Stmt.reached, Stmt.placed, placed_blockReached yes]
  | .branch _ yes (some no) _, around, c => by
    simp [Stmt.reached, Stmt.placed, placed_blockReached yes, placed_blockReached no]
  | .forLoop none _ _ body _, around, c => placed_blockReached body _ _
  | .forLoop (some initial) _ _ body _, around, c => by
    simp [Stmt.reached, Stmt.placed, placed_reached initial, placed_blockReached body]
  | .switch _ cases none _, around, c => by
    simp [Stmt.reached, Stmt.placed, placed_armsReached cases]
  | .switch _ cases (some fallback) _, around, c => by
    simp [Stmt.reached, Stmt.placed, placed_armsReached cases, placed_blockReached fallback]
  | .variable .., _, _ | .prototype .., _, _ | .enumeration .., _, _ | .giveBack .., _, _
  | .leave _, _, _ | .print .., _, _ | .evaluate .., _, _ | .inclusion .., _, _ => rfl
termination_by structural s => s

theorem placed_blockReached : (body : Block) → (around : List Enclosure) → (c : Checker) →
    (body.reached around c).map Reached.toPlaced = body.placed around
  | ⟨body, _⟩, around, c => placed_bodyReached body around c
termination_by structural body => body

theorem placed_bodyReached : (body : List Stmt) → (around : List Enclosure) → (c : Checker) →
    (bodyReached body around c).map Reached.toPlaced = bodyPlaced body around
  | [], _, _ => rfl
  | s :: others, around, c => by
    simp [bodyReached, bodyPlaced, placed_reached s, placed_bodyReached others]
termination_by structural body => body

theorem placed_armsReached : (cases : List Case) → (ty : Ty) → (around : List Enclosure) →
    (c : Checker) → (armsReached cases ty around c).map Reached.toPlaced = armsPlaced cases around
  | [], _, _, _ => rfl
  | ⟨_, body, _⟩ :: others, ty, around, c => by
    simp [armsReached, armsPlaced, placed_blockReached body, placed_armsReached others]
termination_by structural cases => cases

end

/-- Some statement returns a value with no function around it. -/
def anyReturnsOut (placed : List Placed) : Bool :=
  placed.any fun x => x.givesValue && outside x.around

@[simp] theorem anyReturnsOut_nil : anyReturnsOut [] = false := rfl

@[simp] theorem anyReturnsOut_cons (x : Placed) (others : List Placed) :
    anyReturnsOut (x :: others) =
      (x.givesValue && outside x.around || anyReturnsOut others) := rfl

@[simp] theorem anyReturnsOut_append (first second : List Placed) :
    anyReturnsOut (first ++ second) = (anyReturnsOut first || anyReturnsOut second) :=
  List.any_append

mutual

/-- What the type checker counts as a return of a value is one, if no function is around. -/
theorem returnsOut_stmt : (s : Stmt) → (around : List Enclosure) →
    anyReturnsOut (⟨s, around⟩ :: s.placed around) =
      (s.returnsValue && outside around)
  | .function _ _ _ body _, around => by
    simp [Stmt.placed, Stmt.returnsValue, Placed.givesValue, returnsOut_block body,
      Enclosure.isFunction]
  | .main body _, around => by
    simp [Stmt.placed, Stmt.returnsValue, Placed.givesValue, returnsOut_block body,
      Enclosure.isFunction]
  | .block body, around | .whileLoop _ body _, around | .doLoop body _ _, around => by
    simp [Stmt.placed, Stmt.returnsValue, Placed.givesValue, returnsOut_block body,
      Enclosure.isFunction]
  | .branch _ yes none _, around => by
    simp [Stmt.placed, Stmt.returnsValue, Placed.givesValue, returnsOut_block yes,
      Enclosure.isFunction]
  | .branch _ yes (some no) _, around => by
    simp [Stmt.placed, Stmt.returnsValue, Placed.givesValue, returnsOut_block yes,
      returnsOut_block no, Enclosure.isFunction, Bool.and_or_distrib_right]
  | .forLoop none _ _ body _, around => by
    simp [Stmt.placed, Stmt.returnsValue, Placed.givesValue, returnsOut_block body,
      Enclosure.isFunction]
  | .forLoop (some initial) e update body span, around => by
    have first := returnsOut_stmt initial around
    have other : Placed.givesValue ⟨.forLoop (some initial) e update body span, around⟩ = false :=
      rfl
    rw [anyReturnsOut_cons, other, Bool.false_and, Bool.false_or, Stmt.placed, anyReturnsOut_append,
      first, returnsOut_block body, outside_cons, Stmt.returnsValue, Bool.and_or_distrib_right]
    rfl
  | .switch _ cases none _, around => by
    simp [Stmt.placed, Stmt.returnsValue, Placed.givesValue, returnsOut_arms cases]
  | .switch _ cases (some fallback) _, around => by
    simp [Stmt.placed, Stmt.returnsValue, Placed.givesValue, returnsOut_arms cases,
      returnsOut_block fallback, Enclosure.isFunction, Bool.and_or_distrib_right]
  | .giveBack value _, around => by
    cases value <;> simp [Stmt.placed, Stmt.returnsValue, Placed.givesValue]
  | .variable .., _ | .prototype .., _ | .enumeration .., _ | .leave _, _ | .print .., _
  | .evaluate .., _ | .inclusion .., _ => rfl
termination_by structural s => s

theorem returnsOut_block : (body : Block) → (around : List Enclosure) →
    anyReturnsOut (body.placed around) = (body.returnsValue && outside around)
  | ⟨body, _⟩, around => returnsOut_body body around
termination_by structural body => body

theorem returnsOut_body : (body : List Stmt) → (around : List Enclosure) →
    anyReturnsOut (bodyPlaced body around) = (bodyReturnsValue body && outside around)
  | [], _ => rfl
  | s :: others, around => by
    rw [bodyPlaced, anyReturnsOut_append, returnsOut_stmt s, returnsOut_body others,
      bodyReturnsValue, Bool.and_or_distrib_right]
termination_by structural body => body

theorem returnsOut_arms : (cases : List Case) → (around : List Enclosure) →
    anyReturnsOut (armsPlaced cases around) = (armsReturnValue cases && outside around)
  | [], _ => rfl
  | ⟨_, body, _⟩ :: others, around => by
    simp [armsPlaced, armsReturnValue, returnsOut_block body, returnsOut_arms others,
      Enclosure.isFunction, Bool.and_or_distrib_right]
termination_by structural cases => cases

end

/-- A body without a return of a value out of it. -/
theorem none_returnsOut_iff (body : Block) :
    (∀ x ∈ body.placed [], ¬x.ReturnsOut) ↔ body.returnsValue = false := by
  have same := returnsOut_block body []
  rw [show outside [] = true from rfl, Bool.and_true] at same
  rw [← same, anyReturnsOut, List.any_eq_false]
  simp only [Placed.returnsOut_iff]

namespace Checker

/-- The type checker knows the innermost function around. -/
def Inside (around : List Enclosure) (c : Checker) : Prop :=
  ∃ returns, c.function = (functionAround? around).map (·.noting returns)

namespace Inside

variable {around : List Enclosure} {c d : Checker} {returns : Bool}

theorem outermost : Inside [] .empty :=
  ⟨false, rfl⟩

theorem after (inside : Inside around c) (kept : Around returns c d) : Inside around d := by
  obtain ⟨before, known⟩ := inside
  refine ⟨before || returns, ?_⟩
  rw [kept.function, known, Option.map_map]
  congr 1
  exact funext fun f => f.noting_noting before returns

theorem of_same (inside : Inside around c) (same : d.function = c.function) : Inside around d := by
  obtain ⟨returns, known⟩ := inside
  exact ⟨returns, same.trans known⟩

/-- Into a body of the same function. -/
theorem into {e : Enclosure} (plain : e.begun? = none) (inside : Inside around c) :
    Inside (e :: around) c := by
  obtain ⟨returns, known⟩ := inside
  refine ⟨returns, ?_⟩
  rw [known, functionAround?, functionAround?, List.findSome?_cons, plain]

theorem begin {e : Enclosure} {f : Enclosing} (begun : e.begun? = some f) (c : Checker) :
    Inside (e :: around) (begin f c) := by
  refine ⟨false, ?_⟩
  rw [functionAround?, List.findSome?_cons, begun]
  simp [Checker.begin]

end Inside

/-- From one state to a later one, the returns among some statements are judged and the definitions
among them that never return a value are complained about. -/
structure Judges (reached : List Reached) (c d : Checker) : Prop where
  returns : Complains .returnType (reached.filterMap Reached.returnFault?) c d
  missing : (d.complaints .missingReturn).Perm
    (c.complaints .missingReturn ++ (reached.map (·.stmt)).filterMap Stmt.missingReturn?)

namespace Judges

variable {first second : List Reached} {c d e : Checker}

/-- Nothing is said about returns. -/
theorem quiet (none : ∀ k : TypeError.Kind, k.ofExpression = false → k ≠ .variable →
    k ≠ .condition → k ≠ .strayBreak → Complains k [] c d) : Judges [] c d := by
  constructor
  · exact none .returnType rfl nofun nofun nofun
  · exact .of_eq (none .missingReturn rfl nofun nofun nofun)

theorem refl (c : Checker) : Judges [] c c :=
  quiet fun k _ _ _ _ => .refl k c

theorem trans (before : Judges first c d) (behind : Judges second d e) :
    Judges (first ++ second) c e := by
  constructor
  · rw [List.filterMap_append]
    exact before.returns.trans behind.returns
  · rw [List.map_append, List.filterMap_append, ← List.append_assoc]
    exact behind.missing.trans (before.missing.append_right _)

theorem behind (quiet : Judges [] c d) (judges : Judges first d e) : Judges first c e :=
  quiet.trans judges

theorem before (judges : Judges first c d) (quiet : Judges [] d e) : Judges first c e :=
  first.append_nil ▸ judges.trans quiet

theorem of_same (judges : Judges first c d) (same : e.errors = d.errors) : Judges first c e :=
  judges.before (quiet fun k _ _ _ _ => (Complains.refl k d).of_same same)

/-- Out of a scope. -/
theorem scope (judges : Judges first c.enter d) : Judges first c d.exit :=
  ⟨judges.returns, judges.missing⟩

/-- Out of a loop or a switch. -/
theorem shallower (judges : Judges first c.deeper d) : Judges first c d.shallower :=
  ⟨judges.returns, judges.missing⟩

/-- A statement that is neither a return nor a definition adds nothing to those in it. -/
theorem around {x : Reached} (plain : x.returnFault? = none) (other : x.stmt.missingReturn? = none)
    (inside : Judges first c d) : Judges (x :: first) c d := by
  constructor
  · rw [List.filterMap_cons_none plain]
    exact inside.returns
  · rw [List.map_cons, List.filterMap_cons_none other]
    exact inside.missing

end Judges

theorem returnCause_noting (f : Enclosing) (returns : Bool) (found : Option Ty) :
    returnCause (f.noting returns) found = returnCause f found := by
  cases found <;> rfl

theorem Complains.own {k : TypeError.Kind} {c d : Checker} (quiet : Complains k [] c d)
    {cause : TypeError.Cause} (own : cause.kind = k) (position : Position) :
    Complains k [⟨cause, position⟩] c (d.report cause position) := by
  obtain rfl := own
  exact quiet.behind (by simp [Complains, complaints, Checker.report, TypeError.kind])

theorem Complains.ownAny {k : TypeError.Kind} {c d : Checker} (quiet : Complains k [] c d)
    {cause : Option TypeError.Cause} (own : ∀ x ∈ cause, x.kind = k) (position : Position) :
    Complains k (cause.map (TypeError.mk · position)).toList c (d.reportAny cause position) := by
  cases cause with
  | none => exact quiet
  | some cause => exact quiet.own (own cause rfl) position

theorem judges_condition (construct : String) (position : Position) (e : Expr) (c : Checker) :
    Judges [] c (condition construct position e c) :=
  .quiet fun _ other _ own _ => complains_condition other own construct position e c

theorem judges_heads (position : Position) (e update : Option Expr) (c : Checker) :
    Judges [] c (heads position e update c) :=
  .quiet fun _ other _ own _ => complains_heads other own position e update c

theorem judges_subject (e : Expr) (c : Checker) : Judges [] c (subject e c).2 :=
  .quiet fun _ other _ _ _ => complains_subject other e c

theorem judges_caseValue (ty : Ty) (e : Expr) (c : Checker) : Judges [] c (caseValue ty e c) :=
  .quiet fun _ other _ _ _ => complains_caseValue other ty e c

/-- The ruling on a return, behind its value. -/
def judged (found : Option Ty) (position : Position) (c : Checker) : Checker :=
  match c.function with
  | none => c.report .strayReturn position
  | some f =>
    reportAny { c with function := some (f.noting found.isSome) } (returnCause f found) position

theorem complains_judged {around : List Enclosure} {c : Checker} (inside : Inside around c)
    (found : Option Ty) (position : Position) :
    Complains .returnType (returnComplaint? around found position).toList c
      (judged found position c) := by
  obtain ⟨returns, known⟩ := inside
  unfold judged returnComplaint?
  rw [known]
  cases functionAround? around with
  | none => exact (Complains.refl .returnType c).own rfl position
  | some f =>
    have noticed : Complains .returnType [] c
      { c with function := some ((f.noting returns).noting found.isSome) } :=
        (Complains.refl _ c).of_same rfl
    have judged := noticed.ownAny (kind_returnCause (f.noting returns) found) position
    rwa [returnCause_noting] at judged

/-- A return is judged by the innermost function around it. -/
theorem judges_giveBack (value : Option Expr) (span : Span) {around : List Enclosure} {c : Checker}
    (inside : Inside around c) :
    Judges [⟨⟨.giveBack value span, around⟩, c.table⟩] c (giveBack value span.start c) := by
  constructor
  · have single (option : Option TypeError) (x : Reached) (same : x.returnFault? = option) :
        [x].filterMap Reached.returnFault? = option.toList := by cases option <;> simp [same]
    cases value with
    | none =>
      rw [single _ _ rfl]
      exact complains_judged inside none span.start
    | some e =>
      have valued := complains_value (k := .returnType) rfl e c
      rw [single _ _ rfl]
      have within : Inside around (value e c) := inside.of_same rfl
      exact valued.behind (complains_judged within (some _) span.start)
  · exact .of_eq (complains_giveBack (k := .missingReturn) rfl nofun value span.start c)

/-- Behind a body, the complaint about it is due just if no value is returned in it. -/
theorem missingReturn_eq {ty : Ty} {name : String} {ps : List Param} {body : Block} {span : Span}
    {inside : Checker}
    (known : inside.function = some (Enclosing.noting ⟨name, ty, false, false⟩ body.returnsValue)) :
    missingReturn span.start inside = (Stmt.function ty name ps body span).missingReturn? := by
  simp only [missingReturn, known, Stmt.missingReturn?, none_returnsOut_iff]
  cases body.returnsValue <;> by_cases nothing : ty = .void <;> simp [Enclosing.noting, nothing]

/-- The function behind its body, with the note whether it returned a value. -/
theorem function_within (body : Block) {f : Enclosing} (c : Checker) (known : c.function = some f) :
    (within body c).function = some (f.noting body.returnsValue) := by
  obtain ⟨body, span⟩ := body
  have kept : (within ⟨body, span⟩ c).function =
      c.function.map (·.noting (bodyReturnsValue body)) := (around_stmts body c).function
  rw [kept, known]
  rfl

theorem filter_missingReturn (position : Position) (c : Checker) :
    (missingReturn position c).toList.filter (·.kind = .missingReturn) =
      (missingReturn position c).toList := by
  unfold missingReturn
  split
  · rfl
  · split <;> rfl

/-- What comes before the body of a function is no matter of returns. -/
theorem judges_declared (f : Enclosing) (name : String) (ty : Ty) (ps : List Param)
    (position : Position) (c : Checker) : Judges [] c
      (begin f (params ps (declareFunction name ty (signature ps) position c).enter)) := by
  refine (Judges.refl c).of_same ?_
  rw [begin, errors_params, enter, errors_declareFunction]

/-- Behind the body of a definition. The complaint about it comes behind those about what is in
it. -/
theorem Judges.definition {ty : Ty} {name : String} {ps : List Param} {body : Block} {span : Span}
    {around : List Enclosure} {t : Table} {reached : List Reached} {c inside d : Checker}
    (judges : Judges reached c inside)
    (known : inside.function = some (Enclosing.noting ⟨name, ty, false, false⟩ body.returnsValue))
    (same : d.errors = inside.errors ++ (missingReturn span.start inside).toList) :
    Judges (⟨⟨.function ty name ps body span, around⟩, t⟩ :: reached) c d := by
  have own : missingReturn span.start inside =
      (Stmt.function ty name ps body span).missingReturn? := missingReturn_eq known
  constructor
  · rw [List.filterMap_cons_none rfl]
    exact (judges.returns.before (complains_missingReturn (k := .returnType) nofun span.start inside
      inside)).of_same same
  · have behind : d.complaints .missingReturn =
        inside.complaints .missingReturn ++ (missingReturn span.start inside).toList := by
      rw [complaints, same, List.filter_append, filter_missingReturn, complaints]
    -- The definition is reached before what is in its body, but judged behind it.
    have inner := judges.missing.append_right (missingReturn span.start inside).toList
    rw [behind, List.map_cons]
    refine inner.trans ?_
    rw [List.append_assoc]
    apply List.Perm.append_left
    rw [own]
    cases due : (Stmt.function ty name ps body span).missingReturn? with
    | none => simp [due]
    | some complaint =>
      rw [List.filterMap_cons_some due]
      exact List.perm_append_singleton ..

mutual

theorem judges_stmt : (s : Stmt) → (around : List Enclosure) → (c : Checker) → Inside around c →
    Judges (⟨⟨s, around⟩, c.table⟩ :: s.reached around c) c (stmt s c)
  | .variable ty name initial span, _, c, _ => .around rfl rfl
    (.quiet fun _ other own _ _ =>
      complains_variableStatement other own ty name initial span.start c)
  | .prototype .., _, c, _ => .around rfl rfl ((Judges.refl c).of_same (errors_declareFunction ..))
  | .function ty name ps body span, around, c, inside => by
    have begun := judges_declared ⟨name, ty, false, false⟩ name ty ps span.start c
    have within := begun.behind (judges_within body (.function ty name :: around) _ (.begin rfl _))
    exact within.definition (function_within body _ rfl) rfl
  | .main body span, around, c, inside => by
    apply Judges.around rfl rfl
    have begun := judges_declared ⟨"main", .int, true, false⟩ "main" .int [] span.start c
    exact (begun.behind (judges_within body (.main :: around) _ (.begin rfl _))).of_same rfl
  | .enumeration .., _, c, _ => .around rfl rfl ((Judges.refl c).of_same (errors_enumeration ..))
  | .block body, around, c, inside => .around rfl rfl
    (judges_block body (.block :: around) c (inside.into rfl))
  | .branch e yes none span, around, c, inside => by
    apply Judges.around rfl rfl
    have tested := judges_condition "if" span.start e c
    have into := (inside.after (around_condition "if" span.start e c)).into (e := .branch) rfl
    rw [Stmt.reached, List.append_nil]
    exact tested.behind (judges_block yes (.branch :: around) _ into)
  | .branch e yes (some no) span, around, c, inside => by
    apply Judges.around rfl rfl
    have tested := judges_condition "if" span.start e c
    have into := (inside.after (around_condition "if" span.start e c)).into (e := .branch) rfl
    exact tested.behind ((judges_block yes (.branch :: around) _ into).trans
      (judges_block no (.branch :: around) _ (into.after (around_block yes _))))
  | .whileLoop e body span, around, c, inside => by
    apply Judges.around rfl rfl
    have tested := judges_condition "while" span.start e c
    have kept := inside.after (around_condition "while" span.start e c)
    exact tested.behind (judges_deeper body around _ kept)
  | .doLoop body e span, around, c, inside => .around rfl rfl
    ((judges_deeper body around c inside).before (judges_condition "do-while" span.start e _))
  | .forLoop none e update body span, around, c, inside => by
    apply Judges.around rfl rfl
    have headed := judges_heads span.start e update c.enter
    have kept := inside.after ((Around.refl c).enter.behind
      (around_heads span.start e update c.enter))
    exact (headed.behind (judges_deeper body around _ kept)).scope
  | .forLoop (some initial) e update body span, around, c, inside => by
    apply Judges.around rfl rfl
    have begun := judges_stmt initial around c.enter (inside.after (Around.refl c).enter)
    have headed := begun.before (judges_heads span.start e update _)
    have kept := (inside.after (Around.refl c).enter).after ((around_stmt initial c.enter).before
      (around_heads span.start e update _))
    exact (headed.trans (judges_deeper body around _ kept)).scope
  | .switch e cases none _, around, c, inside => by
    apply Judges.around rfl rfl
    have into := (inside.after (around_subject e c)).into (e := .arm) rfl
    have chosen := judges_arms cases (subject e c).1 around (subject e c).2.deeper
      (into.of_same rfl)
    rw [← List.append_nil (armsReached ..)] at chosen
    exact (judges_subject e c).behind chosen.shallower
  | .switch e cases (some fallback) _, around, c, inside => by
    apply Judges.around rfl rfl
    have into := (inside.after (around_subject e c)).into (e := .arm) rfl
    have chosen := judges_arms cases (subject e c).1 around (subject e c).2.deeper
      (into.of_same rfl)
    have passed := Inside.after (c := (subject e c).2.deeper) (into.of_same rfl)
      (around_arms cases (subject e c).1 _)
    have last := judges_block fallback (.arm :: around) _ passed
    exact (judges_subject e c).behind (chosen.trans last).shallower
  | .giveBack value span, around, c, inside => judges_giveBack value span inside
  | .leave span, _, c, _ => .around rfl rfl
    (.quiet fun _ _ _ _ own => complains_leave own span.start c)
  | .print args _, _, c, _ => .around rfl rfl
    (.quiet fun _ other _ _ _ => complains_values other args c)
  | .evaluate e _, _, c, _ => .around rfl rfl
    (.quiet fun _ other _ _ _ => complains_expr other e c)
  | .inclusion .., _, c, _ => .around rfl rfl (.refl c)
termination_by structural s => s

theorem judges_block : (body : Block) → (around : List Enclosure) → (c : Checker) →
    Inside around c → Judges (body.reached around c.enter) c (block body c)
  | ⟨body, _⟩, around, c, inside =>
    (judges_stmts body around c.enter (inside.of_same rfl)).scope
termination_by structural body => body

theorem judges_within : (body : Block) → (around : List Enclosure) → (c : Checker) →
    Inside around c → Judges (body.reached around c) c (within body c)
  | ⟨body, _⟩, around, c, inside => judges_stmts body around c inside
termination_by structural body => body

theorem judges_deeper : (body : Block) → (around : List Enclosure) → (c : Checker) →
    Inside around c →
    Judges (body.reached (.loop :: around) c.deeper.enter) c (block body c.deeper).shallower
  | ⟨body, _⟩, around, c, inside => by
    have into : Inside (.loop :: around) c.deeper.enter := inside.into rfl
    exact (judges_stmts body (.loop :: around) c.deeper.enter into).scope.shallower
termination_by structural body => body

theorem judges_stmts : (body : List Stmt) → (around : List Enclosure) → (c : Checker) →
    Inside around c → Judges (bodyReached body around c) c (stmts body c)
  | [], _, c, _ => .refl c
  | s :: others, around, c, inside =>
    (judges_stmt s around c inside).trans
      (judges_stmts others around _ (inside.after (around_stmt s c)))
termination_by structural body => body

theorem judges_arms : (cases : List Case) → (ty : Ty) → (around : List Enclosure) →
    (c : Checker) → Inside (.arm :: around) c →
    Judges (armsReached cases ty around c) c (arms ty cases c)
  | [], _, _, c, _ => .refl c
  | ⟨value, body, _⟩ :: others, ty, around, c, inside => by
    have valued := inside.after (around_caseValue ty value c)
    exact (judges_caseValue ty value c).behind ((judges_block body _ _ valued).trans
      (judges_arms others ty around _ (valued.after (around_block body _))))
termination_by structural cases => cases

end

end Checker

/-- The type checker comes to every statement. It complains about the definitions that are to return
a value and never do, once each, and about the returns that are in no function, or return what the
innermost function around them does not take. -/
theorem Program.typeCheck_returns (p : Program) :
    p.reached.map Reached.toPlaced = p.placed ∧ p.placed.map Placed.stmt = p.statements ∧
      ((typeCheck p).filter (·.kind = .missingReturn)).Perm
        (p.statements.filterMap Stmt.missingReturn?) ∧
      (typeCheck p).filter (·.kind = .returnType) = p.reached.filterMap Reached.returnFault? ∧
      ∀ x ∈ p.reached, ∀ value span, x.stmt = .giveBack value span →
        (x.returnFault? = none ↔ ∃ f, functionAround? x.around = some f ∧
          f.Takes (value.map fun e => (Typing.valueOf x.table e).ty)) := by
  have placed := placed_bodyReached p.body [] .empty
  have listed := stmt_bodyPlaced p.body []
  have judges := Checker.judges_stmts p.body [] .empty .outermost
  have same : p.reached.map (·.stmt) = p.statements := by
    rw [Program.statements, ← listed, ← placed, List.map_map]
    rfl
  refine ⟨placed, listed, ?_, judges.returns, fun x _ _ _ => x.returnFault?_eq_none_iff⟩
  rw [← same]
  exact judges.missing

/-- A function in one that returns nothing itself, and a return that is in neither. -/
def nesting : String :=
  "int f(int a) \x7b void g(void) \x7b return 1; \x7d if (a > 0) \x7b g(); \x7d \x7d\n" ++
  "return 2;\nmain \x7b while (true) \x7b return 3; \x7d \x7d\n"

/-- The outer function lacks a return, and one of the three returns is taken. -/
theorem nesting_judged : ∃ p, readProgram nesting = .ok p ∧
    (typeCheck p).map (·.cause) = [.returnFromVoid "g", .missingReturn "f" .int, .strayReturn] ∧
    ∃ x ∈ p.reached, ∃ e span, x.stmt = .giveBack (some e) span ∧ x.returnFault? = none ∧
      ∃ f, functionAround? x.around = some f ∧ f.Takes (some (Typing.valueOf x.table e).ty) := by
  have judged : (readProgram nesting).toOption.any fun p => (typeCheck p).map (·.cause) =
      [.returnFromVoid "g", .missingReturn "f" .int, .strayReturn] &&
        p.reached.any fun x => x.givesValue && x.returnFault? = none := by decide +kernel
  obtain ⟨p, read, facts⟩ := exists_of_readProgram judged
  obtain ⟨causes, x, reached, returns, taken⟩ : (typeCheck p).map (·.cause) = _ ∧
      ∃ x ∈ p.reached, x.givesValue ∧ x.returnFault? = none := by simpa using facts
  obtain ⟨e, span, same⟩ := Placed.givesValue_iff.mp returns
  exact ⟨p, read, causes, x, reached, e, span, same, taken,
    (p.typeCheck_returns.2.2.2.2 x reached (some e) span same).mp taken⟩

end Curly
