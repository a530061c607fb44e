import Curly.Proofs.Scope.Occurrences
import Curly.Proofs.Typing.Complaints
import Curly.Proofs.Typing.Kinds

/-! Where statements stand: what is around each one, up to the top level. A break is complained
about just if no loop and no arm of a switch is around it in its own function. -/
namespace Curly

/-- What a statement can stand in. -/
inductive Enclosure where
  | function (ty : Ty) (name : String)
  | main
  | loop
  | arm
  | block
  | branch
deriving DecidableEq, Repr

namespace Enclosure

def isFunction : Enclosure → Bool
  | .function .. | .main => true
  | .loop | .arm | .block | .branch => false

/-- A break leads to its end. -/
def takesBreak : Enclosure → Bool
  | .loop | .arm => true
  | .function .. | .main | .block | .branch => false

end Enclosure

/-- What is around a statement in its own function, or at the top level. -/
def ownEnclosures (around : List Enclosure) : List Enclosure :=
  around.takeWhile (!·.isFunction)

/-- How many loops and arms of switches a break could lead out of. -/
def breakDepth (around : List Enclosure) : Nat :=
  (ownEnclosures around).countP Enclosure.takesBreak

/-- A statement and what is around it, the innermost first. -/
structure Placed where
  stmt : Stmt
  around : List Enclosure

mutual

/-- The statements inside a statement, at every depth. -/
def Stmt.placed : Stmt → (around : List Enclosure) → List Placed
  | .function ty name _ body _, around => body.placed (.function ty name :: around)
  | .main body _, around => body.placed (.main :: around)
  | .block body, around => body.placed (.block :: around)
  | .branch _ yes no _, around =>
    yes.placed (.branch :: around) ++
      match no with
      | none => []
      | some no => no.placed (.branch :: around)
  | .whileLoop _ body _, around | .doLoop body _ _, around => body.placed (.loop :: around)
  | .forLoop initial _ _ body _, around =>
    (match initial with
      | none => []
      | some initial => ⟨initial, around⟩ :: initial.placed around) ++
      body.placed (.loop :: around)
  | .switch _ cases fallback _, around =>
    armsPlaced cases around ++
      match fallback with
      | none => []
      | some fallback => fallback.placed (.arm :: around)
  | .variable .., _ | .prototype .., _ | .enumeration .., _ | .giveBack .., _ | .leave _, _
  | .print .., _ | .evaluate .., _ | .inclusion .., _ => []
termination_by structural s => s

def Block.placed : Block → (around : List Enclosure) → List Placed
  | ⟨body, _⟩, around => bodyPlaced body around
termination_by structural body => body

def bodyPlaced : List Stmt → (around : List Enclosure) → List Placed
  | [], _ => []
  | s :: others, around => ⟨s, around⟩ :: s.placed around ++ bodyPlaced others around
termination_by structural body => body

def armsPlaced : List Case → (around : List Enclosure) → List Placed
  | [], _ => []
  | ⟨_, body, _⟩ :: others, around => body.placed (.arm :: around) ++ armsPlaced others around
termination_by structural cases => cases

end

/-- Every statement of a program where it stands, in the order of the text. -/
def Program.placed (p : Program) : List Placed :=
  bodyPlaced p.body []

mutual

theorem stmt_placed : (s : Stmt) → (around : List Enclosure) →
    (s.placed around).map Placed.stmt = s.inner
  | .function _ _ _ body _, around => stmt_blockPlaced body _
  | .main body _, around | .block body, around | .whileLoop _ body _, around
  | .doLoop body _ _, around => stmt_blockPlaced body _
  | .branch _ yes none _, around => by simp [Stmt.placed, Stmt.inner, stmt_blockPlaced yes]
  | .branch _ yes (some no) _, around => by
    simp [Stmt.placed, Stmt.inner, stmt_blockPlaced yes, stmt_blockPlaced no]
  | .forLoop none _ _ body _, around => stmt_blockPlaced body _
  | .forLoop (some initial) _ _ body _, around => by
    simp [Stmt.placed, Stmt.inner, stmt_placed initial, stmt_blockPlaced body]
  | .switch _ cases none _, around => by simp [Stmt.placed, Stmt.inner, stmt_armsPlaced cases]
  | .switch _ cases (some fallback) _, around => by
    simp [Stmt.placed, Stmt.inner, stmt_armsPlaced cases, stmt_blockPlaced fallback]
  | .variable .., _ | .prototype .., _ | .enumeration .., _ | .giveBack .., _ | .leave _, _
  | .print .., _ | .evaluate .., _ | .inclusion .., _ => rfl
termination_by structural s => s

theorem stmt_blockPlaced : (body : Block) → (around : List Enclosure) →
    (body.placed around).map Placed.stmt = body.statements
  | ⟨body, _⟩, around => stmt_bodyPlaced body around
termination_by structural body => body

theorem stmt_bodyPlaced : (body : List Stmt) → (around : List Enclosure) →
    (bodyPlaced body around).map Placed.stmt = bodyStatements body
  | [], _ => rfl
  | s :: others, around => by
    simp [bodyPlaced, bodyStatements, stmt_placed s, stmt_bodyPlaced others]
termination_by structural body => body

theorem stmt_armsPlaced : (cases : List Case) → (around : List Enclosure) →
    (armsPlaced cases around).map Placed.stmt = armsStatements cases
  | [], _ => rfl
  | ⟨_, body, _⟩ :: others, around => by
    simp [armsPlaced, armsStatements, stmt_blockPlaced body, stmt_armsPlaced others]
termination_by structural cases => cases

end

namespace Placed

def isBreak (x : Placed) : Bool :=
  match x.stmt with
  | .leave _ => true
  | _ => false

/-- A break without a loop or an arm of a switch around it in its own function. -/
def IsStray (x : Placed) : Prop :=
  x.isBreak ∧ ∀ y ∈ ownEnclosures x.around, ¬y.takesBreak

instance (x : Placed) : Decidable x.IsStray :=
  inferInstanceAs (Decidable (_ ∧ ∀ y ∈ ownEnclosures x.around, ¬y.takesBreak))

end Placed

/-- The complaints about the stray breaks among some statements. -/
def strays (placed : List Placed) : List TypeError :=
  (placed.filter (·.IsStray)).map fun x => ⟨.strayBreak, x.stmt.start⟩

@[simp] theorem strays_nil : strays [] = [] := rfl

@[simp] theorem strays_append (first second : List Placed) :
    strays (first ++ second) = strays first ++ strays second := by
  simp [strays]

theorem strays_cons {x : Placed} (other : x.isBreak = false) (others : List Placed) :
    strays (x :: others) = strays others := by
  simp [strays, Placed.IsStray, other]

theorem strays_leave (span : Span) (around : List Enclosure) :
    strays [⟨.leave span, around⟩] =
      if breakDepth around = 0 then [⟨.strayBreak, span.start⟩] else [] := by
  have stray : Placed.IsStray ⟨.leave span, around⟩ ↔ breakDepth around = 0 := by
    simp [Placed.IsStray, Placed.isBreak, breakDepth, List.countP_eq_zero]
  by_cases outside : breakDepth around = 0 <;> simp [strays, stray, outside, Stmt.start, Stmt.span]

namespace Checker

/-- The counter of the type checker goes along with the loops and switches around. -/
theorem deeper_depth {e : Enclosure} (inside : e.isFunction = false) (takes : e.takesBreak)
    {around : List Enclosure} {c : Checker} (same : c.depth = breakDepth around) :
    c.deeper.depth = breakDepth (e :: around) := by
  simp [deeper, same, breakDepth, ownEnclosures, inside, takes]

/-- The complaints about breaks in between are those about the stray ones in the statements. -/
abbrev Blames (placed : List Placed) (c d : Checker) : Prop :=
  Complains .strayBreak (strays placed) c d

theorem blames_of_inside {s : Stmt} {around : List Enclosure} {c d : Checker}
    (other : Placed.isBreak ⟨s, around⟩ = false) (inside : Blames (s.placed around) c d) :
    Blames (⟨s, around⟩ :: s.placed around) c d := by
  rwa [Blames, strays_cons other]

theorem blames_leave (span : Span) {around : List Enclosure} {c : Checker}
    (same : c.depth = breakDepth around) :
    Blames [⟨.leave span, around⟩] c (leave span.start c) := by
  rw [Blames, strays_leave, ← same, leave]
  split
  · simp [Complains, complaints, report, TypeError.kind, TypeError.Cause.kind]
  · exact .refl _ c

/-- Before the body of a function. -/
theorem blames_declared (f : Enclosing) (name : String) (ty : Ty) (ps : List Param)
    (position : Position) (c : Checker) : Blames [] c
      (begin f (params ps (declareFunction name ty (signature ps) position c).enter)) := by
  refine (Complains.refl _ c).of_same ?_
  rw [begin, errors_params, enter, errors_declareFunction]

mutual

/-- Where the counter says how many loops and arms are around a statement, just the stray breaks in
it are complained about. -/
theorem blames_stmt : (s : Stmt) → (around : List Enclosure) → (c : Checker) →
    c.depth = breakDepth around → Blames (⟨s, around⟩ :: s.placed around) c (stmt s c)
  | .variable ty name initial span, _, c, _ => blames_of_inside rfl
    (complains_variableStatement rfl (by decide) ty name initial span.start c)
  | .prototype .., _, c, _ => blames_of_inside rfl
    ((Complains.refl _ c).of_same (errors_declareFunction ..))
  | .function ty name ps body span, around, c, _ => by
    apply blames_of_inside rfl
    have begun := blames_declared ⟨name, ty, false, false⟩ name ty ps span.start c
    -- The body starts with a counter at zero, and behind it the one from before goes on.
    have inside := begun.behind (blames_within body (.function ty name :: around) _ rfl)
    exact ((inside.of_same rfl).before
      (complains_missingReturn (by decide) span.start _ (resume _ _))).of_same rfl
  | .main body span, around, c, _ => by
    apply blames_of_inside rfl
    have begun := blames_declared ⟨"main", .int, true, false⟩ "main" .int [] span.start c
    exact (begun.behind (blames_within body (.main :: around) _ rfl)).of_same rfl
  | .enumeration .., _, c, _ => blames_of_inside rfl
    ((Complains.refl _ c).of_same (errors_enumeration ..))
  | .block body, around, c, same => blames_of_inside rfl
    (blames_block body (.block :: around) c same)
  | .branch e yes none span, around, c, same => by
    apply blames_of_inside rfl
    have kept := (around_condition "if" span.start e c).depth.trans same
    rw [Blames, Stmt.placed, List.append_nil]
    exact (complains_condition rfl (by decide) "if" span.start e c).behind
      (blames_block yes (.branch :: around) _ kept)
  | .branch e yes (some no) span, around, c, same => by
    apply blames_of_inside rfl
    have kept := (around_condition "if" span.start e c).depth.trans same
    rw [Blames, Stmt.placed, strays_append]
    exact (complains_condition rfl (by decide) "if" span.start e c).behind
      ((blames_block yes (.branch :: around) _ kept).trans
        (blames_block no (.branch :: around) _ ((around_block yes _).depth.trans kept)))
  | .whileLoop e body span, around, c, same => blames_of_inside rfl
    ((complains_condition rfl (by decide) "while" span.start e c).behind
      (blames_deeper body around _ ((around_condition "while" span.start e c).depth.trans same)))
  | .doLoop body e span, around, c, same => blames_of_inside rfl
    ((blames_deeper body around c same).before
      (complains_condition rfl (by decide) "do-while" span.start e _))
  | .forLoop none e update body span, around, c, same => by
    apply blames_of_inside rfl
    have headed : Blames [] c (heads span.start e update c.enter) :=
      (Complains.refl _ c).behind (complains_heads rfl (by decide) span.start e update c.enter)
    have kept := (around_heads span.start e update c.enter).depth.trans same
    exact (headed.behind (blames_deeper body around _ kept)).of_same rfl
  | .forLoop (some initial) e update body span, around, c, same => by
    apply blames_of_inside rfl
    have begun : Blames (⟨initial, around⟩ :: initial.placed around) c (stmt initial c.enter) :=
      (Complains.refl _ c).behind (blames_stmt initial around c.enter same)
    have headed := begun.before (complains_heads rfl (by decide) span.start e update _)
    have kept := (around_heads span.start e update (stmt initial c.enter)).depth.trans
      ((around_stmt initial c.enter).depth.trans same)
    rw [Blames, Stmt.placed, strays_append]
    exact (headed.trans (blames_deeper body around _ kept)).of_same rfl
  | .switch e cases none _, around, c, same => by
    apply blames_of_inside rfl
    have kept := deeper_depth (e := .arm) rfl rfl ((around_subject e c).depth.trans same)
    rw [Blames, Stmt.placed, List.append_nil]
    exact ((complains_subject rfl e c).behind
      (blames_arms cases (subject e c).1 around (subject e c).2.deeper kept)).of_same rfl
  | .switch e cases (some fallback) _, around, c, same => by
    apply blames_of_inside rfl
    have kept := deeper_depth (e := .arm) rfl rfl ((around_subject e c).depth.trans same)
    have passed := (around_arms cases (subject e c).1 (subject e c).2.deeper).depth.trans kept
    rw [Blames, Stmt.placed, strays_append]
    exact ((complains_subject rfl e c).behind
      ((blames_arms cases (subject e c).1 around (subject e c).2.deeper kept).trans
        (blames_block fallback (.arm :: around) _ passed))).of_same rfl
  | .giveBack value span, _, c, _ => blames_of_inside rfl
    (complains_giveBack rfl (by decide) value span.start c)
  | .leave span, _, _, same => blames_leave span same
  | .print args _, _, c, _ => blames_of_inside rfl (complains_values rfl args c)
  | .evaluate e _, _, c, _ => blames_of_inside rfl (complains_expr rfl e c)
  | .inclusion .., _, c, _ => blames_of_inside rfl (.refl _ c)
termination_by structural s => s

theorem blames_block : (body : Block) → (around : List Enclosure) → (c : Checker) →
    c.depth = breakDepth around → Blames (body.placed around) c (block body c)
  | ⟨body, _⟩, around, c, same =>
    (Complains.refl _ c).behind ((blames_stmts body around c.enter same).of_same rfl)
termination_by structural body => body

theorem blames_within : (body : Block) → (around : List Enclosure) → (c : Checker) →
    c.depth = breakDepth around → Blames (body.placed around) c (within body c)
  | ⟨body, _⟩, around, c, same => blames_stmts body around c same
termination_by structural body => body

theorem blames_deeper : (body : Block) → (around : List Enclosure) → (c : Checker) →
    c.depth = breakDepth around →
    Blames (body.placed (.loop :: around)) c (block body c.deeper).shallower
  | ⟨body, _⟩, around, c, same =>
    (Complains.refl _ c).behind ((blames_stmts body (.loop :: around) c.deeper.enter
      (deeper_depth rfl rfl same)).of_same rfl)
termination_by structural body => body

theorem blames_stmts : (body : List Stmt) → (around : List Enclosure) → (c : Checker) →
    c.depth = breakDepth around → Blames (bodyPlaced body around) c (stmts body c)
  | [], _, c, _ => .refl _ c
  | s :: others, around, c, same => by
    rw [Blames, bodyPlaced, strays_append]
    exact (blames_stmt s around c same).trans
      (blames_stmts others around _ ((around_stmt s c).depth.trans same))
termination_by structural body => body

theorem blames_arms : (cases : List Case) → (ty : Ty) → (around : List Enclosure) →
    (c : Checker) → c.depth = breakDepth (.arm :: around) →
    Blames (armsPlaced cases around) c (arms ty cases c)
  | [], _, _, c, _ => .refl _ c
  | ⟨value, body, _⟩ :: others, ty, around, c, same => by
    rw [Blames, armsPlaced, strays_append]
    have kept := (around_caseValue ty value c).depth.trans same
    exact (complains_caseValue rfl ty value c).behind ((blames_block body _ _ kept).trans
      (blames_arms others ty around _ ((around_block body _).depth.trans kept)))
termination_by structural cases => cases

end

end Checker

/-- The type checker complains about the breaks with no loop and no arm of a switch around them in
their own function, in the order of the text, and about no other ones. -/
theorem Program.typeCheck_strayBreaks (p : Program) :
    p.placed.map Placed.stmt = p.statements ∧
      (typeCheck p).filter (·.kind = .strayBreak) =
        (p.placed.filter (·.IsStray)).map fun x => ⟨.strayBreak, x.stmt.start⟩ :=
  ⟨stmt_bodyPlaced p.body [], Checker.blames_stmts p.body [] .empty rfl⟩

end Curly
