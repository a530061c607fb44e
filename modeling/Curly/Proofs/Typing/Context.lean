import Curly.Typing.Checker

/-! What the type checker knows about the function and the loops around a statement. A statement
leaves it as it was, except for the note that the function returns a value. A program without
complaints has no break outside the loops and switches of its functions. -/
namespace Curly

mutual

/-- Whether a statement returns a value from the function it stands in. A function inside it returns
for itself. -/
def Stmt.returnsValue : Stmt → Bool
  | .giveBack value _ => value.isSome
  | .block body => body.returnsValue
  | .branch _ yes no _ =>
    yes.returnsValue ||
      match no with
      | none => false
      | some no => no.returnsValue
  | .whileLoop _ body _ | .doLoop body _ _ => body.returnsValue
  | .forLoop initial _ _ body _ =>
    (match initial with
      | none => false
      | some initial => initial.returnsValue) || body.returnsValue
  | .switch _ cases fallback _ =>
    armsReturnValue cases ||
      match fallback with
      | none => false
      | some fallback => fallback.returnsValue
  | .variable .. | .prototype .. | .function .. | .main .. | .enumeration .. | .leave _ | .print ..
  | .evaluate .. | .inclusion .. => false
termination_by structural s => s

def Block.returnsValue : Block → Bool
  | ⟨body, _⟩ => bodyReturnsValue body
termination_by structural body => body

def bodyReturnsValue : List Stmt → Bool
  | [] => false
  | s :: others => s.returnsValue || bodyReturnsValue others
termination_by structural body => body

def armsReturnValue : List Case → Bool
  | [] => false
  | ⟨_, body, _⟩ :: others => body.returnsValue || armsReturnValue others
termination_by structural cases => cases

end

mutual

/-- Every break of the statement is inside a loop or switch of its own function; `inside` says
whether the statement itself is. -/
def Stmt.BreaksInside : Stmt → (inside : Bool) → Prop
  | .leave _, inside => inside = true
  | .function _ _ _ body _, _ | .main body _, _ => body.BreaksInside false
  | .block body, inside => body.BreaksInside inside
  | .branch _ yes no _, inside =>
    yes.BreaksInside inside ∧
      match no with
      | none => True
      | some no => no.BreaksInside inside
  | .whileLoop _ body _, _ | .doLoop body _ _, _ => body.BreaksInside true
  | .forLoop initial _ _ body _, inside =>
    (match initial with
      | none => True
      | some initial => initial.BreaksInside inside) ∧ body.BreaksInside true
  | .switch _ cases fallback _, _ =>
    ArmsBreakInside cases ∧
      match fallback with
      | none => True
      | some fallback => fallback.BreaksInside true
  | .variable .., _ | .prototype .., _ | .enumeration .., _ | .giveBack .., _ | .print .., _
  | .evaluate .., _ | .inclusion .., _ => True
termination_by structural s => s

def Block.BreaksInside : Block → (inside : Bool) → Prop
  | ⟨body, _⟩, inside => BodyBreaksInside body inside
termination_by structural body => body

def BodyBreaksInside : List Stmt → (inside : Bool) → Prop
  | [], _ => True
  | s :: others, inside => s.BreaksInside inside ∧ BodyBreaksInside others inside
termination_by structural body => body

def ArmsBreakInside : List Case → Prop
  | [] => True
  | ⟨_, body, _⟩ :: others => body.BreaksInside true ∧ ArmsBreakInside others
termination_by structural cases => cases

end

/-- The function behind statements that return a value from it, or do not. -/
def Enclosing.noting (f : Enclosing) (returns : Bool) : Enclosing :=
  { f with returnsValue := f.returnsValue || (returns && f.ty ≠ .void) }

namespace Enclosing

@[simp] theorem noting_false (f : Enclosing) : f.noting false = f := by
  simp [noting]

theorem noting_noting (f : Enclosing) (first second : Bool) :
    (f.noting first).noting second = f.noting (first || second) := by
  cases first <;> cases second <;> simp [noting]

end Enclosing

namespace Checker

/-- The second checker knows of the same function and loops, and whether the function returned a
value in between. -/
structure Around (returns : Bool) (c d : Checker) : Prop where
  depth : d.depth = c.depth
  function : d.function = c.function.map (·.noting returns)

namespace Around

variable {returns others : Bool} {c d e : Checker}

theorem refl (c : Checker) : Around false c c :=
  ⟨rfl, by cases c.function <;> simp⟩

theorem trans (first : Around returns c d) (second : Around others d e) :
    Around (returns || others) c e := by
  refine ⟨second.depth.trans first.depth, ?_⟩
  rw [second.function, first.function, Option.map_map]
  congr 1
  exact funext fun f => f.noting_noting returns others

theorem behind (same : Around false c d) (around : Around returns d e) : Around returns c e :=
  same.trans around

theorem before (around : Around returns c d) (same : Around false d e) : Around returns c e := by
  simpa using around.trans same

theorem of_same (around : Around returns c d) (depth : e.depth = d.depth)
    (function : e.function = d.function) : Around returns c e :=
  ⟨depth.trans around.depth, function.trans around.function⟩

theorem enter (around : Around returns c d) : Around returns c d.enter :=
  around.of_same rfl rfl

theorem exit (around : Around returns c d) : Around returns c d.exit :=
  around.of_same rfl rfl

theorem declare (around : Around returns c d) (s : Symbol) : Around returns c (d.declare s) :=
  around.of_same rfl rfl

theorem note (around : Around returns c d) (t : Typed) : Around returns c (d.note t) :=
  around.of_same rfl rfl

theorem report (around : Around returns c d) (cause : TypeError.Cause) (position : Position) :
    Around returns c (d.report cause position) :=
  around.of_same rfl rfl

theorem reportAny (around : Around returns c d) (cause : Option TypeError.Cause)
    (position : Position) : Around returns c (d.reportAny cause position) := by
  cases cause with
  | none => exact around
  | some cause => exact around.report cause position

/-- What is one deeper inside is at the same depth again behind. -/
theorem shallower (around : Around returns c.deeper d) : Around returns c d.shallower :=
  ⟨by simp [Checker.shallower, around.depth, deeper], around.function⟩

end Around

theorem around_expr (e : Expr) (c : Checker) : Around false c (expr e c) :=
  (Around.refl c).note _

theorem around_values (es : List Expr) (c : Checker) : Around false c (values es c) := by
  induction es generalizing c with
  | nil => exact .refl c
  | cons e others ih => exact ((Around.refl c).note _).behind (ih (value e c))

theorem around_condition (construct : String) (position : Position) (e : Expr) (c : Checker) :
    Around false c (condition construct position e c) :=
  ((Around.refl c).note _).reportAny _ position

theorem around_subject (e : Expr) (c : Checker) : Around false c (subject e c).2 :=
  ((Around.refl c).note _).reportAny _ e.start

theorem around_caseValue (ty : Ty) (e : Expr) (c : Checker) : Around false c (caseValue ty e c) :=
  ((Around.refl c).note _).reportAny _ e.start

theorem around_variableStatement (ty : Ty) (name : String) (initial : Option Expr)
    (position : Position) (c : Checker) :
    Around false c (variableStatement ty name initial position c) := by
  have begun : Around false c
      (if ty = .void then c.report (.voidVariable name) position else c) := by
    split
    · exact (Around.refl c).report _ position
    · exact .refl c
  cases initial with
  | none => exact begun.declare _
  | some e => exact ((begun.note _).reportAny _ position).declare _

theorem around_declareFunction (name : String) (ty : Ty) (params : List Ty) (position : Position)
    (c : Checker) : Around false c (declareFunction name ty params position c) := by
  unfold declareFunction
  split
  · exact .refl c
  · exact (Around.refl c).declare _

theorem around_params (ps : List Param) (c : Checker) : Around false c (params ps c) := by
  induction ps generalizing c with
  | nil => exact .refl c
  | cons p others ih => exact ((Around.refl c).declare _).behind (ih (c.declare _))

theorem around_enumValues (values : List Identifier) (c : Checker) :
    Around false c (enumValues values c) := by
  induction values generalizing c with
  | nil => exact .refl c
  | cons value others ih =>
    refine Around.behind ?_ (ih (if _ then c else c.declare _))
    split
    · exact .refl c
    · exact (Around.refl c).declare _

theorem around_enumeration (name : String) (values : List Identifier) (position : Position)
    (c : Checker) : Around false c (enumeration name values position c) := by
  unfold enumeration
  split
  · exact .refl c
  · exact ((Around.refl c).declare _).behind (around_enumValues values _)

theorem around_giveBack (e : Option Expr) (position : Position) (c : Checker) :
    Around e.isSome c (giveBack e position c) := by
  have stray {d : Checker} (same : Around false c d) (outside : d.function = none) :
      Around e.isSome c (d.report .strayReturn position) := by
    have before : c.function = none := by simpa [outside] using same.function.symm
    exact Around.report ⟨same.depth, by simp [outside, before]⟩ _ position
  have noted {d : Checker} {f : Enclosing} (same : Around false c d) (known : d.function = some f)
      (cause : Option TypeError.Cause) : Around e.isSome c
        ({ d with function := some (f.noting e.isSome) }.reportAny cause position) := by
    have before : c.function = some f := by simpa [known] using same.function.symm
    have noticed : Around e.isSome c { d with function := some (f.noting e.isSome) } :=
      ⟨same.depth, by simp [before]⟩
    exact noticed.reportAny _ position
  cases e with
  | none =>
    simp only [giveBack, Option.map_none]
    split
    · exact stray (.refl c) ‹_›
    · exact noted (.refl c) ‹_› _
  | some e =>
    simp only [giveBack, Option.map_some]
    split
    · exact stray ((Around.refl c).note _) ‹_›
    · exact noted ((Around.refl c).note _) ‹_› _

theorem around_leave (position : Position) (c : Checker) : Around false c (leave position c) := by
  unfold leave
  split
  · exact (Around.refl c).report _ position
  · exact .refl c

/-- The head of a loop with a test and a change, behind its beginning. -/
def heads (position : Position) (e update : Option Expr) (c : Checker) : Checker :=
  let c := match e with
    | none => c
    | some e => condition "for" position e c
  match update with
  | none => c
  | some update => expr update c

theorem around_heads (position : Position) (e update : Option Expr) (c : Checker) :
    Around false c (heads position e update c) := by
  cases e with
  | none =>
    cases update with
    | none => exact .refl c
    | some update => exact around_expr update c
  | some e =>
    cases update with
    | none => exact around_condition "for" position e c
    | some update => exact (around_condition "for" position e c).before (around_expr update _)

mutual

theorem around_stmt : (s : Stmt) → (c : Checker) → Around s.returnsValue c (stmt s c)
  | .variable ty name initial span, c => around_variableStatement ty name initial span.start c
  | .prototype .., c => around_declareFunction _ _ _ _ c
  | .function ty name ps _ span, c =>
    have entered := (around_declareFunction name ty (signature ps) span.start c).enter
    (entered.before (around_params ps _)).of_same rfl rfl
  | .main _ span, c =>
    (around_declareFunction "main" .int [] span.start c).of_same rfl rfl
  | .enumeration name values _ span, c => around_enumeration name values span.start c
  | .block body, c => around_block body c
  | .branch e yes none span, c =>
    (around_condition "if" span.start e c).behind ((around_block yes _).trans (.refl _))
  | .branch e yes (some no) span, c =>
    (around_condition "if" span.start e c).behind ((around_block yes _).trans (around_block no _))
  | .whileLoop e body span, c =>
    (around_condition "while" span.start e c).behind (around_block body _).shallower
  | .doLoop body e span, c =>
    (around_block body c.deeper).shallower.before (around_condition "do-while" span.start e _)
  | .forLoop none e update body span, c =>
    (((Around.refl c).enter.before (around_heads span.start e update _)).behind
      (around_block body (heads span.start e update c.enter).deeper).shallower).exit
  | .forLoop (some initial) e update body span, c =>
    ((((Around.refl c).enter.behind (around_stmt initial _)).before
      (around_heads span.start e update _)).trans (around_block body _).shallower).exit
  | .switch e cases none _, c =>
    (around_subject e c).behind ((around_arms cases _ _).trans (.refl _)).shallower
  | .switch e cases (some fallback) _, c =>
    (around_subject e c).behind ((around_arms cases _ _).trans (around_block fallback _)).shallower
  | .giveBack value span, c => around_giveBack value span.start c
  | .leave span, c => around_leave span.start c
  | .print args _, c => around_values args c
  | .evaluate e _, c => around_expr e c
  | .inclusion .., c => .refl c
termination_by structural s => s

theorem around_block : (body : Block) → (c : Checker) → Around body.returnsValue c (block body c)
  | ⟨body, _⟩, c => ((Around.refl c).enter.behind (around_stmts body _)).exit
termination_by structural body => body

theorem around_stmts : (body : List Stmt) → (c : Checker) →
    Around (bodyReturnsValue body) c (stmts body c)
  | [], c => .refl c
  | s :: others, c => (around_stmt s c).trans (around_stmts others _)
termination_by structural body => body

theorem around_arms : (cases : List Case) → (ty : Ty) → (c : Checker) →
    Around (armsReturnValue cases) c (arms ty cases c)
  | [], _, c => .refl c
  | ⟨value, body, _⟩ :: others, ty, c =>
    (around_caseValue ty value c).behind ((around_block body _).trans (around_arms others ty _))
termination_by structural cases => cases

end

end Checker
end Curly
