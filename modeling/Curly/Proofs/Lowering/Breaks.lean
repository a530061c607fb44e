import Curly.Proofs.Lowering.Conditions
import Curly.Proofs.Typing.Complaints
import Curly.Scope.Analysis

/-! Where breaks lead. The end of a function forgets every loop and switch around it, so a break
behind a function in the same body is lowered to nothing. Any other break in a loop or switch is
lowered to a jump to its end. -/
namespace Curly

mutual

/-- Whether a function is defined in a statement, at any depth. -/
def Stmt.definesFunction : Stmt → Bool
  | .function .. | .main .. => true
  | .block body => body.definesFunction
  | .branch _ yes no _ =>
    yes.definesFunction ||
      match no with
      | none => false
      | some no => no.definesFunction
  | .whileLoop _ body _ | .doLoop body _ _ => body.definesFunction
  | .forLoop initial _ _ body _ =>
    (match initial with
      | none => false
      | some initial => initial.definesFunction) || body.definesFunction
  | .switch _ cases fallback _ =>
    armsDefineFunction cases ||
      match fallback with
      | none => false
      | some fallback => fallback.definesFunction
  | .variable .. | .prototype .. | .enumeration .. | .giveBack .. | .leave _ | .print ..
  | .evaluate .. | .inclusion .. => false
termination_by structural s => s

def Block.definesFunction : Block → Bool
  | ⟨body, _⟩ => bodyDefinesFunction body
termination_by structural body => body

def bodyDefinesFunction : List Stmt → Bool
  | [] => false
  | s :: others => s.definesFunction || bodyDefinesFunction others
termination_by structural body => body

def armsDefineFunction : List Case → Bool
  | [] => false
  | ⟨_, body, _⟩ :: others => body.definesFunction || armsDefineFunction others
termination_by structural cases => cases

end

mutual

/-- The places of the breaks in a statement. -/
def Stmt.leaves : Stmt → List Span
  | .leave span => [span]
  | .function _ _ _ body _ | .main body _ | .block body => body.leaves
  | .branch _ yes no _ =>
    yes.leaves ++
      match no with
      | none => []
      | some no => no.leaves
  | .whileLoop _ body _ | .doLoop body _ _ => body.leaves
  | .forLoop initial _ _ body _ =>
    (match initial with
      | none => []
      | some initial => initial.leaves) ++ body.leaves
  | .switch _ cases fallback _ =>
    armsLeaves cases ++
      match fallback with
      | none => []
      | some fallback => fallback.leaves
  | .variable .. | .prototype .. | .enumeration .. | .giveBack .. | .print .. | .evaluate ..
  | .inclusion .. => []
termination_by structural s => s

def Block.leaves : Block → List Span
  | ⟨body, _⟩ => bodyLeaves body
termination_by structural body => body

def bodyLeaves : List Stmt → List Span
  | [] => []
  | s :: others => s.leaves ++ bodyLeaves others
termination_by structural body => body

def armsLeaves : List Case → List Span
  | [] => []
  | ⟨_, body, _⟩ :: others => body.leaves ++ armsLeaves others
termination_by structural cases => cases

end

namespace Lowering

open Builder

/-- The loops and switches around are the same behind, or all forgotten. -/
def Forgets (all : Bool) (b c : Builder) : Prop :=
  c.breaks = if all then [] else b.breaks

namespace Forgets

variable {all more : Bool} {b c d : Builder}

theorem refl (b : Builder) : Forgets false b b :=
  rfl

theorem trans (first : Forgets all b c) (second : Forgets more c d) :
    Forgets (all || more) b d := by
  rw [Forgets] at first second ⊢
  cases all <;> cases more <;> simp_all

theorem of_same (forgets : Forgets all b c) (same : d.breaks = c.breaks) : Forgets all b d :=
  same.trans forgets

theorem emit (forgets : Forgets all b c) (i : Instruction) : Forgets all b (c.emit i) :=
  forgets

theorem newLabel (forgets : Forgets all b c) : Forgets all b c.newLabel.2 :=
  forgets

/-- The way out of a loop or switch is gone behind it, whether it was forgotten before or not. -/
theorem inside {l : Label} (before : Forgets false b c) (within : Forgets all (c.pushBreak l) d) :
    Forgets all b d.popBreak := by
  rw [Forgets] at before within ⊢
  cases all <;> simp_all [popBreak, pushBreak]

end Forgets

theorem Alike.forgets {b c : Builder} (alike : Alike b c) : Forgets false b c :=
  alike.breaks

theorem forgets_foot (name : String) (value : Option Operand) (b c : Builder) :
    Forgets true b (foot name value c) :=
  rfl

theorem forgets_lowered (loop : Loop) {all : Bool}
    (inside : ∀ b, Forgets all b (block loop.body b)) (b : Builder) :
    Forgets all b (loop.lowered b) := by
  have turned : Forgets all b (loop.turned b) := (Forgets.refl b).inside (inside _)
  have advanced := turned.of_same (alike_advanced loop b).breaks
  exact advanced.of_same (straight_repeatWhile _ _ _).breaks

mutual

theorem forgets_stmt : (s : Stmt) → (b : Builder) → Forgets s.definesFunction b (stmt s b)
  | .variable _ name initial _, b => (straight_variableStatement name initial b).breaks
  | .prototype .., b | .inclusion .., b | .enumeration .., b => .refl b
  | .function .., b | .main .., b => forgets_foot _ _ b _
  | .block body, b => forgets_block body b
  | .branch e yes none _, b =>
    (((straight_expr e b).alike.forgets.newLabel.emit _).trans
      ((forgets_block yes _).trans (.refl _))).emit _
  | .branch e yes (some no) _, b =>
    ((((((straight_expr e b).alike.forgets.newLabel.emit _).trans
      (forgets_block yes _)).newLabel.emit _).emit _).trans (forgets_block no _)).emit _
  | .whileLoop e body _, b => by
    rw [stmt_whileLoop]
    exact forgets_lowered _ (forgets_block body) _
  | .doLoop body e _, b => by
    rw [stmt_doLoop]
    exact forgets_lowered _ (forgets_block body) _
  | .forLoop none e update body _, b => by
    rw [stmt_forLoop]
    exact forgets_lowered _ (forgets_block body) _
  | .forLoop (some initial) e update body _, b => by
    rw [stmt_forLoop]
    exact (forgets_stmt initial b).trans (forgets_lowered _ (forgets_block body) _)
  | .switch e cases none _, b => by
    have tested := (straight_expr e b).alike.newLabel.trans (alike_tests (expr e b).1 cases _)
    rw [stmt_switch]
    exact ((tested.forgets.emit _).inside
      ((forgets_arms cases _ _ _ (by simp [tests_fst])).trans (.refl _))).emit _
  | .switch e cases (some fallback) _, b => by
    have tested := (straight_expr e b).alike.newLabel.trans (alike_tests (expr e b).1 cases _)
    rw [stmt_switch]
    exact ((tested.forgets.newLabel.emit _).inside
      (((forgets_arms cases _ _ _ (by simp [tests_fst])).emit _).trans
        (forgets_block fallback _))).emit _
  | .giveBack value _, b => (straight_giveBack value b).breaks
  | .leave _, b => (straight_leave b).breaks
  | .print args _, b => (straight_print args b).breaks
  | .evaluate e _, b => (straight_effect e b).breaks
termination_by structural s => s

theorem forgets_block : (body : Block) → (b : Builder) →
    Forgets body.definesFunction b (block body b)
  | ⟨body, _⟩, b => forgets_stmts body b
termination_by structural body => body

theorem forgets_stmts : (body : List Stmt) → (b : Builder) →
    Forgets (bodyDefinesFunction body) b (stmts body b)
  | [], b => .refl b
  | s :: others, b => (forgets_stmt s b).trans (forgets_stmts others _)
termination_by structural body => body

theorem forgets_arms : (cases : List Case) → (finish : Label) → (labels : List Label) →
    (b : Builder) → labels.length = cases.length →
    Forgets (armsDefineFunction cases) b (arms finish labels cases b)
  | [], _, _, b, _ => .refl b
  | ⟨_, body, _⟩ :: others, finish, l :: labels, b, same =>
    (forgets_block body (b.emit (.label l))).trans
      (forgets_arms others finish labels _ (Nat.succ.inj same))
termination_by structural cases => cases

end

end Lowering

/-- A loop or switch and the builder that it is lowered with. -/
structure Construct where
  stmt : Stmt
  before : Builder

namespace Construct

def lowered (x : Construct) : Builder :=
  Lowering.stmt x.stmt x.before

/-- The label at the end of the code of the construct. -/
def finish? (x : Construct) : Option Label :=
  match x.lowered.last? with
  | some (.label l) => some l
  | _ => none

end Construct

/-- A break and the builder that it is lowered with. The innermost loop or switch around it is in
its own function, and `cut` says that a function was defined in its body before the break. -/
structure BreakSite where
  span : Span
  before : Builder
  around : Option Construct
  cut : Bool

namespace Lowering

/-- Before the first block of a branch. -/
def branched (e : Expr) (b : Builder) : Builder :=
  let tested := expr e b
  tested.2.newLabel.2.emit (.jumpIfFalse tested.1 tested.2.newLabel.1)

/-- Before the second block of a branch. -/
def turnedAway (e : Expr) (yes : Block) (b : Builder) : Builder :=
  let passed := block yes (branched e b)
  (passed.newLabel.2.emit (.jump passed.newLabel.1)).emit (.label (expr e b).2.newLabel.1)

/-- The labels of a switch, and the builder before its first arm. -/
structure Switched where
  finish : Label
  labels : List Label
  otherwise : Label
  begun : Builder

def switched (e : Expr) (cases : List Case) (fallback : Option Block) (b : Builder) : Switched :=
  let subject := expr e b
  let finish := subject.2.newLabel.1
  let tested := tests subject.1 cases subject.2.newLabel.2
  let led := Lowering.otherwise fallback finish tested.2
  ⟨finish, tested.1, led.1, (led.2.emit (.jump led.1)).pushBreak finish⟩

/-- Before the fallback of a switch. -/
def fallbackBegun (e : Expr) (cases : List Case) (fallback : Block) (b : Builder) : Builder :=
  let switch := switched e cases (some fallback) b
  (arms switch.finish switch.labels cases switch.begun).emit (.label switch.otherwise)

mutual

def stmtBreaks : Stmt → (around : Option Construct) → (cut : Bool) → Builder → List BreakSite
  | .leave span, around, cut, b => [⟨span, b, around, cut⟩]
  | .function _ name ps body _, _, _, b =>
    blockBreaks body none false (head name (ps.map Param.name) b)
  | .main body _, _, _, b => blockBreaks body none false (head "main" [] b)
  | .block body, around, cut, b => blockBreaks body around cut b
  | .branch e yes no _, around, cut, b =>
    let c := branched e b
    blockBreaks yes around cut c ++
      match no with
      | none => []
      | some no => blockBreaks no around (cut || yes.definesFunction) (turnedAway e yes b)
  | .whileLoop e body span, _, _, b =>
    let loop := whileLoop e body b.labels
    let c := (b.newLabel.2.newLabel.2.newLabel.2.emit (.jump loop.test)).emit (.label loop.start)
    blockBreaks body (some ⟨.whileLoop e body span, b⟩) false (c.pushBreak loop.finish)
  | .doLoop body e span, _, _, b =>
    let loop := whileLoop e body b.labels
    let c := b.newLabel.2.newLabel.2.newLabel.2.emit (.label loop.start)
    blockBreaks body (some ⟨.doLoop body e span, b⟩) false (c.pushBreak loop.finish)
  | .forLoop initial e update body span, around, cut, b =>
    let c := stmts initial.toList b
    let loop := forLoop e update body c.labels
    let d := (c.newLabel.2.newLabel.2.newLabel.2.newLabel.2.emit (.jump loop.test)).emit
      (.label loop.start)
    (match initial with
      | none => []
      | some initial => stmtBreaks initial around cut b) ++
      blockBreaks body (some ⟨.forLoop initial e update body span, b⟩) false
        (d.pushBreak loop.finish)
  | .switch e cases fallback span, _, _, b =>
    let construct : Construct := ⟨.switch e cases fallback span, b⟩
    let switch := switched e cases fallback b
    armsBreaks construct switch.finish cases switch.labels false switch.begun ++
      match fallback with
      | none => []
      | some fallback =>
        blockBreaks fallback (some construct) (armsDefineFunction cases)
          (fallbackBegun e cases fallback b)
  | .variable .., _, _, _ | .prototype .., _, _, _ | .enumeration .., _, _, _
  | .giveBack .., _, _, _ | .print .., _, _, _ | .evaluate .., _, _, _
  | .inclusion .., _, _, _ => []
termination_by structural s => s

def blockBreaks : Block → (around : Option Construct) → (cut : Bool) → Builder → List BreakSite
  | ⟨body, _⟩, around, cut, b => stmtsBreaks body around cut b
termination_by structural body => body

def stmtsBreaks : List Stmt → (around : Option Construct) → (cut : Bool) → Builder →
    List BreakSite
  | [], _, _, _ => []
  | s :: others, around, cut, b =>
    stmtBreaks s around cut b ++ stmtsBreaks others around (cut || s.definesFunction) (stmt s b)
termination_by structural body => body

def armsBreaks (construct : Construct) (finish : Label) :
    List Case → List Label → (cut : Bool) → Builder → List BreakSite
  | ⟨_, body, _⟩ :: others, l :: labels, cut, b =>
    let c := b.emit (.label l)
    blockBreaks body (some construct) cut c ++
      armsBreaks construct finish others labels (cut || body.definesFunction)
        ((block body c).emit (.jump finish))
  | _, _, _, _ => []
termination_by structural cases => cases

end

theorem switched_labels (e : Expr) (cases : List Case) (fallback : Option Block) (b : Builder) :
    (switched e cases fallback b).labels.length = cases.length := by
  simp [switched, tests_fst]

mutual

theorem span_stmtBreaks : (s : Stmt) → (around : Option Construct) → (cut : Bool) → (b : Builder) →
    (stmtBreaks s around cut b).map BreakSite.span = s.leaves
  | .leave _, _, _, _ => rfl
  | .function _ _ _ body _, _, _, _ | .main body _, _, _, _ => span_blockBreaks body none false _
  | .block body, around, cut, b => span_blockBreaks body around cut b
  | .branch _ yes none _, _, _, _ => by simp [stmtBreaks, Stmt.leaves, span_blockBreaks yes]
  | .branch _ yes (some no) _, _, _, _ => by
    simp [stmtBreaks, Stmt.leaves, span_blockBreaks yes, span_blockBreaks no]
  | .whileLoop _ body _, _, _, _ | .doLoop body _ _, _, _, _ => span_blockBreaks body _ false _
  | .forLoop none _ _ body _, _, _, _ => span_blockBreaks body _ false _
  | .forLoop (some initial) _ _ body _, _, _, _ => by
    simp [stmtBreaks, Stmt.leaves, span_stmtBreaks initial, span_blockBreaks body]
  | .switch _ cases none _, _, _, _ => by
    simp [stmtBreaks, Stmt.leaves, span_armsBreaks _ _ cases, switched_labels]
  | .switch _ cases (some fallback) _, _, _, _ => by
    simp [stmtBreaks, Stmt.leaves, span_armsBreaks _ _ cases, switched_labels,
      span_blockBreaks fallback]
  | .variable .., _, _, _ | .prototype .., _, _, _ | .enumeration .., _, _, _
  | .giveBack .., _, _, _ | .print .., _, _, _ | .evaluate .., _, _, _
  | .inclusion .., _, _, _ => rfl
termination_by structural s => s

theorem span_blockBreaks : (body : Block) → (around : Option Construct) → (cut : Bool) →
    (b : Builder) → (blockBreaks body around cut b).map BreakSite.span = body.leaves
  | ⟨body, _⟩, around, cut, b => span_stmtsBreaks body around cut b
termination_by structural body => body

theorem span_stmtsBreaks : (body : List Stmt) → (around : Option Construct) → (cut : Bool) →
    (b : Builder) → (stmtsBreaks body around cut b).map BreakSite.span = bodyLeaves body
  | [], _, _, _ => rfl
  | s :: others, _, _, _ => by
    simp [stmtsBreaks, bodyLeaves, span_stmtBreaks s, span_stmtsBreaks others]
termination_by structural body => body

theorem span_armsBreaks (construct : Construct) (finish : Label) : (cases : List Case) →
    (labels : List Label) → (cut : Bool) → (b : Builder) → labels.length = cases.length →
    (armsBreaks construct finish cases labels cut b).map BreakSite.span = armsLeaves cases
  | [], _, _, _, _ => rfl
  | ⟨_, body, _⟩ :: others, _ :: labels, _, _, same => by
    have rest := span_armsBreaks construct finish others labels
    simp [armsBreaks, armsLeaves, span_blockBreaks body, rest _ _ (Nat.succ.inj same)]
termination_by structural cases => cases

end

/-- What the builder knows of the innermost loop or switch. -/
def Leads (around : Option Construct) (cut : Bool) (b : Builder) : Prop :=
  ∀ loop, around = some loop →
    if cut then b.breaks = [] else ∃ l, b.break? = some l ∧ loop.finish? = some l

namespace Leads

variable {around : Option Construct} {cut all : Bool} {b c : Builder}

theorem outside : Leads none cut b :=
  fun _ known => nomatch known

theorem forgets (leads : Leads around cut b) (forgets : Forgets all b c) :
    Leads around (cut || all) c := by
  intro loop known
  have before := leads loop known
  rw [Forgets] at forgets
  cases cut <;> cases all <;> simp_all [Builder.break?]

theorem of_same (leads : Leads around cut b) (same : c.breaks = b.breaks) : Leads around cut c := by
  have kept : Forgets false b c := same
  simpa using leads.forgets kept

theorem entered {loop : Construct} {l : Label} (finish : loop.finish? = some l) :
    Leads (some loop) false (b.pushBreak l) := by
  rintro _ ⟨⟩
  exact ⟨l, rfl, finish⟩

end Leads

end Lowering

open Builder Lowering

/-- A break is in a loop or switch. Its code is part of the code behind, and so is that of the loop
or switch, unless that is the one around all of it. -/
structure BreakSite.Sound (around : Option Construct) (after : Builder) (x : BreakSite) : Prop where
  inside : x.around.isSome
  leads : Leads x.around x.cut x.before
  passed : Follows (leave x.before) after
  closed : x.around = around ∨ ∃ loop, x.around = some loop ∧ Follows loop.lowered after

namespace BreakSite.Sound

variable {around other : Option Construct} {b c : Builder} {x : BreakSite}

theorem mono (sound : x.Sound around b) (follows : Follows b c) : x.Sound around c := by
  refine ⟨sound.inside, sound.leads, sound.passed.trans follows, ?_⟩
  rcases sound.closed with same | ⟨loop, known, within⟩
  · exact .inl same
  · exact .inr ⟨loop, known, within.trans follows⟩

theorem ofFunction (sound : x.Sound none b) : x.Sound other b := by
  refine ⟨sound.inside, sound.leads, sound.passed, ?_⟩
  rcases sound.closed with outside | inner
  · exact absurd sound.inside (by simp [outside])
  · exact .inr inner

theorem ofConstruct {loop : Construct} (sound : x.Sound (some loop) b)
    (follows : Follows b loop.lowered) : x.Sound other loop.lowered := by
  refine ⟨sound.inside, sound.leads, sound.passed.trans follows, .inr ?_⟩
  rcases sound.closed with same | ⟨inner, known, within⟩
  · exact ⟨loop, same, Follows.refl _⟩
  · exact ⟨inner, known, within.trans follows⟩

end BreakSite.Sound

namespace Lowering

theorem finish?_of_emit {x : Construct} {c : Builder} {l : Label}
    (lowered : x.lowered = c.emit (.label l)) : x.finish? = some l := by
  simp [Construct.finish?, lowered, last?, emit]

theorem stmt_branch (e : Expr) (yes no : Block) (span : Span) (b : Builder) :
    stmt (.branch e yes (some no) span) b =
      (block no (turnedAway e yes b)).emit (.label (block yes (branched e b)).newLabel.1) := rfl

theorem stmt_switched (e : Expr) (cases : List Case) (fallback : Option Block) (span : Span)
    (b : Builder) :
    stmt (.switch e cases fallback span) b =
      let switch := switched e cases fallback b
      (lastArm fallback switch.otherwise
        (arms switch.finish switch.labels cases switch.begun)).popBreak.emit
          (.label switch.finish) :=
  stmt_switch e cases fallback span b

/-- The body of a loop leads out of the loop, and its code is part of that of the loop. -/
theorem sound_loop (construct : Construct) (loop : Loop) (b : Builder)
    (lowered : construct.lowered = loop.lowered b)
    (inner : Leads (some construct) false (b.pushBreak loop.finish) →
      ∀ x ∈ blockBreaks loop.body (some construct) false (b.pushBreak loop.finish),
        x.Sound (some construct) (block loop.body (b.pushBreak loop.finish)))
    (around : Option Construct) :
    ∀ x ∈ blockBreaks loop.body (some construct) false (b.pushBreak loop.finish),
      x.Sound around construct.lowered := by
  intro x member
  refine (inner (.entered (finish?_of_emit lowered)) x member).ofConstruct (lowered ▸ ?_)
  exact (Follows.refl _).popBreak.trans (follows_lowered loop b)

/-- The arms and the fallback of a switch lead out of it. -/
theorem entered_switch (e : Expr) (cases : List Case) (fallback : Option Block) (span : Span)
    (b : Builder) :
    Leads (some ⟨.switch e cases fallback span, b⟩) false (switched e cases fallback b).begun :=
  .entered (finish?_of_emit (stmt_switched e cases fallback span b))

theorem sound_switch {e : Expr} {cases : List Case} {fallback : Option Block} {span : Span}
    {b : Builder} {around : Option Construct} {x : BreakSite}
    (sound : x.Sound (some ⟨.switch e cases fallback span, b⟩)
      (lastArm fallback (switched e cases fallback b).otherwise
        (arms (switched e cases fallback b).finish (switched e cases fallback b).labels cases
          (switched e cases fallback b).begun))) :
    x.Sound around (stmt (.switch e cases fallback span) b) := by
  refine sound.ofConstruct ?_
  rw [Construct.lowered, stmt_switched]
  exact (Follows.refl _).popBreak.emit _

mutual

theorem sound_stmt : (s : Stmt) → (around : Option Construct) → (cut : Bool) → (b : Builder) →
    s.BreaksInside around.isSome → Leads around cut b →
    ∀ x ∈ stmtBreaks s around cut b, x.Sound around (stmt s b)
  | .leave _, around, cut, b, inside, leads => by
    intro x member
    obtain rfl := List.mem_singleton.mp member
    exact ⟨inside, leads, Follows.refl _, .inl rfl⟩
  | .function _ name ps body _, _, _, b, inside, _ => fun x member =>
    ((sound_block body none false _ inside .outside x member).mono
      (follows_foot name _ _)).ofFunction
  | .main body _, _, _, b, inside, _ => fun x member =>
    ((sound_block body none false _ inside .outside x member).mono
      (follows_foot "main" _ _)).ofFunction
  | .block body, around, cut, b, inside, leads => sound_block body around cut b inside leads
  | .branch e yes none _, around, cut, b, inside, leads => by
    intro x member
    have begun : Leads around cut (branched e b) := leads.of_same (straight_expr e b).breaks
    rcases List.mem_append.mp member with member | member
    · exact (sound_block yes around cut _ inside.1 begun x member).mono ((Follows.refl _).emit _)
    · exact nomatch member
  | .branch e yes (some no) span, around, cut, b, inside, leads => by
    intro x member
    have begun : Leads around cut (branched e b) := leads.of_same (straight_expr e b).breaks
    rw [stmt_branch]
    rcases List.mem_append.mp member with member | member
    · refine (sound_block yes around cut _ inside.1 begun x member).mono ?_
      exact ((((Follows.refl _).newLabel.emit _).emit _).trans (follows_block no _)).emit _
    · have passed : Leads around (cut || yes.definesFunction) (turnedAway e yes b) :=
        begun.forgets (c := turnedAway e yes b) (forgets_block yes (branched e b))
      exact (sound_block no around _ _ inside.2 passed x member).mono ((Follows.refl _).emit _)
  | .whileLoop e body span, around, _, b, inside, _ =>
    sound_loop ⟨.whileLoop e body span, b⟩ (whileLoop e body b.labels) _ rfl
      (sound_block body (some _) false _ inside) around
  | .doLoop body e span, around, _, b, inside, _ =>
    sound_loop ⟨.doLoop body e span, b⟩ (whileLoop e body b.labels) _ rfl
      (sound_block body (some _) false _ inside) around
  | .forLoop none e update body span, around, _, b, inside, _ =>
    sound_loop ⟨.forLoop none e update body span, b⟩ (forLoop e update body b.labels) _
      (stmt_forLoop none e update body span b) (sound_block body (some _) false _ inside.2) around
  | .forLoop (some initial) e update body span, around, cut, b, inside, leads => by
    intro x member
    have lowered := stmt_forLoop (some initial) e update body span b
    rcases List.mem_append.mp member with member | member
    · refine (sound_stmt initial around cut b inside.1 leads x member).mono (lowered ▸ ?_)
      exact (((((Follows.refl _).newLabel.newLabel.newLabel.newLabel).emit _).emit _).trans
        (follows_turned _ (follows_block body) _)).trans (follows_lowered _ _)
    · exact sound_loop ⟨.forLoop (some initial) e update body span, b⟩
        (forLoop e update body (stmt initial b).labels) _ lowered
        (sound_block body (some _) false _ inside.2) around x member
  | .switch e cases none span, around, _, b, inside, _ => by
    intro x member
    have entered := entered_switch e cases none span b
    have sized := switched_labels e cases none b
    rcases List.mem_append.mp member with member | member
    · exact sound_switch (sound_arms _ _ cases inside.1 _ false _ sized entered x member)
    · exact nomatch member
  | .switch e cases (some fallback) span, around, _, b, inside, _ => by
    intro x member
    have entered := entered_switch e cases (some fallback) span b
    have sized := switched_labels e cases (some fallback) b
    rcases List.mem_append.mp member with member | member
    · exact sound_switch ((sound_arms _ _ cases inside.1 _ false _ sized entered x member).mono
        (follows_lastArm (some fallback) _ _))
    · have passed : Leads _ _ (fallbackBegun e cases fallback b) :=
        entered.forgets (forgets_arms cases _ _ _ sized)
      exact sound_switch (sound_block fallback (some _) _ _ inside.2 passed x member)
  | .variable .., _, _, _, _, _ | .prototype .., _, _, _, _, _ | .enumeration .., _, _, _, _, _
  | .giveBack .., _, _, _, _, _ | .print .., _, _, _, _, _ | .evaluate .., _, _, _, _, _
  | .inclusion .., _, _, _, _, _ => fun _ member => nomatch member
termination_by structural s => s

theorem sound_block : (body : Block) → (around : Option Construct) → (cut : Bool) → (b : Builder) →
    body.BreaksInside around.isSome → Leads around cut b →
    ∀ x ∈ blockBreaks body around cut b, x.Sound around (block body b)
  | ⟨body, _⟩, around, cut, b, inside, leads => sound_stmts body around cut b inside leads
termination_by structural body => body

theorem sound_stmts : (body : List Stmt) → (around : Option Construct) → (cut : Bool) →
    (b : Builder) → BodyBreaksInside body around.isSome → Leads around cut b →
    ∀ x ∈ stmtsBreaks body around cut b, x.Sound around (stmts body b)
  | [], _, _, _, _, _ => fun _ member => nomatch member
  | s :: others, around, cut, b, inside, leads => by
    intro x member
    rcases List.mem_append.mp member with member | member
    · exact (sound_stmt s around cut b inside.1 leads x member).mono (follows_stmts others _)
    · exact sound_stmts others around _ _ inside.2 (leads.forgets (forgets_stmt s b)) x member
termination_by structural body => body

theorem sound_arms (construct : Construct) (finish : Label) : (cases : List Case) →
    ArmsBreakInside cases → (labels : List Label) → (cut : Bool) → (b : Builder) →
    labels.length = cases.length → Leads (some construct) cut b →
    ∀ x ∈ armsBreaks construct finish cases labels cut b,
      x.Sound (some construct) (arms finish labels cases b)
  | [], _, _, _, _, _, _ => fun _ member => nomatch member
  | ⟨_, body, _⟩ :: others, inside, l :: labels, cut, b, same, leads => by
    intro x member
    have begun : Leads (some construct) cut (b.emit (.label l)) := leads
    rcases List.mem_append.mp member with member | member
    · exact (sound_block body (some construct) cut _ inside.1 begun x member).mono
        (((Follows.refl _).emit (.jump finish)).trans (follows_arms others finish labels _))
    · have passed : Leads (some construct) (cut || body.definesFunction)
          ((block body (b.emit (.label l))).emit (.jump finish)) :=
        begun.forgets (forgets_block body _)
      exact sound_arms construct finish others inside.2 labels _ _ (Nat.succ.inj same) passed x
        member
termination_by structural cases => cases

end

end Lowering

/-- The breaks of a program, in the order of its text. -/
def Program.breaks (p : Program) : List BreakSite :=
  stmtsBreaks p.body none false .empty

/-- A break is lowered to one jump, which leads to the label at the end of the loop or switch. -/
def BreakSite.KeptIn (code : List Instruction) (x : BreakSite) : Prop :=
  ∃ loop l, x.around = some loop ∧ loop.finish? = some l ∧ loop.lowered.code.toList <+: code ∧
    leave x.before = x.before.emit (.jump l) ∧ (leave x.before).code.toList <+: code

theorem BreakSite.Sound.kept {x : BreakSite} {after : Builder} (sound : x.Sound none after)
    (uncut : x.cut = false) : x.KeptIn after.code.toList := by
  rcases sound.closed with outside | ⟨loop, known, within⟩
  · exact absurd sound.inside (by simp [outside])
  · have leads := sound.leads loop known
    simp only [uncut, Bool.false_eq_true, if_false] at leads
    obtain ⟨l, target, finish⟩ := leads
    have jumps : leave x.before = x.before.emit (.jump l) := by simp [leave, target]
    exact ⟨loop, l, known, finish, within.code, jumps, sound.passed.code⟩

theorem BreakSite.Sound.lost {around : Option Construct} {x : BreakSite} {after : Builder}
    (sound : x.Sound around after) (cut : x.cut) : leave x.before = x.before := by
  obtain ⟨loop, known⟩ := Option.isSome_iff_exists.mp sound.inside
  have forgotten := sound.leads loop known
  simp only [cut, if_true] at forgotten
  simp [leave, break?, forgotten]

namespace Program

/-- If a program has no type errors, its breaks lead to the end of the innermost loop or switch
around them, except for those behind a function in its body, which are lowered to nothing. -/
theorem breaks_kept {p : Program} (typed : typeCheck p = []) :
    p.breaks.map BreakSite.span = bodyLeaves p.body ∧
      ∀ x ∈ p.breaks,
        if x.cut then leave x.before = x.before else x.KeptIn (Lowering.program p) := by
  refine ⟨span_stmtsBreaks p.body none false .empty, fun x member => ?_⟩
  have sound := sound_stmts p.body none false .empty (Checker.breaksInside_of_typeCheck typed)
    .outside x member
  split
  · exact sound.lost ‹_›
  · exact sound.kept (Bool.eq_false_iff.mpr ‹_›)

/-- A loop with a break, and one with a function before the break. -/
def brokenProgram (span : Span) : Program :=
  let endless (body : List Stmt) : Stmt := .whileLoop (.bool true span) ⟨body, span⟩ span
  ⟨[.main ⟨[
    endless [.leave span],
    endless [.function .void "f" [] ⟨[], span⟩ span, .leave span]], span⟩ span], span⟩

/-- The first break of the broken program is kept, the second one is not. -/
theorem broken_breaks :
    (brokenProgram default).breaks.map BreakSite.cut = [false, true] ∧
      ∀ x ∈ (brokenProgram default).breaks,
        if x.cut then leave x.before = x.before
        else x.KeptIn (Lowering.program (brokenProgram default)) :=
  ⟨by decide +kernel, (breaks_kept (by decide +kernel)).2⟩

/-- Nothing is wrong with the names and types of the broken program, but it loses a break. -/
theorem broken_not_kept :
    (analyze (brokenProgram default)).errors = [] ∧ typeCheck (brokenProgram default) = [] ∧
      ¬∀ x ∈ (brokenProgram default).breaks,
        x.KeptIn (Lowering.program (brokenProgram default)) := by
  refine ⟨by decide +kernel, by decide +kernel, fun kept => ?_⟩
  obtain ⟨x, member, nothing⟩ : ∃ x ∈ (brokenProgram default).breaks, x.before.breaks = [] := by
    decide +kernel
  obtain ⟨-, l, -, -, -, jumps, -⟩ := kept x member
  have shorter : x.before.code.size = x.before.code.size + 1 := by
    simpa [leave, break?, nothing, emit] using congrArg (·.code.size) jumps
  omega

end Program
end Curly
