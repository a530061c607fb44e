import Curly.Syntax

/-! Where the parts of a syntax tree lie in the text. A node is nested when the parts of every node
under it lie within it, one behind the other. A parser meets the parts from left to right, so what
it has read is `Laid` between two places of the text. -/
namespace Curly

namespace Span

/-- The first span ends where the second begins, or before. -/
def Before (first second : Span) : Prop :=
  first.stop ≤ second.start

/-- The spans have nothing in common. -/
def Apart (first second : Span) : Prop :=
  first.Before second ∨ second.Before first

def Within (inner outer : Span) : Prop :=
  outer.start ≤ inner.start ∧ inner.stop ≤ outer.stop

end Span

/-- Whatever has a span of its own in a program. -/
inductive Node where
  | expr (e : Expr)
  | name (i : Identifier)
  | param (p : Param)
  | names (values : List Identifier) (span : Span)
  | stmt (s : Stmt)
  | block (b : Block)
  | arm (c : Case)
  | program (p : Program)

def Expr.parts : Expr → List Node
  | .binary _ left right _ => [.expr left, .expr right]
  | .unary _ operand _ _ => [.expr operand]
  | .call callee args _ => .name callee :: args.map .expr
  | .int .. | .float .. | .string .. | .char .. | .bool .. | .symbol _ => []

def Stmt.parts : Stmt → List Node
  | .variable _ _ initial _ => initial.toList.map .expr
  | .prototype _ _ params _ => params.map .param
  | .function _ _ params body _ => params.map .param ++ [.block body]
  | .main body _ => [.block body]
  | .enumeration _ values valuesSpan _ => [.names values valuesSpan]
  | .block body => [.block body]
  | .branch condition yes no _ => .expr condition :: .block yes :: no.toList.map .block
  | .whileLoop condition body _ => [.expr condition, .block body]
  | .doLoop body condition _ => [.block body, .expr condition]
  | .forLoop initial condition update body _ =>
    initial.toList.map .stmt ++ condition.toList.map .expr ++ update.toList.map .expr ++
      [.block body]
  | .switch subject cases fallback _ =>
    .expr subject :: cases.map .arm ++ fallback.toList.map .block
  | .giveBack value _ => value.toList.map .expr
  | .print args _ => args.map .expr
  | .evaluate e _ => [.expr e]
  | .leave _ | .inclusion .. => []

namespace Node

def span : Node → Span
  | .expr e => e.span
  | .name i => i.span
  | .param p => p.span
  | .names _ span => span
  | .stmt s => s.span
  | .block b => b.span
  | .arm c => c.span
  | .program p => p.span

/-- The nodes right below a node, as the syntax lists them. -/
def parts : Node → List Node
  | .expr e => e.parts
  | .name _ | .param _ => []
  | .names values _ => values.map .name
  | .stmt s => s.parts
  | .block b => b.body.map .stmt
  | .arm c => [.expr c.value, .block c.body]
  | .program p => p.body.map .stmt

def Before (first second : Node) : Prop :=
  first.span.Before second.span

/-- The parts follow each other as they are listed. In a switch, the arm for all other values may
stand at any place among the arms. -/
def Ordered : Node → Prop
  | .stmt (.switch subject cases fallback _) =>
    (.expr subject :: cases.map .arm).Pairwise Before ∧
      ∀ other ∈ fallback, subject.span.Before other.span ∧
        ∀ c ∈ cases, c.span.Apart other.span
  | x => x.parts.Pairwise Before

/-- The spans nest from this node down. -/
inductive Nested : Node → Prop
  | intro {x : Node} (forward : x.span.start ≤ x.span.stop) (ordered : x.Ordered)
    (within : ∀ part ∈ x.parts, part.span.Within x.span)
    (parts : ∀ part ∈ x.parts, part.Nested) : x.Nested

theorem Nested.forward {x : Node} : x.Nested → x.span.start ≤ x.span.stop
  | .intro forward _ _ _ => forward

end Node

/-- Nested nodes one behind the other between two places. -/
def Laid (p : Position) : List Node → (q : Position) → Prop
  | [], q => p ≤ q
  | x :: nodes, q => p ≤ x.span.start ∧ x.Nested ∧ Laid x.span.stop nodes q

namespace Laid

open Position

variable {p m n q : Position} {x : Node} {nodes others : List Node}

theorem le (laid : Laid p nodes q) : p ≤ q := by
  induction nodes generalizing p with
  | nil => exact laid
  | cons x nodes ih => exact le_trans laid.1 (le_trans laid.2.1.forward (ih laid.2.2))

theorem append (first : Laid p nodes m) (gap : m ≤ n) (second : Laid n others q) :
    Laid p (nodes ++ others) q := by
  induction nodes generalizing p with
  | nil =>
    have reach : p ≤ n := le_trans first gap
    cases others with
    | nil => exact le_trans reach second
    | cons x others => exact ⟨le_trans reach second.1, second.2⟩
  | cons x nodes ih => exact ⟨first.1, first.2.1, ih first.2.2⟩

theorem wider (before : m ≤ p) (laid : Laid p nodes q) (behind : q ≤ n) : Laid m nodes n := by
  have here : Laid m [] m := le_refl m
  have wide := append (append here before laid) behind (show Laid n [] n from le_refl n)
  rwa [List.nil_append, List.append_nil] at wide

theorem of_mem (laid : Laid p nodes q) (member : x ∈ nodes) :
    p ≤ x.span.start ∧ x.Nested ∧ x.span.stop ≤ q := by
  induction nodes generalizing p with
  | nil => exact nomatch member
  | cons y nodes ih =>
    obtain ⟨begins, nested, rest⟩ := laid
    rcases List.mem_cons.mp member with rfl | later
    · exact ⟨begins, nested, rest.le⟩
    · obtain ⟨starts, found, stops⟩ := ih rest later
      exact ⟨le_trans begins (le_trans nested.forward starts), found, stops⟩

theorem pairwise (laid : Laid p nodes q) : nodes.Pairwise Node.Before := by
  induction nodes generalizing p with
  | nil => exact .nil
  | cons x nodes ih =>
    exact List.pairwise_cons.mpr ⟨fun y later => (laid.2.2.of_mem later).1, ih laid.2.2⟩

theorem optional {α : Type} {f : α → Node} {x? : Option α} (gap : p ≤ q)
    (each : ∀ x ∈ x?, Laid p [f x] q) : Laid p (x?.toList.map f) q := by
  cases x? with
  | none => exact gap
  | some x => exact each x rfl

/-- A node whose parts are in order is nested when they are laid out within it. -/
theorem node (order : x.parts.Pairwise Node.Before → x.Ordered) (begins : p ≤ x.span.start)
    (parts : Laid x.span.start x.parts x.span.stop) (stops : x.span.stop ≤ q) : Laid p [x] q := by
  refine ⟨begins, .intro parts.le (order parts.pairwise) ?_ ?_, stops⟩
  · intro part member
    obtain ⟨after, -, before⟩ := parts.of_mem member
    exact ⟨after, before⟩
  · exact fun part member => (parts.of_mem member).2.1

/-- A node without parts. -/
theorem leaf (order : x.parts.Pairwise Node.Before → x.Ordered) (none : x.parts = [])
    (begins : p ≤ x.span.start) (forward : x.span.start ≤ x.span.stop) (stops : x.span.stop ≤ q) :
    Laid p [x] q :=
  node order begins (none ▸ forward) stops

/-- A switch, of which the arm for all other values lies apart from those in line. -/
theorem switch {subject : Expr} {cases : List Case} {fallback : Option Block} {span : Span}
    (begins : p ≤ span.start) (line : Laid span.start (.expr subject :: cases.map .arm) span.stop)
    (rest : ∀ b ∈ fallback, Laid subject.span.stop [.block b] span.stop ∧
      ∀ c ∈ cases, c.span.Apart b.span) (stops : span.stop ≤ q) :
    Laid p [.stmt (.switch subject cases fallback span)] q := by
  have each (part : Node) (member : part ∈ (Stmt.switch subject cases fallback span).parts) :
      span.start ≤ part.span.start ∧ part.Nested ∧ part.span.stop ≤ span.stop := by
    rcases List.mem_append.mp member with listed | other
    · exact line.of_mem listed
    · obtain ⟨b, last, rfl⟩ := List.mem_map.mp other
      obtain ⟨after, nested, before⟩ := (rest b (Option.mem_toList.mp last)).1
      have reach : span.start ≤ subject.span.stop := le_trans line.1 line.2.1.forward
      exact ⟨le_trans reach after, nested, before⟩
  have order : Node.Ordered (.stmt (.switch subject cases fallback span)) :=
    ⟨line.pairwise, fun b last => ⟨(rest b last).1.1, (rest b last).2⟩⟩
  refine ⟨begins, .intro line.le order ?_ ?_, stops⟩
  · exact fun part member => ⟨(each part member).1, (each part member).2.2⟩
  · exact fun part member => (each part member).2.1

end Laid
end Curly
