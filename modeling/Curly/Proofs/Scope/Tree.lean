import Curly.Proofs.Scope.Path
import Curly.Proofs.Scope.Steps

/-! The frames of a program. They are numbered in the order in which their scopes are opened, and
the lists of their children make up the tree of the scopes of the program. -/
namespace Curly

/-- A scope with the scopes directly in it, in order. -/
inductive ScopeTree where
  | node (inner : List ScopeTree)

mutual

/-- The scopes that are opened directly in a statement. The body of a for loop is a scope within the
one of its head; the braces of functions open no scope of their own. -/
def Stmt.forest : Stmt → List ScopeTree
  | .function _ _ _ body _ | .main body _ | .block body | .whileLoop _ body _
  | .doLoop body _ _ => [.node body.forest]
  | .branch _ yes no _ =>
    .node yes.forest ::
      match no with
      | none => []
      | some no => [.node no.forest]
  | .forLoop initial _ _ body _ =>
    [.node ((match initial with
      | none => []
      | some initial => initial.forest) ++ [.node body.forest])]
  | .switch _ cases fallback _ =>
    armsForest cases ++
      match fallback with
      | none => []
      | some fallback => [.node fallback.forest]
  | .variable .. | .prototype .. | .enumeration .. | .giveBack .. | .leave _ | .print ..
  | .evaluate .. | .inclusion .. => []
termination_by structural s => s

def Block.forest : Block → List ScopeTree
  | ⟨body, _⟩ => bodyForest body
termination_by structural body => body

def bodyForest : List Stmt → List ScopeTree
  | [] => []
  | s :: others => s.forest ++ bodyForest others
termination_by structural body => body

def armsForest : List Case → List ScopeTree
  | [] => []
  | ⟨_, body, _⟩ :: others => .node body.forest :: armsForest others
termination_by structural cases => cases

end

/-- The tree of the scopes of a program, with the global one at its root. -/
def Program.tree (p : Program) : ScopeTree :=
  .node (bodyForest p.body)

/-- How a frame is placed among the others. -/
structure Frame.Links where
  level : Nat
  parent : Option FrameId
  children : List FrameId
deriving DecidableEq, Repr

namespace Frame.Links

def withChildren (ids : List FrameId) (l : Links) : Links :=
  { l with children := l.children ++ ids }

theorem withChildren_nil : withChildren [] = id :=
  funext fun l => congrArg (Links.mk l.level l.parent) (List.append_nil _)

theorem withChildren_comp (first second : List FrameId) :
    withChildren second ∘ withChildren first = withChildren (first ++ second) :=
  funext fun l => congrArg (Links.mk l.level l.parent) (List.append_assoc ..)

end Frame.Links

def Frame.links (f : Frame) : Frame.Links :=
  ⟨f.level, f.parent, f.children⟩

mutual

def ScopeTree.size : ScopeTree → Nat
  | .node inner => forestSize inner + 1
termination_by structural tree => tree

def forestSize : List ScopeTree → Nat
  | [] => 0
  | tree :: others => tree.size + forestSize others
termination_by structural forest => forest

end

/-- The numbers of the roots, if frames are numbered tree by tree from a first number. -/
def rootsFrom (id : FrameId) : List ScopeTree → List FrameId
  | [] => []
  | tree :: others => id :: rootsFrom (id + tree.size) others

mutual

/-- The frames of a tree: the root with its level, its parent and its number, and behind it the
frames of the scopes in it, tree by tree. -/
def ScopeTree.links (level : Nat) (parent : Option FrameId) (id : FrameId) :
    ScopeTree → List Frame.Links
  | .node inner =>
    ⟨level, parent, rootsFrom (id + 1) inner⟩ :: forestLinks (level + 1) (some id) (id + 1) inner
termination_by structural tree => tree

def forestLinks (level : Nat) (parent : Option FrameId) (id : FrameId) :
    List ScopeTree → List Frame.Links
  | [] => []
  | tree :: others =>
    tree.links level parent id ++ forestLinks level parent (id + tree.size) others
termination_by structural forest => forest

end

mutual

theorem ScopeTree.length_links : (tree : ScopeTree) → (level : Nat) → (parent : Option FrameId) →
    (id : FrameId) → (tree.links level parent id).length = tree.size
  | .node inner, _, _, _ => congrArg (· + 1) (length_forestLinks inner _ _ _)
termination_by structural tree => tree

theorem length_forestLinks : (forest : List ScopeTree) → (level : Nat) →
    (parent : Option FrameId) → (id : FrameId) →
    (forestLinks level parent id forest).length = forestSize forest
  | [], _, _, _ => rfl
  | tree :: others, _, _, _ => by
    rw [forestLinks, List.length_append, tree.length_links, length_forestLinks others]
    rfl
termination_by structural forest => forest

end

theorem rootsFrom_append (id : FrameId) (first second : List ScopeTree) :
    rootsFrom id (first ++ second) =
      rootsFrom id first ++ rootsFrom (id + forestSize first) second := by
  induction first generalizing id with
  | nil => rfl
  | cons tree others ih =>
    rw [List.cons_append, rootsFrom, ih, Nat.add_assoc]
    rfl

theorem forestLinks_append (level : Nat) (parent : Option FrameId) (id : FrameId)
    (first second : List ScopeTree) :
    forestLinks level parent id (first ++ second) =
      forestLinks level parent id first ++
        forestLinks level parent (id + forestSize first) second := by
  induction first generalizing id with
  | nil => rfl
  | cons tree others ih =>
    rw [List.cons_append, forestLinks, ih, forestLinks, List.append_assoc, Nat.add_assoc]
    rfl

namespace Table

variable {t : Table}

def links (t : Table) : List Frame.Links :=
  t.frames.toList.map Frame.links

/-- The tree that the lists of children lead to from a frame, down to some depth. -/
def treeFrom (t : Table) : Nat → FrameId → ScopeTree
  | 0, _ => .node []
  | depth + 1, id =>
    .node ((((t.links[id]?).map Frame.Links.children).getD []).map (t.treeFrom depth))

theorem length_links (t : Table) : t.links.length = t.size := by
  simp [links, size]

theorem links_modify {change : Frame → Frame} (relink : Frame.Links → Frame.Links)
    (same : ∀ f, (change f).links = relink f.links) :
    (t.modify change).links = t.links.modify t.current relink := by
  refine List.ext_getElem? fun id => ?_
  simp only [links, modify, Array.toList_modify, List.getElem?_map, List.getElem?_modify]
  split <;> simp [Function.comp_def, same]

theorem links_enter : t.enter.links =
    t.links.modify t.current (.withChildren [t.size]) ++ [⟨t.level + 1, some t.current, []⟩] := by
  let change (f : Frame) : Frame := { f with children := f.children ++ [t.size] }
  have changed : (t.modify change).links = t.links.modify t.current (.withChildren [t.size]) :=
    links_modify _ fun _ => rfl
  rw [← changed]
  simp [links, enter, change]
  rfl

theorem level_of_links (t : Table) :
    t.level = ((t.links[t.current]?).map Frame.Links.level).getD 0 := by
  unfold level currentFrame frame? links
  rw [List.getElem?_map, Array.getElem?_toList]
  cases t.frames[t.current]? <;> rfl

end Table

theorem modify_append_of_lt {α : Type} {first : List α} (second : List α) {i : Nat}
    (early : i < first.length) (f : α → α) :
    (first ++ second).modify i f = first.modify i f ++ second := by
  induction first generalizing i with
  | nil => exact absurd early (Nat.not_lt_zero i)
  | cons a others ih =>
    cases i with
    | zero => simp
    | succ i => simp [ih (Nat.lt_of_succ_lt_succ early)]

theorem modify_concat {α : Type} (first : List α) (a : α) (f : α → α) :
    (first ++ [a]).modify first.length f = first ++ [f a] := by
  induction first with
  | nil => rfl
  | cons b others ih => simp [ih]

/-- From a table to a later one, scopes are opened and left again, in the current frame. -/
structure Sprouts (forest : List ScopeTree) (t u : Table) : Prop where
  current : u.current = t.current
  outer : u.outer = t.outer
  links : u.links = t.links.modify t.current (.withChildren (rootsFrom t.size forest)) ++
    forestLinks (t.level + 1) (some t.current) t.size forest

namespace Sprouts

variable {forest more inner : List ScopeTree} {t u v : Table}

theorem modify {change : Frame → Frame} (same : ∀ f, (change f).links = f.links) :
    Sprouts [] t (t.modify change) := by
  refine ⟨rfl, rfl, ?_⟩
  rw [Table.links_modify id same, forestLinks, List.append_nil, rootsFrom,
    Frame.Links.withChildren_nil]

theorem refl (t : Table) : Sprouts [] t t := by
  refine ⟨rfl, rfl, ?_⟩
  rw [forestLinks, List.append_nil, rootsFrom, Frame.Links.withChildren_nil, List.modify_id]

theorem size (sprouts : Sprouts forest t u) : u.size = t.size + forestSize forest := by
  rw [← u.length_links, sprouts.links, List.length_append, List.length_modify, t.length_links,
    length_forestLinks]

theorem level (linked : t.Linked) (sprouts : Sprouts forest t u) : u.level = t.level := by
  have inside : t.current < t.links.length := by
    rw [t.length_links]
    exact linked.present
  rw [u.level_of_links, t.level_of_links, sprouts.current, sprouts.links,
    List.getElem?_append_left (by rwa [List.length_modify]), List.getElem?_modify]
  cases t.links[t.current]? <;> simp [Frame.Links.withChildren]

theorem linked (sprouts : Sprouts forest t u) (linked : t.Linked) : u.Linked := by
  refine ⟨?_, ?_⟩
  · rw [sprouts.current, sprouts.size]
    exact Nat.lt_add_right _ linked.present
  · rw [sprouts.current, sprouts.outer]
    exact linked.older

theorem trans (linked : t.Linked) (first : Sprouts forest t u) (second : Sprouts more u v) :
    Sprouts (forest ++ more) t v := by
  refine ⟨second.current.trans first.current, second.outer.trans first.outer, ?_⟩
  have inside : t.current < (t.links.modify t.current
      (.withChildren (rootsFrom t.size forest))).length := by
    rw [List.length_modify, t.length_links]
    exact linked.present
  rw [second.links, first.level linked, first.size, first.current, first.links,
    modify_append_of_lt _ inside, List.modify_modify_eq, Frame.Links.withChildren_comp,
    ← rootsFrom_append, List.append_assoc, ← forestLinks_append]

/-- A scope is opened and left. -/
theorem scope (inside : Sprouts inner t.enter u) :
    Sprouts [.node inner] t u.exit := by
  have left : u.exit = { u with current := t.current, outer := t.outer } := by
    have outer : u.outer = t.current :: t.outer := inside.outer
    rw [Table.exit, outer]
  have entered : t.enter.size = t.size + 1 := by simp [Table.enter, Table.modify, Table.size]
  have last : t.enter.current =
      (t.links.modify t.current (.withChildren [t.size])).length := by
    rw [List.length_modify, t.length_links]
    rfl
  have level : t.enter.level = t.level + 1 := by
    rw [Table.level_of_links, Table.links_enter, last, List.getElem?_concat_length]
    rfl
  have grown : t.enter.links.modify t.enter.current (.withChildren (rootsFrom (t.size + 1) inner)) =
      t.links.modify t.current (.withChildren [t.size]) ++
        [⟨t.level + 1, some t.current, rootsFrom (t.size + 1) inner⟩] := by
    rw [Table.links_enter, last]
    exact modify_concat ..
  have links := inside.links
  rw [level, entered, grown, List.append_assoc] at links
  rw [left]
  refine ⟨rfl, rfl, links.trans ?_⟩
  rw [forestLinks, forestLinks, List.append_nil, ScopeTree.links]
  rfl

end Sprouts

namespace Analysis

variable {forest more : List ScopeTree} {steps first second : List Step}

/-- Steps that open and leave some scopes, wherever they begin. -/
def Grows (steps : List Step) (forest : List ScopeTree) : Prop :=
  ∀ (declared : String → Bool) (a : Analysis), a.table.Linked →
    Sprouts forest a.table (run declared steps a).table

theorem grows_nil : Grows [] [] :=
  fun _ a _ => .refl a.table

theorem Grows.append (before : Grows first forest) (behind : Grows second more) :
    Grows (first ++ second) (forest ++ more) := by
  intro declared a linked
  have early := before declared a linked
  rw [run_append]
  exact early.trans linked (behind declared _ (early.linked linked))

theorem Grows.inScope (grows : Grows steps forest) : Grows (inScope steps) [.node forest] := by
  intro declared a linked
  rw [run_inScope]
  exact .scope (grows declared a.enter linked.enter)

theorem sprouts_obey (a : Analysis) (name : String) (position : Position) :
    (ruling : Ruling) → Sprouts [] a.table (a.obey name position ruling).table
  | .add _ | .complete _ => .modify fun _ => rfl
  | .ignore | .reject _ => .refl a.table

theorem sprouts_enumValues {a : Analysis} (linked : a.table.Linked) (earlier : List String)
    (values : List Identifier) : Sprouts [] a.table (enumValues earlier values a).table := by
  induction values generalizing earlier a with
  | nil => exact .refl a.table
  | cons value others ih =>
    have first := sprouts_obey a value.name value.span.start (.onEnumValue a.table earlier value)
    exact first.trans linked (ih (first.linked linked) _)

theorem sprouts_enumeration {a : Analysis} (linked : a.table.Linked) (name : String)
    (values : List Identifier) (position : Position) :
    Sprouts [] a.table (enumeration name values position a).table := by
  have first := sprouts_obey a name position (.onEnumeration a.table name position)
  unfold enumeration
  dsimp only
  split
  · exact first
  · exact first.trans linked (sprouts_enumValues (first.linked linked) [] values)

/-- Nothing but opening and leaving scopes moves in the tree. -/
theorem grows_single {s : Step} (stays : s ≠ .opens ∧ s ≠ .closes) : Grows [s] [] := by
  intro declared a linked
  match s with
  | .opens => exact absurd rfl stays.1
  | .closes => exact absurd rfl stays.2
  | .uses o =>
    simp only [run, List.foldl, step, resolve]
    split <;> exact .refl a.table
  | .variable .. | .prototype .. | .function .. | .main _ | .param .. => exact sprouts_obey ..
  | .enumeration name values position => exact sprouts_enumeration linked name values position

theorem Grows.cons {s : Step} (stays : s ≠ .opens ∧ s ≠ .closes) (behind : Grows steps forest) :
    Grows (s :: steps) forest :=
  (grows_single stays).append behind

theorem grows_uses (os : List Occurrence) : Grows (os.map .uses) [] := by
  induction os with
  | nil => exact grows_nil
  | cons o others ih => exact ih.cons ⟨nofun, nofun⟩

theorem grows_optional (e : Option Expr) : Grows (optionalSteps e) [] := by
  cases e with
  | none => exact grows_nil
  | some e => exact grows_uses e.occurrences

theorem grows_params (earlier : List String) (ps : List Param) :
    Grows (paramSteps earlier ps) [] := by
  induction ps generalizing earlier with
  | nil => exact grows_nil
  | cons p others ih => exact (ih _).cons ⟨nofun, nofun⟩

mutual

theorem grows_stmt : (s : Stmt) → Grows s.steps s.forest
  | .variable _ _ initial _ => (grows_optional initial).append (grows_single ⟨nofun, nofun⟩)
  | .prototype .. | .enumeration .. => grows_single ⟨nofun, nofun⟩
  | .function _ _ ps body _ => by
    have inside := ((grows_params [] ps).append (grows_block body)).inScope
    exact inside.cons ⟨nofun, nofun⟩
  | .main body _ => (grows_block body).inScope.cons ⟨nofun, nofun⟩
  | .block body => (grows_block body).inScope
  | .branch e yes none _ =>
    ((grows_uses e.occurrences).append (grows_block yes).inScope).append grows_nil
  | .branch e yes (some no) _ =>
    ((grows_uses e.occurrences).append (grows_block yes).inScope).append (grows_block no).inScope
  | .whileLoop e body _ => (grows_uses e.occurrences).append (grows_block body).inScope
  | .doLoop body e _ => (grows_block body).inScope.append (grows_uses e.occurrences)
  | .forLoop none e update body _ =>
    (((grows_nil.append (grows_optional e)).append (grows_optional update)).append
      (grows_block body).inScope).inScope
  | .forLoop (some initial) e update body _ => by
    have head := ((grows_stmt initial).append (grows_optional e)).append (grows_optional update)
    rw [List.append_nil, List.append_nil] at head
    exact (head.append (grows_block body).inScope).inScope
  | .switch e cases none _ =>
    ((grows_uses e.occurrences).append (grows_arms cases)).append grows_nil
  | .switch e cases (some fallback) _ =>
    ((grows_uses e.occurrences).append (grows_arms cases)).append (grows_block fallback).inScope
  | .giveBack value _ => grows_optional value
  | .print .. => grows_uses _
  | .evaluate e _ => grows_uses e.occurrences
  | .leave _ | .inclusion .. => grows_nil
termination_by structural s => s

theorem grows_block : (body : Block) → Grows body.steps body.forest
  | ⟨body, _⟩ => grows_stmts body
termination_by structural body => body

theorem grows_stmts : (body : List Stmt) → Grows (bodySteps body) (bodyForest body)
  | [] => grows_nil
  | s :: others => (grows_stmt s).append (grows_stmts others)
termination_by structural body => body

theorem grows_arms : (cases : List Case) → Grows (armsSteps cases) (armsForest cases)
  | [] => grows_nil
  | ⟨value, body, _⟩ :: others =>
    ((grows_uses value.occurrences).append (grows_block body).inScope).append (grows_arms others)
termination_by structural cases => cases

end

end Analysis

namespace Table

variable {t : Table}

mutual

/-- Where the frames of a tree stand one behind the other, the children lead to this tree. -/
theorem treeFrom_eq : (tree : ScopeTree) → (level : Nat) → (parent : Option FrameId) →
    (id depth : Nat) → tree.size ≤ depth → tree.links level parent id <+: t.links.drop id →
    t.treeFrom depth id = tree
  | .node inner, level, parent, id, 0, deep, _ => absurd deep (Nat.not_succ_le_zero _)
  | .node inner, level, parent, id, depth + 1, deep, listed => by
    obtain ⟨behind, listed⟩ := listed
    have here : t.links[id]? = some ⟨level, parent, rootsFrom (id + 1) inner⟩ := by
      rw [← Nat.add_zero id, ← List.getElem?_drop, ← listed]
      rfl
    have inside : forestLinks (level + 1) (some id) (id + 1) inner <+: t.links.drop (id + 1) := by
      rw [← List.drop_drop, ← listed]
      exact ⟨behind, rfl⟩
    rw [treeFrom, here]
    exact congrArg ScopeTree.node
      (forestFrom_eq inner _ _ _ depth (Nat.le_of_succ_le_succ deep) inside)
termination_by structural tree => tree

theorem forestFrom_eq : (forest : List ScopeTree) → (level : Nat) → (parent : Option FrameId) →
    (id depth : Nat) → forestSize forest ≤ depth →
    forestLinks level parent id forest <+: t.links.drop id →
    (rootsFrom id forest).map (t.treeFrom depth) = forest
  | [], _, _, _, _, _, _ => rfl
  | tree :: others, level, parent, id, depth, deep, listed => by
    have first := treeFrom_eq tree level parent id depth (Nat.le_trans (Nat.le_add_right ..) deep)
      ((List.prefix_append _ _).trans listed)
    have behind : forestLinks level parent (id + tree.size) others <+:
        t.links.drop (id + tree.size) := by
      obtain ⟨rest, listed⟩ := listed
      refine ⟨rest, ?_⟩
      rw [← List.drop_drop, ← listed, forestLinks, List.append_assoc,
        List.drop_left' (tree.length_links level parent id)]
    have second := forestFrom_eq others level parent (id + tree.size) depth
      (Nat.le_trans (Nat.le_add_left ..) deep) behind
    rw [rootsFrom, List.map_cons, first, second]
termination_by structural forest => forest

end

end Table

/-- Whatever a program is like, its analysis ends in the global scope. Its frames are those of the
tree of its scopes, in the order in which they are opened, and each has as its level the number of
scopes around it. The children lead from the global frame to this tree again. -/
theorem analyze_tree (p : Program) :
    (analyze p).table.current = 0 ∧ (analyze p).table.outer = [] ∧
      (analyze p).table.links = p.tree.links 0 none 0 ∧
      (analyze p).table.treeFrom (analyze p).table.size 0 = p.tree := by
  have sprouts := Analysis.grows_stmts p.body (isDeclared (declarations p.body)) .empty
    Table.linked_empty
  rw [← Program.steps, ← analyze_eq_run] at sprouts
  have links : (analyze p).table.links = p.tree.links 0 none 0 := sprouts.links
  have size : (analyze p).table.size = p.tree.size := by
    rw [← Table.length_links, links, ScopeTree.length_links]
  refine ⟨sprouts.current, sprouts.outer, links, ?_⟩
  exact Table.treeFrom_eq p.tree 0 none 0 _ (Nat.le_of_eq size.symm) (links ▸ List.prefix_rfl)

/-- `int main() { for (;;) { } { } }` -/
example :
    let empty : Block := ⟨[], default⟩
    let main : Block := ⟨[.forLoop none none none empty default, .block empty], default⟩
    (analyze ⟨[.main main default], default⟩).table.links =
      [⟨0, none, [1]⟩, ⟨1, some 0, [2, 4]⟩, ⟨2, some 1, [3]⟩, ⟨3, some 2, []⟩,
        ⟨2, some 1, []⟩] :=
  rfl

end Curly
