import Curly.Proofs.Scope.Globals

/-! The table of scopes is a stack to those who use it. Frames stay in the table for good, but what
a lookup finds depends on a stack of maps from names to symbols only: entering a scope pushes an
empty map, leaving it pops the map again, and everything else touches the map on top. -/
namespace Curly

/-- A change of the current scope. -/
inductive Change where
  | declare (s : Symbol)
  | complete (name : String)
  | completeOverload (name : String) (params : List Ty)

inductive Move where
  | enter
  | exit
  | change (c : Change)

/-- Moves that leave each scope that they enter, and no other. -/
inductive Balanced : List Move → Prop
  | nil : Balanced []
  | change (c : Change) {rest : List Move} : Balanced rest → Balanced (.change c :: rest)
  | scope {inside rest : List Move} : Balanced inside → Balanced rest →
    Balanced (.enter :: (inside ++ .exit :: rest))

/-- All that can be asked about the current scope and those around it. -/
structure Answers where
  lookup : String → Option Symbol
  lookupAll : String → List Symbol
  lookupEnclosing : String → Option Symbol
  lookupLocal : String → Option Symbol
  lookupLocalAll : String → List Symbol
  level : Nat

/-- What each name stands for in one scope, in the order of declaration. -/
abbrev Bindings : Type := String → List Symbol

def Bindings.of (scope : List Symbol) : Bindings :=
  fun name => scope.filter (·.name = name)

/-- A stack of environments, which is never empty. -/
structure Environments where
  top : Bindings
  below : List Bindings

namespace Environments

def empty : Environments :=
  ⟨fun _ => [], []⟩

def enter (e : Environments) : Environments :=
  ⟨fun _ => [], e.top :: e.below⟩

def exit (e : Environments) : Environments :=
  match e.below with
  | [] => e
  | next :: below => ⟨next, below⟩

/-- Another list of symbols for one name, in the top environment. -/
def update (e : Environments) (name : String) (f : List Symbol → List Symbol) : Environments :=
  { e with top := fun other => if other = name then f (e.top name) else e.top other }

def change (e : Environments) : Change → Environments
  | .declare s => e.update s.name (· ++ [s])
  | .complete name => e.update name (·.modifyHead Symbol.completed)
  | .completeOverload name params => e.update name fun symbols =>
    symbols.modify (symbols.findIdx (·.params? = some params)) Symbol.completed

def move (e : Environments) : Move → Environments
  | .enter => e.enter
  | .exit => e.exit
  | .change c => e.change c

def moved (e : Environments) (moves : List Move) : Environments :=
  moves.foldl move e

/-- The symbols of a name in the first of the environments that has any. -/
def search (name : String) : List Bindings → List Symbol
  | [] => []
  | e :: others => if e name = [] then search name others else e name

def answers (e : Environments) : Answers where
  lookup name := (search name (e.top :: e.below)).head?
  lookupAll name := search name (e.top :: e.below)
  lookupEnclosing name := (search name e.below).head?
  lookupLocal name := (e.top name).head?
  lookupLocalAll name := e.top name
  level := e.below.length

theorem moved_append (first second : List Move) (e : Environments) :
    e.moved (first ++ second) = (e.moved first).moved second :=
  List.foldl_append

/-- A scope in which only its own environment is touched leaves nothing behind. -/
theorem moved_scope {inside : List Move}
    (own : ∀ e : Environments, (e.moved inside).below = e.below) (e : Environments)
    (after : List Move) : e.moved (.enter :: (inside ++ .exit :: after)) = e.moved after := by
  have left : (e.enter.moved inside).exit = e := by
    rw [exit, own e.enter]
    rfl
  exact (moved_append inside (.exit :: after) e.enter).trans (congrArg (moved · after) left)

theorem below_moved {moves : List Move} (balanced : Balanced moves) (e : Environments) :
    (e.moved moves).below = e.below := by
  induction balanced generalizing e with
  | nil => rfl
  | change c _ ih =>
    have same : (e.change c).below = e.below := by cases c <;> rfl
    exact (ih (e.change c)).trans same
  | scope _ _ inner outer => rw [moved_scope inner, outer]

end Environments

theorem completeFirst_eq (p : Symbol → Bool) (symbols : List Symbol) :
    Frame.completeFirst p symbols = symbols.modify (symbols.findIdx p) Symbol.completed := by
  induction symbols with
  | nil => rfl
  | cons s others ih =>
    rw [Frame.completeFirst, List.findIdx_cons]
    cases p s <;> simp [ih]

/-- Completing the first symbol of a name completes the first of those that the name stands for. -/
theorem Bindings.of_completeFirst (name : String) (p : Symbol → Bool) (scope : List Symbol) :
    of (Frame.completeFirst (fun s => s.name = name && p s) scope) =
      fun other =>
        if other = name then Frame.completeFirst p (of scope name) else of scope other := by
  funext other
  induction scope with
  | nil => simp [Frame.completeFirst, of]
  | cons s others ih =>
    unfold of at ih ⊢
    by_cases same : s.name = name
    · obtain rfl := same
      cases holds : p s <;> by_cases here : other = s.name
      · obtain rfl := here
        simpa [Frame.completeFirst, holds] using ih
      · simpa [Frame.completeFirst, holds, here, Ne.symm here] using ih
      · obtain rfl := here
        simp [Frame.completeFirst, holds]
      · simp [Frame.completeFirst, holds, here, Ne.symm here]
    · by_cases here : other = name
      · obtain rfl := here
        simpa [Frame.completeFirst, same] using ih
      · rw [if_neg here] at ih ⊢
        simp [Frame.completeFirst, same, List.filter_cons, ih]

theorem Bindings.of_append (scope : List Symbol) (s : Symbol) :
    of (scope ++ [s]) =
      fun other => if other = s.name then of scope s.name ++ [s] else of scope other := by
  funext other
  unfold of
  by_cases here : other = s.name
  · obtain rfl := here
    simp
  · simp [here, Ne.symm here]

namespace Scopes

theorem visible_eq_search (scopes : Scopes) (name : String) :
    scopes.visible name = Environments.search name (scopes.map Bindings.of) := by
  induction scopes with
  | nil => rfl
  | cons scope around ih =>
    rw [visible, List.map_cons, Environments.search, ih]
    unfold Bindings.of
    cases scope.filter (·.name = name) <;> rfl

end Scopes

namespace Table

variable {t : Table}

def change (t : Table) : Change → Table
  | .declare s => t.declare s
  | .complete name => t.complete name
  | .completeOverload name params => t.completeOverload name params

def move (t : Table) : Move → Table
  | .enter => t.enter
  | .exit => t.exit
  | .change c => t.change c

def moved (t : Table) (moves : List Move) : Table :=
  moves.foldl move t

def answers (t : Table) : Answers where
  lookup := t.lookup
  lookupAll := t.lookupAll
  lookupEnclosing := t.lookupEnclosing
  lookupLocal := t.lookupLocal
  lookupLocalAll := t.lookupLocalAll
  level := t.level

/-- What the frames on the way outwards have declared. -/
def environments (t : Table) : Environments :=
  ⟨.of (t.frameSymbols t.current), (t.outer.map t.frameSymbols).map .of⟩

/-- The frame around a frame, and its level. -/
def link? (t : Table) (id : FrameId) : Option (Option FrameId × Nat) :=
  (t.frame? id).map fun f => (f.parent, f.level)

/-- The links from a frame outwards lead through the frames listed, the last of which is around
all others. The level of a frame is the number of those around it. -/
def Rises (t : Table) : FrameId → List FrameId → Prop
  | id, [] => t.link? id = some (none, 0)
  | id, parent :: others =>
    t.link? id = some (some parent, others.length + 1) ∧ t.Rises parent others

theorem Rises.congr {u : Table} {id : FrameId} {ids : List FrameId}
    (same : ∀ i ∈ id :: ids, u.link? i = t.link? i) (rises : t.Rises id ids) : u.Rises id ids := by
  induction ids generalizing id with
  | nil => exact (same id List.mem_cons_self).trans rises
  | cons parent others ih =>
    refine ⟨(same id List.mem_cons_self).trans rises.1, ih ?_ rises.2⟩
    exact fun i member => same i (List.mem_cons_of_mem id member)

theorem link?_modify (change : Frame → Frame)
    (same : ∀ f, (change f).parent = f.parent ∧ (change f).level = f.level) (id : FrameId) :
    (t.modify change).link? id = t.link? id := by
  simp only [link?, frame?, modify, Array.getElem?_modify]
  split
  · cases t.frames[id]? <;> simp [same]
  · rfl

theorem link?_enter (id : FrameId) :
    t.enter.link? id = if id = t.size then some (some t.current, t.level + 1) else t.link? id := by
  let change (f : Frame) : Frame := { f with children := f.children ++ [t.size] }
  have sized : (t.modify change).frames.size = t.size := by simp [modify, size]
  have pushed : t.enter.frame? id = if id = t.size then
      some ⟨t.level + 1, some t.current, [], []⟩ else (t.modify change).frame? id := by
    rw [← sized]
    exact Array.getElem?_push
  rw [link?, pushed]
  split
  · rfl
  · exact link?_modify change (fun _ => ⟨rfl, rfl⟩) id

/-- The path that the table keeps is the one that the links from the current frame lead along. -/
structure Stacked (t : Table) : Prop where
  linked : t.Linked
  rises : t.Rises t.current t.outer

namespace Stacked

theorem level (stacked : t.Stacked) : t.level = t.outer.length := by
  have rises := stacked.rises
  unfold Table.level currentFrame
  cases outer : t.outer with
  | nil =>
    rw [outer] at rises
    obtain ⟨f, found, same⟩ := Option.map_eq_some_iff.mp rises
    rw [found]
    exact congrArg Prod.snd same
  | cons parent others =>
    rw [outer] at rises
    obtain ⟨f, found, same⟩ := Option.map_eq_some_iff.mp rises.1
    rw [found]
    exact congrArg Prod.snd same

theorem empty : Stacked .empty :=
  ⟨linked_empty, rfl⟩

theorem modify (stacked : t.Stacked) (change : Frame → Frame)
    (same : ∀ f, (change f).parent = f.parent ∧ (change f).level = f.level) :
    (t.modify change).Stacked :=
  ⟨stacked.linked.modify change, stacked.rises.congr fun id _ => link?_modify change same id⟩

theorem enter (stacked : t.Stacked) : t.enter.Stacked := by
  have fresh : t.enter.link? t.size = some (some t.current, t.outer.length + 1) := by
    rw [link?_enter, if_pos rfl, stacked.level]
  refine ⟨stacked.linked.enter, fresh, ?_⟩
  · refine stacked.rises.congr fun id member => ?_
    rw [link?_enter, if_neg (Nat.ne_of_lt (stacked.linked.below member))]

theorem exit (stacked : t.Stacked) : t.exit.Stacked := by
  refine ⟨stacked.linked.exit, ?_⟩
  have rises := stacked.rises
  unfold Table.exit
  split
  · exact rises
  next parent outer known =>
    rw [known] at rises
    have path : Rises ⟨t.frames, parent, outer⟩ parent outer := by
      refine Rises.congr (fun i _ => ?_) rises.2
      rfl
    exact path

theorem move (stacked : t.Stacked) : (m : Move) → (t.move m).Stacked
  | .enter => stacked.enter
  | .exit => stacked.exit
  | .change (.declare _) | .change (.complete _) | .change (.completeOverload ..) =>
    stacked.modify _ fun _ => ⟨rfl, rfl⟩

theorem answers (stacked : t.Stacked) : t.answers = t.environments.answers := by
  have all (name : String) :
      t.lookupAll name = Environments.search name (t.scopes.map Bindings.of) := by
    rw [lookupAll_eq, Scopes.visible_eq_search]
  have enclosing (name : String) : t.search name t.outer =
      Environments.search name ((t.outer.map t.frameSymbols).map Bindings.of) := by
    rw [search_eq, Scopes.visible_eq_search]
  have here : t.lookupLocalAll = Bindings.of (t.frameSymbols t.current) :=
    funext fun name => namedIn_eq t.current name
  unfold Table.answers Environments.answers lookup lookupEnclosing lookupLocal
  rw [here]
  have everywhere : t.lookupAll = fun name =>
      Environments.search name (t.environments.top :: t.environments.below) := funext all
  rw [everywhere]
  simp only [enclosing, stacked.level]
  simp [environments]

end Stacked

theorem environments_modify (linked : t.Linked) {change : Frame → Frame}
    (after : List Symbol → List Symbol) (same : ∀ f, (change f).symbols = after f.symbols) :
    (t.modify change).environments =
      { t.environments with top := .of (after (t.frameSymbols t.current)) } := by
  obtain ⟨here, around⟩ := List.cons.inj (scopes_modify linked after same)
  have kept : t.outer.map (t.modify change).frameSymbols = t.outer.map t.frameSymbols := around
  have top : (t.modify change).frameSymbols t.current = after (t.frameSymbols t.current) := here
  rw [environments, environments, show (t.modify change).current = t.current from rfl, top]
  exact congrArg (fun scopes => Environments.mk _ (scopes.map .of)) kept

theorem environments_enter (linked : t.Linked) : t.enter.environments = t.environments.enter := by
  obtain ⟨here, around⟩ := List.cons.inj (scopes_enter linked)
  rw [environments, here]
  exact congrArg (fun scopes => Environments.mk _ (scopes.map .of)) around

theorem environments_exit : t.exit.environments = t.environments.exit := by
  unfold Table.exit Environments.exit environments
  cases outer : t.outer with
  | nil => simp [outer]
  | cons parent others => rfl

theorem environments_change (linked : t.Linked) (c : Change) :
    (t.change c).environments = t.environments.change c := by
  cases c with
  | declare s =>
    refine (environments_modify linked (· ++ [s]) fun _ => rfl).trans ?_
    rw [Bindings.of_append]
    rfl
  | complete name =>
    refine (environments_modify linked (Frame.completeFirst fun s => s.name = name && true)
      fun _ => by simp [Frame.complete]).trans ?_
    have first (symbols : List Symbol) :
        Frame.completeFirst (fun _ => true) symbols = symbols.modifyHead Symbol.completed := by
      cases symbols <;> rfl
    rw [Bindings.of_completeFirst, first]
    rfl
  | completeOverload name params =>
    refine (environments_modify linked
      (Frame.completeFirst fun s => s.name = name && s.params? = some params) fun _ => rfl).trans ?_
    rw [Bindings.of_completeFirst, completeFirst_eq]
    rfl

/-- One move of the table is the same move of the stack. -/
theorem environments_move (linked : t.Linked) (m : Move) :
    (t.move m).environments = t.environments.move m := by
  cases m with
  | enter => exact environments_enter linked
  | exit => exact environments_exit
  | change c => exact environments_change linked c

theorem stacked_moved (moves : List Move) (stacked : t.Stacked) : (t.moved moves).Stacked := by
  induction moves generalizing t with
  | nil => exact stacked
  | cons m moves ih => exact ih (stacked.move m)

theorem environments_moved (moves : List Move) (stacked : t.Stacked) :
    (t.moved moves).environments = t.environments.moved moves := by
  induction moves generalizing t with
  | nil => rfl
  | cons m moves ih =>
    exact (ih (stacked.move m)).trans
      (congrArg (Environments.moved · moves) (environments_move stacked.linked m))

/-- However scopes are entered and left and whatever is declared, the table answers like a stack of
maps. The frames that it keeps on the way outwards are those that the links to parents lead to, and
what happens in a scope that is left again changes no answer after it. -/
theorem answers_moved (moves : List Move) :
    (empty.moved moves).answers = (Environments.empty.moved moves).answers ∧
      (empty.moved moves).Rises (empty.moved moves).current (empty.moved moves).outer ∧
      ∀ inside after, Balanced inside →
        (empty.moved (moves ++ .enter :: (inside ++ .exit :: after))).answers =
          (empty.moved (moves ++ after)).answers := by
  have same (moves : List Move) :
      (empty.moved moves).answers = (Environments.empty.moved moves).answers := by
    rw [(stacked_moved moves .empty).answers, environments_moved moves .empty]
    rfl
  refine ⟨same moves, (stacked_moved moves .empty).rises, fun inside after balanced => ?_⟩
  rw [same, same, Environments.moved_append, Environments.moved_append,
    Environments.moved_scope (Environments.below_moved balanced)]

/-- The variable of an inner scope hides another one only until the scope is left. -/
theorem answers_hidden :
    let outer := Move.change (.declare (.ofVariable "x" .int ⟨1, 1⟩))
    let inner := Move.change (.declare (.ofVariable "x" .float ⟨2, 3⟩))
    (empty.moved [outer, .enter, inner]).lookup "x" = some (.ofVariable "x" .float ⟨2, 3⟩) ∧
      Balanced [inner] ∧
      (empty.moved [outer, .enter, inner, .exit]).answers = (empty.moved [outer]).answers :=
  ⟨by decide, .change _ .nil, (answers_moved [_]).2.2 [_] [] (.change _ .nil)⟩

end Table
end Curly
