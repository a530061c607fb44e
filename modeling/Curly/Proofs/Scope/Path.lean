import Curly.Scope.Table

/-! The symbols and names in the frames from the current one outwards. Opening a scope adds a frame
without symbols, leaving it takes the frame away again, and a declaration adds to the first one. -/
namespace Curly

def Frame.names (f : Frame) : List String :=
  f.symbols.map Symbol.name

/-- What is declared in a scope and in those around it, from the inside out. -/
abbrev Scopes : Type := List (List Symbol)

namespace Scopes

/-- All that a name may stand for: its symbols in the nearest scope that has any. -/
def visible : Scopes → String → List Symbol
  | [], _ => []
  | scope :: around, name =>
    match scope.filter (·.name = name) with
    | [] => visible around name
    | found => found

theorem mem_of_visible {scopes : Scopes} {name : String} {s : Symbol}
    (found : s ∈ scopes.visible name) : ∃ scope ∈ scopes, s ∈ scope := by
  induction scopes with
  | nil => exact nomatch found
  | cons scope around ih =>
    unfold visible at found
    split at found
    · obtain ⟨outer, listed, member⟩ := ih found
      exact ⟨outer, .tail scope listed, member⟩
    · exact ⟨scope, .head around, (List.mem_filter.mp found).1⟩

end Scopes

namespace Table

variable {t : Table}

def frameSymbols (t : Table) (id : FrameId) : List Symbol :=
  ((t.frame? id).map Frame.symbols).getD []

def scopes (t : Table) : Scopes :=
  (t.current :: t.outer).map t.frameSymbols

def frameNames (t : Table) (id : FrameId) : List String :=
  ((t.frame? id).map Frame.names).getD []

/-- The names of the current scope and of those around it, from the inside out. -/
def names (t : Table) : List (List String) :=
  (t.current :: t.outer).map t.frameNames

/-- The current frame is there, and each frame around is older than those in it. -/
structure Linked (t : Table) : Prop where
  present : t.current < t.size
  older : (t.current :: t.outer).Pairwise (· > ·)

theorem frameNames_eq (id : FrameId) : t.frameNames id = (t.frameSymbols id).map Symbol.name := by
  unfold frameNames frameSymbols
  cases t.frame? id <;> rfl

theorem names_eq (t : Table) : t.names = t.scopes.map (·.map Symbol.name) := by
  rw [names, scopes, List.map_map]
  exact List.map_congr_left fun id _ => frameNames_eq id

theorem namedIn_eq (id : FrameId) (name : String) :
    t.namedIn id name = (t.frameSymbols id).filter (·.name = name) := by
  unfold namedIn frameSymbols
  cases t.frame? id <;> rfl

theorem search_eq (name : String) (ids : List FrameId) :
    t.search name ids = Scopes.visible (ids.map t.frameSymbols) name := by
  induction ids with
  | nil => rfl
  | cons id others ih =>
    rw [search, ih, namedIn_eq]
    rfl

theorem lookupAll_eq (name : String) : t.lookupAll name = t.scopes.visible name :=
  search_eq name (t.current :: t.outer)

theorem namedIn_eq_nil_iff (id : FrameId) (name : String) :
    t.namedIn id name = [] ↔ name ∉ t.frameNames id := by
  simp [namedIn_eq, frameNames_eq]

theorem search_ne_nil_iff (name : String) (ids : List FrameId) :
    t.search name ids ≠ [] ↔ ∃ scope ∈ ids.map t.frameNames, name ∈ scope := by
  induction ids with
  | nil => simp [search]
  | cons id others ih =>
    have here := namedIn_eq_nil_iff (t := t) id name
    simp only [List.map_cons, List.mem_cons, exists_eq_or_imp, ← ih, search]
    cases found : t.namedIn id name <;> simp_all

/-- A name stands for something in the frame so far out. -/
def Knows (t : Table) (out : Nat) (name : String) : Prop :=
  ∃ scope, t.names[out]? = some scope ∧ name ∈ scope

theorem knows_zero_iff (name : String) : t.Knows 0 name ↔ name ∈ t.frameNames t.current := by
  simp [Knows, names]

/-- A name is found if one of the frames around knows it. -/
theorem lookup_isSome_iff (name : String) :
    (t.lookup name).isSome ↔ ∃ out, t.Knows out name := by
  rw [lookup, List.isSome_head?, lookupAll, search_ne_nil_iff name (t.current :: t.outer)]
  constructor
  · rintro ⟨scope, listed, member⟩
    obtain ⟨out, here⟩ := List.mem_iff_getElem?.mp listed
    exact ⟨out, scope, here, member⟩
  · rintro ⟨out, scope, here, member⟩
    exact ⟨scope, List.mem_of_getElem? here, member⟩

theorem mem_of_lookupLocalAll {s : Symbol} {name : String} (found : s ∈ t.lookupLocalAll name) :
    name ∈ t.frameNames t.current :=
  Decidable.byContradiction fun absent => by
    rw [lookupLocalAll, (namedIn_eq_nil_iff t.current name).mpr absent] at found
    exact nomatch found

theorem linked_empty : Linked .empty :=
  ⟨Nat.zero_lt_one, List.pairwise_singleton ..⟩

namespace Linked

theorem modify (linked : t.Linked) (change : Frame → Frame) : (t.modify change).Linked := by
  refine ⟨?_, linked.older⟩
  simpa [Table.modify, size] using linked.present

theorem below (linked : t.Linked) {id : FrameId} (member : id ∈ t.current :: t.outer) :
    id < t.size := by
  rcases List.mem_cons.mp member with rfl | member
  · exact linked.present
  · exact Nat.lt_trans ((List.pairwise_cons.mp linked.older).1 id member) linked.present

theorem enter (linked : t.Linked) : t.enter.Linked :=
  ⟨by simp [Table.enter, size, Table.modify], .cons (fun _ => linked.below) linked.older⟩

theorem exit (linked : t.Linked) : t.exit.Linked := by
  have older := linked.older
  unfold Table.exit
  split
  · exact linked
  next parent outer known =>
    refine ⟨linked.below ?_, ?_⟩
    · simp [known]
    · rw [known] at older
      exact (List.pairwise_cons.mp older).2

end Linked

theorem frame?_modify (t : Table) (change : Frame → Frame) (id : FrameId) :
    (t.modify change).frame? id =
      if t.current = id then (t.frame? id).map change else t.frame? id := by
  simp only [frame?, modify, Array.getElem?_modify]

theorem frameSymbols_modify (linked : t.Linked) {change : Frame → Frame}
    (after : List Symbol → List Symbol) (same : ∀ f, (change f).symbols = after f.symbols)
    (id : FrameId) : (t.modify change).frameSymbols id =
      if id = t.current then after (t.frameSymbols id) else t.frameSymbols id := by
  by_cases here : id = t.current
  · obtain rfl := here
    have found : t.current < t.frames.size := linked.present
    simp [frameSymbols, frame?, modify, Array.getElem_modify, found, same]
  · simp [frameSymbols, frame?, modify, Array.getElem?_modify, here, Ne.symm here]

/-- A change of the current frame is seen in the first scope only. -/
theorem scopes_modify (linked : t.Linked) {change : Frame → Frame}
    (after : List Symbol → List Symbol) (same : ∀ f, (change f).symbols = after f.symbols) :
    (t.modify change).scopes = after (t.frameSymbols t.current) :: t.outer.map t.frameSymbols := by
  have here : (t.modify change).frameSymbols t.current = after (t.frameSymbols t.current) := by
    rw [frameSymbols_modify linked after same, if_pos rfl]
  have around : t.outer.map (t.modify change).frameSymbols = t.outer.map t.frameSymbols := by
    refine List.map_congr_left fun id member => ?_
    have older : id < t.current := (List.pairwise_cons.mp linked.older).1 id member
    rw [frameSymbols_modify linked after same, if_neg (Nat.ne_of_lt older)]
  exact here ▸ around ▸ rfl

theorem scopes_declare (linked : t.Linked) (s : Symbol) :
    (t.declare s).scopes =
      (t.frameSymbols t.current ++ [s]) :: t.outer.map t.frameSymbols :=
  scopes_modify linked (· ++ [s]) fun _ => rfl

theorem frameSymbols_enter (id : FrameId) :
    t.enter.frameSymbols id = if id = t.size then [] else t.frameSymbols id := by
  let change (f : Frame) : Frame := { f with children := f.children ++ [t.size] }
  have sized : (t.modify change).frames.size = t.size := by simp [modify, size]
  have pushed : t.enter.frame? id = if id = t.size then
      some ⟨t.level + 1, some t.current, [], []⟩ else (t.modify change).frame? id := by
    rw [← sized]
    exact Array.getElem?_push
  have same : (t.modify change).frameSymbols id = t.frameSymbols id := by
    simp only [frameSymbols, frame?, modify, Array.getElem?_modify]
    by_cases here : t.current = id
    · rw [if_pos here, Option.map_map]
      rfl
    · rw [if_neg here]
  rw [frameSymbols, pushed, ← same]
  by_cases new : id = t.size
  · rw [if_pos new, if_pos new]
    rfl
  · rw [if_neg new, if_neg new]
    rfl

theorem scopes_enter (linked : t.Linked) : t.enter.scopes = [] :: t.scopes := by
  have fresh : t.enter.frameSymbols t.size = [] := by rw [frameSymbols_enter, if_pos rfl]
  have kept : (t.current :: t.outer).map t.enter.frameSymbols = t.scopes :=
    List.map_congr_left fun id member => by
      rw [frameSymbols_enter, if_neg (Nat.ne_of_lt (linked.below member))]
  rw [← kept, ← fresh]
  rfl

theorem scopes_exit (inside : 1 < t.scopes.length) : t.exit.scopes = t.scopes.tail := by
  unfold exit
  cases outer : t.outer with
  | nil => simp [scopes, outer] at inside
  | cons parent others => exact congrArg (List.map t.frameSymbols) outer.symm

theorem names_declare (linked : t.Linked) (s : Symbol) :
    (t.declare s).names = (t.frameNames t.current ++ [s.name]) :: t.outer.map t.frameNames := by
  rw [names_eq, scopes_declare linked]
  simp [frameNames_eq]

theorem names_completeFirst (p : Symbol → Bool) (symbols : List Symbol) :
    (Frame.completeFirst p symbols).map Symbol.name = symbols.map Symbol.name := by
  induction symbols with
  | nil => rfl
  | cons s others ih =>
    unfold Frame.completeFirst
    split <;> simp [ih]

theorem names_completeOverload (linked : t.Linked) (name : String) (params : List Ty) :
    (t.completeOverload name params).names = t.names := by
  rw [names_eq, names_eq, completeOverload, scopes_modify linked _ fun _ => rfl]
  exact congrArg (· :: _) (names_completeFirst _ _)

theorem names_enter (linked : t.Linked) : t.enter.names = [] :: t.names := by
  rw [names_eq, names_eq, scopes_enter linked]
  rfl

theorem names_exit (inside : 1 < t.names.length) : t.exit.names = t.names.tail := by
  have inside : 1 < t.scopes.length := by simpa [names_eq] using inside
  rw [names_eq, names_eq, scopes_exit inside, List.map_tail]

theorem knows_enter_iff (linked : t.Linked) (out : Nat) (name : String) :
    t.enter.Knows out name ↔ ∃ inner, t.Knows inner name ∧ inner + 1 = out := by
  rw [Knows, names_enter linked]
  cases out <;> simp [Knows]

theorem knows_exit_iff (inside : 1 < t.names.length) (out : Nat) (name : String) :
    t.exit.Knows out name ↔ t.Knows (out + 1) name := by
  rw [Knows, names_exit inside, List.getElem?_tail, Knows]

/-- Names were added to the current frame, and nothing else. -/
structure Grown (added : List String) (t u : Table) : Prop where
  linked : u.Linked
  around : u.names.tail = t.names.tail
  here : ∀ name, name ∈ u.frameNames u.current ↔ name ∈ t.frameNames t.current ∨ name ∈ added

namespace Grown

variable {added more : List String} {t u v : Table}

theorem refl (linked : t.Linked) : Grown [] t t :=
  ⟨linked, rfl, fun name => by simp⟩

theorem trans (first : Grown added t u) (second : Grown more u v) : Grown (added ++ more) t v := by
  refine ⟨second.linked, second.around.trans first.around, fun name => ?_⟩
  rw [second.here, first.here, List.mem_append, or_assoc]

/-- A name that is there already may count as added. -/
theorem known (linked : t.Linked) {name : String} (found : name ∈ t.frameNames t.current) :
    Grown [name] t t := by
  refine ⟨linked, rfl, fun other => ?_⟩
  rw [List.mem_singleton]
  exact ⟨.inl, fun either => either.elim id fun same => same ▸ found⟩

theorem declare (linked : t.Linked) (s : Symbol) : Grown [s.name] t (t.declare s) := by
  obtain ⟨here, around⟩ := List.cons.inj (names_declare linked s)
  refine ⟨linked.modify _, around, fun name => ?_⟩
  rw [here, List.mem_append]

theorem complete (linked : t.Linked) {name : String} (params : List Ty)
    (found : name ∈ t.frameNames t.current) : Grown [name] t (t.completeOverload name params) := by
  obtain ⟨here, around⟩ := List.cons.inj (names_completeOverload linked name params)
  refine ⟨linked.modify _, around, fun other => ?_⟩
  rw [here]
  exact (known linked found).here other

theorem knows_iff (grown : Grown added t u) (out : Nat) (name : String) :
    u.Knows out name ↔ t.Knows out name ∨ (out = 0 ∧ name ∈ added) := by
  cases out with
  | zero => simp [knows_zero_iff, grown.here]
  | succ out => simp [Knows, ← List.getElem?_tail, grown.around]

theorem length (grown : Grown added t u) : u.names.length = t.names.length :=
  congrArg (List.length · + 1) grown.around

end Grown
end Table
end Curly
