import Curly.Proofs.Scope.Stack

/-! The frames of a table as a tree. Each frame but the global one stands in an older frame, which
lists it among its children and is one level further out than it. No move takes a frame or a symbol
away or puts it elsewhere, and every way outwards along the parents comes to an end. -/
namespace Curly

/-- From some symbols to those of a later moment: they stand where they stood, though a prototype
may have become a definition, and others stand behind them. -/
inductive Lasting : List Symbol → List Symbol → Prop
  | added (new : List Symbol) : Lasting [] new
  | kept (s : Symbol) {before later : List Symbol} : Lasting before later →
    Lasting (s :: before) (s :: later)
  | completed (s : Symbol) {before later : List Symbol} : Lasting before later →
    Lasting (s :: before) (s.completed :: later)

namespace Lasting

variable {before between later : List Symbol}

theorem refl (symbols : List Symbol) : Lasting symbols symbols := by
  induction symbols with
  | nil => exact .added []
  | cons s _ ih => exact .kept s ih

theorem append (symbols new : List Symbol) : Lasting symbols (symbols ++ new) := by
  induction symbols with
  | nil => exact .added new
  | cons s _ ih => exact .kept s ih

theorem trans (first : Lasting before between) (second : Lasting between later) :
    Lasting before later := by
  induction first generalizing later with
  | added _ => exact .added later
  | kept s _ ih =>
    cases second with
    | kept _ rest => exact .kept s (ih rest)
    | completed _ rest => exact .completed s (ih rest)
  | completed s _ ih =>
    cases second with
    | kept _ rest => exact .completed s (ih rest)
    | completed _ rest =>
      rw [Symbol.completed_completed]
      exact .completed s (ih rest)

theorem completeFirst (p : Symbol → Bool) (symbols : List Symbol) :
    Lasting symbols (Frame.completeFirst p symbols) := by
  induction symbols with
  | nil => exact .added []
  | cons s others ih =>
    unfold Frame.completeFirst
    split
    · exact .completed s (.refl others)
    · exact .kept s ih

/-- What lasts among all symbols lasts among those of each name. -/
theorem named (lasting : Lasting before later) (name : String) :
    Lasting (before.filter (·.name = name)) (later.filter (·.name = name)) := by
  induction lasting with
  | added _ => exact .added _
  | kept s _ ih =>
    by_cases own : s.name = name
    · simpa [own] using ih.kept s
    · simpa [own] using ih
  | completed s _ ih =>
    by_cases own : s.name = name
    · simpa [own] using ih.completed s
    · simpa [own] using ih

end Lasting

/-- A frame at a later moment. -/
structure Frame.Lasts (f g : Frame) : Prop where
  level : g.level = f.level
  parent : g.parent = f.parent
  children : f.children <+: g.children
  symbols : Lasting f.symbols g.symbols
  named : ∀ name, Lasting (f.named name) (g.named name)

namespace Frame

theorem Lasts.of_symbols {f g : Frame} (level : g.level = f.level) (parent : g.parent = f.parent)
    (children : f.children <+: g.children) (symbols : Lasting f.symbols g.symbols) : f.Lasts g :=
  ⟨level, parent, children, symbols, symbols.named⟩

theorem Lasts.refl (f : Frame) : f.Lasts f :=
  .of_symbols rfl rfl List.prefix_rfl (.refl _)

theorem Lasts.trans {f g h : Frame} (first : f.Lasts g) (second : g.Lasts h) : f.Lasts h :=
  .of_symbols (second.level.trans first.level) (second.parent.trans first.parent)
    (first.children.trans second.children) (first.symbols.trans second.symbols)

theorem lasts_declare (f : Frame) (s : Symbol) : f.Lasts (f.declare s) :=
  .of_symbols rfl rfl List.prefix_rfl (.append ..)

theorem lasts_complete (f : Frame) (p : Symbol → Bool) : f.Lasts (f.complete p) :=
  .of_symbols rfl rfl List.prefix_rfl (.completeFirst ..)

/-- The lists by name are those of the names that stand for something. -/
theorem exists_of_mem_byName {f : Frame} {symbols : List Symbol} (listed : symbols ∈ f.byName) :
    ∃ name, symbols = f.named name ∧ symbols ≠ [] := by
  obtain ⟨name, member, rfl⟩ := List.mem_map.mp listed
  rw [List.mem_mergeSort, List.mem_eraseDups] at member
  obtain ⟨s, here, own⟩ := List.mem_map.mp member
  exact ⟨name, rfl, List.ne_nil_of_mem (List.mem_filter.mpr ⟨here, decide_eq_true own⟩)⟩

end Frame

namespace Table

variable {t u v : Table} {id : FrameId} {ids : List FrameId}

/-- Every frame is there at the later moment, under the same number. -/
def Lasts (t u : Table) : Prop :=
  ∀ (id : FrameId) (f : Frame), t.frame? id = some f → ∃ g, u.frame? id = some g ∧ f.Lasts g

theorem size_modify (t : Table) (change : Frame → Frame) : (t.modify change).size = t.size := by
  simp [modify, size]

theorem size_enter (t : Table) : t.enter.size = t.size + 1 := by
  simp [enter, modify, size]

theorem lt_size_of_frame? {f : Frame} (found : t.frame? id = some f) : id < t.size :=
  (Array.getElem?_eq_some_iff.mp found).1

/-- The frame of a scope that is opened, and the one around it with a child more. -/
theorem frame?_enter (t : Table) (id : FrameId) : t.enter.frame? id =
    if id = t.size then some ⟨t.level + 1, some t.current, [], []⟩
    else if t.current = id then
      (t.frame? id).map fun f => { f with children := f.children ++ [t.size] }
    else t.frame? id := by
  let child (f : Frame) : Frame := { f with children := f.children ++ [t.size] }
  have pushed : t.enter.frame? id = if id = (t.modify child).size then
      some ⟨t.level + 1, some t.current, [], []⟩ else (t.modify child).frame? id :=
    Array.getElem?_push
  rw [pushed, size_modify, frame?_modify]

namespace Lasts

theorem refl (t : Table) : t.Lasts t :=
  fun _ f found => ⟨f, found, .refl f⟩

theorem trans (first : t.Lasts u) (second : u.Lasts v) : t.Lasts v := by
  intro id f found
  obtain ⟨g, there, early⟩ := first id f found
  obtain ⟨h, later, late⟩ := second id g there
  exact ⟨h, later, early.trans late⟩

theorem modify (t : Table) {change : Frame → Frame} (lasts : ∀ f : Frame, f.Lasts (change f)) :
    t.Lasts (t.modify change) := by
  intro id f found
  rw [frame?_modify, found]
  split
  · exact ⟨change f, rfl, lasts f⟩
  · exact ⟨f, rfl, .refl f⟩

theorem enter (t : Table) : t.Lasts t.enter := by
  intro id f found
  rw [frame?_enter, if_neg (Nat.ne_of_lt (lt_size_of_frame? found)), found]
  split
  · exact ⟨_, rfl, .of_symbols rfl rfl (List.prefix_append ..) (.refl _)⟩
  · exact ⟨f, rfl, .refl f⟩

theorem exit (t : Table) : t.Lasts t.exit := by
  unfold Table.exit
  split
  · exact refl t
  · exact fun _ f found => ⟨f, found, .refl f⟩

theorem move (t : Table) : (m : Move) → t.Lasts (t.move m)
  | .enter => enter t
  | .exit => exit t
  | .change (.declare s) => modify t (·.lasts_declare s)
  | .change (.complete _) | .change (.completeOverload ..) => modify t (·.lasts_complete _)

theorem moved (t : Table) (moves : List Move) : t.Lasts (t.moved moves) := by
  induction moves generalizing t with
  | nil => exact refl t
  | cons m moves ih => exact (move t m).trans (ih (t.move m))

end Lasts

/-- The frames that have a frame for their parent, in the order of their creation. -/
def inner (t : Table) (id : FrameId) : List FrameId :=
  (List.range t.size).filter fun i => (t.link? i).bind Prod.fst = some id

/-- The links from a frame outwards lead to older and older frames, and to the global one. -/
structure Climbs (t : Table) (id : FrameId) (ids : List FrameId) : Prop where
  rises : t.Rises id ids
  older : (id :: ids).Pairwise (· > ·)
  global : 0 ∈ id :: ids

/-- The frames are a tree with the global one at its root. -/
structure Arranged (t : Table) : Prop where
  stacked : t.Stacked
  climbs : ∀ id < t.size, ∃ ids, t.Climbs id ids
  children : ∀ id f, t.frame? id = some f → f.children = t.inner id

theorem link?_eq_of_frame? {f : Frame} (found : t.frame? id = some f) :
    t.link? id = some (f.parent, f.level) := by
  rw [link?, found]
  rfl

/-- There is one way outwards from a frame. -/
theorem Rises.unique {first second : List FrameId} (one : t.Rises id first)
    (two : t.Rises id second) : first = second := by
  induction first generalizing id second with
  | nil =>
    cases second with
    | nil => rfl
    | cons parent others => exact nomatch one.symm.trans two.1
  | cons parent others ih =>
    cases second with
    | nil => exact nomatch two.symm.trans one.1
    | cons another rest =>
      have same := one.1.symm.trans two.1
      simp only [Option.some.injEq, Prod.mk.injEq] at same
      obtain ⟨rfl, -⟩ := same
      rw [ih one.2 two.2]

namespace Climbs

theorem congr (same : ∀ i ∈ id :: ids, u.link? i = t.link? i) (climbs : t.Climbs id ids) :
    u.Climbs id ids :=
  ⟨climbs.rises.congr same, climbs.older, climbs.global⟩

theorem le (climbs : t.Climbs id ids) {i : FrameId} (member : i ∈ id :: ids) : i ≤ id := by
  rcases List.mem_cons.mp member with rfl | member
  · exact Nat.le_refl i
  · exact Nat.le_of_lt ((List.pairwise_cons.mp climbs.older).1 i member)

/-- Where the way is at its end it is at the global frame. -/
theorem nil_iff (climbs : t.Climbs id ids) : ids = [] ↔ id = 0 := by
  constructor
  · rintro rfl
    exact (List.mem_singleton.mp climbs.global).symm
  · rintro rfl
    cases ids with
    | nil => rfl
    | cons parent others =>
      exact absurd ((List.pairwise_cons.mp climbs.older).1 parent (.head _)) (Nat.not_lt_zero _)

/-- The parent of a frame is the next one on the way, one level further out and older. -/
theorem of_parent {f : Frame} {parent : FrameId} (climbs : t.Climbs id ids)
    (found : t.frame? id = some f) (around : f.parent = some parent) :
    ∃ others, ids = parent :: others ∧ f.level = others.length + 1 ∧ parent < id := by
  have link := link?_eq_of_frame? found
  cases ids with
  | nil =>
    have outermost := link.symm.trans climbs.rises
    simp [around] at outermost
  | cons first others =>
    have linked := link.symm.trans climbs.rises.1
    simp only [around, Option.some.injEq, Prod.mk.injEq] at linked
    obtain ⟨rfl, level⟩ := linked
    exact ⟨others, rfl, level, (List.pairwise_cons.mp climbs.older).1 _ (.head _)⟩

theorem level {f : Frame} (climbs : t.Climbs id ids) (found : t.frame? id = some f) :
    f.level = ids.length := by
  have link := link?_eq_of_frame? found
  cases ids with
  | nil => exact (Prod.mk.inj (Option.some.inj (link.symm.trans climbs.rises))).2
  | cons _ _ => exact (Prod.mk.inj (Option.some.inj (link.symm.trans climbs.rises.1))).2

theorem tail {parent : FrameId} (climbs : t.Climbs id (parent :: ids)) : t.Climbs parent ids := by
  obtain ⟨later, older⟩ := List.pairwise_cons.mp climbs.older
  refine ⟨climbs.rises.2, older, (List.mem_cons.mp climbs.global).resolve_left ?_⟩
  rintro rfl
  exact Nat.not_lt_zero _ (later parent (.head _))

end Climbs

namespace Arranged

variable {f : Frame}

theorem empty : Arranged .empty := by
  refine ⟨.empty, fun id early => ?_, fun id f found => ?_⟩
  · obtain rfl : id = 0 := Nat.lt_one_iff.mp early
    exact ⟨[], rfl, List.pairwise_singleton .., .head _⟩
  · obtain rfl : id = 0 := Nat.lt_one_iff.mp (lt_size_of_frame? found)
    obtain rfl := Option.some.inj found
    rfl

/-- A move that leaves the links and the children of all frames alone. -/
theorem of_same (arranged : t.Arranged) (stacked : u.Stacked) (size : u.size = t.size)
    (links : ∀ id, u.link? id = t.link? id)
    (children : ∀ id f, u.frame? id = some f →
      ∃ g, t.frame? id = some g ∧ f.children = g.children) : u.Arranged := by
  refine ⟨stacked, fun id early => ?_, fun id f found => ?_⟩
  · obtain ⟨ids, climbs⟩ := arranged.climbs id (size ▸ early)
    exact ⟨ids, climbs.congr fun i _ => links i⟩
  · obtain ⟨g, there, same⟩ := children id f found
    rw [same, arranged.children id g there]
    simp only [inner, size, links]

theorem modify (arranged : t.Arranged) (change : Frame → Frame)
    (same : ∀ f, (change f).parent = f.parent ∧ (change f).level = f.level)
    (children : ∀ f, (change f).children = f.children) : (t.modify change).Arranged := by
  refine arranged.of_same (arranged.stacked.modify change same) (size_modify t change)
    (link?_modify change same) fun id f found => ?_
  rw [frame?_modify] at found
  split at found
  · obtain ⟨g, there, rfl⟩ := Option.map_eq_some_iff.mp found
    exact ⟨g, there, children g⟩
  · exact ⟨f, found, rfl⟩

theorem exit (arranged : t.Arranged) : t.exit.Arranged := by
  have frames : t.exit.frames = t.frames := by
    unfold Table.exit
    split <;> rfl
  refine arranged.of_same arranged.stacked.exit (congrArg Array.size frames) (fun id => ?_)
    fun id f found => ⟨f, ?_, rfl⟩
  · rw [link?, link?, frame?, frame?, frames]
  · rwa [frame?, ← frames]

/-- Only frames that are there have frames in them. -/
theorem inner_eq_nil (arranged : t.Arranged) (late : t.size ≤ id) : t.inner id = [] := by
  refine List.filter_eq_nil_iff.mpr fun i member own => ?_
  have early : i < t.size := List.mem_range.mp member
  obtain ⟨⟨parent, level⟩, link, same⟩ := Option.bind_eq_some_iff.mp (of_decide_eq_true own)
  obtain ⟨f, found, linked⟩ := Option.map_eq_some_iff.mp link
  obtain ⟨ids, climbs⟩ := arranged.climbs i early
  obtain ⟨_, _, _, older⟩ := climbs.of_parent found ((Prod.mk.inj linked).1.trans same)
  exact Nat.lt_irrefl _ (Nat.lt_of_lt_of_le (Nat.lt_trans older early) late)

/-- The children that a frame is to have when a scope is opened in the current one. -/
theorem inner_enter (t : Table) (id : FrameId) :
    t.enter.inner id = t.inner id ++ if t.current = id then [t.size] else [] := by
  have old : (List.range t.size).filter (fun i => (t.enter.link? i).bind Prod.fst = some id) =
      t.inner id := by
    refine List.filter_congr fun i member => ?_
    rw [link?_enter, if_neg (Nat.ne_of_lt (List.mem_range.mp member))]
  rw [inner, size_enter, List.range_succ, List.filter_append, old]
  congr 1
  by_cases here : t.current = id <;> simp [link?_enter, here]

theorem enter (arranged : t.Arranged) : t.enter.Arranged := by
  have around : t.Climbs t.current t.outer := by
    obtain ⟨ids, climbs⟩ := arranged.climbs t.current arranged.stacked.linked.present
    exact climbs.rises.unique arranged.stacked.rises ▸ climbs
  refine ⟨arranged.stacked.enter, fun id early => ?_, fun id f found => ?_⟩
  · rw [size_enter] at early
    rcases Nat.lt_succ_iff_lt_or_eq.mp early with old | rfl
    · obtain ⟨ids, climbs⟩ := arranged.climbs id old
      refine ⟨ids, climbs.congr fun i member => ?_⟩
      rw [link?_enter, if_neg (Nat.ne_of_lt (Nat.lt_of_le_of_lt (climbs.le member) old))]
    · exact ⟨t.current :: t.outer, arranged.stacked.enter.rises,
        arranged.stacked.enter.linked.older, .tail _ around.global⟩
  · rw [inner_enter]
    rw [frame?_enter] at found
    split at found
    next new =>
      obtain rfl := Option.some.inj found
      have other : t.current ≠ id := Nat.ne_of_lt (new ▸ arranged.stacked.linked.present)
      rw [arranged.inner_eq_nil (Nat.le_of_eq new.symm), if_neg other, List.append_nil]
    next =>
      split at found
      next here =>
        obtain ⟨g, there, rfl⟩ := Option.map_eq_some_iff.mp found
        rw [if_pos here, ← arranged.children id g there]
      next other => rw [if_neg other, List.append_nil, ← arranged.children id f found]

theorem move (arranged : t.Arranged) : (m : Move) → (t.move m).Arranged
  | .enter => arranged.enter
  | .exit => arranged.exit
  | .change (.declare _) | .change (.complete _) | .change (.completeOverload ..) =>
    arranged.modify _ (fun _ => ⟨rfl, rfl⟩) fun _ => rfl

theorem moved (moves : List Move) (arranged : t.Arranged) : (t.moved moves).Arranged := by
  induction moves generalizing t with
  | nil => exact arranged
  | cons m moves ih => exact ih (arranged.move m)

end Arranged

/-- The way outwards along the parents, with so many frames at most: the symbols of a name in the
first frame that has any, if the way has come to its end. -/
def walk? (t : Table) (name : String) : (frames : Nat) → Option FrameId → Option (List Symbol)
  | _, none => some []
  | 0, some _ => none
  | frames + 1, some id =>
    match t.namedIn id name with
    | [] => t.walk? name frames ((t.frame? id).bind Frame.parent)
    | found => some found

/-- The way ends behind the frames that the links lead through. -/
theorem Rises.walk? (name : String) (rises : t.Rises id ids) :
    t.walk? name (ids.length + 1) (some id) = some (t.search name (id :: ids)) := by
  induction ids generalizing id with
  | nil =>
    have ends : (t.frame? id).bind Frame.parent = none := by
      obtain ⟨f, found, same⟩ := Option.map_eq_some_iff.mp rises
      rw [found]
      exact (Prod.mk.inj same).1
    cases here : t.namedIn id name <;> simp only [Table.walk?, search, here, ends]
  | cons parent others ih =>
    have leads : (t.frame? id).bind Frame.parent = some parent := by
      obtain ⟨f, found, same⟩ := Option.map_eq_some_iff.mp rises.1
      rw [found]
      exact (Prod.mk.inj same).1
    cases here : t.namedIn id name with
    | nil =>
      have passed : t.search name (id :: parent :: others) = t.search name (parent :: others) := by
        rw [search, here]
      rw [passed, ← ih rises.2, Table.walk?, here, leads]
      rfl
    | cons s symbols => simp only [Table.walk?, search, here]

/-- What the table keeps of its frames agrees. -/
structure Coherent (t : Table) : Prop where
  current : t.current < t.size
  global : ∀ (id : FrameId) (f : Frame), t.frame? id = some f → (f.parent = none ↔ id = 0)
  parent : ∀ (id parent : FrameId) (f : Frame), t.frame? id = some f → f.parent = some parent →
    parent < id ∧ ∃ g, t.frame? parent = some g ∧ g.children.count id = 1 ∧ f.level = g.level + 1
  children : ∀ (id : FrameId) (f : Frame), t.frame? id = some f → f.children.Pairwise (· < ·) ∧
    ∀ child ∈ f.children, ∃ g, t.frame? child = some g ∧ g.parent = some id
  names : ∀ (id : FrameId) (f : Frame), t.frame? id = some f → ∀ symbols ∈ f.byName,
    symbols ≠ [] ∧ ∃ name, symbols = f.named name ∧ ∀ s ∈ symbols, s.name = name
  walks : ∀ (id : FrameId) (f : Frame) (name : String), t.frame? id = some f →
    (t.walk? name (f.level + 1) (some id)).isSome
  lookupAll : ∀ name, t.walk? name (t.level + 1) (some t.current) = some (t.lookupAll name)

theorem mem_inner_iff {child : FrameId} : child ∈ t.inner id ↔
    ∃ g, t.frame? child = some g ∧ g.parent = some id := by
  rw [inner, List.mem_filter, List.mem_range]
  constructor
  · rintro ⟨-, own⟩
    obtain ⟨⟨parent, level⟩, link, same⟩ := Option.bind_eq_some_iff.mp (of_decide_eq_true own)
    obtain ⟨g, found, linked⟩ := Option.map_eq_some_iff.mp link
    exact ⟨g, found, (Prod.mk.inj linked).1.trans same⟩
  · rintro ⟨g, found, own⟩
    refine ⟨lt_size_of_frame? found, ?_⟩
    simp [link?_eq_of_frame? found, own]

theorem pairwise_inner (t : Table) (id : FrameId) : (t.inner id).Pairwise (· < ·) :=
  List.pairwise_lt_range.filter _

namespace Arranged

theorem coherent (arranged : t.Arranged) : t.Coherent where
  current := arranged.stacked.linked.present
  global id f found := by
    obtain ⟨ids, climbs⟩ := arranged.climbs id (lt_size_of_frame? found)
    rw [← climbs.nil_iff]
    have link := link?_eq_of_frame? found
    cases ids with
    | nil => exact iff_of_true (Prod.mk.inj (Option.some.inj (link.symm.trans climbs.rises))).1 rfl
    | cons parent others =>
      have linked := (Prod.mk.inj (Option.some.inj (link.symm.trans climbs.rises.1))).1
      simp [linked]
  parent id parent f found around := by
    obtain ⟨ids, climbs⟩ := arranged.climbs id (lt_size_of_frame? found)
    obtain ⟨others, rfl, level, older⟩ := climbs.of_parent found around
    have inside : parent < t.size := Nat.lt_trans older (lt_size_of_frame? found)
    obtain ⟨g, there⟩ : ∃ g, t.frame? parent = some g := ⟨_, Array.getElem?_eq_getElem inside⟩
    refine ⟨older, g, there, ?_, by rw [level, climbs.tail.level there]⟩
    rw [arranged.children parent g there]
    have once : (t.inner parent).Nodup := (pairwise_inner t parent).imp Nat.ne_of_lt
    rw [once.count, if_pos (mem_inner_iff.mpr ⟨f, found, around⟩)]
  children id f found := by
    rw [arranged.children id f found]
    exact ⟨pairwise_inner t id, fun child => mem_inner_iff.mp⟩
  names id f _ symbols listed := by
    obtain ⟨name, rfl, nonempty⟩ := Frame.exists_of_mem_byName listed
    exact ⟨nonempty, name, rfl, fun s member => of_decide_eq_true (List.mem_filter.mp member).2⟩
  walks id f name found := by
    obtain ⟨ids, climbs⟩ := arranged.climbs id (lt_size_of_frame? found)
    rw [climbs.level found, climbs.rises.walk?]
    rfl
  lookupAll name := by
    rw [arranged.stacked.level, arranged.stacked.rises.walk?]
    rfl

end Arranged

/-- However scopes are entered and left, names declared and prototypes completed, what the table
keeps of its frames agrees, and every later table still has all of them with what they held. -/
theorem coherent_moved (moves : List Move) : (empty.moved moves).Coherent ∧
    ∀ later, (empty.moved moves).Lasts (empty.moved (moves ++ later)) := by
  refine ⟨(Arranged.empty.moved moves).coherent, fun later => ?_⟩
  have split : empty.moved (moves ++ later) = (empty.moved moves).moved later := List.foldl_append
  exact split ▸ .moved _ later

end Table
end Curly
