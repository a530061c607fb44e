import Curly.Proofs.Scope.Path
import Curly.Proofs.Scope.Settled

/-! The outermost scope of a path, and the scopes inside it. -/
namespace Curly

namespace Scopes

variable {scope : List Symbol} {scopes : Scopes} {name : String} {s : Symbol}

/-- What is declared outside of all functions and blocks. -/
def globals : Scopes → List Symbol
  | [] => []
  | [scope] => scope
  | _ :: next :: around => globals (next :: around)

/-- What is declared in functions and blocks. -/
def locals : Scopes → List Symbol
  | [] | [_] => []
  | scope :: next :: around => scope ++ locals (next :: around)

theorem mem_locals_or_globals (listed : scope ∈ scopes) (member : s ∈ scope) :
    s ∈ scopes.locals ∨ s ∈ scopes.globals := by
  fun_induction locals scopes with
  | case1 => exact nomatch listed
  | case2 only =>
    obtain rfl := List.mem_singleton.mp listed
    exact .inr member
  | case3 first next around ih =>
    rcases List.mem_cons.mp listed with rfl | listed
    · exact .inl (List.mem_append_left _ member)
    · exact (ih listed).imp (List.mem_append_right _) id

theorem name_of_visible (found : s ∈ scopes.visible name) : s.name = name := by
  induction scopes with
  | nil => exact nomatch found
  | cons scope around ih =>
    unfold visible at found
    split at found
    · exact ih found
    · simpa using (List.mem_filter.mp found).2

/-- What is declared in the global scope is in sight, or hidden. -/
theorem visible_ne_nil (global : s ∈ scopes.globals) : scopes.visible s.name ≠ [] := by
  fun_induction globals scopes with
  | case1 => exact nomatch global
  | case2 only =>
    have here : s ∈ only.filter (·.name = s.name) := by simp [global]
    unfold visible
    split
    · simp_all
    · exact fun none => by simp_all
  | case3 first next around ih =>
    unfold visible
    split
    · exact ih global
    · assumption

/-- A name with a meaning in a function or block has no other one there. -/
theorem mem_locals_of_visible (found : s ∈ scopes.visible name)
    (held : ∃ other ∈ scopes.locals, other.name = name) : s ∈ scopes.locals := by
  fun_induction locals scopes with
  | case1 => exact nomatch found
  | case2 => simp at held
  | case3 first next around ih =>
    unfold visible at found
    split at found
    next absent =>
      obtain ⟨other, member, same⟩ := held
      refine List.mem_append_right _ (ih found ⟨other, ?_, same⟩)
      refine (List.mem_append.mp member).resolve_left fun here => ?_
      have empty : other ∈ first.filter (·.name = name) := by simp [here, same]
      simp [absent] at empty
    next => exact List.mem_append_left _ (List.mem_filter.mp found).1

end Scopes

namespace Symbol

@[simp] theorem isEnumValue_completed (s : Symbol) : s.completed.isEnumValue = s.isEnumValue := by
  cases s with
  | mk name ty position kind => cases kind <;> rfl

@[simp] theorem isVariable_completed (s : Symbol) : s.completed.isVariable = s.isVariable := by
  cases s with
  | mk name ty position kind => cases kind <;> rfl

/-- Only functions are completed. -/
theorem completed_of_plain {s : Symbol} (plain : s.isFunction = false) : s.completed = s := by
  cases s with
  | mk name ty position kind => cases kind <;> simp_all [completed, isFunction, params?]

theorem plain_of_isEnumValue {s : Symbol} (value : s.isEnumValue) : s.isFunction = false := by
  cases s with
  | mk name ty position kind => cases kind <;> simp_all [isEnumValue, isFunction, params?]

end Symbol

namespace Table

variable {t : Table}

theorem frameSymbols_settled (id : FrameId) :
    t.settled.frameSymbols id = (t.frameSymbols id).map Symbol.completed := by
  unfold frameSymbols
  rw [frame?_settled]
  cases t.frame? id <;> rfl

theorem scopes_settled : t.settled.scopes = t.scopes.map (·.map Symbol.completed) := by
  rw [scopes, scopes, List.map_map]
  exact List.map_congr_left fun id _ => frameSymbols_settled id

/-- The enumeration values of the global scope are not changed by settling. -/
theorem mem_globals_settled_iff {v : Symbol} (value : v.isEnumValue) :
    v ∈ t.settled.scopes.globals ↔ v ∈ t.scopes.globals := by
  have mapped (scopes : Scopes) : Scopes.globals (scopes.map (·.map Symbol.completed)) =
      scopes.globals.map Symbol.completed := by
    fun_induction Scopes.globals scopes with
    | case1 | case2 => rfl
    | case3 first next around ih => exact ih
  rw [scopes_settled, mapped, List.mem_map]
  constructor
  · rintro ⟨s, member, rfl⟩
    rw [Symbol.isEnumValue_completed] at value
    rwa [Symbol.completed_of_plain (Symbol.plain_of_isEnumValue value)]
  · exact fun member => ⟨v, member, Symbol.completed_of_plain (Symbol.plain_of_isEnumValue value)⟩

def levelOf (t : Table) (id : FrameId) : Nat :=
  ((t.frame? id).map Frame.level).getD 0

/-- Only the outermost frame is at level zero. -/
def Rooted (t : Table) : Prop :=
  ∀ id ∈ (t.current :: t.outer).dropLast, 0 < t.levelOf id

theorem level_eq : t.level = t.levelOf t.current := by
  unfold level currentFrame levelOf
  cases t.frame? t.current <;> rfl

theorem levelOf_modify (change : Frame → Frame) (same : ∀ f, (change f).level = f.level)
    (id : FrameId) : (t.modify change).levelOf id = t.levelOf id := by
  simp only [levelOf, frame?, modify, Array.getElem?_modify]
  split
  · cases t.frames[id]? <;> simp [same]
  · rfl

theorem levelOf_enter (id : FrameId) :
    t.enter.levelOf id = if id = t.size then t.level + 1 else t.levelOf id := by
  let change (f : Frame) : Frame := { f with children := f.children ++ [t.size] }
  have sized : (t.modify change).frames.size = t.size := by simp [modify, size]
  have pushed : t.enter.frame? id = if id = t.size then
      some ⟨t.level + 1, some t.current, [], []⟩ else (t.modify change).frame? id := by
    rw [← sized]
    exact Array.getElem?_push
  rw [levelOf, pushed]
  split
  · rfl
  · exact levelOf_modify change (fun _ => rfl) id

theorem rooted_empty : Rooted .empty :=
  fun _ member => nomatch member

namespace Rooted

theorem modify (rooted : t.Rooted) (change : Frame → Frame)
    (same : ∀ f, (change f).level = f.level) : (t.modify change).Rooted :=
  fun id member => (levelOf_modify change same id).symm ▸ rooted id member

theorem declare (rooted : t.Rooted) (s : Symbol) : (t.declare s).Rooted :=
  rooted.modify _ fun _ => rfl

theorem enter (rooted : t.Rooted) : t.enter.Rooted := by
  intro id member
  rw [levelOf_enter]
  split
  · exact Nat.succ_pos _
  · rename_i old
    refine rooted id ?_
    have listed : id ∈ t.size :: (t.current :: t.outer).dropLast := member
    exact (List.mem_cons.mp listed).resolve_left old

theorem exit (rooted : t.Rooted) : t.exit.Rooted := by
  unfold Table.exit
  split
  · exact rooted
  next parent outer known =>
    intro id member
    refine rooted id ?_
    rw [known]
    exact List.mem_cons_of_mem _ member

/-- At level zero no scope is around. -/
theorem outer_eq_nil (rooted : t.Rooted) (top : ¬0 < t.level) : t.outer = [] := by
  cases outer : t.outer with
  | nil => rfl
  | cons parent others =>
    refine absurd (rooted t.current ?_) (level_eq ▸ top)
    rw [outer]
    exact List.mem_cons_self

end Rooted
end Table
end Curly
