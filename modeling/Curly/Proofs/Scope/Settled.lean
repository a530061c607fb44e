import Curly.Scope.Table

/-! Tables in which every prototype counts as defined. Opening and leaving frames, declaring and
looking up do not depend on which functions are only prototypes. -/
namespace Curly

namespace Symbol

@[simp] theorem completed_completed (s : Symbol) : s.completed.completed = s.completed := by
  obtain ⟨name, ty, position, kind⟩ := s
  cases kind <;> rfl

@[simp] theorem isFunction_completed (s : Symbol) : s.completed.isFunction = s.isFunction := by
  rw [isFunction, completed_params?, isFunction]

@[simp] theorem completed_ofVariable (name : String) (ty : Ty) (position : Position) :
    (ofVariable name ty position).completed = ofVariable name ty position := rfl

@[simp] theorem completed_ofFunction (name : String) (ty : Ty) (params : List Ty)
    (isPrototype : Bool) (position : Position) :
    (ofFunction name ty params isPrototype position).completed =
      ofFunction name ty params false position := rfl

@[simp] theorem completed_ofEnumeration (name : String) (position : Position) :
    (ofEnumeration name position).completed = ofEnumeration name position := rfl

@[simp] theorem completed_ofEnumValue (name : String) (position : Position) :
    (ofEnumValue name position).completed = ofEnumValue name position := rfl

end Symbol

namespace Frame

def settled (f : Frame) : Frame :=
  { f with symbols := f.symbols.map Symbol.completed }

theorem named_settled (f : Frame) (name : String) :
    f.settled.named name = (f.named name).map Symbol.completed := by
  simp only [named, settled, List.filter_map, Function.comp_def, Symbol.completed_name]

theorem settled_declare (f : Frame) (s : Symbol) :
    (f.declare s).settled = f.settled.declare s.completed := by
  simp [declare, settled]

theorem settled_complete (f : Frame) (p : Symbol → Bool) : (f.complete p).settled = f.settled := by
  have unchanged (symbols : List Symbol) :
      (completeFirst p symbols).map Symbol.completed = symbols.map Symbol.completed := by
    induction symbols with
    | nil => rfl
    | cons s others ih =>
      unfold completeFirst
      split <;> simp [ih]
  simp [complete, settled, unchanged]

end Frame

namespace Table

def settled (t : Table) : Table :=
  { t with frames := t.frames.map Frame.settled }

@[simp] theorem size_settled (t : Table) : t.settled.size = t.size := by
  simp [settled, size]

theorem frame?_settled (t : Table) (id : FrameId) :
    t.settled.frame? id = (t.frame? id).map Frame.settled := by
  simp [settled, frame?]

@[simp] theorem level_settled (t : Table) : t.settled.level = t.level := by
  have here := t.frame?_settled t.current
  unfold level currentFrame
  rw [show t.settled.current = t.current from rfl, here]
  cases t.frame? t.current <;> rfl

/-- A change that settling does not see, or sees as another change. -/
theorem settled_modify (t : Table) (change after : Frame → Frame)
    (same : ∀ f, (change f).settled = after f.settled) :
    (t.modify change).settled = t.settled.modify after := by
  have frames : (t.frames.modify t.current change).map Frame.settled =
      (t.frames.map Frame.settled).modify t.current after := by
    apply Array.ext
    · simp
    · intro i left right
      rw [Array.getElem_map, Array.getElem_modify, Array.getElem_modify]
      split <;> simp [same]
  simp [settled, modify, frames]

theorem settled_declare (t : Table) (s : Symbol) :
    (t.declare s).settled = t.settled.declare s.completed :=
  t.settled_modify _ _ fun f => f.settled_declare s

theorem settled_completeOverload (t : Table) (name : String) (params : List Ty) :
    (t.completeOverload name params).settled = t.settled := by
  rw [completeOverload, t.settled_modify _ id fun f => f.settled_complete _]
  have frames : t.settled.frames.modify t.settled.current id = t.settled.frames := by
    apply Array.ext
    · simp
    · intro i left right
      rw [Array.getElem_modify]
      split <;> rfl
  simp [modify, frames]

theorem settled_enter (t : Table) : t.enter.settled = t.settled.enter := by
  have parent := congrArg Table.frames (t.settled_modify
    (fun f => { f with children := f.children ++ [t.size] })
    (fun f => { f with children := f.children ++ [t.size] }) fun _ => rfl)
  have level := t.level_settled
  have frames : t.enter.settled.frames = t.settled.enter.frames := by
    simp only [enter, size_settled, level]
    rw [← parent]
    simp [settled, Frame.settled]
  have current : t.enter.settled.current = t.settled.enter.current := t.size_settled.symm
  exact (Table.mk.injEq ..).mpr ⟨frames, current, rfl⟩

theorem settled_exit (t : Table) : t.exit.settled = t.settled.exit := by
  unfold exit
  cases outer : t.outer <;> simp [settled, outer]

theorem namedIn_settled (t : Table) (id : FrameId) (name : String) :
    t.settled.namedIn id name = (t.namedIn id name).map Symbol.completed := by
  unfold namedIn
  rw [frame?_settled]
  cases t.frame? id with
  | none => rfl
  | some f => exact f.named_settled name

theorem search_settled (t : Table) (name : String) (ids : List FrameId) :
    t.settled.search name ids = (t.search name ids).map Symbol.completed := by
  induction ids with
  | nil => rfl
  | cons id others ih =>
    unfold search
    rw [namedIn_settled]
    cases t.namedIn id name with
    | nil => exact ih
    | cons first rest => rfl

theorem lookupAll_settled (t : Table) (name : String) :
    t.settled.lookupAll name = (t.lookupAll name).map Symbol.completed :=
  t.search_settled name _

theorem lookup_settled (t : Table) (name : String) :
    t.settled.lookup name = (t.lookup name).map Symbol.completed := by
  rw [lookup, lookupAll_settled, List.head?_map]
  rfl

theorem lookupOverload_settled (t : Table) (name : String) (params : List Ty) :
    t.settled.lookupOverload name params = (t.lookupOverload name params).map Symbol.completed := by
  have here : t.settled.lookupLocalAll name = (t.lookupLocalAll name).map Symbol.completed :=
    t.namedIn_settled t.current name
  rw [lookupOverload, here, List.find?_map]
  simp only [Function.comp_def, Symbol.completed_params?]
  rfl

end Table
end Curly
