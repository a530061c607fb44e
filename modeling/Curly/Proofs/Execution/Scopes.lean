import Curly.Proofs.Execution.Structured

/-! Declarations that hide nothing. Where no declaration repeats the name of a variable in force,
an execution only puts new names before those that were there. -/
namespace Curly

def Stmt.declares : Stmt → List String
  | .variable _ name _ _ => [name]
  | _ => []

/-- The variables declared in a list of statements itself, newest first. -/
def declared : List Stmt → List String
  | [] => []
  | s :: others => declared others ++ s.declares

mutual

/-- Whether no declaration repeats the name of a variable that is visible there. -/
def Stmt.fresh (visible : List String) : Stmt → Bool
  | .variable _ name _ _ => !visible.contains name
  | .block body => body.fresh visible
  | .branch _ yes no _ =>
    yes.fresh visible &&
      match no with
      | none => true
      | some no => no.fresh visible
  | .whileLoop _ body _ => body.fresh visible
  | .doLoop body _ _ => body.fresh visible
  | .forLoop initial _ _ body _ =>
    match initial with
    | none => body.fresh visible
    | some initial => initial.fresh visible && body.fresh (initial.declares ++ visible)
  | .switch _ cases fallback _ =>
    armsFresh visible cases &&
      match fallback with
      | none => true
      | some fallback => fallback.fresh visible
  | _ => true
termination_by structural s => s

def Block.fresh (visible : List String) : Block → Bool
  | ⟨body, _⟩ => bodyFresh visible body
termination_by structural body => body

def bodyFresh (visible : List String) : List Stmt → Bool
  | [] => true
  | s :: others => s.fresh visible && bodyFresh (s.declares ++ visible) others
termination_by structural body => body

def armsFresh (visible : List String) : List Case → Bool
  | [] => true
  | ⟨_, body, _⟩ :: others => body.fresh visible && armsFresh visible others
termination_by structural cases => cases

end

section

variable {visible : List String} {e : Expr} {yes body : Block} {no fallback : Option Block}
  {initial : Option Stmt} {condition update : Option Expr} {cases : List Case} {span : Span}

theorem fresh_branch (fresh : (Stmt.branch e yes no span).fresh visible) :
    yes.fresh visible ∧ ∀ body ∈ no, body.fresh visible := by
  cases no <;> simp_all [Stmt.fresh]

theorem fresh_forLoop (fresh : (Stmt.forLoop initial condition update body span).fresh visible) :
    bodyFresh visible initial.toList ∧ body.fresh (declared initial.toList ++ visible) := by
  cases initial <;> simp_all [Stmt.fresh, bodyFresh, declared]

theorem fresh_switch (fresh : (Stmt.switch e cases fallback span).fresh visible) :
    armsFresh visible cases ∧ ∀ body ∈ fallback, body.fresh visible := by
  cases fallback <;> simp_all [Stmt.fresh]

end

/-- New names have come before those in force. -/
def Environment.Grows {Value : Type} (start after : Environment Value) (added : List String) :
    Prop :=
  ∃ inner outer, after = inner ++ outer ∧ names outer = names start ∧ names inner = added ∧
    ∀ n ∈ added, n ∉ names start

namespace Environment.Grows

variable {Value : Type} {start middle after : Environment Value} {added others : List String}

theorem of_same (same : names after = names start) : Grows start after [] :=
  ⟨[], after, rfl, same, rfl, by simp⟩

theorem names (grows : Grows start after added) : after.names = added ++ start.names := by
  obtain ⟨inner, outer, rfl, same, new, -⟩ := grows
  rw [names_append, same, new]

theorem trans (first : Grows start middle added) (second : Grows middle after others) :
    Grows start after (others ++ added) := by
  obtain ⟨inner, outer, rfl, same, rfl, apart⟩ := second
  rw [first.names] at same apart
  obtain ⟨near, far, rfl, here, there⟩ := List.map_eq_append_iff.mp same
  obtain ⟨-, -, -, -, -, new⟩ := first
  refine ⟨inner ++ near, far, (List.append_assoc ..).symm, there, ?_, fun n member => ?_⟩
  · rw [names_append, ← here]
    rfl
  · rcases List.mem_append.mp member with member | member
    · exact fun hidden => apart n member (List.mem_append_right _ hidden)
    · exact new n member

theorem behind (same : middle.names = start.names) (grows : Grows middle after added) :
    Grows start after added := by
  simpa using (of_same same).trans grows

theorem leave (grows : Grows start after added) : (start.leave after).names = start.names := by
  obtain ⟨inner, outer, rfl, same, -, -⟩ := grows
  rw [leave_append start inner outer same, same]

end Environment.Grows

namespace Piece

variable {Value : Type}

def fresh (visible : List String) : Piece Value → Prop
  | .stmt s => s.fresh visible
  | .stmts body => bodyFresh visible body
  | .block body => body.fresh visible
  | .loop _ _ body => body.fresh visible
  | .arms _ cases fallback => armsFresh visible cases ∧ ∀ body ∈ fallback, body.fresh visible

def declares : Piece Value → List String
  | .stmt s => s.declares
  | .stmts body => declared body
  | _ => []

/-- Whether the piece cuts back what is declared in it, however it ends. -/
def closes : Piece Value → Prop
  | .stmt _ | .stmts _ => False
  | _ => True

end Piece

section

variable {Value World : Type} {m : Meaning Value World}

namespace Piece

variable {piece whole : Piece Value} {start middle after : Environment Value}
  {ending other : Ending Value}

/-- What an execution to the end adds is what is declared. One that is broken off may add less, but
nothing that hides a variable. -/
def Adds (piece : Piece Value) (ending : Ending Value) (start after : Environment Value) : Prop :=
  ∃ added, start.Grows after added ∧ (ending = .done ∨ piece.closes → added = piece.declares)

theorem declares_of_closes (closes : piece.closes) : piece.declares = [] := by
  cases piece with
  | stmt s => exact closes.elim
  | stmts body => exact closes.elim
  | block | loop | arms => rfl

theorem Adds.of_same (same : after.names = start.names) (nothing : piece.declares = []) :
    piece.Adds ending start after :=
  ⟨[], .of_same same, fun _ => nothing.symm⟩

theorem Adds.one {name : String} (value : Value) (same : after.names = start.names)
    (new : name ∉ start.names) (declares : piece.declares = [name]) :
    piece.Adds ending start ((name, value) :: after) := by
  refine ⟨[name], ⟨[(name, value)], after, rfl, same, rfl, ?_⟩, fun _ => declares.symm⟩
  intro n member
  rw [List.mem_singleton] at member
  exact member ▸ new

theorem Adds.done (adds : piece.Adds .done start after) :
    start.Grows after piece.declares := by
  obtain ⟨added, grows, declares⟩ := adds
  exact declares (.inl rfl) ▸ grows

theorem Adds.closed (adds : piece.Adds ending start after) (closes : piece.closes) :
    start.Grows after [] := by
  obtain ⟨added, grows, declares⟩ := adds
  exact (declares (.inr closes)).trans (declares_of_closes closes) ▸ grows

/-- A piece that closes is the whole of what is left to do. -/
theorem Adds.within (adds : piece.Adds ending middle after) (closes : piece.closes)
    (same : middle.names = start.names) (nothing : whole.declares = []) :
    whole.Adds other start after :=
  ⟨[], (adds.closed closes).behind same, fun _ => nothing.symm⟩

end Piece

theorem Exec.grows {piece : Piece Value} {s after : Situation Value World} {ending : Ending Value}
    (run : Exec m piece s ending after) :
    piece.fresh s.vars.names → piece.Adds ending s.vars after.vars := by
  -- The names in force are known at every moment, so what is fresh for the whole is fresh for the
  -- part that comes next.
  induction run with
  | empty s => exact fun _ => .of_same rfl rfl
  | next first others s middle after ending _ _ ihHead ihTail =>
    intro fresh
    simp only [Piece.fresh, bodyFresh, Bool.and_eq_true] at fresh
    have before := (ihHead fresh.1).done
    obtain ⟨late, behind, declares⟩ := ihTail (before.names ▸ fresh.2)
    refine ⟨_, before.trans behind, fun finished => ?_⟩
    rw [declares finished]
    rfl
  | stop first others s after ending _ early ih =>
    intro fresh
    simp only [Piece.fresh, bodyFresh, Bool.and_eq_true] at fresh
    obtain ⟨added, grows, -⟩ := ih fresh.1
    exact ⟨added, grows, fun finished => absurd (finished.resolve_right id) early⟩
  | scope body span s after ending _ ih =>
    intro fresh
    obtain ⟨added, grows, -⟩ := ih fresh
    exact .of_same grows.leave rfl
  | declare ty name span s =>
    intro fresh
    have new : name ∉ s.vars.names := by simpa [Piece.fresh, Stmt.fresh] using fresh
    exact .one _ rfl new rfl
  | define ty name e span s value after evaluated =>
    intro fresh
    have new : name ∉ s.vars.names := by simpa [Piece.fresh, Stmt.fresh] using fresh
    exact .one value (m.names_eval e s value after evaluated) new rfl
  | evaluate e span s value after evaluated =>
    exact fun _ => .of_same (m.names_eval e s value after evaluated) rfl
  | print args span s values middle value world evaluated _ =>
    exact fun _ => .of_same (m.names_evals args s values middle evaluated) rfl
  | block body s after ending _ ih => exact fun fresh => (ih fresh).within trivial rfl rfl
  | yes e yes no span s value middle after ending evaluated _ _ ih =>
    intro fresh
    have same := m.names_eval e s value middle evaluated
    exact (ih (same ▸ (fresh_branch fresh).1)).within trivial same rfl
  | no e yes no span s value middle after ending evaluated _ _ ih =>
    intro fresh
    have same := m.names_eval e s value middle evaluated
    exact (ih (same ▸ (fresh_branch fresh).2 no rfl)).within trivial same rfl
  | skip e yes span s value after evaluated _ =>
    exact fun _ => .of_same (m.names_eval e s value after evaluated) rfl
  | whileLoop e body span s after ending _ ih =>
    exact fun fresh => (ih fresh).within trivial rfl rfl
  | doLoop body e span s middle after ending _ _ ihFirst ihLoop =>
    intro fresh
    have same := ((ihFirst fresh).closed trivial).names
    exact (ihLoop (same ▸ fresh)).within trivial same rfl
  | doOnce body e span s after ending _ _ ih =>
    exact fun fresh => (ih fresh).within trivial rfl rfl
  | forLoop initial e update body span s middle after ending _ _ ihStart ihLoop =>
    intro fresh
    obtain ⟨start, inside⟩ := fresh_forLoop fresh
    have first := (ihStart start).done
    have looped := (ihLoop (first.names ▸ inside)).closed trivial
    exact .of_same (first.trans looped).leave rfl
  | forNever initial e update body span s after ending _ _ ih =>
    intro fresh
    obtain ⟨added, grows, -⟩ := ih (fresh_forLoop fresh).1
    exact .of_same grows.leave rfl
  | finish condition update body s after tested => exact fun _ => .of_same (m.names_test tested) rfl
  | quit condition update body s middle after ending tested _ _ ih =>
    intro fresh
    have same := m.names_test tested
    exact (ih (same ▸ fresh)).within trivial same rfl
  | again condition update body s tried middle updated after ending tested _ advanced _ ihBody
      ihRest =>
    intro fresh
    have same := m.names_test tested
    have inside := ((ihBody (same ▸ fresh)).closed trivial).names
    have turned := (m.names_effect advanced).trans (inside.trans same)
    exact (ihRest (turned ▸ fresh)).within trivial turned rfl
  | switch e cases fallback span s subject middle after ending evaluated _ ih =>
    intro fresh
    have same := m.names_eval e s subject middle evaluated
    exact (ih (same ▸ fresh_switch fresh)).within trivial same rfl
  | hit subject e body span others fallback s value middle after ending evaluated _ _ ih =>
    intro fresh
    have same := m.names_eval e s value middle evaluated
    simp only [Piece.fresh, armsFresh, Bool.and_eq_true] at fresh
    exact (ih (same ▸ fresh.1.1)).within trivial same rfl
  | miss subject e body span others fallback s value middle after ending evaluated _ _ ih =>
    intro fresh
    have same := m.names_eval e s value middle evaluated
    simp only [Piece.fresh, armsFresh, Bool.and_eq_true] at fresh
    exact (ih (same ▸ ⟨fresh.1.2, fresh.2⟩)).within trivial same rfl
  | none subject s => exact fun _ => .of_same rfl rfl
  | fallback subject body s after ending _ ih =>
    exact fun fresh => (ih (fresh.2 body rfl)).within trivial rfl rfl
  | giveBack e span s value after evaluated =>
    exact fun _ => .of_same (m.names_eval e s value after evaluated) rfl
  | giveNothing span s => exact fun _ => .of_same rfl rfl
  | leave span s => exact fun _ => .of_same rfl rfl

end
end Curly
