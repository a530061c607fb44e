import Curly.Proofs.Scope.Prototypes

/-! What is seen of a declaration in the table and in the complaints. It adds a symbol, it defines a
prototype, it repeats what is known, or it is complained about, and then no symbol changes. -/
namespace Curly

/-- Everything that declares a single name. Parameters and the values of an enumeration come with
the names before them. -/
inductive Declarator where
  | variable (ty : Ty) (name : String) (position : Position)
  | prototype (ty : Ty) (name : String) (params : List Ty) (position : Position)
  | function (ty : Ty) (name : String) (params : List Ty) (position : Position)
  | main (position : Position)
  | param (earlier : List String) (p : Param)
  | enumeration (name : String) (position : Position)
  | enumValue (earlier : List String) (value : Identifier)
deriving DecidableEq, Repr

namespace Declarator

/-- What the name is to stand for. -/
def symbol : Declarator → Symbol
  | .variable ty name position => .ofVariable name ty position
  | .prototype ty name params position => .ofFunction name ty params true position
  | .function ty name params position => .ofFunction name ty params false position
  | .main position => .ofFunction "main" .int [] false position
  | .param _ p => .ofVariable p.name p.ty p.span.start
  | .enumeration name position => .ofEnumeration name position
  | .enumValue _ value => .ofEnumValue value.name value.span.start

def ruling (t : Table) : Declarator → Ruling
  | .variable ty name position => .onVariable t ty name position
  | .prototype ty name params position => .onPrototype t ty name params position
  | .function ty name params position => .onFunction t ty name params position
  | .main position => .onMain t position
  | .param earlier p => .onParam earlier p
  | .enumeration name position => .onEnumeration t name position
  | .enumValue earlier value => .onEnumValue t earlier value

end Declarator

namespace Analysis

def declare (a : Analysis) (d : Declarator) : Analysis :=
  a.obey d.symbol.name d.symbol.position (d.ruling a.table)

def enterWith (a : Analysis) (ds : List Declarator) : Analysis :=
  ds.foldl declare a.enter

end Analysis

def paramDeclarators (earlier : List String) : List Param → List Declarator
  | [] => []
  | p :: others => .param earlier p :: paramDeclarators (p.name :: earlier) others

def valueDeclarators (earlier : List String) : List Identifier → List Declarator
  | [] => []
  | value :: others => .enumValue earlier value :: valueDeclarators (value.name :: earlier) others

namespace Step

def declares : Step → Bool
  | .opens | .closes | .uses _ => false
  | .variable .. | .prototype .. | .function .. | .main _ | .param .. | .enumeration .. => true

/-- The names that are declared. The values of an enumeration do not come up if it is rejected. -/
def declarators (t : Table) : Step → List Declarator
  | .opens | .closes | .uses _ => []
  | .variable ty name position => [.variable ty name position]
  | .prototype ty name params position => [.prototype ty name params position]
  | .function ty name params position => [.function ty name params position]
  | .main position => [.main position]
  | .param earlier p => [.param earlier p]
  | .enumeration name values position =>
    .enumeration name position ::
      if (Ruling.onEnumeration t name position).isReject then [] else valueDeclarators [] values

end Step

namespace Table

/-- Other symbols for the current frame. -/
def withSymbols (t : Table) (symbols : List Symbol) : Table :=
  t.modify fun f => { f with symbols }

end Table

/-- What a declaration can do. -/
inductive Effect where
  | added
  | completed
  | repeated
  | rejected
deriving DecidableEq, Repr

namespace Effect

/-- How the analysis behind a declaration differs from the one before. -/
def Describes (d : Declarator) (a b : Analysis) : Effect → Prop
  | added =>
    b = { a with table := a.table.withSymbols (a.table.frameSymbols a.table.current ++ [d.symbol]) }
  | completed =>
    ∃ before s behind, a.table.frameSymbols a.table.current = before ++ s :: behind ∧
      s.isPrototype ∧ d.symbol.isPrototype = false ∧
      s.name = d.symbol.name ∧ s.params? = d.symbol.params? ∧ s.ty = d.symbol.ty ∧
      b = { a with table := a.table.withSymbols (before ++ s.completed :: behind) }
  | repeated =>
    (∃ s ∈ a.table.frameSymbols a.table.current, s.isFunction ∧ s.isPrototype = false ∧
      d.symbol.isPrototype ∧
      s.name = d.symbol.name ∧ s.params? = d.symbol.params? ∧ s.ty = d.symbol.ty) ∧ b = a
  | rejected => ∃ kind, b = a.report kind d.symbol.name d.symbol.position

/-- Numbers of complaints, symbols and prototypes tell the effects apart. -/
def observed (a b : Analysis) : Effect :=
  let before := a.table.frameSymbols a.table.current
  let behind := b.table.frameSymbols a.table.current
  if a.errors.length < b.errors.length then rejected
  else if before.length < behind.length then added
  else if behind.countP Symbol.isPrototype < before.countP Symbol.isPrototype then completed
  else repeated

end Effect

namespace Table

variable {t : Table}

theorem modify_eq_withSymbols {change : Frame → Frame} (after : List Symbol → List Symbol)
    (same : ∀ f, change f = { f with symbols := after f.symbols }) :
    t.modify change = t.withSymbols (after (t.frameSymbols t.current)) := by
  have frames : t.frames.modify t.current change =
      t.frames.modify t.current fun f =>
        { f with symbols := after (t.frameSymbols t.current) } := by
    refine Array.ext_getElem? fun id => ?_
    rw [Array.getElem?_modify, Array.getElem?_modify]
    by_cases here : t.current = id
    · obtain rfl := here
      unfold frameSymbols frame?
      cases t.frames[t.current]? with
      | none => rfl
      | some f => simp [same]
    · rw [if_neg here, if_neg here]
  exact congrArg (Table.mk · t.current t.outer) frames

theorem frameSymbols_withSymbols (linked : t.Linked) (symbols : List Symbol) :
    (t.withSymbols symbols).frameSymbols t.current = symbols := by
  rw [withSymbols, frameSymbols_modify linked (fun _ => symbols) fun _ => rfl, if_pos rfl]

end Table

theorem completeFirst_eq_of_head? {p : Symbol → Bool} {symbols : List Symbol} {s : Symbol}
    (found : (symbols.filter p).head? = some s) :
    ∃ before behind, symbols = before ++ s :: behind ∧
      Frame.completeFirst p symbols = before ++ s.completed :: behind := by
  induction symbols with
  | nil => exact nomatch found
  | cons other others ih =>
    rw [List.filter_cons] at found
    unfold Frame.completeFirst
    split at found
    · obtain rfl := Option.some.inj found
      exact ⟨[], others, rfl, if_pos ‹_›⟩
    · obtain ⟨before, behind, rfl, changed⟩ := ih found
      refine ⟨other :: before, behind, rfl, ?_⟩
      rw [if_neg ‹_›, changed]
      rfl

namespace Ruling

variable {t : Table}

/-- There is a function in the current frame with the name, the parameters and the type. -/
def Meets (d : Declarator) (t : Table) (params : List Ty) (s : Symbol) : Prop :=
  t.lookupOverload d.symbol.name params = some s ∧ d.symbol.params? = some params ∧
    s.ty = d.symbol.ty

/-- What a declaration and a ruling on it have to do with each other. -/
def Suits (d : Declarator) (t : Table) : Ruling → Prop
  | .add s => s = d.symbol
  | .complete params =>
    ∃ s, Meets d t params s ∧ s.isPrototype ∧ d.symbol.isPrototype = false
  | .ignore => ∃ params s, Meets d t params s ∧ s.isPrototype = false ∧ d.symbol.isPrototype
  | .reject _ => True

theorem suits_onPrototype (ty : Ty) (name : String) (params : List Ty) (position : Position) :
    (onPrototype t ty name params position).Suits (.prototype ty name params position) t := by
  unfold onPrototype
  split
  · trivial
  · split
    · rfl
    next here found =>
      split
      · trivial
      next same =>
        split
        · trivial
        next defined =>
          exact ⟨params, here, ⟨found, rfl, not_not.mp same⟩, eq_false_of_ne_true defined, rfl⟩

theorem suits_onFunction (ty : Ty) (name : String) (params : List Ty) (position : Position) :
    (onFunction t ty name params position).Suits (.function ty name params position) t := by
  unfold onFunction
  split
  · trivial
  · split
    · rfl
    next here found =>
      split
      next open_ => exact ⟨here, ⟨found, rfl, open_.2⟩, open_.1, rfl⟩
      · trivial

theorem suits (t : Table) : (d : Declarator) → (d.ruling t).Suits d t
  | .variable ty name position => by
    simp only [Declarator.ruling, onVariable]
    repeat' split
    all_goals trivial
  | .prototype ty name params position => suits_onPrototype ty name params position
  | .function ty name params position => suits_onFunction ty name params position
  | .main position => by
    simp only [Declarator.ruling, onMain]
    split <;> trivial
  | .param earlier p => by
    simp only [Declarator.ruling, onParam]
    split <;> trivial
  | .enumeration name position => by
    simp only [Declarator.ruling, onEnumeration]
    repeat' split
    all_goals trivial
  | .enumValue earlier value => by
    simp only [Declarator.ruling, onEnumValue]
    repeat' split
    all_goals trivial

end Ruling

namespace Effect

variable {d : Declarator} {a b : Analysis} {o : Effect}

theorem exists_describes (d : Declarator) (a : Analysis) :
    ∃ o : Effect, o.Describes d a (a.declare d) := by
  have suits := Ruling.suits a.table d
  unfold Analysis.declare
  cases known : d.ruling a.table with
  | add s =>
    rw [known] at suits
    obtain rfl : s = d.symbol := suits
    have added := Table.modify_eq_withSymbols (t := a.table) (· ++ [d.symbol]) fun _ => rfl
    exact ⟨.added, congrArg (Analysis.mk · a.errors) added⟩
  | complete params =>
    rw [known] at suits
    obtain ⟨s, ⟨found, listed, same⟩, isPrototype, defines⟩ := suits
    rw [Table.lookupOverload_eq] at found
    obtain ⟨before, behind, split, changed⟩ := completeFirst_eq_of_head? found
    have own := (List.mem_filter.mp (List.mem_of_head? found)).2
    obtain ⟨named, params⟩ := Symbol.isOf_iff.mp own
    refine ⟨completed, before, s, behind, split, isPrototype, defines, named,
      params.trans listed.symm, same, ?_⟩
    rw [← changed]
    exact congrArg (Analysis.mk · a.errors)
      (Table.modify_eq_withSymbols (Frame.completeFirst _) fun _ => rfl)
  | ignore =>
    rw [known] at suits
    obtain ⟨params, s, ⟨found, listed, same⟩, defined, prototype⟩ := suits
    rw [Table.lookupOverload_eq] at found
    have member := List.mem_filter.mp (List.mem_of_head? found)
    obtain ⟨named, params⟩ := Symbol.isOf_iff.mp member.2
    refine ⟨repeated, ⟨s, member.1, ?_, defined, prototype, named, params.trans listed.symm,
      same⟩, rfl⟩
    simp [Symbol.isFunction, params]
  | reject kind => exact ⟨rejected, kind, rfl⟩

theorem observed_eq (linked : a.table.Linked) (describes : o.Describes d a b) :
    observed a b = o := by
  cases o with
  | added =>
    obtain rfl := describes
    simp [observed, Table.frameSymbols_withSymbols linked]
  | completed =>
    obtain ⟨before, s, behind, split, isPrototype, -, -, -, -, rfl⟩ := describes
    simp [observed, Table.frameSymbols_withSymbols linked, split, isPrototype,
      Symbol.isPrototype_completed]
  | repeated =>
    obtain ⟨-, rfl⟩ := describes
    simp [observed]
  | rejected =>
    obtain ⟨kind, rfl⟩ := describes
    simp [observed, Analysis.report]

end Effect

namespace Analysis

theorem params_eq_declare (earlier : List String) (ps : List Param) (a : Analysis) :
    params earlier ps a = (paramDeclarators earlier ps).foldl declare a := by
  induction ps generalizing earlier a with
  | nil => rfl
  | cons p others ih => exact ih _ _

theorem enumValues_eq_declare (earlier : List String) (values : List Identifier) (a : Analysis) :
    enumValues earlier values a = (valueDeclarators earlier values).foldl declare a := by
  induction values generalizing earlier a with
  | nil => rfl
  | cons value others ih => exact ih _ _

theorem linked_obey {a : Analysis} (linked : a.table.Linked) (name : String) (position : Position) :
    (ruling : Ruling) → (a.obey name position ruling).table.Linked
  | .add _ | .complete _ => linked.modify _
  | .ignore | .reject _ => linked

theorem linked_foldl_declare {a : Analysis} (linked : a.table.Linked) (ds : List Declarator) :
    (ds.foldl declare a).table.Linked := by
  induction ds generalizing a with
  | nil => exact linked
  | cons d others ih => exact ih (linked_obey linked _ _ _)

section

variable (declared : String → Bool)

theorem step_eq_declare (a : Analysis) : (s : Step) → s.declares →
    step declared a s = (s.declarators a.table).foldl declare a
  | .variable .., _ | .prototype .., _ | .function .., _ | .main _, _ | .param .., _ => rfl
  | .enumeration name values position, _ => by
    simp only [step, enumeration, Step.declarators]
    split
    · rfl
    · exact enumValues_eq_declare [] values _

theorem linked_step {a : Analysis} (linked : a.table.Linked) (s : Step) :
    (step declared a s).table.Linked := by
  cases declares : s.declares with
  | true =>
    rw [step_eq_declare declared a s declares]
    exact linked_foldl_declare linked _
  | false =>
    match s with
    | .opens => exact linked.enter
    | .closes => exact linked.exit
    | .uses o =>
      simp only [step, resolve]
      split <;> exact linked

theorem linked_run {a : Analysis} (linked : a.table.Linked) (steps : List Step) :
    (run declared steps a).table.Linked := by
  induction steps generalizing a with
  | nil => exact linked
  | cons s others ih => exact ih (linked_step declared linked s)

/-- Whatever the analyzer has come to, a declaration has exactly one effect. Everything that a step
declares is declared one after the other, the parameters of a function in a frame of their own. -/
theorem effect_of_declare {a : Analysis} (linked : a.table.Linked) :
    (∀ d, (a.declare d).table.Linked ∧ ∃! o : Effect, o.Describes d a (a.declare d)) ∧
      (∀ s : Step, s.declares → step declared a s = (s.declarators a.table).foldl declare a) ∧
      (∀ ty name ps body span, stmt declared (.function ty name ps body span) a =
        (within declared body ((a.declare (.function ty name (signature ps) span.start)).enterWith
          (paramDeclarators [] ps))).exit) ∧
      (a.enter.table.current = a.table.size ∧
        a.enter.table.frameSymbols a.enter.table.current = []) ∧
      ∀ steps, (run declared steps a).table.Linked := by
  refine ⟨fun d => ⟨linked_obey linked _ _ _, ?_⟩, step_eq_declare declared a, ?_, ⟨rfl, ?_⟩,
    linked_run declared linked⟩
  · obtain ⟨o, describes⟩ := Effect.exists_describes d a
    refine ⟨o, describes, fun other also => ?_⟩
    rw [← Effect.observed_eq linked also, Effect.observed_eq linked describes]
  · intro ty name ps body span
    rw [stmt, params_eq_declare]
    rfl
  · exact (Table.frameSymbols_enter _).trans (if_pos rfl)

end

/-- A definition behind its prototype completes it, and another definition is rejected. -/
theorem effect_of_square :
    let square : Declarator := .function .int "square" [.int] ⟨2, 1⟩
    let a := run (fun _ => true) [.prototype .int "square" [.int] ⟨1, 1⟩] .empty
    a.table.Linked ∧ Effect.completed.Describes square a (a.declare square) ∧
      Effect.rejected.Describes square (a.declare square)
        ((a.declare square).declare square) := by
  intro square a
  have linked : a.table.Linked :=
    (effect_of_declare (fun _ => true) (a := .empty) Table.linked_empty).2.2.2.2 _
  have effects := (effect_of_declare (fun _ => true) linked).1 square
  obtain ⟨first, completes, -⟩ := effects.2
  obtain ⟨second, rejects, -⟩ := ((effect_of_declare (fun _ => true) effects.1).1 square).2
  obtain rfl : first = .completed := (Effect.observed_eq linked completes).symm.trans (by decide)
  obtain rfl : second = .rejected :=
    (Effect.observed_eq effects.1 rejects).symm.trans (by decide)
  exact ⟨linked, completes, rejects⟩

end Analysis
end Curly
