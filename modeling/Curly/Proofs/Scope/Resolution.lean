import Curly.Proofs.Scope.Occurrences
import Curly.Proofs.Scope.Path

/-! Names are resolved by lexical scoping: a use is complained about just if no declaration of its
name that was accepted before is in a scope around it. -/
namespace Curly

/-- Whether a complaint is about the use of a name. -/
def ScopeError.Kind.isUse : ScopeError.Kind → Bool
  | .undeclaredVariable | .undefinedFunction | .forwardReference => true
  | _ => false

namespace Ruling

/-- The names that a ruling leaves declared. -/
def accepted (name : String) (ruling : Ruling) : List String :=
  if ruling.isReject then [] else [name]

end Ruling

def acceptedValues (earlier : List String) : List Identifier → Analysis → List String
  | [], _ => []
  | value :: others, a =>
    let ruling := Ruling.onEnumValue a.table earlier value
    ruling.accepted value.name ++
      acceptedValues (value.name :: earlier) others
        (a.obey value.name value.span.start ruling)

/-- The names that the analyzer accepts at a step. -/
def Step.accepted (a : Analysis) : Step → List String
  | .opens | .closes | .uses _ => []
  | .variable ty name position => (Ruling.onVariable a.table ty name position).accepted name
  | .prototype ty name params position =>
    (Ruling.onPrototype a.table ty name params position).accepted name
  | .function ty name params position =>
    (Ruling.onFunction a.table ty name params position).accepted name
  | .main position => (Ruling.onMain a.table position).accepted "main"
  | .param earlier p => (Ruling.onParam earlier p).accepted p.name
  | .enumeration name values position =>
    let ruling := Ruling.onEnumeration a.table name position
    if ruling.isReject then [] else name :: acceptedValues [] values (a.obey name position ruling)

/-- How many scopes lie between a scope, itself so far out before some steps, and the innermost one
behind them, if it is still open. -/
def outward : List Step → Nat → Option Nat
  | [], out => some out
  | .opens :: steps, out => outward steps (out + 1)
  | .closes :: steps, out =>
    match out with
    | 0 => none
    | out + 1 => outward steps out
  | _ :: steps, out => outward steps out

theorem outward_append (first second : List Step) (out : Nat) :
    outward (first ++ second) out = (outward first out).bind (outward second) := by
  induction first generalizing out with
  | nil => rfl
  | cons s others ih =>
    cases s with
    | closes => cases out <;> simp [outward, ih]
    | _ => simp [outward, ih]

section

variable (declared : String → Bool)

/-- A declaration of the name was accepted, and its scope, so far out by now, is still open. -/
def DeclaredAt (before : List Step) (out : Nat) (name : String) : Prop :=
  ∃ first s others, before = first ++ s :: others ∧
    name ∈ s.accepted (Analysis.run declared first .empty) ∧ outward others 0 = some out

theorem declaredAt_nil (out : Nat) (name : String) : ¬DeclaredAt declared [] out name := by
  rintro ⟨first, s, others, split, -⟩
  simp at split

/-- One more step declares names in the innermost scope, or moves outwards or inwards. -/
theorem declaredAt_snoc_iff (before : List Step) (s : Step) (out : Nat) (name : String) :
    DeclaredAt declared (before ++ [s]) out name ↔
      (out = 0 ∧ name ∈ s.accepted (Analysis.run declared before .empty)) ∨
        ∃ inner, DeclaredAt declared before inner name ∧ outward [s] inner = some out := by
  constructor
  · rintro ⟨first, t, others, split, accepts, still⟩
    rcases List.eq_nil_or_concat others with rfl | ⟨rest, last, rfl⟩
    · obtain ⟨rfl, same⟩ := List.append_inj' split rfl
      obtain rfl : s = t := by simpa using same
      exact .inl ⟨by simpa [outward, eq_comm] using still, accepts⟩
    · have longer : before ++ [s] = (first ++ t :: rest) ++ [last] := by simpa using split
      obtain ⟨rfl, same⟩ := List.append_inj' longer rfl
      obtain rfl : s = last := by simpa using same
      rw [List.concat_eq_append, outward_append, Option.bind_eq_some_iff] at still
      obtain ⟨inner, open_, moved⟩ := still
      exact .inr ⟨inner, ⟨first, t, rest, rfl, accepts, open_⟩, moved⟩
  · rintro (⟨rfl, accepts⟩ | ⟨inner, ⟨first, t, others, rfl, accepts, open_⟩, moved⟩)
    · exact ⟨before, s, [], rfl, accepts, rfl⟩
    · refine ⟨first, t, others ++ [s], by simp, accepts, ?_⟩
      rw [outward_append, open_]
      exact moved

end

namespace Ruling

/-- A ruling lets the name be declared, or knows it from the current frame. It has nothing to say
about uses. -/
def Fits (t : Table) (name : String) : Ruling → Prop
  | .add s => s.name = name
  | .complete _ | .ignore => name ∈ t.frameNames t.current
  | .reject kind => kind.isUse = false

variable {t : Table}

theorem fits_onVariable (ty : Ty) (name : String) (position : Position) :
    (onVariable t ty name position).Fits t name := by
  unfold onVariable
  repeat' split
  all_goals rfl

theorem mem_of_lookupOverload {name : String} {params : List Ty} {here : Symbol}
    (found : t.lookupOverload name params = some here) : name ∈ t.frameNames t.current :=
  Table.mem_of_lookupLocalAll (List.mem_of_find?_eq_some found)

theorem fits_onPrototype (ty : Ty) (name : String) (params : List Ty) (position : Position) :
    (onPrototype t ty name params position).Fits t name := by
  unfold onPrototype
  split
  · rfl
  · split
    · rfl
    · repeat' split
      · rfl
      · rfl
      · exact mem_of_lookupOverload ‹_›

theorem fits_onFunction (ty : Ty) (name : String) (params : List Ty) (position : Position) :
    (onFunction t ty name params position).Fits t name := by
  unfold onFunction
  split
  · rfl
  · split
    · rfl
    · split
      · exact mem_of_lookupOverload ‹_›
      · rfl

theorem fits_onMain (position : Position) : (onMain t position).Fits t "main" := by
  unfold onMain
  split <;> rfl

theorem fits_onParam (earlier : List String) (p : Param) : (onParam earlier p).Fits t p.name := by
  unfold onParam
  split <;> rfl

theorem fits_onEnumeration (name : String) (position : Position) :
    (onEnumeration t name position).Fits t name := by
  unfold onEnumeration
  repeat' split
  all_goals rfl

theorem fits_onEnumValue (earlier : List String) (value : Identifier) :
    (onEnumValue t earlier value).Fits t value.name := by
  unfold onEnumValue
  repeat' split
  all_goals rfl

end Ruling

namespace Analysis

/-- The complaints about uses. -/
def useErrors (a : Analysis) : List ScopeError :=
  a.errors.filter (·.kind.isUse)

theorem useErrors_report (a : Analysis) (kind : ScopeError.Kind) (name : String)
    (position : Position) :
    (a.report kind name position).useErrors =
      a.useErrors ++ if kind.isUse then [⟨kind, name, position⟩] else [] := by
  simp [useErrors, report, List.filter_append, List.filter_cons]

/-- Names were declared, and no use was complained about. -/
structure Declares (added : List String) (a b : Analysis) : Prop where
  grown : a.table.Grown added b.table
  quiet : b.useErrors = a.useErrors

theorem Declares.trans {added more : List String} {a b c : Analysis} (first : Declares added a b)
    (second : Declares more b c) : Declares (added ++ more) a c :=
  ⟨first.grown.trans second.grown, second.quiet.trans first.quiet⟩

theorem declares_obey {a : Analysis} (linked : a.table.Linked) {name : String} {ruling : Ruling}
    (position : Position) (fits : ruling.Fits a.table name) :
    Declares (ruling.accepted name) a (a.obey name position ruling) := by
  cases ruling with
  | add s =>
    obtain rfl : s.name = name := fits
    exact ⟨.declare linked s, rfl⟩
  | complete params => exact ⟨.complete linked params fits, rfl⟩
  | ignore => exact ⟨.known linked fits, rfl⟩
  | reject kind =>
    have quiet : kind.isUse = false := fits
    refine ⟨.refl linked, ?_⟩
    rw [obey, useErrors_report, quiet]
    exact List.append_nil _

theorem declares_values (earlier : List String) (values : List Identifier) {a : Analysis}
    (linked : a.table.Linked) :
    Declares (acceptedValues earlier values a) a (enumValues earlier values a) := by
  induction values generalizing earlier a with
  | nil => exact ⟨.refl linked, rfl⟩
  | cons value others ih =>
    have first := declares_obey linked value.span.start
      (Ruling.fits_onEnumValue (t := a.table) earlier value)
    exact first.trans (ih _ first.grown.linked)

theorem declares_enumeration (name : String) (values : List Identifier) (position : Position)
    {a : Analysis} (linked : a.table.Linked) :
    Declares (Step.accepted a (.enumeration name values position)) a
      (enumeration name values position a) := by
  have first := declares_obey linked position
    (Ruling.fits_onEnumeration (t := a.table) name position)
  simp only [Step.accepted, enumeration, Ruling.accepted] at first ⊢
  split
  · rwa [if_pos ‹_›] at first
  · rw [if_neg ‹_›] at first
    exact first.trans (declares_values [] values first.grown.linked)

section

variable (declared : String → Bool)

/-- What the analyzer reports at a step. -/
def stepError? (a : Analysis) : Step → Option ScopeError
  | .uses o =>
    if (a.table.lookup o.name.name).isSome then none
    else
      some ⟨if declared o.name.name then .forwardReference
        else if o.isCall then .undefinedFunction else .undeclaredVariable,
        o.name.name, o.name.span.start⟩
  | _ => none

/-- A step neither opens nor closes a scope: names are added to the current one, and a use is
complained about if its name is not known. -/
theorem stays_step {a : Analysis} (linked : a.table.Linked) : (s : Step) →
    (∀ out, outward [s] out = some out) →
    a.table.Grown (s.accepted a) (step declared a s).table ∧
      (step declared a s).useErrors = a.useErrors ++ (stepError? declared a s).toList
  | .opens, stays | .closes, stays => nomatch stays 0
  | .uses o, _ => by
    simp only [step, resolve, stepError?, Step.accepted]
    split
    · exact ⟨.refl linked, (List.append_nil _).symm⟩
    · refine ⟨.refl linked, ?_⟩
      rw [useErrors_report]
      repeat' split
      all_goals first | rfl | exact absurd rfl ‹_›
  | .variable ty name position, _ => by
    have declares := declares_obey linked position (Ruling.fits_onVariable ty name position)
    exact ⟨declares.grown, declares.quiet.trans (List.append_nil _).symm⟩
  | .prototype ty name params position, _ => by
    have declares := declares_obey linked position
      (Ruling.fits_onPrototype ty name params position)
    exact ⟨declares.grown, declares.quiet.trans (List.append_nil _).symm⟩
  | .function ty name params position, _ => by
    have declares := declares_obey linked position (Ruling.fits_onFunction ty name params position)
    exact ⟨declares.grown, declares.quiet.trans (List.append_nil _).symm⟩
  | .main position, _ => by
    have declares := declares_obey linked position (Ruling.fits_onMain position)
    exact ⟨declares.grown, declares.quiet.trans (List.append_nil _).symm⟩
  | .param earlier p, _ => by
    have declares := declares_obey linked p.span.start (Ruling.fits_onParam earlier p)
    exact ⟨declares.grown, declares.quiet.trans (List.append_nil _).symm⟩
  | .enumeration name values position, _ => by
    have declares := declares_enumeration name values position linked
    exact ⟨declares.grown, declares.quiet.trans (List.append_nil _).symm⟩

theorem useErrors_step {a : Analysis} (linked : a.table.Linked) (s : Step) :
    (step declared a s).useErrors = a.useErrors ++ (stepError? declared a s).toList := by
  match s with
  | .opens | .closes => exact (List.append_nil _).symm
  | .uses _ | .variable .. | .prototype .. | .function .. | .main _ | .param .. | .enumeration .. =>
    exact (stays_step declared linked _ fun _ => rfl).2

/-- The table behind some steps knows the names that were declared and are still in scope. -/
structure Seen (before : List Step) (depth : Nat) : Prop where
  linked : (run declared before .empty).table.Linked
  deep : (run declared before .empty).table.names.length = depth + 1
  knows : ∀ out name,
    (run declared before .empty).table.Knows out name ↔ DeclaredAt declared before out name

theorem run_snoc (before : List Step) (s : Step) (a : Analysis) :
    run declared (before ++ [s]) a = step declared (run declared before a) s :=
  run_append declared before [s] a

theorem seen_nil : Seen declared [] 0 := by
  refine ⟨Table.linked_empty, rfl, fun out name => ?_⟩
  refine iff_of_false ?_ (declaredAt_nil declared out name)
  rintro ⟨scope, here, member⟩
  cases out with
  | zero =>
    obtain rfl : [] = scope := Option.some.inj here
    exact nomatch member
  | succ out => exact nomatch here

theorem Seen.step {declared : String → Bool} {before : List Step} {depth next : Nat}
    (seen : Seen declared before depth) (s : Step) (moved : outward [s] depth = some next) :
    Seen declared (before ++ [s]) next := by
  have stays : (∀ out, outward [s] out = some out) → Seen declared (before ++ [s]) next := by
    intro stays
    obtain rfl : depth = next := by simpa [stays] using moved
    have grown := (stays_step declared seen.linked s stays).1
    refine ⟨run_snoc declared before s .empty ▸ grown.linked, ?_, fun out name => ?_⟩
    · rw [run_snoc, grown.length, seen.deep]
    · rw [run_snoc, grown.knows_iff, declaredAt_snoc_iff, seen.knows, or_comm]
      simp [stays]
  match s with
  | .opens =>
    obtain rfl : depth + 1 = next := Option.some.inj moved
    refine ⟨run_snoc declared before .opens .empty ▸ seen.linked.enter, ?_, fun out name => ?_⟩
    · rw [run_snoc]
      exact (congrArg List.length (Table.names_enter seen.linked)).trans
        (congrArg (· + 1) seen.deep)
    · rw [run_snoc, declaredAt_snoc_iff]
      refine (Table.knows_enter_iff seen.linked out name).trans ?_
      simp [seen.knows, Step.accepted, outward]
  | .closes =>
    match depth, moved with
    | depth + 1, moved =>
      obtain rfl : depth = next := Option.some.inj moved
      have inside : 1 < (run declared before .empty).table.names.length := by
        rw [seen.deep]
        omega
      refine ⟨run_snoc declared before .closes .empty ▸ seen.linked.exit, ?_, fun out name => ?_⟩
      · rw [run_snoc]
        refine (congrArg List.length (Table.names_exit inside)).trans ?_
        simp [seen.deep]
      · rw [run_snoc, declaredAt_snoc_iff]
        refine (Table.knows_exit_iff inside out name).trans ?_
        have moves (inner : Nat) : outward [.closes] inner = some out ↔ inner = out + 1 := by
          cases inner <;> simp [outward]
        simp [seen.knows, Step.accepted, moves]
  | .uses _ | .variable .. | .prototype .. | .function .. | .main _ | .param .. | .enumeration .. =>
    exact stays fun _ => rfl

end
end Analysis

/-- Steps that leave every scope they open, and no other. -/
def Level (steps : List Step) : Prop :=
  ∀ out, outward steps out = some out

theorem level_nil : Level [] :=
  fun _ => rfl

theorem Level.append {first second : List Step} (before : Level first) (behind : Level second) :
    Level (first ++ second) := by
  intro out
  rw [outward_append, before]
  exact behind out

theorem Level.inScope {steps : List Step} (level : Level steps) : Level (inScope steps) := by
  intro out
  rw [Curly.inScope, outward_append, outward, level]
  rfl

theorem level_uses (os : List Occurrence) : Level (os.map .uses) := by
  intro out
  induction os with
  | nil => rfl
  | cons o others ih => exact ih

theorem level_optional (e : Option Expr) : Level (optionalSteps e) := by
  cases e with
  | none => exact level_nil
  | some e => exact level_uses e.occurrences

theorem level_params (earlier : List String) (ps : List Param) : Level (paramSteps earlier ps) := by
  intro out
  induction ps generalizing earlier with
  | nil => rfl
  | cons p others ih => exact ih _

mutual

theorem level_stmt : (s : Stmt) → Level s.steps
  | .variable _ _ initial _ => (level_optional initial).append fun _ => rfl
  | .prototype .. | .enumeration .. | .leave _ | .inclusion .. => fun _ => rfl
  | .function _ _ ps body _ => ((level_params [] ps).append (level_block body)).inScope
  | .main body _ => (level_block body).inScope
  | .block body => (level_block body).inScope
  | .branch e yes none _ =>
    ((level_uses e.occurrences).append (level_block yes).inScope).append level_nil
  | .branch e yes (some no) _ =>
    ((level_uses e.occurrences).append (level_block yes).inScope).append (level_block no).inScope
  | .whileLoop e body _ => (level_uses e.occurrences).append (level_block body).inScope
  | .doLoop body e _ => (level_block body).inScope.append (level_uses e.occurrences)
  | .forLoop none e update body _ =>
    (((level_nil.append (level_optional e)).append (level_optional update)).append
      (level_block body).inScope).inScope
  | .forLoop (some initial) e update body _ =>
    ((((level_stmt initial).append (level_optional e)).append (level_optional update)).append
      (level_block body).inScope).inScope
  | .switch e cases none _ =>
    ((level_uses e.occurrences).append (level_arms cases)).append level_nil
  | .switch e cases (some fallback) _ =>
    ((level_uses e.occurrences).append (level_arms cases)).append (level_block fallback).inScope
  | .giveBack value _ => level_optional value
  | .print .. => level_uses _
  | .evaluate e _ => level_uses e.occurrences
termination_by structural s => s

theorem level_block : (body : Block) → Level body.steps
  | ⟨body, _⟩ => level_stmts body
termination_by structural body => body

theorem level_stmts : (body : List Stmt) → Level (bodySteps body)
  | [] => level_nil
  | s :: others => (level_stmt s).append (level_stmts others)
termination_by structural body => body

theorem level_arms : (cases : List Case) → Level (armsSteps cases)
  | [] => level_nil
  | ⟨value, body, _⟩ :: others =>
    ((level_uses value.occurrences).append (level_block body).inScope).append (level_arms others)
termination_by structural cases => cases

end

/-- An identifier with the steps before the analyzer comes to it. -/
structure Use where
  before : List Step
  occurrence : Occurrence

def usesBehind (before : List Step) : List Step → List Use
  | [] => []
  | .uses o :: steps => ⟨before, o⟩ :: usesBehind (before ++ [.uses o]) steps
  | s :: steps => usesBehind (before ++ [s]) steps

theorem count_usesBehind (o : Occurrence) (before steps : List Step) :
    ((usesBehind before steps).map Use.occurrence).count o = useCount o steps := by
  induction steps generalizing before with
  | nil => rfl
  | cons s others ih =>
    cases s <;> simp [usesBehind, ih, List.count_cons]

namespace Program

/-- What the program is taken to declare before it is walked through. -/
def declared (p : Program) (name : String) : Bool :=
  isDeclared (declarations p.body) name

def uses (p : Program) : List Use :=
  usesBehind [] p.steps

/-- A declaration of the name was accepted before, in a scope that is still open. -/
def Sees (p : Program) (before : List Step) (name : String) : Prop :=
  ∃ first s others, before = first ++ s :: others ∧
    name ∈ s.accepted (Analysis.run p.declared first .empty) ∧ (outward others 0).isSome

theorem sees_iff (p : Program) (before : List Step) (name : String) :
    p.Sees before name ↔ ∃ out, DeclaredAt p.declared before out name := by
  constructor
  · rintro ⟨first, s, others, split, accepts, still⟩
    obtain ⟨out, still⟩ := Option.isSome_iff_exists.mp still
    exact ⟨out, first, s, others, split, accepts, still⟩
  · rintro ⟨out, first, s, others, split, accepts, still⟩
    exact ⟨first, s, others, split, accepts, still ▸ rfl⟩

/-- A program sees what it declares at the first step and what it sees behind it. -/
def seesBehind (p : Program) (name : String) (a : Analysis) : List Step → Bool
  | [] => false
  | s :: others =>
    (s.accepted a).contains name && (outward others 0).isSome ||
      p.seesBehind name (Analysis.step p.declared a s) others

theorem seesBehind_iff (p : Program) (name : String) (a : Analysis) (steps : List Step) :
    p.seesBehind name a steps ↔ ∃ first s others, steps = first ++ s :: others ∧
      name ∈ s.accepted (Analysis.run p.declared first a) ∧ (outward others 0).isSome := by
  induction steps generalizing a with
  | nil => simp [seesBehind]
  | cons s others ih =>
    simp only [seesBehind, Bool.or_eq_true, Bool.and_eq_true, List.contains_iff_mem, ih]
    constructor
    · rintro (⟨accepts, still⟩ | ⟨first, t, rest, rfl, accepts, still⟩)
      · exact ⟨[], s, others, rfl, accepts, still⟩
      · exact ⟨s :: first, t, rest, rfl, accepts, still⟩
    · rintro ⟨first, t, rest, split, accepts, still⟩
      cases first with
      | nil =>
        obtain ⟨rfl, rfl⟩ := List.cons.inj split
        exact .inl ⟨accepts, still⟩
      | cons u first =>
        obtain ⟨rfl, rfl⟩ := List.cons.inj split
        exact .inr ⟨first, t, rest, rfl, accepts, still⟩

instance (p : Program) (before : List Step) (name : String) : Decidable (p.Sees before name) :=
  decidable_of_iff _ (p.seesBehind_iff name .empty before)

/-- The complaint about a use: there is none if the name is declared before in a scope around. A
name that is declared elsewhere is used too early or out of its scope. -/
def complaint? (p : Program) (u : Use) : Option ScopeError :=
  let name := u.occurrence.name.name
  if p.Sees u.before name then none
  else
    let kind : ScopeError.Kind :=
      if p.Declares name then .forwardReference
      else if u.occurrence.isCall then .undefinedFunction
      else .undeclaredVariable
    some ⟨kind, name, u.occurrence.name.span.start⟩

theorem complaint?_eq (p : Program) {before : List Step} {depth : Nat}
    (seen : Analysis.Seen p.declared before depth) (o : Occurrence) :
    p.complaint? ⟨before, o⟩ =
      Analysis.stepError? p.declared (Analysis.run p.declared before .empty) (.uses o) := by
  have visible : p.Sees before o.name.name ↔
      ((Analysis.run p.declared before .empty).table.lookup o.name.name).isSome := by
    simp only [sees_iff, Table.lookup_isSome_iff, seen.knows]
  have declares : p.declared o.name.name ↔ p.Declares o.name.name := p.isDeclared_iff _
  simp only [complaint?, Analysis.stepError?, visible, declares]

theorem useErrors_run (p : Program) (before steps : List Step) {depth : Nat}
    (seen : Analysis.Seen p.declared before depth) (still : (outward steps depth).isSome) :
    (Analysis.run p.declared (before ++ steps) .empty).useErrors =
      (Analysis.run p.declared before .empty).useErrors ++
        (usesBehind before steps).filterMap p.complaint? := by
  induction steps generalizing before depth with
  | nil => simp [usesBehind]
  | cons s others ih =>
    obtain ⟨out, still⟩ := Option.isSome_iff_exists.mp still
    rw [← List.singleton_append, outward_append, Option.bind_eq_some_iff] at still
    obtain ⟨next, moved, still⟩ := still
    have behind := ih (before ++ [s]) (seen.step s moved) (still ▸ rfl)
    have here := Analysis.useErrors_step p.declared seen.linked s
    have heard : (usesBehind before (s :: others)).filterMap p.complaint? =
        (Analysis.stepError? p.declared (Analysis.run p.declared before .empty) s).toList ++
          (usesBehind (before ++ [s]) others).filterMap p.complaint? := by
      cases s with
      | uses o =>
        rw [← p.complaint?_eq seen o, usesBehind, List.filterMap_cons]
        cases p.complaint? ⟨before, o⟩ <;> rfl
      | _ => rfl
    rw [heard, ← List.append_assoc, ← here, ← Analysis.run_snoc]
    simpa using behind

/-- The analyzer comes to every identifier of a program once. It complains about those whose name
was not declared before in a scope around, and about no others. -/
theorem resolves_lexically (p : Program) :
    (p.uses.map Use.occurrence).Perm p.occurrences ∧
      (analyze p).useErrors = p.uses.filterMap p.complaint? := by
  constructor
  · exact p.used_perm_occurrences fun o => count_usesBehind o [] p.steps
  · have whole := p.useErrors_run [] p.steps (Analysis.seen_nil p.declared)
      ((level_stmts p.body 0).symm ▸ rfl)
    rw [analyze_eq_run]
    exact whole

end Program
end Curly
