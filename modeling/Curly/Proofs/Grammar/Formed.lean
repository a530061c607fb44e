import Curly.Proofs.Typing.Suppression

/-! The form of what is parsed. Assignments are to names, operators behind their operands are steps,
for loops begin with a variable or an expression, and types are those with a keyword. -/
namespace Curly

/-- An assignment has a name for its target, and an operator behind its operand is `++` or `--`. -/
def Expr.Formed : Expr → Prop
  | .binary op left _ _ => op = .assign → ∃ name, left = .symbol name
  | .unary op _ side _ => side = .behind → op = .increment ∨ op = .decrement
  | .int .. | .float .. | .string .. | .char .. | .bool .. | .symbol _ | .call .. => True

/-- The statement that a for loop begins with. -/
def Stmt.initial? : Stmt → Option Stmt
  | .forLoop initial _ _ _ _ => initial
  | .variable .. | .prototype .. | .function .. | .main .. | .enumeration .. | .block _
  | .branch .. | .whileLoop .. | .doLoop .. | .switch .. | .giveBack .. | .leave _ | .print ..
  | .evaluate .. | .inclusion .. => none

/-- What the statement says itself has the form that a parser gives it. -/
structure Stmt.Formed (s : Stmt) : Prop where
  types : ∀ ty ∈ s.types, ty.Written
  initial : ∀ x ∈ s.initial?, x.IsInitial
  expressions : ∀ e ∈ s.expressions, ∀ x ∈ e.subterms, x.Formed

abbrev Expr.AllFormed (e : Expr) : Prop :=
  ∀ x ∈ e.subterms, x.Formed

section

variable {s : Stmt}

theorem allFormed_atom {t : Token} {e : Expr} (same : t.atom? = some e) : e.AllFormed := by
  unfold Token.atom? at same
  split at same <;> simp at same
  · obtain ⟨_, -, rfl⟩ := same
    exact List.forall_mem_singleton.mpr trivial
  · obtain ⟨_, -, rfl⟩ := same
    exact List.forall_mem_singleton.mpr trivial
  all_goals
    subst same
    exact List.forall_mem_singleton.mpr trivial

mutual

/-- The grammar has no other expressions. -/
theorem Layered.allFormed {floor layer : Power} {tokens : List Token} {e : Expr} :
    Layered Denotes floor layer tokens e → e.AllFormed
  | .climb layered => layered.allFormed
  | .assign _ _ _ value =>
    Expr.forall_subterms_binary.mpr
      ⟨List.forall_mem_singleton.mpr trivial, value.allFormed, fun _ => ⟨_, rfl⟩⟩
  | .binary op other _ _ left right =>
    Expr.forall_subterms_binary.mpr
      ⟨left.allFormed, right.allFormed, fun assigns => absurd assigns other⟩
  | .before _ _ operand => Expr.forall_subterms_unary.mpr ⟨operand.allFormed, nofun⟩
  | .behind op step _ _ operand => by
    refine Expr.forall_subterms_unary.mpr ⟨operand.allFormed, fun _ => ?_⟩
    cases op <;> simp [UnaryOp.isStep] at step ⊢
  | .call _ _ _ _ args => Expr.forall_subterms_call.mpr ⟨args.allFormed, trivial⟩
  | .atom same => allFormed_atom same
  | .group _ _ inner => inner.allFormed
termination_by structural layered => layered

theorem LayeredAll.allFormed {tokens : List Token} {es : List Expr} :
    LayeredAll Denotes tokens es → ∀ e ∈ es, e.AllFormed
  | .none => nofun
  | .last layered => List.forall_mem_singleton.mpr layered.allFormed
  | .cons layered _ others => List.forall_mem_cons.mpr ⟨layered.allFormed, others.allFormed⟩
termination_by structural layered => layered

end

/-- A statement that declares nothing and is no for loop. -/
theorem Stmt.Formed.of_expressions (types : s.types = []) (initial : s.initial? = none)
    (formed : ∀ e ∈ s.expressions, e.AllFormed) : s.Formed :=
  ⟨types ▸ nofun, initial ▸ nofun, formed⟩

end

namespace Parse

theorem makes_formed {T : Token → Prop} : Makes T Expr.AllFormed Stmt.Formed where
  expression layered _ := layered.allFormed
  initialized typed _ formed :=
    ⟨List.forall_mem_singleton.mpr typed.written, nofun,
      fun e member => formed e (Option.mem_toList.mp member)⟩
  prototype types _ := ⟨fun ty member => (types ty member).written, nofun, nofun⟩
  function types _ := ⟨fun ty member => (types ty member).written, nofun, nofun⟩
  main := .of_expressions rfl rfl nofun
  enumeration _ := .of_expressions rfl rfl nofun
  block := .of_expressions rfl rfl nofun
  branch formed := .of_expressions rfl rfl (List.forall_mem_singleton.mpr formed)
  whileLoop formed := .of_expressions rfl rfl (List.forall_mem_singleton.mpr formed)
  doLoop formed := .of_expressions rfl rfl (List.forall_mem_singleton.mpr formed)
  forLoop initial condition update := by
    refine ⟨nofun, initial, List.forall_mem_append.mpr ⟨?_, ?_⟩⟩
    · exact fun e member => condition e (Option.mem_toList.mp member)
    · exact fun e member => update e (Option.mem_toList.mp member)
  switch formed values := .of_expressions rfl rfl
    (List.forall_mem_cons.mpr ⟨formed, List.forall_mem_map.mpr values⟩)
  giveBack formed :=
    .of_expressions rfl rfl fun e member => formed e (Option.mem_toList.mp member)
  leave := .of_expressions rfl rfl nofun
  print formed := .of_expressions rfl rfl formed
  evaluate formed := .of_expressions rfl rfl (List.forall_mem_singleton.mpr formed)
  inclusion := .of_expressions rfl rfl nofun

/-- All statements of a parsed program, whatever they stand in, have the form. -/
theorem formed_of_parsed {tokens : List Token} {p : Program} (parsed : ofTokens tokens = .ok p) :
    ∀ s ∈ p.statements, s.Formed :=
  (@makes_formed fun _ => True).parsed (fun _ _ => trivial) (fun _ => trivial) parsed

end Parse

end Curly
