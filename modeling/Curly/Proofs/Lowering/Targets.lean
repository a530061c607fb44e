import Curly.Proofs.Grammar.Formed
import Curly.Proofs.Lowering.Stores
import Curly.Proofs.Typing.Raised

/-! The targets of assignments. The type checker and lowering are prepared for a target that is no
name, but in a parsed program they find none. -/
namespace Curly

open TypeError Typing

namespace TypeError

/-- There is no complaint about a target that is not a name. -/
def Spared (errors : List TypeError) : Prop :=
  ∀ x ∈ errors, x.cause ≠ .assignedExpression

namespace Spared

variable {first second : List TypeError} {cause : Cause} {position : Position}

theorem nil : Spared [] :=
  List.forall_mem_nil _

theorem single (other : cause ≠ .assignedExpression) : Spared [⟨cause, position⟩] :=
  List.forall_mem_singleton.mpr other

theorem append (before : Spared first) (behind : Spared second) : Spared (first ++ second) :=
  List.forall_mem_append.mpr ⟨before, behind⟩

/-- The complaint of a rule. -/
theorem typed {v : Verdict} (other : ∀ cause ∈ v.2, cause ≠ .assignedExpression)
    (position : Position) (before : Spared first) : Spared (v.typed position first).errors := by
  refine before.append fun x member => ?_
  obtain ⟨cause, known, rfl⟩ := Option.map_eq_some_iff.mp (Option.mem_toList.mp member)
  exact other cause known

theorem asValue {t : Typed} (position : Position) (spared : Spared t.errors) :
    Spared (t.asValue position).errors := by
  unfold Typed.asValue
  split
  · exact spared.append (.single (by simp))
  · exact spared

end Spared

end TypeError

namespace Verdict

/-- The rule does not complain about a target that is not a name. -/
def Spares (v : Verdict) : Prop :=
  ∀ cause ∈ v.2, cause ≠ .assignedExpression

namespace Spares

variable {v w : Verdict} {cause : Cause}

theorem fine (ty : Ty) : (Verdict.fine ty).Spares :=
  fun _ => nofun

theorem complaint (ty : Ty) (other : cause ≠ .assignedExpression) : Spares (ty, some cause) := by
  rintro _ ⟨⟩
  exact other

theorem ite {p : Prop} [Decidable p] (yes : v.Spares) (no : w.Spares) :
    Spares (if p then v else w) := by
  split
  · exact yes
  · exact no

end Spares

theorem spares_integer (cause : Cause) (other : cause ≠ .assignedExpression) (left right : Ty) :
    (integerVerdict cause left right).Spares :=
  .ite (.fine _) (.ite (.fine _) (.complaint _ other))

theorem spares_binary (op : BinaryOp) (left right : Ty) : (op.verdict left right).Spares := by
  unfold BinaryOp.verdict
  cases op.family with
  | logical | comparison =>
    dsimp only
    split
    · exact .complaint _ (by simp)
    · exact .fine _
  | bitwise => exact spares_integer (.bitwiseOperands op left right) (by simp) left right
  | shift => exact spares_integer (.shiftOperands op left right) (by simp) left right
  | arithmetic => exact .ite (.fine _) (.ite (.fine _) (.complaint _ (by simp)))
  | modulo =>
    have integers := spares_integer (.integerOperands op left right) (by simp) left right
    exact .ite (.fine _) (.ite integers (.complaint _ (by simp)))
  | assignment => exact .fine _

theorem spares_unary (op : UnaryOp) (isName : Bool) (operand : Ty) :
    (op.verdict isName operand).Spares := by
  refine .ite ?_ (.ite (.fine _)
    (.ite (.complaint _ (by simp)) (.ite (.complaint _ (by simp)) (.fine _))))
  split
  · exact .fine _
  · exact .complaint _ (by simp)

end Verdict

namespace Typing

section

variable (table : Table)

theorem spares_nameVerdict (name : String) : (nameVerdict table name).Spares := by
  unfold nameVerdict
  split
  · exact .fine _
  · exact .ite (.complaint _ (by simp)) (.fine _)

/-- A name is not complained about. -/
theorem spares_assignmentVerdict (name : Identifier) (value : Ty) :
    (assignmentVerdict table (.symbol name) value).Spares := by
  simp only [assignmentVerdict]
  split
  · exact .fine _
  · exact .ite (.complaint _ (by simp)) (.ite (.fine _) (.complaint _ (by simp)))

theorem spared_argumentErrors (name : String) (number : Nat) (params : List Ty)
    (arguments : List (Ty × Position)) :
    Spared (argumentErrors name number params arguments) := by
  induction params generalizing number arguments with
  | nil => exact .nil
  | cons param params ih =>
    cases arguments with
    | nil => exact .nil
    | cons argument arguments =>
      have others : Spared (argumentErrors name (number + 1) params arguments) := ih _ _
      rw [argumentErrors]
      split
      · exact others
      · exact List.forall_mem_cons.mpr ⟨by simp, others⟩

theorem spared_callTyped (name : String) (position : Position)
    (arguments : List (Ty × Position)) :
    Spared (callTyped table name position arguments).errors := by
  simp only [callTyped]
  cases choose? (overloads table name) (arguments.map Prod.fst) with
  | some chosen => exact .nil
  | none =>
    cases overloads table name with
    | nil =>
      dsimp only
      split
      · exact .single (by simp)
      · exact .nil
    | cons first others =>
      dsimp only
      split
      · exact spared_argumentErrors name 1 _ arguments
      · exact .single (by simp)

mutual

/-- In an expression whose assignments are to names there is no such complaint. -/
theorem spared_typeOf : (e : Expr) → e.AllFormed → Spared (typeOf table e).errors
  | .int .., _ | .float .., _ | .string .., _ | .char .., _ | .bool .., _ => .nil
  | .symbol name, _ => .typed (spares_nameVerdict table name.name) _ .nil
  | .binary op left right span, formed => by
    obtain ⟨first, second, own⟩ := Expr.forall_subterms_binary.mp formed
    have before := Spared.asValue left.start (spared_typeOf left first)
    have behind := Spared.asValue right.start (spared_typeOf right second)
    rw [typeOf]
    split
    next assigns =>
      obtain ⟨name, rfl⟩ := own assigns
      exact .typed (spares_assignmentVerdict table name _) _ behind
    next => exact .typed (Verdict.spares_binary op _ _) _ (before.append behind)
  | .unary op operand _ _, formed =>
    .typed (Verdict.spares_unary op _ _) _
      (.asValue operand.start (spared_typeOf operand (Expr.forall_subterms_unary.mp formed).1))
  | .call callee args span, formed => by
    refine Spared.append (fun x member => ?_) (spared_callTyped table callee.name span.start _)
    obtain ⟨t, argument, complained⟩ := List.mem_flatMap.mp member
    exact spared_typesOf args (Expr.forall_subterms_call.mp formed).1 t argument x complained
termination_by structural e => e

theorem spared_typesOf : (es : List Expr) → (∀ e ∈ es, e.AllFormed) →
    ∀ t ∈ typesOf table es, Spared t.errors
  | [], _ => List.forall_mem_nil _
  | e :: others, formed => by
    obtain ⟨first, rest⟩ := List.forall_mem_cons.mp formed
    exact List.forall_mem_cons.mpr
      ⟨.asValue e.start (spared_typeOf e first), spared_typesOf others rest⟩
termination_by structural es => es

end

end

end Typing

/-- The words for a target that is no name are not those for anything else. -/
theorem TypeError.Cause.message_eq_iff {cause : Cause} :
    cause.message = "assignment target is not a variable" ↔ cause = .assignedExpression := by
  refine ⟨fun same => ?_, fun same => same ▸ rfl⟩
  have spelled := congrArg String.toList same
  cases cause with
  | assignedExpression => rfl
  | returnNothing =>
    -- The words begin with the name of a function, so that the last ones tell.
    dsimp only [Cause.message] at spelled
    replace spelled := congrArg List.reverse spelled
    simp at spelled
  | _ =>
    dsimp only [Cause.message, named, quote] at spelled
    simp at spelled

/-- The type checker meets no target that is no name. -/
theorem Checker.tells_targets : Tells Expr.AllFormed (·.cause ≠ .assignedExpression) where
  own _ _ other := other
  expression t e formed := spared_typeOf t e formed

theorem Expr.Formed.targeted {e : Expr} (formed : e.Formed) : e.Targeted := by
  cases e with
  | binary => exact formed
  | _ => exact trivial

namespace Program

variable {p : Program}

theorem spared_of_formed (formed : ∀ s ∈ p.statements, s.Formed) :
    ∀ x ∈ typeCheck p, x.cause ≠ .assignedExpression := by
  obtain ⟨more, same, spared⟩ := Checker.raises_stmts Checker.tells_targets p.body
    (fun s member => (formed s member).expressions) .empty
  have all : typeCheck p = more := same
  exact all ▸ spared

theorem formed_stops (formed : ∀ s ∈ p.statements, s.Formed) {x : Stop} (member : x ∈ p.stops) :
    x.expr.AllFormed := by
  obtain ⟨s, listed, own⟩ := exists_statement (visit_mem member)
  exact (formed s listed).expressions _ own

/-- An assignment is lowered as one to a name. -/
theorem assigned_of_formed (formed : ∀ s ∈ p.statements, s.Formed) {x : Stop}
    (member : x ∈ p.stores) {left right : Expr} {span : Span}
    (shape : x.expr = .binary .assign left right span) :
    ∃ name, left = .symbol name ∧
      x.writes = [.assign (.variable name.name) (Lowering.expr right x.before).1] := by
  obtain ⟨-, stop, stops, -, inner⟩ := exists_stop member
  have own : x.expr.Formed := formed_stops formed stops _ inner.subterm
  rw [shape] at own
  obtain ⟨name, rfl⟩ := own rfl
  exact ⟨name, rfl, writes_of_assigns shape⟩

/-- A parsed program has the form of the grammar. So the type checker has nothing to say about a
target that is no name, and lowering leaves none out: it comes to all assignments and steps, and
every assignment has its place in the code and puts the value into the variable of a name. -/
theorem targets_of_parsed {tokens : List Token} (parsed : Parse.ofTokens tokens = .ok p) :
    (∀ s ∈ p.statements, s.Formed) ∧
      (∀ x ∈ typeCheck p, x.cause.message ≠ "assignment target is not a variable") ∧
      (p.stores.map Stop.expr).Perm
        (((p.statements.flatMap Stmt.expressions).flatMap Expr.subterms).filter Expr.isStore) ∧
      ∀ x ∈ p.stores, ∀ left right span, x.expr = .binary .assign left right span →
        x.begun.code.toList ++ x.begun.since x.after <+: Lowering.program p ∧
          ∃ name, left = .symbol name ∧
            x.writes = [.assign (.variable name.name) (Lowering.expr right x.before).1] := by
  have formed := Parse.formed_of_parsed parsed
  refine ⟨formed, fun x member same => ?_, ?_, fun x member left right span shape =>
    ⟨written_store member, assigned_of_formed formed member shape⟩⟩
  · exact spared_of_formed formed x member (Cause.message_eq_iff.mp same)
  · exact stores_perm fun x stops e inside => (formed_stops formed stops e inside).targeted

end Program

/-- A program with assignments to a name in parentheses, to one that is not declared, and of a value
that does not fit. -/
def retargeted : String :=
  "main \x7b int x; (x) = x++; for (y = 2; x < 3; x = -x) \x7b x = true; \x7d \x7d"

theorem retargeted_formed : ∃ tokens p, Parse.ofTokens tokens = .ok p ∧ typeCheck p ≠ [] ∧
    p.stores.length = 5 ∧ (∀ s ∈ p.statements, s.Formed) ∧
      (∀ x ∈ typeCheck p, x.cause.message ≠ "assignment target is not a variable") ∧
      ∀ x ∈ p.stores, ∀ left right span, x.expr = .binary .assign left right span →
        ∃ name, left = .symbol name ∧
          x.writes = [.assign (.variable name.name) (Lowering.expr right x.before).1] := by
  have checked : (readProgram retargeted).toOption.any fun p =>
      !(typeCheck p).isEmpty && p.stores.length = 5 := by decide +kernel
  obtain ⟨p, read, facts⟩ := exists_of_readProgram checked
  obtain ⟨tokens, -, parsed⟩ := tokens_of_readProgram read
  obtain ⟨faulty, count⟩ : typeCheck p ≠ [] ∧ p.stores.length = 5 := by simpa using facts
  obtain ⟨formed, spared, -, assigned⟩ := Program.targets_of_parsed parsed
  exact ⟨tokens, p, parsed, faulty, count, formed, spared, fun x member left right span shape =>
    (assigned x member left right span shape).2⟩

end Curly
