import Curly.Proofs.Grammar.Declared
import Curly.Proofs.Typing.Held
import Curly.Proofs.Typing.Judgement
import Curly.Proofs.Typing.Visited

/-! The invalid type stands for a type that could not be found. An expression of an accepted scope
has it only with a complaint, and an operator over an operand that has it adds no other one. -/
namespace Curly

mutual

/-- An expression and all expressions in it, operands before what they are operands of. -/
def Expr.subterms : Expr → List Expr
  | .binary op left right span => left.subterms ++ (right.subterms ++ [.binary op left right span])
  | .unary op operand side span => operand.subterms ++ [.unary op operand side span]
  | .call callee args span => subtermsIn args ++ [.call callee args span]
  | .int value span => [.int value span]
  | .float value span => [.float value span]
  | .string value span => [.string value span]
  | .char value span => [.char value span]
  | .bool value span => [.bool value span]
  | .symbol name => [.symbol name]
termination_by structural e => e

def subtermsIn : List Expr → List Expr
  | [] => []
  | e :: others => e.subterms ++ subtermsIn others
termination_by structural es => es

end

theorem forall_subtermsIn {Q : Expr → Prop} {es : List Expr} :
    (∀ x ∈ subtermsIn es, Q x) ↔ ∀ e ∈ es, ∀ x ∈ e.subterms, Q x := by
  induction es with
  | nil => simp [subtermsIn]
  | cons e others ih => rw [subtermsIn, List.forall_mem_append, ih, List.forall_mem_cons]

namespace Expr

section

variable {Q : Expr → Prop} {span : Span}

theorem forall_subterms_binary {op : BinaryOp} {left right : Expr} :
    (∀ x ∈ (binary op left right span).subterms, Q x) ↔
      (∀ x ∈ left.subterms, Q x) ∧ (∀ x ∈ right.subterms, Q x) ∧
        Q (binary op left right span) := by
  simp only [subterms, List.forall_mem_append, List.forall_mem_singleton]

theorem forall_subterms_unary {op : UnaryOp} {operand : Expr} {side : Side} :
    (∀ x ∈ (unary op operand side span).subterms, Q x) ↔
      (∀ x ∈ operand.subterms, Q x) ∧ Q (unary op operand side span) := by
  simp only [subterms, List.forall_mem_append, List.forall_mem_singleton]

theorem forall_subterms_call {callee : Identifier} {args : List Expr} :
    (∀ x ∈ (call callee args span).subterms, Q x) ↔
      (∀ e ∈ args, ∀ x ∈ e.subterms, Q x) ∧ Q (call callee args span) := by
  simp only [subterms, List.forall_mem_append, List.forall_mem_singleton, forall_subtermsIn]

end

/-- The operands of an operator that a value is wanted of. The target of an assignment is none. -/
def operands : Expr → List Expr
  | .binary op left right _ => if op = .assign then [] else [left, right]
  | .unary _ operand _ _ => [operand]
  | .int .. | .float .. | .string .. | .char .. | .bool .. | .symbol _ | .call .. => []

end Expr

mutual

theorem uses_subterms : (e : Expr) → ∀ x ∈ e.subterms, x.uses ⊆ e.uses
  | .binary op left right span => by
    have first := uses_subterms left
    have second := uses_subterms right
    refine List.forall_mem_append.mpr ⟨fun x member => ?_, List.forall_mem_append.mpr
      ⟨fun x member => ?_, List.forall_mem_singleton.mpr (List.Subset.refl _)⟩⟩
    · exact List.subset_append_of_subset_left _ (first x member)
    · exact List.subset_append_of_subset_right _ (second x member)
  | .unary op operand side span => List.forall_mem_append.mpr
    ⟨uses_subterms operand, List.forall_mem_singleton.mpr (List.Subset.refl _)⟩
  | .call callee args span => List.forall_mem_append.mpr
    ⟨fun x member => List.subset_cons_of_subset _ (uses_subtermsIn args x member),
      List.forall_mem_singleton.mpr (List.Subset.refl _)⟩
  | .int .. | .float .. | .string .. | .char .. | .bool .. | .symbol _ =>
    List.forall_mem_singleton.mpr (List.Subset.refl _)
termination_by structural e => e

theorem uses_subtermsIn : (es : List Expr) → ∀ x ∈ subtermsIn es, x.uses ⊆ usesIn es
  | [] => fun _ => nofun
  | e :: others => by
    refine List.forall_mem_append.mpr ⟨fun x member => ?_, fun x member => ?_⟩
    · exact List.subset_append_of_subset_left _ (uses_subterms e x member)
    · exact List.subset_append_of_subset_right _ (uses_subtermsIn others x member)
termination_by structural es => es

end

namespace Symbol.Proper

variable {s : Symbol}

theorem of_plain (ty : s.ty ≠ .invalid) (plain : s.params? = none) : s.Proper :=
  ⟨ty, fun _ known => absurd (plain.symm.trans known) (Option.some_ne_none _).symm⟩

theorem of_params (ty : s.ty ≠ .invalid) {params : List Ty} (known : s.params? = some params)
    (proper : .invalid ∉ params) : s.Proper :=
  ⟨ty, fun _ other => Option.some.inj (known.symm.trans other) ▸ proper⟩

end Symbol.Proper

namespace Stmt

/-- What a statement with written types stands for is proper. -/
theorem proper_symbols : (s : Stmt) → (∀ ty ∈ s.types, ty.Written) → ∀ x ∈ s.symbols, x.Proper
  | .variable ty name _ span, written =>
    List.forall_mem_singleton.mpr (.of_plain (written ty (.head _)).ne_invalid rfl)
  | .prototype ty name ps span, written => by
    obtain ⟨typed, params⟩ := ne_invalid_of_written written
    exact List.forall_mem_singleton.mpr (.of_params typed rfl params)
  | .function ty name ps _ span, written => by
    obtain ⟨typed, params⟩ := ne_invalid_of_written written
    refine List.forall_mem_cons.mpr ⟨.of_params typed rfl params, ?_⟩
    refine List.forall_mem_map.mpr fun q member => .of_plain (fun same => params ?_) rfl
    exact List.mem_map.mpr ⟨q, member, same⟩
  | .main _ span, _ =>
    List.forall_mem_singleton.mpr (.of_params (by decide : Ty.int ≠ .invalid) rfl List.not_mem_nil)
  | .enumeration name values _ span, _ =>
    List.forall_mem_cons.mpr ⟨.of_plain (by decide : Ty.enumeration ≠ .invalid) rfl,
      List.forall_mem_map.mpr fun _ _ => .of_plain (by decide : Ty.int ≠ .invalid) rfl⟩
  | .block _, _ | .branch .., _ | .whileLoop .., _ | .doLoop .., _ | .forLoop .., _
  | .switch .., _ | .giveBack .., _ | .leave _, _ | .print .., _ | .evaluate .., _
  | .inclusion .., _ => fun _ => nofun

end Stmt

namespace Program

/-- Wherever the type checker comes to an expression, it holds what some statement stands for. -/
theorem symbols_visited {p : Program} {v : Visit} (visited : v ∈ p.visits) :
    ∀ s ∈ v.checked.symbols, s ∈ p.symbols := by
  intro s held
  have gains := Checker.gains_stmts (isDeclared (declarations p.body)) p.body .empty .empty
    Table.linked_empty rfl
  exact (gains.visited v visited s held).resolve_left nofun

theorem proper_visited {tokens : List Token} {p : Program}
    (parsed : Parse.ofTokens tokens = .ok p) {v : Visit} (visited : v ∈ p.visits) :
    v.checked.scopes.Proper := by
  intro scope listed s member
  have held := symbols_visited visited s (Table.mem_symbols_of_scopes listed member)
  obtain ⟨x, stands, own⟩ := List.mem_flatMap.mp held
  exact x.proper_symbols (Parse.typesWritten_of_parsed parsed x stands) s own

end Program

/-- A rule that says nothing about operands of unknown types, and gives no `void`. -/
structure Verdict.Silent (v : Verdict) : Prop where
  none : v.2 = none
  ne_void : v.1 ≠ .void

namespace Verdict.Silent

theorem fine {ty : Ty} (value : ty ≠ .void) : (Verdict.fine ty).Silent :=
  ⟨rfl, value⟩

theorem integer (complaint : TypeError.Cause) {left right : Ty}
    (unknown : left = .invalid ∨ right = .invalid) :
    (integerVerdict complaint left right).Silent := by
  rw [integerVerdict, if_pos unknown]
  exact fine nofun

theorem binary (op : BinaryOp) {left right : Ty} (unknown : left = .invalid ∨ right = .invalid) :
    (op.verdict left right).Silent := by
  have known : ¬(left ≠ .invalid ∧ right ≠ .invalid) := fun both => unknown.elim both.1 both.2
  unfold BinaryOp.verdict
  cases op.family with
  | logical | comparison => exact ⟨if_neg fun complains => known complains.1, nofun⟩
  | bitwise | shift => exact integer _ unknown
  | arithmetic | modulo =>
    dsimp only
    rw [if_pos known]
    exact fine nofun
  | assignment => exact fine nofun

theorem unary (op : UnaryOp) (isName : Bool) : (op.verdict isName .invalid).Silent := by
  unfold UnaryOp.verdict
  split
  · exact ⟨by simp, nofun⟩
  · exact fine nofun

theorem typed {v : Verdict} (silent : v.Silent) (position : Position) (before : List TypeError) :
    v.typed position before = ⟨v.1, before⟩ := by
  rw [Verdict.typed, silent.none]
  exact congrArg (Typed.mk v.1) before.append_nil

end Verdict.Silent

namespace Typing

variable {t : Table}

theorem asValue_of_ne_void {x : Typed} (value : x.ty ≠ .void) (position : Position) :
    x.asValue position = x :=
  if_neg value

theorem typeOf_binary {op : BinaryOp} (plain : op ≠ .assign) {left right : Expr} (span : Span)
    (unknown : (valueOf t left).ty = .invalid ∨ (valueOf t right).ty = .invalid) :
    typeOf t (.binary op left right span) =
      ⟨(op.verdict (valueOf t left).ty (valueOf t right).ty).1,
        (valueOf t left).errors ++ (valueOf t right).errors⟩ := by
  rw [typeOf, if_neg plain]
  exact (Verdict.Silent.binary op unknown).typed span.start _

theorem typeOf_unary (op : UnaryOp) {operand : Expr} (side : Side) (span : Span)
    (unknown : (valueOf t operand).ty = .invalid) :
    typeOf t (.unary op operand side span) =
      ⟨(op.verdict operand.symbol?.isSome .invalid).1, (valueOf t operand).errors⟩ := by
  rw [← (Verdict.Silent.unary op _).typed span.start, ← unknown]
  rfl

/-- An operator over an operand of unknown type leaves it at the complaints about its operands. -/
theorem errors_of_operands : (e : Expr) → ∀ x ∈ e.operands, (valueOf t x).ty = .invalid →
    (typeOf t e).errors = e.operands.flatMap (fun x => (valueOf t x).errors) ∧
      valueOf t e = typeOf t e
  | .binary op left right span => by
    by_cases plain : op = .assign
    · rw [Expr.operands, if_pos plain]
      exact fun _ => nofun
    · intro x member invalid
      rw [Expr.operands, if_neg plain] at member ⊢
      have unknown : (valueOf t left).ty = .invalid ∨ (valueOf t right).ty = .invalid := by
        rcases List.mem_cons.mp member with rfl | member
        · exact .inl invalid
        · exact .inr (List.mem_singleton.mp member ▸ invalid)
      have same := typeOf_binary plain span unknown
      rw [valueOf, same]
      exact ⟨by simp, asValue_of_ne_void (Verdict.Silent.binary op unknown).ne_void _⟩
  | .unary op operand side span => by
    intro x member invalid
    obtain rfl : x = operand := List.mem_singleton.mp member
    have same := typeOf_unary op side span invalid
    rw [valueOf, same]
    exact ⟨by simp [Expr.operands], asValue_of_ne_void (Verdict.Silent.unary op _).ne_void _⟩
  | .int .. | .float .. | .string .. | .char .. | .bool .. | .symbol _ | .call .. => fun _ => nofun

/-- Where all names stand for something, an expression of unknown type was complained about. -/
theorem errors_of_invalid (proper : t.scopes.Proper) {e : Expr}
    (found : ∀ name ∈ e.uses, t.lookupAll name ≠ []) (invalid : (typeOf t e).ty = .invalid) :
    (typeOf t e).errors ≠ [] := by
  intro clean
  have derives := (adequate proper e found .invalid).mp
    (invalid ▸ Typed.eq_of_clean clean)
  exact derives.ne_invalid proper rfl

theorem errors_of_invalid_value (proper : t.scopes.Proper) {e : Expr}
    (found : ∀ name ∈ e.uses, t.lookupAll name ≠ []) (invalid : (valueOf t e).ty = .invalid) :
    (valueOf t e).errors ≠ [] := by
  intro clean
  obtain ⟨derives, -⟩ := (adequate proper e found).gives_of_clean clean
  exact derives.ne_invalid proper invalid

end Typing

open Typing

namespace Program

/-- The type checker comes to every expression of the program. Wherever an expression or a part of
it is given the invalid type, it is complained about, and the complaints about an operator with an
operand of that type are those about its operands. -/
theorem invalid_complained {tokens : List Token} {p : Program}
    (parsed : Parse.ofTokens tokens = .ok p) (clean : (analyze p).errors = []) :
    (p.visits.map Visit.expr).Perm (p.statements.flatMap Stmt.expressions) ∧
      ∀ v ∈ p.visits, ∀ e ∈ v.expr.subterms,
        ((typeOf v.checked e).ty = .invalid → (typeOf v.checked e).errors ≠ []) ∧
        ((valueOf v.checked e).ty = .invalid → (valueOf v.checked e).errors ≠ []) ∧
        ∀ x ∈ e.operands, (valueOf v.checked x).ty = .invalid →
          (typeOf v.checked e).errors =
              e.operands.flatMap (fun x => (valueOf v.checked x).errors) ∧
            valueOf v.checked e = typeOf v.checked e := by
  refine ⟨p.visits_perm, fun v visited e part => ?_⟩
  have proper := proper_visited parsed visited
  have found : ∀ name ∈ e.uses, v.checked.lookupAll name ≠ [] := fun name used =>
    ((walked clean).resolved v visited).checked name (uses_subterms v.expr e part used)
  exact ⟨errors_of_invalid proper found, errors_of_invalid_value proper found,
    errors_of_operands e⟩

end Program

/-- A difference with a text, inside a product and a test. -/
def muddled : String :=
  "main \x7b print(((\"a\" - 1) * 2) == true); \x7d"

/-- It is complained about once. The product has an operand of the invalid type, and nothing is said
about the product but what is said about its operands. -/
theorem muddled_complained : ∃ tokens p, Parse.ofTokens tokens = .ok p ∧
    (analyze p).errors = [] ∧ (typeCheck p).length = 1 ∧
    ∃ v ∈ p.visits, ∃ e ∈ v.expr.subterms, ∃ x ∈ e.operands,
      (valueOf v.checked x).ty = .invalid ∧
      (typeOf v.checked e).ty = .invalid ∧ (typeOf v.checked e).errors ≠ [] ∧
      (typeOf v.checked e).errors =
        e.operands.flatMap (fun x => (valueOf v.checked x).errors) := by
  have checked : (readProgram muddled).toOption.any fun p => (analyze p).errors.isEmpty &&
      (typeCheck p).length = 1 && p.visits.any fun v => v.expr.subterms.any fun e =>
        (typeOf v.checked e).ty = .invalid &&
          e.operands.any fun x => (valueOf v.checked x).ty = .invalid := by
    decide +kernel
  obtain ⟨p, read, facts⟩ := exists_of_readProgram checked
  obtain ⟨tokens, -, parsed⟩ := tokens_of_readProgram read
  obtain ⟨⟨clean, once⟩, v, visited, e, part, invalid, x, operand, unknown⟩ :
      ((analyze p).errors = [] ∧ (typeCheck p).length = 1) ∧ ∃ v ∈ p.visits,
        ∃ e ∈ v.expr.subterms, (typeOf v.checked e).ty = .invalid ∧ ∃ x ∈ e.operands,
          (valueOf v.checked x).ty = .invalid := by
    simpa using facts
  obtain ⟨complained, -, suppressed⟩ :=
    (Program.invalid_complained parsed clean).2 v visited e part
  exact ⟨tokens, p, parsed, clean, once, v, visited, e, part, x, operand, unknown, invalid,
    complained invalid, (suppressed x operand unknown).1⟩

end Curly
