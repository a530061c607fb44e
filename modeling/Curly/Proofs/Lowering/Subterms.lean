import Curly.Proofs.Lowering.Reads
import Curly.Proofs.Typing.Suppression

/-! The expressions in an expression, as lowering comes to them. Each one is lowered before what it
is an operand of, and has no fault if the whole expression has none. -/
namespace Curly

theorem Expr.mem_subterms (e : Expr) : e ∈ e.subterms := by
  cases e <;> simp [Expr.subterms]

def Stop.expr (x : Stop) : Expr :=
  x.visit.expr

namespace Lowering

open Builder

section

variable (a t : Table) (ps : Parameters)

/-- An expression of which a value is wanted. -/
def valued (e : Expr) (b : Builder) : Stop :=
  ⟨⟨e, a, t⟩, ps, b, .wanted⟩

mutual

/-- The expressions that lowering comes to inside of one. The target of an assignment is none. -/
def exprInner : Expr → Builder → List Stop
  | .binary op left right _, b =>
    if op = .assign then exprInner right b ++ [valued a t ps right b]
    else
      exprInner left b ++ [valued a t ps left b] ++
        (exprInner right (expr left b).2 ++ [valued a t ps right (expr left b).2])
  | .unary _ operand _ _, b => exprInner operand b ++ [valued a t ps operand b]
  | .call _ args _, b => exprsInner args b
  | .int .., _ | .float .., _ | .string .., _ | .char .., _ | .bool .., _ | .symbol _, _ => []
termination_by structural e => e

def exprsInner : List Expr → Builder → List Stop
  | [], _ => []
  | e :: others, b => exprInner e b ++ [valued a t ps e b] ++ exprsInner others (expr e b).2
termination_by structural es => es

end

/-- An expression behind those inside of it. -/
def exprTerms (e : Expr) (b : Builder) : List Stop :=
  exprInner a t ps e b ++ [valued a t ps e b]

/-- A stop inside of expressions. -/
structure Inner (subterms : List Expr) (after : Builder) (reads : List Read) (x : Stop) :
    Prop where
  analyzed : x.visit.analyzed = a
  checked : x.visit.checked = t
  params : x.params = ps
  subterm : x.visit.expr ∈ subterms
  written : Follows x.after after
  reads : x.reads ⊆ reads

variable {a t ps}

namespace Inner

variable {subterms terms : List Expr} {b c : Builder} {reads others : List Read} {x : Stop}

theorem mono (inner : Inner a t ps subterms b reads x) (more : subterms ⊆ terms)
    (follows : Follows b c) (read : reads ⊆ others) : Inner a t ps terms c others x :=
  ⟨inner.analyzed, inner.checked, inner.params, more inner.subterm, inner.written.trans follows,
    List.Subset.trans inner.reads read⟩

end Inner

theorem inner_snoc {e : Expr} {b : Builder}
    (inside : ∀ x ∈ exprInner a t ps e b,
      Inner a t ps e.subterms (expr e b).2 (exprReads a ps e b) x) :
    ∀ x ∈ exprTerms a t ps e b, Inner a t ps e.subterms (expr e b).2 (exprReads a ps e b) x :=
  List.forall_mem_append.mpr ⟨inside, List.forall_mem_singleton.mpr
    ⟨rfl, rfl, rfl, Expr.mem_subterms e, .refl _, List.Subset.refl _⟩⟩

mutual

theorem inner_expr : (e : Expr) → (b : Builder) → ∀ x ∈ exprInner a t ps e b,
    Inner a t ps e.subterms (expr e b).2 (exprReads a ps e b) x
  | .binary op left right span, b => by
    simp only [exprInner, expr, exprReads, Expr.subterms]
    split
    · refine fun x member => (inner_snoc (inner_expr right b) x member).mono ?_
        (straight_store left _ _).follows (List.Subset.refl _)
      exact List.subset_append_of_subset_right _ (List.subset_append_left ..)
    · have put : Follows (expr right (expr left b).2).2 (intoTemp (.binary · op.spelling
          (expr left b).1 (expr right (expr left b).2).1) (expr right (expr left b).2).2).2 :=
        (Follows.refl _).newTemp.emit _
      refine List.forall_mem_append.mpr ⟨fun x member => ?_, fun x member => ?_⟩
      · exact (inner_snoc (inner_expr left b) x member).mono (List.subset_append_left ..)
          ((straight_expr right _).follows.trans put) (List.subset_append_left ..)
      · exact (inner_snoc (inner_expr right _) x member).mono
          (List.subset_append_of_subset_right _ (List.subset_append_left ..)) put
          (List.subset_append_right ..)
  | .unary op operand side span, b => fun x member => by
    refine (inner_snoc (inner_expr operand b) x member).mono (List.subset_append_left ..) ?_
      (List.Subset.refl _)
    simp only [expr]
    split
    · exact (straight_step op side _ _).follows
    · exact (Follows.refl _).newTemp.emit _
  | .call callee args span, b => fun x member =>
    (inner_exprs args b x member).mono (List.subset_append_left ..)
      ((Follows.refl _).newTemp.emit _) (List.Subset.refl _)
  | .int .., _ | .float .., _ | .string .., _ | .char .., _ | .bool .., _ | .symbol _, _ => nofun
termination_by structural e => e

theorem inner_exprs : (es : List Expr) → (b : Builder) → ∀ x ∈ exprsInner a t ps es b,
    Inner a t ps (subtermsIn es) (exprs es b).2 (exprsReads a ps es b) x
  | [], _ => nofun
  | e :: others, b => List.forall_mem_append.mpr
    ⟨fun x member => (inner_snoc (inner_expr e b) x member).mono (List.subset_append_left ..)
        (straight_exprs others _).follows (List.subset_append_left ..),
      fun x member => (inner_exprs others _ x member).mono (List.subset_append_right ..) (.refl _)
        (List.subset_append_right ..)⟩
termination_by structural es => es

end

theorem inner_effect (e : Expr) (b : Builder) : ∀ x ∈ exprInner a t ps e b,
    Inner a t ps e.subterms (effect e b) (exprReads a ps e b) x := by
  cases e with
  | call callee args span =>
    exact fun x member => (inner_exprs args b x member).mono (List.subset_append_left ..)
      ((Follows.refl _).emit _) (List.Subset.refl _)
  | _ => exact inner_expr _ b

open Typing

theorem clean_snoc {e : Expr} {b : Builder}
    (inside : ∀ x ∈ exprInner a t ps e b, (typeOf t x.visit.expr).errors = [])
    (clean : (typeOf t e).errors = []) :
    ∀ x ∈ exprTerms a t ps e b, (typeOf t x.visit.expr).errors = [] :=
  List.forall_mem_append.mpr ⟨inside, List.forall_mem_singleton.mpr clean⟩

mutual

/-- Inside of an expression without fault there is none. -/
theorem clean_inner : (e : Expr) → (b : Builder) → (typeOf t e).errors = [] →
    ∀ x ∈ exprInner a t ps e b, (typeOf t x.visit.expr).errors = []
  | .binary op left right _, b, clean => by
    simp only [typeOf, exprInner] at clean ⊢
    split at clean
    · rename_i assigns
      have value := clean_asValue (clean_typed clean).1
      rw [if_pos assigns]
      exact clean_snoc (clean_inner right b value) value
    · rename_i plain
      obtain ⟨first, second⟩ := List.append_eq_nil_iff.mp (clean_typed clean).1
      have before := clean_asValue first
      have behind := clean_asValue second
      rw [if_neg plain]
      exact List.forall_mem_append.mpr ⟨clean_snoc (clean_inner left b before) before,
        clean_snoc (clean_inner right _ behind) behind⟩
  | .unary _ operand _ _, b, clean => by
    have value := clean_asValue (clean_typed clean).1
    exact clean_snoc (clean_inner operand b value) value
  | .call _ args _, b, clean => clean_exprsInner args b (List.append_eq_nil_iff.mp clean).1
  | .int .., _, _ | .float .., _, _ | .string .., _, _ | .char .., _, _ | .bool .., _, _
  | .symbol _, _, _ => nofun
termination_by structural e => e

theorem clean_exprsInner : (es : List Expr) → (b : Builder) →
    (typesOf t es).flatMap Typed.errors = [] →
    ∀ x ∈ exprsInner a t ps es b, (typeOf t x.visit.expr).errors = []
  | [], _, _ => nofun
  | e :: others, b, clean => by
    obtain ⟨first, rest⟩ := List.append_eq_nil_iff.mp clean
    have value := clean_asValue first
    exact List.forall_mem_append.mpr
      ⟨clean_snoc (clean_inner e b value) value, clean_exprsInner others _ rest⟩
termination_by structural es => es

end

end
end Lowering

namespace Stop

variable {x : Stop}

/-- The stop behind those inside of its expression. -/
def terms (x : Stop) : List Stop :=
  Lowering.exprInner x.visit.analyzed x.visit.checked x.params x.expr x.before ++ [x]

theorem inner_terms (x : Stop) : ∀ y ∈ x.terms, Lowering.Inner x.visit.analyzed x.visit.checked
    x.params x.expr.subterms x.after x.reads y := by
  refine List.forall_mem_append.mpr ⟨?_, List.forall_mem_singleton.mpr
    ⟨rfl, rfl, rfl, Expr.mem_subterms _, .refl _, List.Subset.refl _⟩⟩
  unfold after
  split
  · exact Lowering.inner_effect x.expr x.before
  · exact Lowering.inner_expr x.expr x.before

theorem clean_terms (clean : (Typing.typeOf x.visit.checked x.expr).errors = []) :
    ∀ y ∈ x.terms, (Typing.typeOf x.visit.checked y.expr).errors = [] :=
  List.forall_mem_append.mpr
    ⟨Lowering.clean_inner x.expr x.before clean, List.forall_mem_singleton.mpr clean⟩

end Stop
end Curly
