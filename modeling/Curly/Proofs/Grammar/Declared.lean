import Curly.Compile
import Curly.Proofs.Grammar.Yields

/-! What a parsed program is made of. A parser invents nothing: every type, name and literal in a
program stands in one of its tokens. -/
namespace Curly

/-- The types that a statement declares something with. -/
def Stmt.types : Stmt → List Ty
  | .variable ty _ _ _ => [ty]
  | .prototype ty _ ps _ | .function ty _ ps _ _ => ty :: signature ps
  | .main .. | .enumeration .. | .block _ | .branch .. | .whileLoop .. | .doLoop .. | .forLoop ..
  | .switch .. | .giveBack .. | .leave _ | .print .. | .evaluate .. | .inclusion .. => []

/-- The statements declare everything with types that can be written. -/
def TypesWritten (body : List Stmt) : Prop :=
  ∀ s ∈ body, ∀ ty ∈ s.types, ty.Written

abbrev Stmt.TypesWritten (s : Stmt) : Prop :=
  Curly.TypesWritten (s :: s.inner)

abbrev Block.TypesWritten (body : Block) : Prop :=
  Curly.TypesWritten body.statements

section

variable {s : Stmt} {first second : List Stmt}

@[simp] theorem typesWritten_nil : TypesWritten [] :=
  nofun

@[simp] theorem typesWritten_cons :
    TypesWritten (s :: first) ↔ (∀ ty ∈ s.types, ty.Written) ∧ TypesWritten first :=
  List.forall_mem_cons

@[simp] theorem typesWritten_append :
    TypesWritten (first ++ second) ↔ TypesWritten first ∧ TypesWritten second :=
  List.forall_mem_append

end

theorem Keyword.written {T : Token → Prop} {ty : Ty} (keyword : Keyword T ty) : ty.Written := by
  obtain ⟨t, -, known⟩ := keyword
  cases kind : t.kind <;> simp_all [Token.Kind.ty?, Ty.Written]

theorem Ty.Written.ne_invalid {t : Ty} (written : t.Written) : t ≠ .invalid := by
  rintro rfl
  simp [Written] at written

theorem ne_invalid_of_written {ty : Ty} {ps : List Param}
    (written : ∀ x ∈ ty :: signature ps, x.Written) : ty ≠ .invalid ∧ .invalid ∉ signature ps := by
  obtain ⟨typed, params⟩ := List.forall_mem_cons.mp written
  exact ⟨typed.ne_invalid, fun member => (params _ member).ne_invalid rfl⟩

mutual

/-- The literals and names of an expression, those that it calls among them. -/
def Expr.leaves : Expr → List Expr
  | .binary _ left right _ => left.leaves ++ right.leaves
  | .unary _ operand _ _ => operand.leaves
  | .call callee args _ => .symbol callee :: leavesOfAll args
  | .int value span => [.int value span]
  | .float value span => [.float value span]
  | .string value span => [.string value span]
  | .char value span => [.char value span]
  | .bool value span => [.bool value span]
  | .symbol name => [.symbol name]
termination_by structural e => e

def Expr.leavesOfAll : List Expr → List Expr
  | [] => []
  | e :: others => e.leaves ++ leavesOfAll others
termination_by structural es => es

end

/-- Each leaf is what a token with the property `T` stands for. -/
def Expr.Drawn (T : Token → Prop) (e : Expr) : Prop :=
  ∀ x ∈ e.leaves, ∃ t, T t ∧ t.atom? = some x

/-- What the statement says itself is drawn from tokens with the property `T`. The main function
has no identifier for a name. -/
structure Stmt.Drawn (T : Token → Prop) (s : Stmt) : Prop where
  types : ∀ ty ∈ s.types, ∃ t, T t ∧ t.kind.ty? = some ty
  names : (∀ name ∈ s.introduces, Named T name) ∨ ∃ body span, s = .main body span
  expressions : ∀ e ∈ s.expressions, e.Drawn T

def AllDrawn (T : Token → Prop) (body : List Stmt) : Prop :=
  ∀ s ∈ body, s.Drawn T

section

variable {T : Token → Prop} {s : Stmt}

theorem Expr.leavesOfAll_eq_flatMap (es : List Expr) :
    Expr.leavesOfAll es = es.flatMap Expr.leaves := by
  induction es with
  | nil => rfl
  | cons e others ih => rw [leavesOfAll, ih, List.flatMap_cons]

theorem Expr.drawn_atom {t : Token} {e : Expr} (holds : T t) (same : t.atom? = some e) :
    e.Drawn T := by
  have leaf : e.leaves = [e] := by
    unfold Token.atom? at same
    split at same <;> simp at same
    · obtain ⟨_, -, rfl⟩ := same
      rfl
    · obtain ⟨_, -, rfl⟩ := same
      rfl
    all_goals subst same; rfl
  rw [Drawn, leaf, List.forall_mem_singleton]
  exact ⟨t, holds, same⟩

theorem Expr.drawn_binary {op : BinaryOp} {left right : Expr} {span : Span} :
    (Expr.binary op left right span).Drawn T ↔ left.Drawn T ∧ right.Drawn T :=
  List.forall_mem_append

theorem Expr.drawn_call {callee : Identifier} {args : List Expr} {span : Span} :
    (Expr.call callee args span).Drawn T ↔
      (Expr.symbol callee).Drawn T ∧ ∀ e ∈ args, e.Drawn T := by
  simp only [Drawn, leaves, leavesOfAll_eq_flatMap, List.forall_mem_cons, List.mem_flatMap,
    List.not_mem_nil, false_implies, implies_true, and_true, forall_exists_index, and_imp]
  exact and_congr_right fun _ =>
    ⟨fun drawn e member x leaf => drawn x e member leaf, fun drawn x e member => drawn e member x⟩

/-- A statement that declares nothing. -/
theorem Stmt.Drawn.of_expressions (types : s.types = []) (names : s.introduces = [])
    (drawn : ∀ e ∈ s.expressions, e.Drawn T) : s.Drawn T :=
  ⟨by simp [types], .inl (by simp [names]), drawn⟩

end

section

variable {T : Token → Prop}

theorem Denotes.drawn {tokens : List Token} {i : Identifier} (denotes : Denotes tokens i)
    (all : ∀ t ∈ tokens, T t) : (Expr.symbol i).Drawn T := by
  induction denotes with
  | name names =>
    obtain ⟨t, rfl, kind, rfl⟩ := names
    exact Expr.drawn_atom (all t (.head _)) (by simp [Token.atom?, kind])
  | group _ _ _ ih => exact ih (List.forall_mem_append.mp (List.forall_mem_cons.mp all).2).1

mutual

/-- An expression is drawn from its tokens. -/
theorem Layered.drawn {floor layer : Power} {tokens : List Token} {e : Expr} :
    Layered Denotes floor layer tokens e → (∀ t ∈ tokens, T t) → e.Drawn T
  | .climb layered, all => layered.drawn all
  | .assign _ _ target value, all | .binary _ _ _ _ target value, all => by
    obtain ⟨first, second⟩ := List.forall_mem_append.mp all
    exact Expr.drawn_binary.mpr
      ⟨target.drawn first, value.drawn (List.forall_mem_cons.mp second).2⟩
  | .before _ _ operand, all => operand.drawn (List.forall_mem_cons.mp all).2
  | .behind _ _ _ _ operand, all => operand.drawn (List.forall_mem_append.mp all).1
  | .call _ callee _ _ args, all => by
    obtain ⟨first, second⟩ := List.forall_mem_append.mp all
    have inside := List.forall_mem_append.mp (List.forall_mem_cons.mp second).2
    exact Expr.drawn_call.mpr ⟨callee.drawn first, args.drawn inside.1⟩
  | .atom same, all => Expr.drawn_atom (all _ (.head _)) same
  | .group _ _ inner, all =>
    inner.drawn (List.forall_mem_append.mp (List.forall_mem_cons.mp all).2).1
termination_by structural layered => layered

theorem LayeredAll.drawn {tokens : List Token} {es : List Expr} :
    LayeredAll Denotes tokens es → (∀ t ∈ tokens, T t) → ∀ e ∈ es, e.Drawn T
  | .none, _ => nofun
  | .last layered, all => List.forall_mem_singleton.mpr (layered.drawn all)
  | .cons layered _ others, all => by
    obtain ⟨first, second⟩ := List.forall_mem_append.mp all
    exact List.forall_mem_cons.mpr
      ⟨layered.drawn first, others.drawn (List.forall_mem_cons.mp second).2⟩
termination_by structural layered => layered

end

end

namespace Parse

variable {T : Token → Prop}

/-- The parser makes what is drawn from tokens. -/
theorem makes_drawn : Makes T (Expr.Drawn T) (Stmt.Drawn T) where
  expression := Layered.drawn
  initialized typed named drawn :=
    ⟨List.forall_mem_singleton.mpr typed, .inl (List.forall_mem_singleton.mpr named),
      by simpa [Stmt.expressions] using drawn⟩
  prototype types names := ⟨types, .inl names, nofun⟩
  function types names := ⟨types, .inl names, nofun⟩
  main := ⟨nofun, .inr ⟨_, _, rfl⟩, nofun⟩
  enumeration names := ⟨nofun, .inl names, nofun⟩
  block := .of_expressions rfl rfl nofun
  branch drawn := .of_expressions rfl rfl (List.forall_mem_singleton.mpr drawn)
  whileLoop drawn := .of_expressions rfl rfl (List.forall_mem_singleton.mpr drawn)
  doLoop drawn := .of_expressions rfl rfl (List.forall_mem_singleton.mpr drawn)
  forLoop _ condition update :=
    .of_expressions rfl rfl (by
      simpa [Stmt.expressions, or_imp, forall_and] using ⟨condition, update⟩)
  switch drawn values := .of_expressions rfl rfl
    (List.forall_mem_cons.mpr ⟨drawn, List.forall_mem_map.mpr values⟩)
  giveBack drawn := .of_expressions rfl rfl (by simpa [Stmt.expressions] using drawn)
  leave := .of_expressions rfl rfl nofun
  print drawn := .of_expressions rfl rfl drawn
  evaluate drawn := .of_expressions rfl rfl (List.forall_mem_singleton.mpr drawn)
  inclusion := .of_expressions rfl rfl nofun

/-- Everything in a parsed program is drawn from its tokens. -/
theorem allDrawn_of_parsed {tokens : List Token} {p : Program} (all : ∀ t ∈ tokens, T t)
    (ends : ∀ place, T (.eof place)) (parsed : ofTokens tokens = .ok p) :
    AllDrawn T p.statements :=
  makes_drawn.parsed all ends parsed

/-- Every type that a parsed program declares something with is one that can be written. -/
theorem typesWritten_of_parsed {tokens : List Token} {p : Program}
    (parsed : ofTokens tokens = .ok p) : TypesWritten p.statements := by
  intro s member ty listed
  have drawn := @allDrawn_of_parsed (fun _ => True) tokens p (fun _ _ => trivial)
    (fun _ => trivial) parsed
  exact Keyword.written ((drawn s member).types ty listed)

end Parse

theorem eq_ok_of_mapError {α ε δ : Type} {f : ε → δ} {x : Except ε α} {value : α}
    (mapped : x.mapError f = .ok value) : x = .ok value := by
  cases x with
  | error e => cases mapped
  | ok found => exact congrArg Except.ok (Except.ok.inj mapped)

theorem tokens_of_readProgram {source : String} {p : Program}
    (read : readProgram source = .ok p) :
    ∃ tokens, tokenize source = .ok tokens ∧ Parse.ofTokens tokens = .ok p := by
  have parsed : Parse.ofText source = .ok p := eq_ok_of_mapError read
  unfold Parse.ofText at parsed
  cases scanned : tokenize source with
  | error e =>
    rw [scanned] at parsed
    cases parsed
  | ok tokens =>
    rw [scanned] at parsed
    exact ⟨tokens, rfl, parsed⟩

/-- What a source is read as, with what is found by running a test on it. -/
theorem exists_of_readProgram {source : String} {test : Program → Bool}
    (holds : (readProgram source).toOption.any test) :
    ∃ p, readProgram source = .ok p ∧ test p := by
  cases read : readProgram source with
  | error e => simp [read, Except.toOption] at holds
  | ok p =>
    rw [read] at holds
    exact ⟨p, rfl, holds⟩

end Curly
