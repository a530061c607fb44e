import Curly.Proofs.Grammar.Reaching
import Curly.Proofs.Grammar.Shape
import Curly.Proofs.Scope.Occurrences

/-! What holds of all that a parser makes. Its expressions are those of the grammar, types and names
stand in tokens, and there are few forms of statements. So what is true of each form is true of
every statement of a program, whatever it stands in. -/
namespace Curly

/-- A keyword for the type. -/
def Keyword (T : Token → Prop) (ty : Ty) : Prop :=
  ∃ t, T t ∧ t.kind.ty? = some ty

def Named (T : Token → Prop) (name : String) : Prop :=
  ∃ t, T t ∧ t.kind = .identifier ∧ t.value = name

/-- A property of a statement and of all statements in it. -/
abbrev Stmt.Throughout (S : Stmt → Prop) (s : Stmt) : Prop :=
  ∀ x ∈ s :: s.inner, S x

abbrev Block.Throughout (S : Stmt → Prop) (body : Block) : Prop :=
  ∀ x ∈ body.statements, S x

namespace Parse

variable {α β : Type} {T : Token → Prop}

/-- The tokens that are left have the property `T`, and an end mark is the last of them. -/
def Holds (T : Token → Prop) (c : Cursor) : Prop :=
  Closed c.tokens ∧ ∀ t ∈ c.tokens, T t

/-- At tokens with the property `T`, whatever the parser reads has a property, and the tokens that
it leaves are among these. -/
def Yields (T : Token → Prop) (P : α → Prop) (parse : Parse α) : Prop :=
  ∀ c x d, Holds T c → parse.run c = .ok x d → P x ∧ Holds T d

namespace Yields

variable {P : α → Prop} {Q : β → Prop} {parse : Parse α} {continuation : α → Parse β}

theorem pure {x : α} (holds : P x) : Yields T P (pure x) := by
  rintro c y d tokens ⟨⟩
  exact ⟨holds, tokens⟩

theorem fails (e : SyntaxError) : Yields T P (throw e : Parse α) := by
  intro c x d _ run
  have failed : EStateM.Result.error e c = .ok x d := run
  exact nomatch failed

theorem bind (head : Yields T P parse) (tail : ∀ x, P x → Yields T Q (continuation x)) :
    Yields T Q (parse >>= continuation) := by
  intro c y e tokens run
  rw [EStateM.run_bind] at run
  cases read : parse.run c with
  | ok x d =>
    rw [read] at run
    obtain ⟨holds, left⟩ := head c x d tokens read
    exact tail x holds d y e left run
  | error => simp [read] at run

/-- Behind a parser of which no more has to be known. -/
theorem after (head : Yields T P parse) (tail : ∀ x, Yields T Q (continuation x)) :
    Yields T Q (parse >>= continuation) :=
  head.bind fun x _ => tail x

theorem weaken {R : α → Prop} (yields : Yields T P parse) (more : ∀ x, P x → R x) :
    Yields T R parse :=
  fun c x d holds run => ⟨more x (yields c x d holds run).1, (yields c x d holds run).2⟩

theorem map {f : α → β} (head : Yields T P parse) (holds : ∀ x, P x → Q (f x)) :
    Yields T Q (f <$> parse) := by
  rw [map_eq_pure_bind]
  exact head.bind fun x found => .pure (holds x found)

theorem ite {c : Prop} [Decidable c] {yes no : Parse α} (first : Yields T P yes)
    (second : Yields T P no) : Yields T P (if c then yes else no) := by
  split
  · exact first
  · exact second

/-- Behind a parser that stays where it is. -/
theorem still (stays : ∀ c, ∃ x, parse.run c = .ok x c) (tail : ∀ x, Yields T Q (continuation x)) :
    Yields T Q (parse >>= continuation) := by
  refine after (P := fun _ => True) (fun c x d tokens run => ?_) tail
  obtain ⟨y, read⟩ := stays c
  rw [read] at run
  obtain ⟨rfl, rfl⟩ := EStateM.Result.ok.inj run
  exact ⟨trivial, tokens⟩

theorem kind {f : Token.Kind → Parse β} (tail : ∀ k, Yields T Q (f k)) :
    Yields T Q (Parse.kind >>= f) :=
  still (fun _ => ⟨_, rfl⟩) tail

theorem start {f : Position → Parse β} (tail : ∀ p, Yields T Q (f p)) :
    Yields T Q (Parse.start >>= f) :=
  still (fun _ => ⟨_, rfl⟩) tail

theorem get {f : Cursor → Parse β} (tail : ∀ c, Yields T Q (f c)) : Yields T Q (get >>= f) :=
  still (fun _ => ⟨_, rfl⟩) tail

theorem spanFrom {begin : Position} {f : Span → Parse β} (tail : ∀ s, Yields T Q (f s)) :
    Yields T Q (Parse.spanFrom begin >>= f) :=
  still (fun _ => ⟨_, rfl⟩) tail

end Yields

section

variable {P : α → Prop} {item : Parse α}

theorem Holds.next {c : Cursor} (holds : Holds T c) : Holds T c.next := by
  obtain ⟨closed, all⟩ := holds
  unfold Cursor.next
  split
  next => exact ⟨closed, all⟩
  next t ahead known =>
    rw [Cursor.tokens, known] at closed all
    exact ⟨@Closed.of_append [c.current] _ closed (List.cons_ne_nil t ahead),
      (List.forall_mem_cons.mp all).2⟩

theorem yields_current : Yields T T current := by
  rintro c t d holds ⟨⟩
  exact ⟨holds.2 _ List.mem_cons_self, holds⟩

theorem yields_advance : Yields T T advance := by
  rintro c t d holds ⟨⟩
  exact ⟨holds.2 _ List.mem_cons_self, holds.next⟩

theorem yields_expect (k : Token.Kind) (expectation : String) :
    Yields T (fun t => T t ∧ t.kind = k) (expect k expectation) := by
  intro c t d tokens run
  unfold expect at run
  change (if c.current.kind = k then advance else _ : Parse Token).run c = _ at run
  split at run
  next same =>
    obtain ⟨holds, left⟩ := yields_advance c t d tokens run
    obtain ⟨rfl, -⟩ := EStateM.Result.ok.inj run
    exact ⟨⟨holds, same⟩, left⟩
  next => split at run <;> exact nomatch run

theorem yields_skip (k : Token.Kind) : Yields T (fun _ => True) (skip k) :=
  .kind fun _ =>
    .ite (yields_advance.after fun _ => .pure trivial) (.pure trivial)

theorem yields_behind? (k : Token.Kind) (each : Yields T P item) :
    Yields T (fun x => ∀ y ∈ x, P y) (behind? k item) := by
  refine (yields_skip k).after fun found => .ite ?_ (.pure nofun)
  refine each.bind fun x holds => .pure ?_
  rintro y ⟨⟩
  exact holds

theorem yields_before? (k : Token.Kind) (each : Yields T P item) :
    Yields T (fun x => ∀ y ∈ x, P y) (before? k item) := by
  refine .kind fun _ => .ite (.pure nofun) ?_
  refine each.bind fun x holds => .pure ?_
  rintro y ⟨⟩
  exact holds

theorem yields_comma (close : Token.Kind) : Yields T (fun _ => True) (comma close) :=
  .kind fun _ =>
    .ite (.pure trivial) ((yields_expect _ _).after fun _ => .pure trivial)

theorem yields_separated (close : Token.Kind) (each : Yields T P item) (bound : Nat) :
    Yields T (fun xs => ∀ x ∈ xs, P x) (separated close item bound) := by
  induction bound with
  | zero => exact .pure nofun
  | succ bound ih =>
    refine .kind fun _ => .ite (.pure nofun) ?_
    refine each.bind fun first holds => (yields_comma close).after fun _ => ?_
    exact ih.bind fun others rest => .pure (List.forall_mem_cons.mpr ⟨holds, rest⟩)

theorem yields_enclosed (close : Token.Kind) (each : Yields T P item) :
    Yields T (fun xs => ∀ x ∈ xs, P x) (enclosed close item) := by
  refine .get fun _ => (yields_separated close each _).bind fun items holds => ?_
  exact (yields_expect _ _).after fun _ => .pure holds

theorem yields_upTo (stops : Token.Kind → Bool) (each : Yields T P item) (bound : Nat) :
    Yields T (fun xs => ∀ x ∈ xs, P x) (upTo stops item bound) := by
  induction bound with
  | zero => exact .pure nofun
  | succ bound ih =>
    refine yields_current.after fun t => .ite (.pure nofun) (.ite (.fails _) ?_)
    refine each.bind fun first holds => ih.bind fun others rest => .pure ?_
    exact List.forall_mem_cons.mpr ⟨holds, rest⟩

end

/-- Out of tokens with the property `T`, expressions with the property `E` and statements with the
property `S` are made. What a statement has inside of it does not matter, but for the head of a for
loop. -/
structure Makes (T : Token → Prop) (E : Expr → Prop) (S : Stmt → Prop) : Prop where
  expression {used : List Token} {floor : Power} {e : Expr} :
    Layered Denotes floor .assignment used e → (∀ t ∈ used, T t) → E e
  initialized {ty : Ty} {name : String} {initial : Option Expr} {span : Span} :
    Keyword T ty → Named T name → (∀ e ∈ initial, E e) → S (.variable ty name initial span)
  prototype {ty : Ty} {name : String} {ps : List Param} {span : Span} :
    (∀ x ∈ ty :: signature ps, Keyword T x) → (∀ x ∈ name :: ps.map Param.name, Named T x) →
    S (.prototype ty name ps span)
  function {ty : Ty} {name : String} {ps : List Param} {body : Block} {span : Span} :
    (∀ x ∈ ty :: signature ps, Keyword T x) → (∀ x ∈ name :: ps.map Param.name, Named T x) →
    S (.function ty name ps body span)
  main {body : Block} {span : Span} : S (.main body span)
  enumeration {name : String} {values : List Identifier} {list span : Span} :
    (∀ x ∈ name :: values.map Identifier.name, Named T x) → S (.enumeration name values list span)
  block {body : Block} : S (.block body)
  branch {e : Expr} {yes : Block} {no : Option Block} {span : Span} :
    E e → S (.branch e yes no span)
  whileLoop {e : Expr} {body : Block} {span : Span} : E e → S (.whileLoop e body span)
  doLoop {e : Expr} {body : Block} {span : Span} : E e → S (.doLoop body e span)
  forLoop {initial : Option Stmt} {e update : Option Expr} {body : Block} {span : Span} :
    (∀ s ∈ initial, s.IsInitial) → (∀ x ∈ e, E x) → (∀ x ∈ update, E x) →
    S (.forLoop initial e update body span)
  switch {e : Expr} {cases : List Case} {fallback : Option Block} {span : Span} :
    E e → (∀ arm ∈ cases, E arm.value) → S (.switch e cases fallback span)
  giveBack {value : Option Expr} {span : Span} : (∀ e ∈ value, E e) → S (.giveBack value span)
  leave {span : Span} : S (.leave span)
  print {args : List Expr} {span : Span} : (∀ e ∈ args, E e) → S (.print args span)
  evaluate {e : Expr} {span : Span} : E e → S (.evaluate e span)
  inclusion {header : String} {span : Span} : S (.inclusion header span)

section

theorem yields_ty : Yields T (Keyword T) (ty .full) := by
  refine yields_current.bind fun t holds => ?_
  split
  next => exact .fails _
  next found known => exact yields_advance.after fun _ => .pure ⟨t, holds, known⟩

/-- An identifier of which the text is taken. -/
theorem yields_name (expectation : String) :
    Yields T (fun t => Named T t.value) (expect .identifier expectation) := by
  intro c t d tokens run
  obtain ⟨⟨holds, kind⟩, left⟩ := yields_expect _ _ c t d tokens run
  exact ⟨⟨t, holds, kind, rfl⟩, left⟩

/-- The type and the name of a parameter stand in tokens. -/
def ParamNamed (T : Token → Prop) (p : Param) : Prop :=
  Keyword T p.ty ∧ Named T p.name

theorem yields_param : Yields T (ParamNamed T) (param .full) :=
  .start fun _ => yields_ty.bind fun _ typed =>
    (yields_name _).bind fun _ named => .spanFrom fun _ => .pure ⟨typed, named⟩

theorem yields_params : Yields T (fun ps => ∀ p ∈ ps, ParamNamed T p) (params .full) := by
  have none : Yields T (fun _ => True) noParams :=
    .get fun _ =>
      .ite (yields_advance.after fun _ => .pure trivial) (.pure trivial)
  exact (yields_expect _ _).after fun _ => none.after fun _ => yields_enclosed _ yields_param

theorem named_signature {ty : Ty} {name : String} {ps : List Param} (typed : Keyword T ty)
    (named : Named T name) (params : ∀ p ∈ ps, ParamNamed T p) :
    (∀ x ∈ ty :: signature ps, Keyword T x) ∧ ∀ x ∈ name :: ps.map Param.name, Named T x :=
  ⟨List.forall_mem_cons.mpr ⟨typed, List.forall_mem_map.mpr fun p member => (params p member).1⟩,
    List.forall_mem_cons.mpr ⟨named, List.forall_mem_map.mpr fun p member => (params p member).2⟩⟩

theorem leaf {S : Stmt → Prop} {s : Stmt} (holds : S s) (plain : s.inner = []) :
    s.Throughout S :=
  List.forall_mem_cons.mpr ⟨holds, plain ▸ nofun⟩

end

section

variable {E : Expr → Prop} {S : Stmt → Prop} {inner : Parse Stmt} (makes : Makes T E S)

include makes

theorem yields_expression (floor : Power) : Yields T E (expression .full floor) := by
  intro c e d ⟨closed, all⟩ run
  obtain ⟨used, split, layered, -⟩ := (expression_layered closed floor).1 e d run
  rw [split] at all closed
  obtain ⟨read, left⟩ := List.forall_mem_append.mp all
  exact ⟨makes.expression layered read, closed.of_append (List.cons_ne_nil _ _), left⟩

theorem yields_condition : Yields T E (condition .full) :=
  (yields_expect _ _).after fun _ => (yields_expression makes _).bind fun _ holds =>
    (yields_expect _ _).after fun _ => .pure holds

/-- The statement is a variable or an expression, as it may be in the head of a for loop. -/
def Heads (S : Stmt → Prop) (s : Stmt) : Prop :=
  s.IsInitial ∧ s.Throughout S

theorem yields_initialized {ty : Ty} (typed : Keyword T ty) {name : String}
    (named : Named T name) (begin : Position) :
    Yields T (Heads S) (initialized .full begin ty name) := by
  refine (yields_behind? _ (yields_expression makes _)).bind fun initial holds => ?_
  refine (yields_expect _ _).after fun _ => .spanFrom fun _ => .pure ⟨trivial, ?_⟩
  exact leaf (makes.initialized typed named holds) rfl

theorem yields_variableStatement : Yields T (Heads S) (variableStatement .full) :=
  .start fun begin => yields_ty.bind fun _ typed =>
    (yields_name _).bind fun _ named => yields_initialized makes typed named begin

theorem yields_enumeration : Yields T (Stmt.Throughout S) enumeration := by
  have value : Yields T (fun i => Named T i.name)
      (do let t ← expect .identifier; return Identifier.mk t.value t.span) :=
    (yields_name _).bind fun _ named => .pure named
  refine yields_advance.after fun _ => (yields_name _).bind fun name named => ?_
  refine (yields_expect _ _).after fun _ => (yields_enclosed _ value).bind fun values each => ?_
  refine .spanFrom fun _ => (yields_skip _).after fun _ => .spanFrom fun _ => .pure (leaf ?_ rfl)
  exact makes.enumeration (List.forall_mem_cons.mpr ⟨named, List.forall_mem_map.mpr each⟩)

theorem yields_giveBack : Yields T (Stmt.Throughout S) (giveBack .full) := by
  refine yields_advance.after fun _ => ?_
  refine (yields_before? _ (yields_expression makes _)).bind fun e holds => ?_
  refine (yields_expect _ _).after fun _ => .spanFrom fun _ => .pure ?_
  exact leaf (makes.giveBack holds) rfl

theorem yields_print : Yields T (Stmt.Throughout S) (print .full) := by
  have args : Yields T (fun es => ∀ e ∈ es, E e) (arguments (expression .full)) :=
    (yields_expect _ _).after fun _ => yields_enclosed _ (yields_expression makes _)
  refine yields_advance.after fun _ => args.bind fun args holds => ?_
  refine (yields_expect _ _).after fun _ => .spanFrom fun _ => .pure ?_
  exact leaf (makes.print holds) rfl

theorem yields_evaluate : Yields T (Stmt.Throughout S) (evaluate .full) :=
  (yields_expression makes _).bind fun _ holds => (yields_expect _ _).after fun _ =>
    .spanFrom fun _ => .pure (leaf (makes.evaluate holds) rfl)

theorem yields_initial : Yields T (fun s? => ∀ s ∈ s?, Heads S s) (initial .full) := by
  refine (yields_skip _).after fun skipped => .ite (.pure nofun) ?_
  refine .kind fun _ => .ite ?_ ?_
  · refine (yields_variableStatement makes).map fun s holds => ?_
    rintro t ⟨⟩
    exact holds
  · refine (yields_expression makes _).bind fun e holds => ?_
    refine (yields_expect _ _).after fun _ => .pure ?_
    rintro t ⟨⟩
    exact ⟨trivial, leaf (makes.evaluate holds) rfl⟩

end

section

variable {E : Expr → Prop} {S : Stmt → Prop} {inner : Parse Stmt}

section

variable (each : Yields T (Stmt.Throughout S) inner)

include each

theorem yields_statements (stops : Token.Kind → Bool) :
    Yields T (fun body => ∀ x ∈ bodyStatements body, S x) (statements inner stops) := by
  refine .get fun _ => ?_
  intro c body d tokens read
  obtain ⟨holds, left⟩ := yields_upTo stops each _ c body d tokens read
  refine ⟨?_, left⟩
  clear read
  induction body with
  | nil => exact nofun
  | cons s others ih =>
    rw [List.forall_mem_cons] at holds
    exact List.forall_mem_append.mpr ⟨holds.1, ih holds.2⟩

theorem yields_block : Yields T (Block.Throughout S) (block inner) := by
  refine (yields_expect _ _).after fun brace => (yields_statements each _).bind fun body holds => ?_
  exact (yields_expect _ _).after fun _ => .spanFrom fun _ => .pure holds

theorem yields_body : Yields T (Block.Throughout S) (body inner) := by
  refine .kind fun _ => .ite (yields_block each) (each.bind fun _ holds => .pure ?_)
  exact List.forall_mem_append.mpr ⟨holds, nofun⟩

theorem yields_arm : Yields T (Block.Throughout S) (arm inner) := by
  refine .kind fun _ => .ite (yields_block each) ?_
  refine (yields_expect _ _).after fun colon => (yields_statements each _).bind fun body holds => ?_
  exact .spanFrom fun _ => .pure holds

end

variable (makes : Makes T E S) (each : Yields T (Stmt.Throughout S) inner)

include makes each

theorem yields_arms (bound : Nat) (fallback : Option Block)
    (before : ∀ b ∈ fallback, b.Throughout S) :
    Yields T (fun x => (∀ arm ∈ x.1, E arm.value) ∧ (∀ s ∈ armsStatements x.1, S s) ∧
      ∀ b ∈ x.2, b.Throughout S) (arms .full inner bound fallback) := by
  induction bound generalizing fallback with
  | zero => exact .pure ⟨nofun, nofun, before⟩
  | succ bound ih =>
    refine yields_current.after fun t => .ite ?_ (.ite ?_ (.ite ?_ (.ite (.fails _) (.fails _))))
    · exact .pure ⟨nofun, nofun, before⟩
    · refine yields_advance.after fun _ => (yields_expression makes _).bind fun value here => ?_
      refine (yields_arm each).bind fun body holds => .spanFrom fun span => ?_
      refine (ih fallback before).bind fun rest ⟨values, found, last⟩ => .pure ?_
      exact ⟨List.forall_mem_cons.mpr ⟨here, values⟩, List.forall_mem_append.mpr ⟨holds, found⟩,
        last⟩
    · refine yields_advance.after fun _ => (yields_arm each).bind fun body holds => ?_
      refine ih (some body) ?_
      rintro b ⟨⟩
      exact holds

theorem yields_mainFunction : Yields T (Stmt.Throughout S) (mainFunction inner) := by
  refine yields_advance.after fun _ => (yields_behind? _ (yields_expect _ _)).after fun _ => ?_
  refine (yields_block each).bind fun body holds => .spanFrom fun _ => .pure ?_
  exact List.forall_mem_cons.mpr ⟨makes.main, holds⟩

theorem yields_branch : Yields T (Stmt.Throughout S) (branch .full inner) := by
  refine yields_advance.after fun _ => (yields_condition makes).bind fun e here => ?_
  refine (yields_body each).bind fun yes first => ?_
  refine (yields_behind? _ (yields_body each)).bind fun no second => ?_
  refine .spanFrom fun _ => .pure (List.forall_mem_cons.mpr ⟨makes.branch here, ?_⟩)
  cases no with
  | none => exact List.forall_mem_append.mpr ⟨first, nofun⟩
  | some no => exact List.forall_mem_append.mpr ⟨first, second no rfl⟩

theorem yields_whileLoop : Yields T (Stmt.Throughout S) (whileLoop .full inner) := by
  refine yields_advance.after fun _ => (yields_condition makes).bind fun e here => ?_
  refine (yields_body each).bind fun body holds => .spanFrom fun _ => .pure ?_
  exact List.forall_mem_cons.mpr ⟨makes.whileLoop here, holds⟩

theorem yields_doLoop : Yields T (Stmt.Throughout S) (doLoop .full inner) := by
  refine yields_advance.after fun _ => (yields_body each).bind fun body holds => ?_
  refine (yields_expect _ _).after fun _ => (yields_condition makes).bind fun e here => ?_
  refine (yields_expect _ _).after fun _ => .spanFrom fun _ => .pure ?_
  exact List.forall_mem_cons.mpr ⟨makes.doLoop here, holds⟩

theorem yields_switch : Yields T (Stmt.Throughout S) (switch .full inner) := by
  refine yields_advance.after fun _ => (yields_condition makes).bind fun e here => ?_
  refine (yields_expect _ _).after fun _ => .get fun c => ?_
  refine (yields_arms makes each _ none nofun).bind fun (cases, fallback) ⟨values, arms, last⟩ => ?_
  refine (yields_expect _ _).after fun _ => .spanFrom fun _ => .pure ?_
  refine List.forall_mem_cons.mpr ⟨makes.switch here values, ?_⟩
  cases fallback with
  | none => exact List.forall_mem_append.mpr ⟨arms, nofun⟩
  | some fallback => exact List.forall_mem_append.mpr ⟨arms, last fallback rfl⟩

theorem yields_forLoop : Yields T (Stmt.Throughout S) (forLoop .full inner) := by
  refine yields_advance.after fun _ => (yields_expect _ _).after fun _ => ?_
  refine (yields_initial makes).bind fun initial first => ?_
  refine (yields_before? _ (yields_expression makes _)).bind fun e condition => ?_
  refine (yields_expect _ _).after fun _ => ?_
  refine (yields_before? _ (yields_expression makes _)).bind fun update advance => ?_
  refine (yields_expect _ _).after fun _ => (yields_body each).bind fun body second => ?_
  refine .spanFrom fun span => .pure (List.forall_mem_cons.mpr ⟨?_, ?_⟩)
  · exact makes.forLoop (fun s known => (first s known).1) condition advance
  · cases initial with
    | none => exact List.forall_mem_append.mpr ⟨nofun, second⟩
    | some initial => exact List.forall_mem_append.mpr ⟨(first initial rfl).2, second⟩

theorem yields_declaration : Yields T (Stmt.Throughout S) (declaration .full inner) := by
  refine .start fun begin => yields_ty.bind fun ty typed => ?_
  refine (yields_skip _).after fun isMain => .ite ?_ ?_
  · refine (yields_expect _ _).after fun _ => (yields_expect _ _).after fun _ => ?_
    refine (yields_block each).bind fun body holds => .spanFrom fun _ => .pure ?_
    exact List.forall_mem_cons.mpr ⟨makes.main, holds⟩
  · refine (yields_name _).bind fun name named => .kind fun k => .ite ?_ ?_
    · exact (yields_initialized makes typed named begin).weaken fun _ => And.right
    · refine yields_params.bind fun ps params => (yields_skip _).after fun isPrototype => ?_
      obtain ⟨types, names⟩ := named_signature typed named params
      refine .ite (.spanFrom fun _ => .pure ?_) ?_
      · exact leaf (makes.prototype types names) rfl
      · refine (yields_block each).bind fun body holds => .spanFrom fun _ => .pure ?_
        exact List.forall_mem_cons.mpr ⟨makes.function types names, holds⟩

theorem yields_formed (form : Form) : Yields T (Stmt.Throughout S) (formed .full inner form) := by
  cases form with
  | declaration => exact yields_declaration makes each
  | main => exact yields_mainFunction makes each
  | block =>
    refine (yields_block each).map fun body holds => ?_
    exact List.forall_mem_cons.mpr ⟨makes.block, holds⟩
  | branch => exact yields_branch makes each
  | whileLoop => exact yields_whileLoop makes each
  | doLoop => exact yields_doLoop makes each
  | forLoop => exact yields_forLoop makes each
  | switch => exact yields_switch makes each
  | enumeration => exact yields_enumeration makes
  | inclusion => exact yields_advance.after fun _ => .pure (leaf makes.inclusion rfl)
  | giveBack => exact yields_giveBack makes
  | leave =>
    exact yields_advance.after fun _ => (yields_expect _ _).after fun _ =>
      .spanFrom fun _ => .pure (leaf makes.leave rfl)
  | print => exact yields_print makes

end

theorem yields_statementWithin {E : Expr → Prop} {S : Stmt → Prop} (makes : Makes T E S)
    (room : Nat) : Yields T (Stmt.Throughout S) (statementWithin .full room) := by
  induction room with
  | zero => exact yields_evaluate makes
  | succ room ih =>
    refine .kind fun k => ?_
    split
    next => exact yields_evaluate makes
    next form _ => exact yields_formed makes ih form

theorem yields_program {E : Expr → Prop} {S : Stmt → Prop} (makes : Makes T E S) :
    Yields T (fun p => ∀ s ∈ p.statements, S s) (program .full) := by
  have each : Yields T (Stmt.Throughout S) (statement .full) :=
    .get fun _ => yields_statementWithin makes _
  refine .start fun begin => (yields_statements each _).bind fun body holds => ?_
  exact .start fun _ => .pure holds

/-- Every statement of a parsed program is made so. -/
theorem Makes.parsed {E : Expr → Prop} {S : Stmt → Prop} (makes : Makes T E S)
    {tokens : List Token} {p : Program} (all : ∀ t ∈ tokens, T t)
    (ends : ∀ place, T (.eof place)) (parsed : ofTokens tokens = .ok p) :
    ∀ s ∈ p.statements, S s := by
  have around : ∀ t ∈ (Cursor.ofTokens tokens).tokens, T t := by
    cases tokens with
    | nil => simpa [Cursor.ofTokens, Cursor.tokens] using ends .unknown
    | cons first others =>
      rw [List.forall_mem_cons] at all
      refine List.forall_mem_cons.mpr ⟨all.1, ?_⟩
      dsimp only [Cursor.ofTokens]
      split
      · exact all.2
      · exact List.forall_mem_append.mpr ⟨all.2, List.forall_mem_singleton.mpr (ends _)⟩
  unfold ofTokens read at parsed
  split at parsed
  next q c run =>
    obtain rfl := Except.ok.inj parsed
    exact (yields_program makes _ _ _ ⟨Cursor.closed_ofTokens tokens, around⟩ run).1
  next => cases parsed

end Parse
end Curly
