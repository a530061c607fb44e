import Curly.Proofs.Lowering.Enumerators
import Curly.Proofs.Lowering.Spelling
import Curly.Proofs.Typing.Derivation

/-! Where the variable operands of a program come from. Each one is that of a name which the program
declares, assigns or reads, and the name stands for a variable, unless it is that of an enumeration:
nothing keeps a program from reading it as a value. -/
namespace Curly

mutual

/-- The identifiers that an expression assigns. -/
def Expr.assigned : Expr → List Identifier
  | .binary op left right _ =>
    if op = .assign then left.symbol?.toList ++ right.assigned else left.assigned ++ right.assigned
  | .unary _ operand _ _ => operand.assigned
  | .call _ args _ => assignedIn args
  | .symbol _ | .int .. | .float .. | .string .. | .char .. | .bool .. => []
termination_by structural e => e

def assignedIn : List Expr → List Identifier
  | [] => []
  | e :: others => e.assigned ++ assignedIn others
termination_by structural es => es

end

namespace Typing

section

variable (t : Table)

mutual

/-- Where the checker has no complaint, a name that is assigned stands for a variable. -/
theorem variable_assigned : (e : Expr) → (∀ name ∈ e.uses, t.lookupAll name ≠ []) →
    (typeOf t e).errors = [] →
    ∀ name ∈ e.assigned, ∃ s, t.lookup name.name = some s ∧ s.isVariable
  | .binary op left right _, found, clean => by
    obtain ⟨first, second⟩ := List.forall_mem_append.mp found
    simp only [typeOf, Expr.assigned] at clean ⊢
    split at clean
    · rename_i assigns
      rw [if_pos assigns]
      obtain ⟨value, verdict⟩ := clean_typed clean
      obtain ⟨name, s, rfl, known, isVariable, -⟩ := assignmentVerdict_eq first
        (Prod.ext rfl verdict)
      refine List.forall_mem_cons.mpr ⟨⟨s, (lookup_eq _).trans known, isVariable⟩, ?_⟩
      exact variable_assigned right second (clean_asValue value)
    · rename_i plain
      rw [if_neg plain]
      obtain ⟨before, behind⟩ := List.append_eq_nil_iff.mp (clean_typed clean).1
      exact List.forall_mem_append.mpr ⟨variable_assigned left first (clean_asValue before),
        variable_assigned right second (clean_asValue behind)⟩
  | .unary _ operand _ _, found, clean =>
    variable_assigned operand found (clean_asValue (clean_typed clean).1)
  | .call _ args _, found, clean =>
    variable_assignedIn args (List.forall_mem_cons.mp found).2 (List.append_eq_nil_iff.mp clean).1
  | .symbol _, _, _ | .int .., _, _ | .float .., _, _ | .string .., _, _ | .char .., _, _
  | .bool .., _, _ => nofun
termination_by structural e => e

theorem variable_assignedIn : (es : List Expr) → (∀ name ∈ usesIn es, t.lookupAll name ≠ []) →
    (typesOf t es).flatMap Typed.errors = [] →
    ∀ name ∈ assignedIn es, ∃ s, t.lookup name.name = some s ∧ s.isVariable
  | [], _, _ => nofun
  | e :: others, found, clean => by
    obtain ⟨first, rest⟩ := List.forall_mem_append.mp found
    obtain ⟨before, behind⟩ := List.append_eq_nil_iff.mp clean
    exact List.forall_mem_append.mpr ⟨variable_assigned e first (clean_asValue before),
      variable_assignedIn others rest behind⟩
termination_by structural es => es

end

end
end Typing

namespace Table

/-- What a name stands for is found at its home. -/
theorem home?_of_lookup {t : Table} {name : String} {s : Symbol} (found : t.lookup name = some s) :
    ∃ id, t.home? name = some id ∧ s ∈ t.namedIn id name := by
  unfold lookup lookupAll home? at *
  generalize t.current :: t.outer = ids at *
  induction ids with
  | nil => exact nomatch found
  | cons id others ih =>
    unfold search at found
    split at found
    · rename_i absent
      rw [List.find?_cons_of_neg (by simp [absent])]
      exact ih found
    · rename_i symbols none
      refine ⟨id, List.find?_cons_of_pos (by simpa using none), List.mem_of_head? found⟩

end Table

def Stop.mentions (x : Stop) : List Mention :=
  Lowering.exprMentions x.visit.expr x.visit.analyzed x.before

/-- The mention of a name that is read. -/
def Read.mention (x : Read) : Mention :=
  ⟨x.name.name, x.table, x.operand, false⟩

namespace Lowering

/-- The mention of a name that is read, or of one that is assigned. -/
def Uses (t : Table) (reads : List Read) (names : List Identifier) (x : Mention) : Prop :=
  (∃ r ∈ reads, r.mention = x) ∨ ∃ name ∈ names, x = ⟨name.name, t, .variable name.name, false⟩

namespace Uses

variable {t : Table} {first second : List Read} {names others : List Identifier} {x : Mention}

theorem append_left (uses : Uses t first names x) : Uses t (first ++ second) (names ++ others) x :=
  uses.imp (fun ⟨r, read, same⟩ => ⟨r, List.mem_append_left _ read, same⟩)
    fun ⟨name, assigned, same⟩ => ⟨name, List.mem_append_left _ assigned, same⟩

theorem append_right (uses : Uses t second others x) :
    Uses t (first ++ second) (names ++ others) x :=
  uses.imp (fun ⟨r, read, same⟩ => ⟨r, List.mem_append_right _ read, same⟩)
    fun ⟨name, assigned, same⟩ => ⟨name, List.mem_append_right _ assigned, same⟩

end Uses

section

variable (t : Table) (ps : Parameters)

theorem uses_assignment {target : Expr} (value : Operand) (b : Builder) (reads : List Read)
    (others : List Identifier) : ∀ x ∈ assignment target value t b,
      Uses t reads (target.symbol?.toList ++ others) x := by
  cases target with
  | symbol name =>
    exact List.forall_mem_singleton.mpr (.inr ⟨name, List.mem_append_left _ (.head _), rfl⟩)
  | _ => exact nofun

mutual

/-- An expression names what it reads and what it assigns. -/
theorem uses_expr : (e : Expr) → (b : Builder) → ∀ x ∈ exprMentions e t b,
    Uses t (exprReads t ps e b) e.assigned x
  | .symbol name, b => List.forall_mem_singleton.mpr (.inl ⟨_, List.mem_singleton_self _, rfl⟩)
  | .binary op left right _, b => by
    simp only [exprMentions, exprReads, Expr.assigned]
    split
    · exact List.forall_mem_append.mpr
        ⟨fun x member => (uses_expr right b x member).imp_right
          fun ⟨name, assigned, same⟩ => ⟨name, List.mem_append_right _ assigned, same⟩,
          uses_assignment t _ _ _ _⟩
    · exact List.forall_mem_append.mpr
        ⟨fun x member => (uses_expr left b x member).append_left,
          fun x member => (uses_expr right _ x member).append_right⟩
  | .unary _ operand _ _, b => uses_expr operand b
  | .call _ args _, b => uses_exprs args b
  | .int .., _ | .float .., _ | .string .., _ | .char .., _ | .bool .., _ => nofun
termination_by structural e => e

theorem uses_exprs : (es : List Expr) → (b : Builder) → ∀ x ∈ exprsMentions es t b,
    Uses t (exprsReads t ps es b) (assignedIn es) x
  | [], _ => nofun
  | e :: others, b => List.forall_mem_append.mpr
    ⟨fun x member => (uses_expr e b x member).append_left,
      fun x member => (uses_exprs others _ x member).append_right⟩
termination_by structural es => es

end

end

section

variable {O : Operand → Prop} (t : Table)

mutual

/-- The operands of an expression are temporaries, constants, and those of the names in it. -/
theorem named_expr (suits : Suits (fun i => ∀ o ∈ i.operands, O o) O)
    (constant : ∀ spelling, O (.constant spelling)) : (e : Expr) → {b : Builder} →
    (∀ x ∈ exprMentions e t b, O x.operand) → Keeps (fun i => ∀ o ∈ i.operands, O o) O e b
  | .int .., _, _ | .float .., _, _ | .string .., _, _ | .char .., _, _ | .bool .., _, _ =>
    fun before => ⟨constant _, before⟩
  | .symbol name, _, named => fun before => ⟨named _ (.head _), before⟩
  | .binary op left right _, b, named => fun before => by
    simp only [exprMentions, expr] at named ⊢
    split
    · rename_i assigns
      rw [if_pos assigns] at named
      obtain ⟨first, last⟩ := List.forall_mem_append.mp named
      obtain ⟨value, behind⟩ := named_expr suits constant right first before
      refine all_store suits (fun name known => ?_) value behind
      cases left <;> cases known
      exact last _ (.head _)
    · rename_i plain
      rw [if_neg plain] at named
      obtain ⟨first, second⟩ := List.forall_mem_append.mp named
      obtain ⟨one, between⟩ := named_expr suits constant left first before
      obtain ⟨two, behind⟩ := named_expr suits constant right second between
      exact all_intoTemp suits (fun k => List.forall_mem_cons.mpr ⟨suits.temp k,
        List.forall_mem_cons.mpr ⟨one, List.forall_mem_singleton.mpr two⟩⟩) behind
  | .unary op operand side _, _, named => fun before => by
    obtain ⟨value, behind⟩ := named_expr suits constant operand named before
    simp only [expr]
    split
    · exact all_step suits op side value behind
    · exact all_intoTemp suits (fun k => List.forall_mem_cons.mpr
        ⟨suits.temp k, List.forall_mem_singleton.mpr value⟩) behind
  | .call callee args _, _, named => fun before => by
    obtain ⟨values, behind⟩ := named_exprs suits constant args named before
    exact all_intoTemp suits (fun k => List.forall_mem_cons.mpr ⟨suits.temp k, values⟩) behind
termination_by structural e => e

theorem named_exprs (suits : Suits (fun i => ∀ o ∈ i.operands, O o) O)
    (constant : ∀ spelling, O (.constant spelling)) : (es : List Expr) → {b : Builder} →
    (∀ x ∈ exprsMentions es t b, O x.operand) → b.All (fun i => ∀ o ∈ i.operands, O o) →
    (∀ o ∈ (exprs es b).1, O o) ∧ (exprs es b).2.All fun i => ∀ o ∈ i.operands, O o
  | [], _, _, before => ⟨nofun, before⟩
  | e :: others, _, named, before => by
    obtain ⟨first, rest⟩ := List.forall_mem_append.mp named
    obtain ⟨value, between⟩ := named_expr suits constant e first before
    obtain ⟨values, behind⟩ := named_exprs suits constant others rest between
    exact ⟨List.forall_mem_cons.mpr ⟨value, values⟩, behind⟩
termination_by structural es => es

end

theorem keeps_named (suits : Suits (fun i => ∀ o ∈ i.operands, O o) O)
    (constant : ∀ spelling, O (.constant spelling)) {x : Stop}
    (named : ∀ m ∈ x.mentions, O m.operand) : x.Keeps (fun i => ∀ o ∈ i.operands, O o) O := by
  intro before
  obtain ⟨⟨e, t, u⟩, ps, b, role⟩ := x
  obtain ⟨value, behind⟩ := named_expr t suits constant e named before
  refine ⟨fun _ => value, ?_⟩
  unfold Stop.after
  split
  · cases e with
    | call callee args span =>
      obtain ⟨values, behind⟩ := named_exprs t suits constant args named before
      exact Builder.All.emit behind values
    | _ => exact behind
  · exact behind

end

/-- The mentions of a statement are those of the expressions it stops at, and one for each variable
that is declared in it. -/
structure Accounts (mentions : List Mention) (stops : List Stop) (names : List String) : Prop where
  used : mentions.filter (!·.declares) = stops.flatMap Stop.mentions
  declared : (mentions.filter (·.declares)).map Mention.name = names

namespace Accounts

variable {first second : List Mention} {stops more : List Stop} {names others : List String}

theorem none : Accounts [] [] [] :=
  ⟨rfl, rfl⟩

theorem append (before : Accounts first stops names) (behind : Accounts second more others) :
    Accounts (first ++ second) (stops ++ more) (names ++ others) :=
  ⟨by rw [List.filter_append, List.flatMap_append, before.used, behind.used],
    by rw [List.filter_append, List.map_append, before.declared, behind.declared]⟩

theorem of_names (accounts : Accounts first stops names) (same : names = others) :
    Accounts first stops others :=
  same ▸ accounts

theorem of_stops (accounts : Accounts first stops names) (same : stops = more) :
    Accounts first more names :=
  same ▸ accounts

theorem uses (same : first = stops.flatMap Stop.mentions)
    (used : ∀ x ∈ first, x.declares = false) : Accounts first stops [] := by
  refine ⟨?_, ?_⟩
  · rw [← same, List.filter_eq_self]
    exact fun x member => by simp [used x member]
  · rw [List.map_eq_nil_iff, List.filter_eq_nil_iff]
    exact fun x member => by simp [used x member]

theorem declaration {name : String} (t : Table) (b : Builder) {i : Instruction}
    (target : i.target? = some (.variable name)) :
    Accounts (Lowering.declaration name t (b.emit i)) [] [name] := by
  rw [declaration_emit name t b target]
  exact ⟨rfl, rfl⟩

theorem params (earlier : List String) (ps : List Param) (a : Analysis) (b : Builder) :
    Accounts (paramMentions earlier ps a b) [] (ps.map Param.name) := by
  induction ps generalizing earlier a b with
  | nil => exact none
  | cons p others ih => exact (declaration a.table b rfl).append (ih _ _ _)

theorem expr (v : Visit) (ps : Parameters) (b : Builder) (role : Role) :
    Accounts (exprMentions v.expr v.analyzed b) [⟨v, ps, b, role⟩] [] :=
  uses (by simp [Stop.mentions]) fun x member => (used_expr _ _ _ x member).2

theorem optional (role : Role) (ps : Parameters) (e : Option Expr) (a : Analysis) (c : Checker)
    (b : Builder) :
    Accounts (optionalMentions e a.table b) (optionalStops role ps e a c b) [] := by
  cases e with
  | none => exact none
  | some e => exact expr ⟨e, a.table, c.table⟩ ps b role

theorem all (declared : String → Bool) (ps : Parameters) (es : List Expr) (a : Analysis)
    (c : Checker) (b : Builder) :
    Accounts (exprsMentions es a.table b) (allStops declared ps es a c b) [] := by
  induction es generalizing a c b with
  | nil => exact none
  | cons e others ih =>
    have rest := ih (Analysis.expr declared e a) (Checker.value e c) (Lowering.expr e b).2
    rw [Analysis.table_expr] at rest
    exact (expr ⟨e, a.table, c.table⟩ ps b .wanted).append rest

end Accounts

section

variable (declared : String → Bool)

mutual

theorem accounts_stmt : (s : Stmt) → (ps : Parameters) → (a : Analysis) → (c : Checker) →
    (b : Builder) → Accounts (stmtMentions declared s a b) (stmtStops declared s ps a c b)
      ((s :: s.inner).flatMap Stmt.variables)
  | .variable _ name initial _, ps, a, c, b =>
    ((Accounts.optional .wanted ps initial a c b).append (.declaration _ _ rfl)).of_stops
      (List.append_nil _)
  | .giveBack value _, ps, a, c, b => .optional .wanted ps value a c b
  | .print args _, ps, a, c, b => .all declared ps args a c b
  | .evaluate e _, ps, a, c, b => .expr ⟨e, a.table, c.table⟩ ps b .dropped
  | .prototype .., _, _, _, _ | .enumeration .., _, _, _, _ | .leave _, _, _, _, _
  | .inclusion .., _, _, _, _ => .none
  | .function _ _ params body _, ps, a, c, b =>
    (Accounts.params [] params _ _).append (accounts_block body _ _ _ _)
  | .main body _, _, _, _, _ | .block body, _, _, _, _ => accounts_block body _ _ _ _
  | .branch e yes none _, ps, a, c, b =>
    (((Accounts.expr ⟨e, a.table, c.table⟩ ps b .wanted).append
      (accounts_block yes _ _ _ _)).append .none).of_names (by simp [Stmt.inner, Stmt.variables])
  | .branch e yes (some no) _, ps, a, c, b =>
    (((Accounts.expr ⟨e, a.table, c.table⟩ ps b .wanted).append
      (accounts_block yes _ _ _ _)).append (accounts_block no _ _ _ _)).of_names
        (by simp [Stmt.inner, Stmt.variables])
  | .whileLoop e body _, ps, a, c, b =>
    (Accounts.expr ⟨e, a.table, c.table⟩ _ _ .wanted).append (accounts_block body _ _ _ _)
  | .doLoop body e _, ps, a, c, b =>
    ((accounts_block body _ a.enter c.deeper.enter _).append (.expr ⟨e, _, _⟩ _ _ .wanted)).of_names
      (by simp [Stmt.inner, Stmt.variables])
  | .forLoop none e update body _, ps, a, c, b =>
    (((Accounts.none.append (.optional .wanted _ e a.enter c.enter _)).append
      (.optional .update _ update _ _ _)).append (accounts_block body _ _ _ _)).of_names
        (by simp [Stmt.inner, Stmt.variables])
  | .forLoop (some initial) e update body _, ps, a, c, b =>
    ((((accounts_stmt initial ps a.enter c.enter b).append
      (.optional .wanted _ e _ _ _)).append (.optional .update _ update _ _ _)).append
        (accounts_block body _ _ _ _)).of_names (by simp [Stmt.inner, Stmt.variables])
  | .switch e cases none _, ps, a, c, b =>
    (((Accounts.expr ⟨e, a.table, c.table⟩ ps b .wanted).append
      (accounts_arms _ _ _ cases _ _ _ _ _ _ _ (switched_labels e cases none b))).append
        .none).of_names (by simp [Stmt.inner, Stmt.variables])
  | .switch e cases (some fallback) _, ps, a, c, b =>
    (((Accounts.expr ⟨e, a.table, c.table⟩ ps b .wanted).append
      (accounts_arms _ _ _ cases _ _ _ _ _ _ _ (switched_labels e cases (some fallback) b))).append
        (accounts_block fallback _ _ _ _)).of_names (by simp [Stmt.inner, Stmt.variables])
termination_by structural s => s

theorem accounts_block : (body : Block) → (ps : Parameters) → (a : Analysis) → (c : Checker) →
    (b : Builder) → Accounts (blockMentions declared body a b) (blockStops declared body ps a c b)
      (body.statements.flatMap Stmt.variables)
  | ⟨body, _⟩, ps, a, c, b => accounts_stmts body ps a c b
termination_by structural body => body

theorem accounts_stmts : (body : List Stmt) → (ps : Parameters) → (a : Analysis) → (c : Checker) →
    (b : Builder) → Accounts (stmtsMentions declared body a b) (stmtsStops declared body ps a c b)
      ((bodyStatements body).flatMap Stmt.variables)
  | [], _, _, _, _ => .none
  | s :: others, ps, a, c, b =>
    ((accounts_stmt s ps a c b).append (accounts_stmts others _ _ _ _)).of_names
      List.flatMap_append.symm
termination_by structural body => body

theorem accounts_arms (subject : Operand) (finish : Label) (tested : Parameters) :
    (cases : List Case) → (ty : Ty) → (ps : Parameters) → (a : Analysis) → (c : Checker) →
    (b : Builder) → (labels : List Label) → (d : Builder) → labels.length = cases.length →
    Accounts (armsMentions declared subject finish cases a b labels d)
      (armsStops declared subject finish tested cases ty ps a c b labels d)
      ((armsStatements cases).flatMap Stmt.variables)
  | [], _, _, _, _, _, _, _, _ => .none
  | ⟨value, body, _⟩ :: others, ty, ps, a, c, b, l :: labels, d, same =>
    (((Accounts.expr ⟨value, a.table, c.table⟩ tested b .wanted).append
      (accounts_block body _ _ _ _)).append (accounts_arms subject finish tested others ty _ _ _ _
        labels _ (Nat.succ.inj same))).of_names (by simp [armsStatements])
termination_by structural cases => cases

end

end

end Lowering

namespace Mention

/-- What is named is a variable or parameter that the program declares. -/
def Held (p : Program) (x : Mention) : Prop :=
  (x.declares ∨ ∃ s, x.table.lookup x.name = some s ∧ s.isVariable) ∧
    ∃ y ∈ p.mentions, y.declares ∧ y.meant? = x.meant?

/-- The name of an enumeration is read as a value. -/
def Enumerates (p : Program) (x : Mention) : Prop :=
  (∃ r ∈ p.reads, r.mention = x) ∧ ∃ s, x.table.lookup x.name = some s ∧ s.isEnumeration

end Mention

namespace Program

variable {p : Program} {x : Mention}

theorem accounts (p : Program) :
    Lowering.Accounts p.mentions p.stops (p.statements.flatMap Stmt.variables) :=
  Lowering.accounts_stmts _ p.body .none .empty .empty .empty

theorem held_of_declares (member : x ∈ p.mentions) (declares : x.declares) : x.Held p :=
  ⟨.inl declares, x, member, declares, rfl⟩

theorem held_of_isVariable (member : x ∈ p.mentions) (uses : x.declares = false) {s : Symbol}
    (found : x.table.lookup x.name = some s) (isVariable : s.isVariable) : x.Held p := by
  obtain ⟨id, home, known⟩ := Table.home?_of_lookup found
  obtain ⟨y, other, declares, same⟩ := declared_of_holds member (v := (id, x.name))
    ⟨s, known, isVariable⟩
  refine ⟨.inr ⟨s, found, isVariable⟩, y, other, declares, ?_⟩
  rw [same, Mention.meant?, if_neg (by simp [uses]), home]
  rfl

/-- A name that is assigned stands for a variable. -/
theorem found_of_assigned (clean : (analyze p).errors = []) (typed : typeCheck p = []) {v : Visit}
    (visited : v ∈ p.visits) {name : Identifier} (assigned : name ∈ v.expr.assigned) :
    ∃ s, v.analyzed.lookup name.name = some s ∧ s.isVariable := by
  have resolved := (walked clean).resolved v visited
  obtain ⟨s, known, isVariable⟩ := Typing.variable_assigned v.checked v.expr resolved.checked
    (typed_visits typed visited) name assigned
  rw [resolved.same, Table.lookup_settled] at known
  obtain ⟨u, here, rfl⟩ := Option.map_eq_some_iff.mp known
  exact ⟨u, here, by rwa [Symbol.isVariable_completed] at isVariable⟩

/-- A name that is not declared where it is mentioned is read, or it is assigned and stands for a
variable. -/
theorem read_or_isVariable (clean : (analyze p).errors = []) (typed : typeCheck p = [])
    (member : x ∈ p.mentions) (uses : x.declares = false) :
    (∃ r ∈ p.reads, r.mention = x) ∨ ∃ s, x.table.lookup x.name = some s ∧ s.isVariable := by
  have used : x ∈ p.stops.flatMap Stop.mentions :=
    p.accounts.used ▸ List.mem_filter.mpr ⟨member, by simp [uses]⟩
  obtain ⟨stop, stops, here⟩ := List.mem_flatMap.mp used
  refine (Lowering.uses_expr _ stop.params stop.visit.expr _ x here).imp
    (fun ⟨r, read, same⟩ => ⟨r, ?_, same⟩) fun ⟨name, assigned, same⟩ => ?_
  · exact List.mem_flatMap.mpr ⟨stop, stops, read⟩
  · subst same
    exact found_of_assigned clean typed (visit_mem stops) assigned

/-- A name that is read stands for a variable, or for an enumeration, for which a variable is put,
or for the value of one, for which a constant is put. -/
theorem operand_of_read (clean : (analyze p).errors = []) (typed : typeCheck p = []) {r : Read}
    (read : r ∈ p.reads) :
    ∃ s, r.table.lookup r.name.name = some s ∧
      (s.isVariable ∨ s.isEnumeration ∧ r.operand = .variable r.name.name ∨
        s.isEnumValue ∧ r.operand.isVariable = false) := by
  obtain ⟨s, found, plain, resolved⟩ := resolved_reads clean typed read
  refine ⟨s, found, ?_⟩
  by_cases isVariable : s.isVariable
  · exact .inl isVariable
  have faithful : r.Faithful p := by
    split at resolved
    · obtain ⟨u, -, -, known, varies, -⟩ := resolved
      cases found.symm.trans known
      exact absurd varies isVariable
    · exact resolved
  obtain ⟨u, known, lowered⟩ := faithful
  cases found.symm.trans known
  cases value : s.isEnumValue with
  | true =>
    obtain ⟨i, -, constant⟩ := (if_pos value).mp lowered
    exact .inr (.inr ⟨rfl, constant ▸ rfl⟩)
  | false =>
    refine .inr (.inl ⟨?_, (if_neg (by simp [value])).mp lowered⟩)
    obtain ⟨name, ty, position, kind⟩ := s
    cases kind <;> simp_all [Symbol.isVariable, Symbol.isEnumeration, Symbol.isEnumValue,
      Symbol.isFunction, Symbol.params?]

/-- Without complaints, what is mentioned as a variable is one, unless it is an enumeration. -/
theorem held_unless_enumerates (clean : (analyze p).errors = []) (typed : typeCheck p = [])
    (member : x ∈ p.mentions) :
    (x.Enumerates p → x.operand = .variable x.name ∧ ¬x.Held p) ∧
      (¬x.Enumerates p → x.operand.isVariable → x.Held p) := by
  constructor
  · rintro ⟨⟨r, read, rfl⟩, s, found, enumeration⟩
    have plain : s.isVariable = false ∧ s.isEnumValue = false := by
      obtain ⟨name, ty, position, kind⟩ := s
      cases kind <;> simp_all [Symbol.isVariable, Symbol.isEnumeration, Symbol.isEnumValue]
    obtain ⟨u, known, lowered⟩ := operand_of_read clean typed read
    cases found.symm.trans known
    refine ⟨?_, fun held => ?_⟩
    · rcases lowered with isVariable | ⟨-, operand⟩ | ⟨value, -⟩
      · simp [plain] at isVariable
      · exact operand
      · simp [plain] at value
    · rcases held.1 with declares | ⟨w, other, isVariable⟩
      · simp [Read.mention] at declares
      · cases found.symm.trans other
        simp [plain] at isVariable
  · intro plain varies
    cases uses : x.declares with
    | true => exact held_of_declares member uses
    | false =>
      rcases read_or_isVariable clean typed member uses with ⟨r, read, rfl⟩ | ⟨s, found, isVariable⟩
      · obtain ⟨s, found, isVariable | ⟨enumeration, -⟩ | ⟨-, constant⟩⟩ :=
          operand_of_read clean typed read
        · exact held_of_isVariable member uses found isVariable
        · exact absurd ⟨⟨r, read, rfl⟩, s, found, enumeration⟩ plain
        · exact absurd varies (by simp [Read.mention, constant])
      · exact held_of_isVariable member uses found isVariable

/-- The operand is that of a mention, if it is a variable. -/
def Mentioned (p : Program) (o : Operand) : Prop :=
  o.isVariable → ∃ x ∈ p.mentions, x.operand = o

theorem suits_mentioned (p : Program) :
    Suits (fun i => ∀ o ∈ i.operands, p.Mentioned o) p.Mentioned :=
  .operands (fun _ => nofun) fun _ => nofun

theorem mentioned_operands (p : Program) :
    ∀ o ∈ operandsOf (Lowering.program p), p.Mentioned o := by
  refine List.forall_mem_flatMap.mpr
    (all_lowered p.suits_mentioned (fun s listed name own _ => ?_) ?_)
  · have declared : name ∈ (p.mentions.filter (·.declares)).map Mention.name :=
      p.accounts.declared ▸ List.mem_flatMap.mpr ⟨s, listed, own⟩
    obtain ⟨x, found, rfl⟩ := List.mem_map.mp declared
    obtain ⟨member, declares⟩ := List.mem_filter.mp found
    exact ⟨x, member, p.told.plain x member declares⟩
  · intro stop stops
    refine Lowering.keeps_named p.suits_mentioned (fun _ => nofun) fun x here _ => ⟨x, ?_, rfl⟩
    have used : x ∈ p.mentions.filter (!·.declares) :=
      p.accounts.used ▸ List.mem_flatMap.mpr ⟨stop, stops, here⟩
    exact (List.mem_filter.mp used).1

end Program

/-- In the code of a source that is compiled, every variable operand is that of a name which the
program declares, assigns or reads. The name stands for a variable or parameter that the program
declares, unless it is that of an enumeration and read as a value. -/
theorem variables_of_compiled {source : String} {code : List Instruction}
    (compiled : compile source = .ok code) :
    ∃ p, readProgram source = .ok p ∧ Lowering.program p = code ∧
      (∀ o ∈ operandsOf code, o.isVariable → ∃ x ∈ p.mentions, x.operand = o) ∧
      (p.mentions.filter (·.declares)).map Mention.name = p.statements.flatMap Stmt.variables ∧
      ∀ x ∈ p.mentions, (x.Enumerates p → x.operand = .variable x.name ∧ ¬x.Held p) ∧
        (¬x.Enumerates p → x.operand.isVariable → x.Held p) := by
  obtain ⟨p, read, clean, typed, rfl⟩ := program_of_compiled compiled
  exact ⟨p, read, rfl, p.mentioned_operands, p.accounts.declared, fun x member =>
    Program.held_unless_enumerates clean typed member⟩

/-- A program that reads an enumeration value, a parameter and a variable. -/
def tinted : String :=
  "enum Color \x7b RED \x7d;\nint f(int a) \x7b return a + RED; \x7d\n" ++
  "main \x7b int x; x = f(1); print(x++); \x7d\n"

def tintedCode : List Instruction :=
  [.beginFunction "f", .param "a", .binary (.temp 0) "+" (.variable "a") (.constant "0"),
   .giveBack (some (.temp 0)), .endFunction "f", .beginFunction "main",
   .assign (.variable "x") (.constant "0"), .call (some (.temp 1)) "f" [.constant "1"],
   .assign (.variable "x") (.temp 1), .assign (.temp 2) (.variable "x"),
   .binary (.temp 3) "+" (.variable "x") (.constant "1"), .assign (.variable "x") (.temp 3),
   .call none "print" [.temp 2], .giveBack (some (.constant "0")), .endFunction "main"]

theorem tinted_compiled : compile tinted = .ok tintedCode := by decide +kernel

theorem tinted_held : ∃ p, readProgram tinted = .ok p ∧ Lowering.program p = tintedCode ∧
    ∀ x ∈ p.mentions, x.operand.isVariable → x.Held p := by
  obtain ⟨p, read, lowered, -, -, held⟩ := variables_of_compiled tinted_compiled
  have plain : (readProgram tinted).toOption.map (fun p => p.mentions.all fun x =>
      (x.table.lookup x.name).all (!·.isEnumeration)) = some true := by decide +kernel
  rw [read] at plain
  refine ⟨p, read, lowered, fun x member => (held x member).2 ?_⟩
  rintro ⟨-, s, found, enumeration⟩
  have other := List.all_eq_true.mp (Option.some.inj plain) x member
  simp [found, enumeration] at other

/-- A program that prints an enumeration. -/
def coloured : String :=
  "enum Color \x7b RED \x7d; main \x7b print(Color); \x7d"

/-- The operand for the enumeration is not that of a variable. -/
theorem coloured_not_held : ∃ p code, readProgram coloured = .ok p ∧ compile coloured = .ok code ∧
    .variable "Color" ∈ operandsOf code ∧
      ¬∃ x ∈ p.mentions, x.operand = .variable "Color" ∧ x.Held p := by
  have compiled : compile coloured = .ok [.beginFunction "main",
      .call none "print" [.variable "Color"], .giveBack (some (.constant "0")),
      .endFunction "main"] := by decide +kernel
  have plain : (readProgram coloured).toOption.map (fun p => p.mentions.all fun x =>
      !x.declares && (x.table.lookup x.name).all (!·.isVariable)) = some true := by decide +kernel
  obtain ⟨p, read, -⟩ := program_of_compiled compiled
  rw [read] at plain
  refine ⟨p, _, read, compiled, by decide, ?_⟩
  rintro ⟨x, member, -, stands, -⟩
  have other := List.all_eq_true.mp (Option.some.inj plain) x member
  rcases stands with declares | ⟨s, found, isVariable⟩
  · simp [declares] at other
  · simp [found, isVariable] at other

end Curly
