import Curly.Proofs.Lowering.Stops
import Curly.Proofs.Typing.Visited

/-! The places where a program reads the value of a name. Lowering comes to each of them once, and
so does the analyzer. -/
namespace Curly

/-- A place where the value of a name is read: the scopes there, the builder that it is lowered
with, and the parameters of the functions around. -/
structure Read where
  name : Identifier
  table : Table
  before : Builder
  params : Parameters

namespace Read

/-- What the name is lowered to. -/
def operand (x : Read) : Operand :=
  (Lowering.expr (.symbol x.name) x.before).1

def found (x : Read) : Identifier × Table :=
  (x.name, x.table)

end Read

def Visit.found (v : Visit) : List (Identifier × Table) :=
  v.expr.reads.map (·, v.analyzed)

namespace Lowering

section

variable (t : Table) (ps : Parameters)

mutual

def exprReads : Expr → Builder → List Read
  | .symbol name, b => [⟨name, t, b, ps⟩]
  | .binary op left right _, b =>
    if op = .assign then exprReads right b
    else exprReads left b ++ exprReads right (expr left b).2
  | .unary _ operand _ _, b => exprReads operand b
  | .call _ args _, b => exprsReads args b
  | .int .., _ | .float .., _ | .string .., _ | .char .., _ | .bool .., _ => []
termination_by structural e => e

def exprsReads : List Expr → Builder → List Read
  | [], _ => []
  | e :: others, b => exprReads e b ++ exprsReads others (expr e b).2
termination_by structural es => es

end

mutual

theorem found_expr : (e : Expr) → (b : Builder) →
    (exprReads t ps e b).map Read.found = e.reads.map (·, t)
  | .symbol _, _ | .int .., _ | .float .., _ | .string .., _ | .char .., _ | .bool .., _ => rfl
  | .binary op left right _, b => by
    simp only [exprReads, Expr.reads]
    split
    · exact found_expr right b
    · simp [found_expr left, found_expr right]
  | .unary _ operand _ _, b => found_expr operand b
  | .call _ args _, b => found_exprs args b
termination_by structural e => e

theorem found_exprs : (es : List Expr) → (b : Builder) →
    (exprsReads t ps es b).map Read.found = (readsIn es).map (·, t)
  | [], _ => rfl
  | e :: others, b => by simp [exprsReads, readsIn, found_expr e, found_exprs others]
termination_by structural es => es

end

mutual

/-- Inside an expression the meaning of names stays as it is. -/
theorem alike_reads : (e : Expr) → (b : Builder) → ∀ x ∈ exprReads t ps e b,
    x.table = t ∧ x.params = ps ∧ Alike b x.before
  | .symbol _, b => List.forall_mem_singleton.mpr ⟨rfl, rfl, .refl b⟩
  | .binary op left right _, b => by
    unfold exprReads
    split
    · exact alike_reads right b
    · refine List.forall_mem_append.mpr ⟨alike_reads left b, fun x member => ?_⟩
      obtain ⟨table, params, alike⟩ := alike_reads right _ x member
      exact ⟨table, params, (straight_expr left b).alike.trans alike⟩
  | .unary _ operand _ _, b => alike_reads operand b
  | .call _ args _, b => alike_readsIn args b
  | .int .., _ | .float .., _ | .string .., _ | .char .., _ | .bool .., _ =>
    fun _ member => nomatch member
termination_by structural e => e

theorem alike_readsIn : (es : List Expr) → (b : Builder) → ∀ x ∈ exprsReads t ps es b,
    x.table = t ∧ x.params = ps ∧ Alike b x.before
  | [], _ => fun _ member => nomatch member
  | e :: others, b => by
    refine List.forall_mem_append.mpr ⟨alike_reads e b, fun x member => ?_⟩
    obtain ⟨table, params, alike⟩ := alike_readsIn others _ x member
    exact ⟨table, params, (straight_expr e b).alike.trans alike⟩
termination_by structural es => es

end

mutual

/-- What is read in an expression has its place in the code of the expression. -/
theorem written_expr : (e : Expr) → (b : Builder) →
    ∀ x ∈ exprReads t ps e b, Builder.Follows x.before (expr e b).2
  | .symbol _, b => List.forall_mem_singleton.mpr (.refl b)
  | .binary op left right _, b => by
    simp only [exprReads, expr]
    split
    · exact fun x member =>
        (written_expr right b x member).trans (straight_store left _ _).follows
    · have last := (straight_expr right (expr left b).2).follows
      exact List.forall_mem_append.mpr
        ⟨fun x member => (((written_expr left b x member).trans last).newTemp).emit _,
          fun x member => (written_expr right _ x member).newTemp.emit _⟩
  | .unary op operand side _, b => by
    simp only [exprReads, expr]
    split
    · exact fun x member => (written_expr operand b x member).trans (straight_step ..).follows
    · exact fun x member => (written_expr operand b x member).newTemp.emit _
  | .call _ args _, b => fun x member => (written_exprs args b x member).newTemp.emit _
  | .int .., _ | .float .., _ | .string .., _ | .char .., _ | .bool .., _ =>
    fun _ member => nomatch member
termination_by structural e => e

theorem written_exprs : (es : List Expr) → (b : Builder) →
    ∀ x ∈ exprsReads t ps es b, Builder.Follows x.before (exprs es b).2
  | [], _ => fun _ member => nomatch member
  | e :: others, b => List.forall_mem_append.mpr
    ⟨fun x member => (written_expr e b x member).trans (straight_exprs others _).follows,
      written_exprs others _⟩
termination_by structural es => es

end

theorem written_effect (e : Expr) (b : Builder) :
    ∀ x ∈ exprReads t ps e b, Builder.Follows x.before (effect e b) := by
  cases e with
  | call callee args span => exact fun x member => (written_exprs t ps args b x member).emit _
  | _ => exact written_expr t ps _ b

end

end Lowering

/-- The names that are read in the expression. -/
def Stop.reads (x : Stop) : List Read :=
  Lowering.exprReads x.visit.analyzed x.params x.visit.expr x.before

namespace Stop

variable {x : Stop}

theorem found_reads (x : Stop) : x.reads.map Read.found = x.visit.found :=
  Lowering.found_expr ..

theorem written_reads {y : Read} (member : y ∈ x.reads) : Builder.Follows y.before x.after := by
  unfold Stop.after
  split
  · exact Lowering.written_effect _ _ _ _ y member
  · exact Lowering.written_expr _ _ _ _ y member

end Stop

namespace Program

/-- Every place of the program where the value of a name is read. -/
def reads (p : Program) : List Read :=
  p.stops.flatMap Stop.reads

theorem found_reads (p : Program) : p.reads.map Read.found = p.visits.flatMap Visit.found := by
  rw [reads, ← visit_stops, List.map_flatMap, List.flatMap_map]
  simp only [Stop.found_reads]

theorem reads_perm (p : Program) :
    (p.reads.map Read.name).Perm ((p.statements.flatMap Stmt.expressions).flatMap Expr.reads) := by
  have names : p.reads.map Read.name = (p.visits.map Visit.expr).flatMap Expr.reads := by
    have found := congrArg (List.map Prod.fst) p.found_reads
    simpa [Read.found, Visit.found, List.map_flatMap, List.flatMap_map, Function.comp_def] using
      found
  rw [names]
  exact p.visits_perm.flatMap_right _

theorem exists_visit {p : Program} {x : Read} (member : x ∈ p.reads) :
    ∃ v ∈ p.visits, v.analyzed = x.table ∧ x.name ∈ v.expr.reads := by
  have found : x.found ∈ p.visits.flatMap Visit.found :=
    p.found_reads ▸ List.mem_map_of_mem member
  obtain ⟨v, visited, here⟩ := List.mem_flatMap.mp found
  obtain ⟨name, read, same⟩ := List.mem_map.mp here
  obtain ⟨rfl, table⟩ := Prod.mk.inj same
  exact ⟨v, visited, table, read⟩

/-- A read is lowered at its place in the code of the program. -/
theorem written_reads {p : Program} {x : Read} (member : x ∈ p.reads) :
    x.before.code.toList <+: Lowering.program p := by
  obtain ⟨stop, stops, here⟩ := List.mem_flatMap.mp member
  exact (Stop.written_reads here).code.trans (written_stops stops)

end Program
end Curly
