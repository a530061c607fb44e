import Curly.Compile
import Curly.Proofs.Decimal.Leading
import Curly.Proofs.Grammar.Declared
import Curly.Proofs.Lowering.Emitted
import Curly.Proofs.Text.Wording
import Curly.Proofs.Typing.Visited

/-! Operands as text. A temporary and a variable are words in the text of the code, and a constant
is none, apart from the booleans, which are reserved, and the infinite number. So two operands with
one text are the same, or one is a variable that happens to be named like the other is written. -/
namespace Curly

theorem digital_of_isNumber {text : List Char} (number : isNumber text) : Digital text := by
  simp only [isNumber, Bool.and_eq_true, Bool.not_eq_true', List.isEmpty_eq_false_iff] at number
  exact digital_of_all number.1 number.2

theorem IsFraction.digital {text : String} (fraction : IsFraction text) : Digital text.toList := by
  obtain ⟨digits, decimals, number, -, same⟩ := fraction
  rw [same]
  exact (digital_of_isNumber number).append _

theorem not_isWord_of_digital {text : List Char} (digital : Digital text) :
    isWord text = false := by
  cases text with
  | nil => rfl
  | cons c text =>
    have digit : c.isDigit := by simpa [Digital] using digital
    simp [isWord, isWordStart_of_isDigit digit]

theorem digital_toString (n : Nat) : Digital (toString n).toList := by
  rw [Nat.toString_eq_repr, Nat.toList_repr]
  exact digital_toDigits n

theorem toList_temp_text (k : Nat) : (Operand.temp k).text.toList = 't' :: Nat.toDigits 10 k := by
  simp [Operand.text]

/-- A temporary is spelled like a name that a variable can have. -/
theorem isName_temp (k : Nat) : IsName (Operand.temp k).text := by
  refine ⟨?_, ?_⟩
  · have digits := all_isDigit_toDigits k
    rw [List.all_eq_true] at digits
    rw [toList_temp_text, isWord, Bool.and_eq_true, List.all_eq_true]
    exact ⟨by decide, fun c member => isWordPart_of_isDigit (digits c member)⟩
  · have others : ∀ entry ∈ Token.Kind.reserved, entry.1.toList.head? = some 't' →
        ¬ Digital entry.1.toList.tail := by decide
    cases known : Token.Kind.ofWord? (Operand.temp k).text with
    | none => rfl
    | some kind =>
      obtain ⟨before, behind, split, -⟩ := List.lookup_eq_some_iff.mp known
      have other := others ((Operand.temp k).text, kind) (by simp [split])
      rw [toList_temp_text] at other
      exact absurd (digital_toDigits k) (other rfl)

namespace Operand

/-- An operand as lowering makes it: a variable has a name, and a constant that is spelled like a
word is a boolean or the infinite number. -/
def Proper : Operand → Prop
  | .temp _ => True
  | .variable name => IsName name
  | .constant spelling =>
    isWord spelling.toList → (Token.Kind.ofWord? spelling).isSome ∨ spelling = "inf"

/-- A variable with the name by which another operand is written. -/
inductive Mimics : Operand → Operand → Prop
  | temp (k : Nat) : Mimics (.variable ("t" ++ toString k)) (.temp k)
  | infinite : Mimics (.variable "inf") (.constant "inf")

theorem Proper.of_digital {spelling : String} (digital : Digital spelling.toList) :
    (constant spelling).Proper := by
  intro word
  simp [not_isWord_of_digital digital] at word

theorem Proper.int (n : Nat) : (Lowering.intOperand n).Proper :=
  .of_digital (digital_toString n)

theorem Proper.bool (b : Bool) : (Lowering.boolOperand b).Proper := by
  cases b <;> exact fun _ => .inl (by decide)

theorem Proper.quoted {delimiter : Char} (other : isWordStart delimiter = false)
    (text : List Char) : (constant (Text.quotedWith delimiter text)).Proper := by
  intro word
  simp [Text.quotedWith, isWord, other] at word

theorem Proper.float {d : Double} (unsigned : d.Unsigned) : (constant d.text).Proper := by
  rcases Double.text_of_unsigned unsigned with infinite | digital
  · exact fun _ => .inr infinite
  · exact .of_digital digital

theorem temp_text_ne_inf (k : Nat) : (temp k).text ≠ "inf" := by
  intro same
  have letters := congrArg String.toList same
  rw [toList_temp_text] at letters
  exact absurd (List.cons.inj letters).1 (by decide)

/-- A constant with the text of a name is the infinite number. -/
theorem Proper.eq_inf {spelling : String} (proper : (constant spelling).Proper)
    (name : IsName spelling) : spelling = "inf" := by
  refine (proper name.word).resolve_left fun reserved => ?_
  rw [name.free] at reserved
  exact nomatch reserved

theorem temp_text_injective {k l : Nat} (same : (temp k).text = (temp l).text) : k = l := by
  have letters := congrArg String.toList same
  rw [toList_temp_text, toList_temp_text] at letters
  have digits := congrArg digitsValue (List.cons.inj letters).2
  rwa [digitsValue_toDigits, digitsValue_toDigits] at digits

theorem text_eq_iff {a b : Operand} (first : a.Proper) (second : b.Proper) :
    a.text = b.text ↔ a = b ∨ a.Mimics b ∨ b.Mimics a := by
  constructor
  · intro same
    cases a with
    | temp k =>
      cases b with
      | temp l => exact .inl (congrArg temp (temp_text_injective same))
      | «variable» name =>
        obtain rfl : (temp k).text = name := same
        exact .inr (.inr (.temp k))
      | constant spelling =>
        obtain rfl : (temp k).text = spelling := same
        exact absurd (second.eq_inf (isName_temp k)) (temp_text_ne_inf k)
    | «variable» name =>
      cases b with
      | temp l =>
        obtain rfl : name = (temp l).text := same
        exact .inr (.inl (.temp l))
      | «variable» other => exact .inl (congrArg Operand.variable same)
      | constant spelling =>
        obtain rfl : name = spelling := same
        obtain rfl := second.eq_inf first
        exact .inr (.inl .infinite)
    | constant spelling =>
      cases b with
      | temp l =>
        obtain rfl : spelling = (temp l).text := same
        exact absurd (first.eq_inf (isName_temp l)) (temp_text_ne_inf l)
      | «variable» name =>
        obtain rfl : spelling = name := same
        obtain rfl := first.eq_inf second
        exact .inr (.inr .infinite)
      | constant other => exact .inl (congrArg constant same)
  · rintro (rfl | mimics | mimics)
    · rfl
    · cases mimics <;> rfl
    · cases mimics <;> rfl

end Operand

namespace Builder

/-- All operands in the code are proper. -/
def Proper (b : Builder) : Prop :=
  ∀ i ∈ b.code.toList, ∀ o ∈ i.operands, o.Proper

end Builder

namespace Lowering

/-- The operand of a leaf that stands in a spelled token. -/
theorem proper_leaf {t : Token} {e : Expr} (spelled : t.Spelled) (atom : t.atom? = some e)
    (b : Builder) : (expr e b).1.Proper := by
  unfold Token.atom? at atom
  split at atom
  next kind =>
    obtain ⟨value, read, rfl⟩ := Option.map_eq_some_iff.mp atom
    obtain ⟨n, rfl⟩ := exists_nat_of_readInt? (digital_of_isNumber (spelled.whole kind)) read
    exact .int n
  next kind =>
    obtain ⟨value, read, rfl⟩ := Option.map_eq_some_iff.mp atom
    exact .float (Double.unsigned_read? (spelled.fraction kind).digital read)
  next =>
    obtain rfl := Option.some.inj atom
    exact .quoted (by decide) _
  next =>
    obtain rfl := Option.some.inj atom
    exact .quoted (by decide) _
  next =>
    obtain rfl := Option.some.inj atom
    exact .bool _
  next kind =>
    obtain rfl := Option.some.inj atom
    simp only [expr, nameOperand]
    split
    · exact .int _
    · exact spelled.name kind
  next => simp at atom

theorem proper_of_drawn {e : Expr} (drawn : e.Drawn Token.Spelled) (leaf : e ∈ e.leaves)
    (b : Builder) : (expr e b).1.Proper := by
  obtain ⟨t, spelled, atom⟩ := drawn e leaf
  exact proper_leaf spelled atom b

theorem isName_of_drawn {name : Identifier} (drawn : (Expr.symbol name).Drawn Token.Spelled) :
    IsName name.name := by
  obtain ⟨t, spelled, atom⟩ := drawn _ (List.mem_singleton_self _)
  have kind : t.kind = .identifier ∧ t.value = name.name := by
    unfold Token.atom? at atom
    split at atom <;> simp at atom
    next kind => exact ⟨kind, congrArg Identifier.name atom⟩
  exact kind.2 ▸ spelled.name kind.1

theorem suits_proper : Suits (fun i => ∀ o ∈ i.operands, o.Proper) Operand.Proper :=
  .operands .int fun _ => trivial

mutual

theorem proper_expr : (e : Expr) → e.Drawn Token.Spelled → {b : Builder} → b.Proper →
    (expr e b).1.Proper ∧ (expr e b).2.Proper
  | .int .., drawn, b, before | .float .., drawn, b, before | .string .., drawn, b, before
  | .char .., drawn, b, before | .bool .., drawn, b, before | .symbol _, drawn, b, before =>
    ⟨proper_of_drawn drawn (List.mem_singleton_self _) b, before⟩
  | .binary op left right _, drawn, b, before => by
    obtain ⟨first, second⟩ := Expr.drawn_binary.mp drawn
    simp only [expr]
    split
    · obtain ⟨value, behind⟩ := proper_expr right second before
      refine all_store suits_proper (fun name known => ?_) value behind
      cases left <;> cases known
      exact isName_of_drawn first
    · obtain ⟨one, between⟩ := proper_expr left first before
      obtain ⟨two, behind⟩ := proper_expr right second between
      exact all_intoTemp suits_proper (fun _ => List.forall_mem_cons.mpr
        ⟨trivial, List.forall_mem_cons.mpr ⟨one, List.forall_mem_singleton.mpr two⟩⟩) behind
  | .unary op operand side _, drawn, b, before => by
    obtain ⟨value, behind⟩ := proper_expr operand drawn before
    simp only [expr]
    split
    · exact all_step suits_proper op side value behind
    · exact all_intoTemp suits_proper (fun _ => List.forall_mem_cons.mpr
        ⟨trivial, List.forall_mem_singleton.mpr value⟩) behind
  | .call callee args _, drawn, b, before => by
    obtain ⟨values, behind⟩ := proper_exprs args (Expr.drawn_call.mp drawn).2 before
    exact all_intoTemp suits_proper (fun _ => List.forall_mem_cons.mpr ⟨trivial, values⟩) behind
termination_by structural e => e

theorem proper_exprs : (es : List Expr) → (∀ e ∈ es, e.Drawn Token.Spelled) → {b : Builder} →
    b.Proper → (∀ o ∈ (exprs es b).1, o.Proper) ∧ (exprs es b).2.Proper
  | [], _, _, before => ⟨nofun, before⟩
  | e :: others, drawn, b, before => by
    obtain ⟨first, rest⟩ := List.forall_mem_cons.mp drawn
    obtain ⟨value, between⟩ := proper_expr e first before
    obtain ⟨values, behind⟩ := proper_exprs others rest between
    exact ⟨List.forall_mem_cons.mpr ⟨value, values⟩, behind⟩
termination_by structural es => es

end

theorem proper_effect {e : Expr} (drawn : e.Drawn Token.Spelled) {b : Builder}
    (before : b.Proper) : (effect e b).Proper := by
  cases e with
  | call callee args _ =>
    obtain ⟨values, behind⟩ := proper_exprs args (Expr.drawn_call.mp drawn).2 before
    exact Builder.All.emit behind values
  | _ => exact (proper_expr _ drawn before).2

theorem keeps_drawn {x : Stop} (drawn : x.visit.expr.Drawn Token.Spelled) :
    x.Keeps (fun i => ∀ o ∈ i.operands, o.Proper) Operand.Proper := by
  intro before
  obtain ⟨value, behind⟩ := proper_expr x.visit.expr drawn before
  refine ⟨fun _ => value, ?_⟩
  unfold Stop.after
  split
  · exact proper_effect drawn before
  · exact behind

theorem isName_of_introduces {s : Stmt} (drawn : s.Drawn Token.Spelled)
    (other : ∀ body span, s ≠ .main body span) : ∀ name ∈ s.introduces, IsName name := by
  intro name member
  obtain ⟨t, spelled, kind, rfl⟩ :=
    (drawn.names.resolve_right fun ⟨body, span, same⟩ => other body span same) name member
  exact spelled.name kind

theorem isName_of_variables {s : Stmt} (drawn : s.Drawn Token.Spelled) :
    ∀ name ∈ s.variables, IsName name := by
  cases s with
  | «variable» ty name initial span =>
    exact isName_of_introduces drawn nofun
  | function ty name ps body span =>
    exact fun p member => isName_of_introduces drawn nofun p (List.mem_cons_of_mem _ member)
  | _ => exact nofun

end Lowering

/-- All operands that occur in some code. -/
def operandsOf (code : List Instruction) : List Operand :=
  code.flatMap Instruction.operands

theorem clean_of_checkScopes {p : Program} (accepted : checkScopes p = .ok ()) :
    (analyze p).errors = [] := by
  unfold checkScopes at accepted
  split at accepted
  · assumption
  · exact nomatch accepted

theorem clean_of_checkTypes {p : Program} (accepted : checkTypes p = .ok ()) :
    typeCheck p = [] := by
  unfold checkTypes at accepted
  split at accepted
  · assumption
  · exact nomatch accepted

/-- A source that is compiled is read, and nothing is wrong with its names and types. -/
theorem program_of_compiled {source : String} {code : List Instruction}
    (compiled : compile source = .ok code) :
    ∃ p, readProgram source = .ok p ∧ (analyze p).errors = [] ∧ typeCheck p = [] ∧
      Lowering.program p = code := by
  unfold compile at compiled
  cases read : readProgram source with
  | error e => simp [read, bind, Except.bind] at compiled
  | ok p =>
    refine ⟨p, rfl, ?_⟩
    cases scopes : checkScopes p with
    | error e => simp [read, scopes, bind, Except.bind] at compiled
    | ok _ =>
      cases types : checkTypes p with
      | error e => simp [read, scopes, types, bind, Except.bind] at compiled
      | ok _ =>
        refine ⟨clean_of_checkScopes scopes, clean_of_checkTypes types, ?_⟩
        simpa [read, scopes, types, bind, Except.bind, pure, Except.pure] using compiled

theorem proper_of_compiled {source : String} {code : List Instruction}
    (compiled : compile source = .ok code) : ∀ o ∈ operandsOf code, o.Proper := by
  obtain ⟨p, read, -, -, rfl⟩ := program_of_compiled compiled
  obtain ⟨tokens, scanned, parsed⟩ := tokens_of_readProgram read
  have drawn : AllDrawn Token.Spelled p.statements :=
    Parse.allDrawn_of_parsed (spelled_tokenize scanned)
      (fun _ => @Token.Kind.spells_of_ne .eof nofun nofun nofun _) parsed
  have named (s : Stmt) (listed : s ∈ p.statements) := Lowering.isName_of_variables (drawn s listed)
  refine List.forall_mem_flatMap.mpr
    (Program.all_lowered Lowering.suits_proper named fun x member => Lowering.keeps_drawn ?_)
  obtain ⟨s, listed, own⟩ := Program.exists_statement (Program.visit_mem member)
  exact (drawn s listed).expressions _ own

/-- Two operands in the code of a source have one text only if they are the same, or if one is a
variable that mimics the other. -/
theorem text_eq_iff_of_compiled {source : String} {code : List Instruction}
    (compiled : compile source = .ok code) {a b : Operand} (first : a ∈ operandsOf code)
    (second : b ∈ operandsOf code) : a.text = b.text ↔ a = b ∨ a.Mimics b ∨ b.Mimics a :=
  Operand.text_eq_iff (proper_of_compiled compiled a first) (proper_of_compiled compiled b second)

/-- A program with a variable that is named like the first temporary. -/
def clashing : String :=
  "main \x7b int t0 = 1; int x = t0 + 2; print(t0); \x7d"

def clashingCode : List Instruction :=
  [.beginFunction "main", .assign (.variable "t0") (.constant "1"),
   .binary (.temp 0) "+" (.variable "t0") (.constant "2"), .assign (.variable "x") (.temp 0),
   .call none "print" [.variable "t0"], .giveBack (some (.constant "0")), .endFunction "main"]

theorem clashing_compiled : compile clashing = .ok clashingCode := by decide +kernel

theorem clashing_temp_apart :
    compile clashing = .ok clashingCode ∧ .variable "x" ∈ operandsOf clashingCode ∧
      .temp 0 ∈ operandsOf clashingCode ∧
      ((Operand.variable "x").text = (Operand.temp 0).text ↔ Operand.variable "x" = .temp 0 ∨
        (Operand.variable "x").Mimics (.temp 0) ∨ (Operand.temp 0).Mimics (.variable "x")) :=
  ⟨clashing_compiled, by decide, by decide,
    text_eq_iff_of_compiled clashing_compiled (by decide) (by decide)⟩

/-- In the text of this program the variable and the temporary are one. -/
theorem clashing_ambiguous :
    ∃ code, compile clashing = .ok code ∧ ∃ a ∈ operandsOf code, ∃ b ∈ operandsOf code,
      a ≠ b ∧ a.text = b.text :=
  ⟨clashingCode, clashing_compiled, .variable "t0", by decide, .temp 0, by decide, by decide,
    by decide⟩

end Curly
