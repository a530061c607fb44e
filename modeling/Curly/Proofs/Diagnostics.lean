import Curly.Compile
import Curly.Diagnostic.Excerpt
import Curly.Proofs.Text.Rules
import Mathlib.Data.List.DropRight
import Mathlib.Data.List.Forall2

/-! What the diagnostics of a failed compilation show. Each has a heading, the place that it is
about, and the line of the source there with an arrow below it. -/
namespace Curly

/-- A line between what an excerpt leaves out of it: an indentation of spaces and tabs, and white
space at the end. -/
structure Trimmed (line indent shown trailing : List Char) : Prop where
  whole : line = indent ++ (shown ++ trailing)
  indented : ∀ c ∈ indent, c = ' ' ∨ c = '\t'
  flush : ∀ c ∈ (shown ++ trailing).head?, c ≠ ' ' ∧ c ≠ '\t'
  solid : ∀ c ∈ shown.getLast?, Text.isBlank c = false
  blank : ∀ c ∈ trailing, Text.isBlank c

/-- The lines below the place: none if the source has no such line, and else the line with its
number, between the margin and an arrow that is as much shorter as the line. -/
inductive Excerpted (source : String) (p : Position) : List String → Prop
  | missing (none : lineAt? source p = none) : Excerpted source p []
  | quoted {line indent shown trailing : List Char} {gutter : String}
      (found : lineAt? source p = some line) (trimmed : Trimmed line indent shown trailing)
      (aligned : gutter = String.ofList (List.replicate (toString p.line).length ' ') ++ " |") :
      Excerpted source p
        [gutter, toString p.line ++ " | " ++ String.ofList shown,
          gutter ++ " " ++ String.ofList (List.replicate (p.column - indent.length - 1) '-') ++ "^"]

/-- What is wrong, in the words of a heading, and where. -/
structure Finding where
  heading : String
  position : Position

/-- A text shows a finding in a file. -/
def Finding.Shown (source file : String) (f : Finding) (text : String) : Prop :=
  ∃ excerpt, Excerpted source f.position excerpt ∧
    text = String.join ((f.heading ::
      ("-> " ++ file ++ ":" ++ toString f.position.line ++ ":" ++ toString f.position.column) ::
      excerpt).map (· ++ "\n"))

namespace CompileError

/-- The findings of the stage that a compilation failed at: the error in the form of the text, or
each error in the names, or each error in the types. -/
def findings : CompileError → List Finding
  | .syntactic e =>
    [⟨match e.cause.tip? with
      | none => "Error: " ++ e.cause.name
      | some tip => "Error: " ++ e.cause.name ++ " (" ++ tip ++ ")", e.position⟩]
  | .scope es =>
    es.map fun e => ⟨"Scope Error: " ++ e.kind.text ++ " '" ++ e.name ++ "'", e.position⟩
  | .typing es =>
    es.map fun e => ⟨"Type Error: " ++ e.cause.kind.text ++ ": " ++ e.cause.message, e.position⟩

end CompileError

section

variable (source file : String) (p : Position)

theorem trimEnd_append (text : List Char) :
    Text.trimEnd text ++ text.rtakeWhile Text.isBlank = text :=
  List.rdropWhile_append_rtakeWhile

theorem isBlank_last_trimEnd {text : List Char} {c : Char}
    (last : c ∈ (Text.trimEnd text).getLast?) : Text.isBlank c = false := by
  have stop := List.head?_dropWhile_not Text.isBlank text.reverse
  rw [Text.trimEnd, List.getLast?_reverse] at last
  rw [Option.mem_def.mp last] at stop
  exact stop

/-- What an excerpt leaves out of a line is all of its indentation and all blanks at its end. -/
theorem trimmed_line (line : List Char) :
    Trimmed line (line.takeWhile Excerpt.isIndent) (Text.trimEnd (line.dropWhile Excerpt.isIndent))
      ((line.dropWhile Excerpt.isIndent).rtakeWhile Text.isBlank) where
  whole := by rw [trimEnd_append, List.takeWhile_append_dropWhile]
  indented c member := by
    have indent := List.mem_takeWhile_imp member
    simpa [Excerpt.isIndent] using indent
  flush c first := by
    have stop := List.head?_dropWhile_not Excerpt.isIndent line
    rw [trimEnd_append] at first
    rw [Option.mem_def.mp first] at stop
    simpa [Excerpt.isIndent] using stop
  solid _ := isBlank_last_trimEnd
  blank _ := List.mem_rtakeWhile_imp

theorem margin_eq (number : String) :
    Excerpt.margin number = String.ofList (List.replicate number.length ' ') ++ " |" := by
  rw [Excerpt.margin, List.replicate_succ', String.ofList_append, String.append_assoc]
  rfl

theorem arrow_eq (column removed : Nat) :
    Excerpt.arrow (Excerpt.arrowLength column removed) =
      String.ofList (List.replicate (column - removed - 1) '-') ++ "^" := by
  have same : max 1 (column - removed) - 1 = column - removed - 1 := by omega
  rw [Excerpt.arrow, Excerpt.arrowLength, same]

theorem shown_excerpt (heading : String) :
    Finding.Shown source file ⟨heading, p⟩ (heading ++ "\n" ++ Excerpt.text source file p) := by
  unfold Excerpt.text
  cases found : lineAt? source p with
  | none =>
    refine ⟨[], .missing found, ?_⟩
    simp [String.append_assoc]
  | some line =>
    have left : line.drop (line.takeWhile Excerpt.isIndent).length =
        line.dropWhile Excerpt.isIndent := drop_countFront Excerpt.isIndent line
    refine ⟨_, .quoted found (trimmed_line line) rfl, ?_⟩
    simp [left, margin_eq, arrow_eq, String.append_assoc]

theorem shown_report (e : SyntaxError) :
    List.Forall₂ (Finding.Shown source file) (CompileError.syntactic e).findings
      [e.report source file] := by
  refine .cons ?_ .nil
  unfold SyntaxError.report
  cases e.cause.tip? with
  | none => simpa using shown_excerpt source file e.position ("Error: " ++ e.cause.name)
  | some tip =>
    simpa [String.append_assoc] using
      shown_excerpt source file e.position ("Error: " ++ e.cause.name ++ " (" ++ tip ++ ")")

theorem shown_complaint (stage message : String) :
    Finding.Shown source file ⟨stage ++ " Error: " ++ message, p⟩
      (complaint stage message p source file) :=
  shown_excerpt source file p (stage ++ " Error: " ++ message)

theorem shown_scope (es : List ScopeError) :
    List.Forall₂ (Finding.Shown source file) (CompileError.scope es).findings
      (es.map fun e => complaint "Scope" e.message e.position source file) := by
  rw [CompileError.findings, List.forall₂_map_left_iff, List.forall₂_map_right_iff,
    List.forall₂_same]
  intro e _
  simpa [ScopeError.message, String.append_assoc] using
    shown_complaint source file e.position "Scope" e.message

theorem shown_typing (es : List TypeError) :
    List.Forall₂ (Finding.Shown source file) (CompileError.typing es).findings
      (es.map fun e => complaint "Type" e.message e.position source file) := by
  rw [CompileError.findings, List.forall₂_map_left_iff, List.forall₂_map_right_iff,
    List.forall₂_same]
  intro e _
  simpa [TypeError.message, TypeError.kind, String.append_assoc] using
    shown_complaint source file e.position "Type" e.message

end

end Curly
