import Curly.Diagnostic.Excerpt
import Curly.Proofs.Decimal.Whole
import Curly.Proofs.Text.Slices
import Mathlib.Data.List.DropRight

/-! The arrow under an excerpt. The place that the lexer gives a token is found again in the lines
of the text: its line is the one around the token, and the characters that the excerpt leaves out of
this line are those that the arrow is shortened by. So its tip is below the token. -/
namespace Curly

/-! ## Ends of lines -/

section

variable {p q : Char → Bool}

theorem takeWhile_append_cons {c : Char} (other : p c = false) (front back : List Char) :
    (front ++ c :: back).takeWhile p = front.takeWhile p := by
  induction front with
  | nil => simp [other]
  | cons d front ih => simp [List.takeWhile_cons, ih]

theorem dropWhile_append_cons {c : Char} (other : p c = false) (front back : List Char) :
    (front ++ c :: back).dropWhile p = front.dropWhile p ++ c :: back := by
  induction front with
  | nil => simp [other]
  | cons d front ih =>
    rw [List.cons_append, List.dropWhile_cons, List.dropWhile_cons]
    split
    · exact ih
    · rfl

theorem rdropWhile_append_cons {c : Char} (other : p c = false) (front back : List Char) :
    (front ++ c :: back).rdropWhile p = front ++ c :: back.rdropWhile p := by
  rw [List.rdropWhile, List.reverse_append, List.reverse_cons, List.append_assoc,
    List.singleton_append, dropWhile_append_cons other]
  simp [List.rdropWhile]

theorem rdropWhile_rdropWhile (weaker : ∀ c, p c → q c) (text : List Char) :
    (text.rdropWhile p).rdropWhile q = text.rdropWhile q := by
  induction text using List.reverseRecOn with
  | nil => simp
  | append_singleton text c ih =>
    rw [List.rdropWhile_concat]
    split
    next dropped => rw [ih, List.rdropWhile_concat_pos _ _ _ (weaker c dropped)]
    next => rfl

end

theorem isBlank_of_isLineEnd (c : Char) (ends : isLineEnd c) : Text.isBlank c := by
  simp only [isLineEnd, Bool.or_eq_true, decide_eq_true_eq] at ends
  rcases ends with rfl | rfl <;> decide

theorem isBlank_of_isIndent (c : Char) (indent : Excerpt.isIndent c) : Text.isBlank c := by
  simp only [Excerpt.isIndent, Bool.or_eq_true, decide_eq_true_eq] at indent
  rcases indent with rfl | rfl <;> decide

/-! ## The line of a place -/

/-- What a text has behind its last line feed. -/
def lastLine (text : List Char) : List Char :=
  text.rtakeWhile (· ≠ '\n')

/-- What a text has before its first line feed. -/
def firstLine (text : List Char) : List Char :=
  text.takeWhile (· ≠ '\n')

/-- The line around a place between two texts. -/
def lineAround (before following : List Char) : List Char :=
  lastLine before ++ firstLine following

theorem behind_eq_lastLine (text : List Char) :
    Position.behind text = ⟨1 + text.count '\n', 1 + (lastLine text).length⟩ := by
  simp [Position.behind, lastLine, List.rtakeWhile]

theorem linesOf_cons {c : Char} {text : List Char} (plain : c ≠ '\n') (nonempty : text ≠ []) :
    linesOf (c :: text) = (linesOf text).modifyHead (c :: ·) := by
  cases text with
  | nil => exact absurd rfl nonempty
  | cons d text =>
    rw [linesOf, if_neg plain]
    cases lines : linesOf (d :: text) with
    | nil =>
      rw [linesOf] at lines
      split at lines
      · cases lines
      · split at lines <;> cases lines
    | cons line others => rfl

theorem modifyHead_nil_append (lines : List (List Char)) :
    lines.modifyHead ([] ++ ·) = lines := by
  cases lines <;> rfl

/-- The lines of a text from the one on that a place is in. -/
theorem drop_linesOf (before : List Char) {text : List Char} (nonempty : text ≠ []) :
    (linesOf (before ++ text)).drop (before.count '\n') =
      (linesOf text).modifyHead (lastLine before ++ ·) := by
  induction before using List.reverseRecOn generalizing text with
  | nil => exact (modifyHead_nil_append _).symm
  | append_singleton before c ih =>
    have step := ih (List.cons_ne_nil c text)
    rw [List.append_assoc, List.singleton_append, List.count_append]
    by_cases feed : c = '\n'
    · subst feed
      have ended : lastLine (before ++ ['\n']) = [] := by simp [lastLine]
      rw [List.count_singleton_self, ← List.drop_drop, step, linesOf, if_pos rfl, ended,
        modifyHead_nil_append]
      rfl
    · rw [List.count_singleton]
      simp [step, linesOf_cons feed nonempty, lastLine, feed, Function.comp_def]

/-- The first line of a text, with the line feed behind it where there is one. -/
theorem head?_linesOf {text : List Char} (nonempty : text ≠ []) :
    ∃ feed, (feed = [] ∨ feed = ['\n']) ∧
      (linesOf text).head? = some (firstLine text ++ feed) := by
  induction text with
  | nil => exact absurd rfl nonempty
  | cons c rest ih =>
    by_cases feed : c = '\n'
    · exact ⟨['\n'], .inr rfl, by simp [linesOf, firstLine, feed]⟩
    · cases rest with
      | nil => exact ⟨[], .inl rfl, by simp [linesOf, firstLine, feed]⟩
      | cons d rest =>
        obtain ⟨end_, feeds, same⟩ := ih (List.cons_ne_nil d rest)
        refine ⟨end_, feeds, ?_⟩
        rw [linesOf_cons feed (List.cons_ne_nil d rest), List.head?_modifyHead, same]
        simp [firstLine, feed]

/-- The line that is looked up for a place with a character that is not blank. -/
theorem lineAt?_behind {source : String} {before following : List Char} {c : Char}
    (whole : source.toList = before ++ c :: following) (solid : Text.isBlank c = false) :
    ∃ back, lineAt? source (.behind before) = some (lastLine before ++ c :: back) ∧
      Text.trimEnd back = Text.trimEnd (firstLine following) := by
  have plain : c ≠ '\n' := by
    rintro rfl
    exact absurd solid (by decide)
  have kept : isLineEnd c = false := by
    rw [← Bool.not_eq_true]
    exact fun ends => Bool.false_ne_true (solid.symm.trans (isBlank_of_isLineEnd c ends))
  obtain ⟨feed, feeds, first⟩ := head?_linesOf (List.cons_ne_nil c following)
  have line : (linesOf source.toList)[before.count '\n']? =
      some (lastLine before ++ c :: (firstLine following ++ feed)) := by
    rw [whole, ← List.head?_drop, drop_linesOf before (List.cons_ne_nil c following),
      List.head?_modifyHead, first]
    simp [firstLine, plain]
  refine ⟨(firstLine following ++ feed).rdropWhile isLineEnd, ?_, ?_⟩
  · have place : 1 + before.count '\n' - 1 = before.count '\n' := Nat.add_sub_cancel_left ..
    rw [lineAt?, behind_eq_lastLine, if_neg (by simp), place, line]
    exact congrArg some (rdropWhile_append_cons kept _ _)
  · refine (rdropWhile_rdropWhile isBlank_of_isLineEnd _).trans ?_
    rcases feeds with rfl | rfl
    · rw [List.append_nil]
      rfl
    · exact List.rdropWhile_concat_pos _ _ _ (by decide)

namespace Excerpt

variable {c : Char}

theorem isIndent_eq_false (solid : Text.isBlank c = false) : isIndent c = false := by
  rw [← Bool.not_eq_true]
  exact fun indent => Bool.false_ne_true (solid.symm.trans (isBlank_of_isIndent c indent))

/-- The line with the number before it. It is shown without its indentation and without white space
at its end. -/
def shownLine (p : Position) (line : List Char) : String :=
  toString p.line ++ " | " ++ String.ofList (Text.trimEnd (line.dropWhile isIndent))

/-- An excerpt shows a line and below it an arrow, and above the tip of the arrow stands the
character. -/
structure Points (source file : String) (p : Position) (line : List Char) (c : Char)
    (arrow : String) (place : Nat) : Prop where
  text : Excerpt.text source file p =
    "-> " ++ file ++ ":" ++ toString p.line ++ ":" ++ toString p.column ++ "\n" ++
      margin (toString p.line) ++ "\n" ++ shownLine p line ++ "\n" ++ arrow ++ "\n"
  shown : '\n' ∉ (shownLine p line).toList
  below : '\n' ∉ arrow.toList
  tip : arrow.toList[place]? = some '^'
  only : arrow.toList.count '^' = 1
  above : (shownLine p line).toList[place]? = some c

/-- What is left of a line with a character that is not blank. -/
theorem trimEnd_dropWhile (solid : Text.isBlank c = false) (front back : List Char) :
    Text.trimEnd ((front ++ c :: back).dropWhile isIndent) =
      front.dropWhile isIndent ++ c :: Text.trimEnd back := by
  rw [dropWhile_append_cons (isIndent_eq_false solid)]
  exact rdropWhile_append_cons solid _ _

/-- What the excerpt leaves out of the line is what the arrow is shorter by. -/
theorem arrowLength_behind (front : List Char) :
    arrowLength (1 + front.length) (front.takeWhile isIndent).length =
      (front.dropWhile isIndent).length + 1 := by
  have parts := congrArg List.length (List.takeWhile_append_dropWhile (p := isIndent) (l := front))
  rw [List.length_append] at parts
  rw [arrowLength]
  omega

/-- The line around a character that is not blank. -/
theorem lineAround_cons (solid : Text.isBlank c = false) (before following : List Char) :
    lineAround before (c :: following) = lastLine before ++ c :: firstLine following := by
  have plain : c ≠ '\n' := by
    rintro rfl
    exact absurd solid (by decide)
  simp [lineAround, firstLine, plain]

theorem text_behind {source : String} (file : String) {before following : List Char}
    (whole : source.toList = before ++ c :: following) (solid : Text.isBlank c = false) :
    let p := Position.behind before
    text source file p =
      "-> " ++ file ++ ":" ++ toString p.line ++ ":" ++ toString p.column ++ "\n" ++
        margin (toString p.line) ++ "\n" ++
        shownLine p (lineAround before (c :: following)) ++ "\n" ++
        (margin (toString p.line) ++ " " ++
          arrow (((lastLine before).dropWhile isIndent).length + 1)) ++ "\n" := by
  intro p
  obtain ⟨back, found, same⟩ := lineAt?_behind whole solid
  have column : p.column = 1 + (lastLine before).length :=
    congrArg Position.column (behind_eq_lastLine before)
  have removed : ((lastLine before ++ c :: back).takeWhile isIndent).length =
      ((lastLine before).takeWhile isIndent).length := by
    rw [takeWhile_append_cons (isIndent_eq_false solid)]
  have left : (lastLine before ++ c :: back).drop
      ((lastLine before).takeWhile isIndent).length =
        (lastLine before ++ c :: back).dropWhile isIndent := by
    rw [← removed]
    exact drop_countFront isIndent _
  have shown : Text.trimEnd ((lastLine before ++ c :: back).dropWhile isIndent) =
      Text.trimEnd ((lineAround before (c :: following)).dropWhile isIndent) := by
    rw [lineAround_cons solid, trimEnd_dropWhile solid, trimEnd_dropWhile solid, same]
  simp only [text, p, found, removed, left, shown, shownLine]
  rw [column, arrowLength_behind]
  simp only [String.append_assoc]

theorem toList_arrowLine (number : String) (n : Nat) :
    (margin number ++ " " ++ arrow (n + 1)).toList =
      (List.replicate (number.length + 1) ' ' ++ '|' :: ' ' :: List.replicate n '-') ++ ['^'] := by
  simp [margin, arrow]

theorem toList_shownLine (solid : Text.isBlank c = false) (p : Position)
    (before following : List Char) :
    (shownLine p (lineAround before (c :: following))).toList =
      (toString p.line).toList ++ [' ', '|', ' '] ++ (lastLine before).dropWhile isIndent ++
        c :: Text.trimEnd (firstLine following) := by
  rw [lineAround_cons solid, shownLine, trimEnd_dropWhile solid]
  simp

theorem feed_not_mem_shownLine (p : Position) (before following : List Char) :
    '\n' ∉ (shownLine p (lineAround before following)).toList := by
  have around : '\n' ∉ lineAround before following := by
    intro member
    rcases List.mem_append.mp member with front | back
    · exact absurd (List.mem_rtakeWhile_imp front) (by decide)
    · exact absurd (List.mem_takeWhile_imp back) (by decide)
  have shown : '\n' ∉ Text.trimEnd ((lineAround before following).dropWhile isIndent) :=
    fun member => around ((List.dropWhile_suffix _).subset
      ((List.rdropWhile_prefix _ _).subset member))
  simp [shownLine, feed_not_mem_toDigits, shown]

/-- The arrow of a place with a character that is not blank ends below this character. -/
theorem points_behind {source : String} (file : String) {before following : List Char}
    (whole : source.toList = before ++ c :: following) (solid : Text.isBlank c = false) :
    ∃ arrow place, Points source file (.behind before) (lineAround before (c :: following)) c
      arrow place := by
  let number := toString (Position.behind before).line
  let indent := (lastLine before).dropWhile isIndent
  have arrow := toList_arrowLine number indent.length
  have shown := toList_shownLine solid (.behind before) before following
  refine ⟨_, number.length + 3 + indent.length, text_behind file whole solid,
    feed_not_mem_shownLine _ _ _, ?_, ?_, ?_, ?_⟩
  · rw [arrow]
    simp
  · have size : (List.replicate (number.length + 1) ' ' ++
        '|' :: ' ' :: List.replicate indent.length '-').length =
          number.length + 3 + indent.length := by
      simp
      omega
    rw [arrow, ← size]
    exact List.getElem?_concat_length
  · rw [arrow]
    simp [List.count_replicate]
  · have size : (number.toList ++ [' ', '|', ' '] ++ indent).length =
        number.length + 3 + indent.length := by
      rw [List.length_append, List.length_append, String.length_toList]
      rfl
    rw [shown, ← size, List.getElem?_append_right (Nat.le_refl _), Nat.sub_self]
    rfl

end Excerpt

/-- A text that the rule of white space does not cover begins with no blank. -/
theorem isBlank_of_unmatched {c : Char} {rest : List Char}
    (unmatched : Rule.blanks.pattern.match? (c :: rest) = none) : Text.isBlank c = false := by
  cases blank : Text.isBlank c with
  | false => rfl
  | true =>
    rw [Rule.pattern, Rule.match?_plus] at unmatched
    simp [Rule.nonzero, countFront, blank] at unmatched

/-- As that rule comes first, this is so for every slice that is a token. -/
theorem Slice.First.isBlank_head {slice : Slice} {c : Char} {rest following before : List Char}
    {t : Token} (first : slice.First following) (head : slice.lexeme = c :: rest)
    (token : slice.token? before = some t) : Text.isBlank c = false := by
  obtain ⟨earlier, later, order, unmatched⟩ := first.earliest
  cases earlier with
  | nil =>
    obtain ⟨same, -⟩ := List.cons.inj order
    rw [Slice.token?, ← same] at token
    cases token
  | cons rule earlier =>
    obtain ⟨rfl, -⟩ := List.cons.inj order
    have none := unmatched .blanks (.head _)
    rw [head] at none
    exact isBlank_of_unmatched none

/-- Where a token begins, and where reading stops, the excerpt shows the line around the place, and
the tip of the arrow is below the character there. -/
theorem Excerpt.points_at (source file : String) :
    (∀ tokens, tokenize source = .ok tokens → ∀ t ∈ tokens, t.kind ≠ .eof →
      ∃ before c rest following, source.toList = before ++ (c :: rest ++ following) ∧
        t.span = ⟨.behind before, .behind (before ++ c :: rest)⟩ ∧
        ∃ arrow place, Points source file t.span.start
          (lineAround before (c :: rest ++ following)) c arrow place) ∧
    ∀ e, tokenize source = .error e →
      ∃ before c following, source.toList = before ++ c :: following ∧
        e = ⟨.unrecognised (String.singleton c), .behind before⟩ ∧
        ∃ arrow place, Points source file e.position (lineAround before (c :: following)) c
          arrow place := by
  refine ⟨fun tokens read t listed solid => ?_, fun e read => ?_⟩
  · obtain ⟨before, slice, following, whole, first, token⟩ :=
      exists_slice_of_tokenize read listed solid
    obtain ⟨c, rest, lexeme⟩ := List.exists_cons_of_ne_nil first.nonempty
    have plain := first.isBlank_head lexeme token
    obtain ⟨_, _, rfl⟩ := Option.map_eq_some_iff.mp token
    rw [lexeme] at whole
    exact ⟨before, c, rest, following, whole, by rw [lexeme], points_behind file whole plain⟩
  · have lexed : Lexed [] source.toList (tokenize source) := lexed_scan [] source.toList
    rw [read] at lexed
    cases lexed with
    | upTo slices c following whole cut unmatched =>
      have plain := isBlank_of_unmatched (unmatched .blanks (.head _))
      exact ⟨spelled slices, c, following, whole, rfl, points_behind file whole plain⟩

/-- Behind an indentation with a tab. -/
def hashed : String :=
  "main \x7b\n\t  int x = #;\n\x7d"

theorem Excerpt.points_at_hash : ∃ line arrow place,
    Points hashed "main.c" ⟨2, 12⟩ line '#' arrow place := by
  have read : tokenize hashed = .error ⟨.unrecognised "#", ⟨2, 12⟩⟩ := by decide +kernel
  obtain ⟨before, c, following, -, same, points⟩ := (points_at hashed "main.c").2 _ read
  obtain ⟨cause, -⟩ := SyntaxError.mk.inj same
  obtain rfl : '#' = c := by
    have text := congrArg String.toList (SyntaxError.Cause.unrecognised.inj cause)
    simpa using text
  exact ⟨_, points⟩

/-- Blanks at the end of a line are not shown. -/
theorem Excerpt.trailing_not_shown :
    (∃ tokens, tokenize "x  " = .ok tokens ∧
      ∃ t ∈ tokens, t.kind ≠ .eof ∧ t.span.start = ⟨1, 1⟩) ∧
    ∃ line, lineAt? "x  " ⟨1, 1⟩ = some line ∧
      Excerpt.text "x  " "main.c" ⟨1, 1⟩ = "-> main.c:1:1\n  |\n1 | x\n  | ^\n" ∧
      Excerpt.text "x  " "main.c" ⟨1, 1⟩ ≠
        "-> main.c:1:1\n  |\n1 | " ++ String.ofList (line.dropWhile isIndent) ++ "\n  | ^\n" := by
  have read : tokenize "x  " =
      .ok [⟨.identifier, "x", ⟨⟨1, 1⟩, ⟨1, 2⟩⟩⟩, .eof ⟨1, 4⟩] := by decide +kernel
  have found : lineAt? "x  " ⟨1, 1⟩ = some ['x', ' ', ' '] := by decide +kernel
  exact ⟨⟨_, read, _, .head _, by decide, rfl⟩, _, found, by decide +kernel, by decide +kernel⟩

end Curly
