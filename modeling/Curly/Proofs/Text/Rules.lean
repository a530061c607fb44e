import Curly.Lexeme
import Curly.Proofs.Text.Pattern

/-! The lexical rules as patterns. A rule covers the characters that the preferred match of its
pattern takes. -/
namespace Curly

open Pattern

namespace Rule

/-- A header between `opening` and `closing`, on one line. -/
def headerPattern (opening closing : Char) : Pattern :=
  .seq (.char opening) (.seq (.many (.one fun c => c ≠ closing && c ≠ '\n')) (.char closing))

/-- A backslash with the character behind it, which is no line feed. -/
def escapePattern : Pattern :=
  .seq (.char '\\') (.one (· ≠ '\n'))

def pattern : Rule → Pattern
  | .blanks => .plus (.one Text.isBlank)
  | .lineComment => .seq (.literal ['/', '/']) (.many (.one (· ≠ '\n')))
  | .blockComment =>
    .seq (.literal ['/', '*']) (.seq (.few (.one fun _ => true)) (.literal ['*', '/']))
  | .inclusion =>
    .seq (.optional (.char '#')) (.seq (.literal inclusionWord) (.seq (.many (.one Text.isBlank))
      (.either (headerPattern '<' '>') (headerPattern '"' '"'))))
  | .word => .seq (.one isWordStart) (.many (.one isWordPart))
  | .fraction =>
    .seq (.plus (.one Char.isDigit)) (.seq (.char '.') (.plus (.one Char.isDigit)))
  | .whole => .plus (.one Char.isDigit)
  | .string =>
    .seq (.char '"') (.seq (.many (.either escapePattern (.one fun c => c ≠ '"' && c ≠ '\\')))
      (.char '"'))
  | .character =>
    .seq (.char '\'') (.seq (.either escapePattern (.one fun c => c ≠ '\'' && c ≠ '\\'))
      (.char '\''))
  | .mark spelling _ => .literal spelling.toList

end Rule

theorem drop_countFront (p : Char → Bool) (text : List Char) :
    text.drop (countFront p text) = text.dropWhile p := by
  induction text with
  | nil => rfl
  | cons c text ih =>
    unfold countFront at ih ⊢
    rw [List.takeWhile_cons, List.dropWhile_cons]
    split <;> simp [ih]

namespace Rule

variable (text : List Char)

theorem comment_closes :
    (seq (few (one fun _ => true)) (literal ['*', '/'])).match? text =
      (closeComment? text).map (text.drop ·) := by
  induction text using closeComment?.induct with
  | case1 => simp [match?_seq_few takes_one, match?_literal, closeComment?, rests_one_nil]
  | case2 => simp [match?_seq_few takes_one, match?_literal, closeComment?]
  | case3 c text other ih =>
    have opens : List.isPrefixOf ['*', '/'] (c :: text) = false := by
      rw [← Bool.not_eq_true, List.isPrefixOf_iff_prefix]
      rintro ⟨rest, same⟩
      obtain ⟨rfl, rfl⟩ := List.cons.inj same
      exact other rest rfl rfl
    rw [match?_seq_few takes_one, match?_literal, opens, closeComment?]
    · simp [rests_one_cons, ih, Function.comp_def]
    · exact other

/-- What stands between the quotes of a string: an escape or a character other than the quote. -/
def stringItem : Pattern :=
  .either escapePattern (.one fun c => c ≠ '"' && c ≠ '\\')

@[simp] theorem stringItem_nil : stringItem.rests [] = [] := rfl

@[simp] theorem stringItem_lone : stringItem.rests ['\\'] = [] := rfl

@[simp] theorem stringItem_quote : stringItem.rests ('"' :: text) = [] := rfl

@[simp] theorem stringItem_escape (c : Char) :
    stringItem.rests ('\\' :: c :: text) = if c = '\n' then [] else [text] := by
  simp [stringItem, escapePattern, char, rests_either, rests_seq, rests_one_cons]

@[simp] theorem stringItem_plain {c : Char} (quote : c ≠ '"') (escape : c ≠ '\\') :
    stringItem.rests (c :: text) = [text] := by
  simp [stringItem, escapePattern, char, rests_either, rests_seq, rests_one_cons, quote, escape,
    escape.symm]

theorem stringItem_takes : stringItem.Takes text :=
  (takes_one.seq fun _ => takes_one).either takes_one

theorem string_closes :
    (seq (many stringItem) (char '"')).match? text = (closeString? text).map (text.drop ·) := by
  induction text using closeString?.induct with
  | case1 =>
    rw [match?_seq_many (stringItem_takes _)]
    rfl
  | case2 text =>
    rw [match?_seq_many (stringItem_takes _)]
    simp [closeString?]
  | case3 text =>
    rw [match?_seq_many (stringItem_takes _)]
    simp [closeString?]
  | case4 c text other ih =>
    rw [match?_seq_many (stringItem_takes _)]
    simp [closeString?, ih, other, Function.comp_def]
  | case5 c text noQuote noEscape ih =>
    rw [match?_seq_many (stringItem_takes _)]
    by_cases escape : c = '\\'
    · subst escape
      obtain rfl : text = [] := by
        cases text with
        | nil => rfl
        | cons d text => exact (noEscape d text rfl rfl).elim
      rfl
    · have quote : '"' ≠ c := fun same => noQuote same.symm
      simp [closeString?, ih, stringItem_plain text noQuote escape, quote, Function.comp_def]

theorem match?_plus (p : Char → Bool) :
    (plus (one p)).match? text = (nonzero (countFront p text)).map (text.drop ·) := by
  cases text with
  | nil => rfl
  | cons c text =>
    rw [plus, match?_seq_one_cons, match?_many_one, ← drop_countFront]
    unfold countFront
    rw [List.takeWhile_cons]
    split <;> simp [nonzero]

theorem match?_seq_plus {p : Char → Bool} {second : Pattern}
    (apart : ∀ c rest, p c → second.match? (c :: rest) = none) :
    (seq (plus (one p)) second).match? text =
      if countFront p text = 0 then none else second.match? (text.drop (countFront p text)) := by
  rw [plus, match?_seq_seq]
  cases text with
  | nil => rfl
  | cons c text =>
    rw [match?_seq_one_cons, match?_seq_many_one apart, ← drop_countFront]
    unfold countFront
    rw [List.takeWhile_cons]
    split <;> simp

theorem match?_header (opening closing : Char) :
    (headerPattern opening closing).match? text =
      if text.head? = some opening then
        (headerLength?.closedBy closing text.tail).map (text.drop ·)
      else none := by
  cases text with
  | nil => rfl
  | cons c text =>
    have apart (d : Char) (rest : List Char) (inside : decide (d ≠ closing) && decide (d ≠ '\n')) :
        (char closing).match? (d :: rest) = none := by
      have other : closing ≠ d := by rintro rfl; simp at inside
      simp [other]
    rw [headerPattern, match?_seq_char_cons, match?_seq_many_one apart, ← drop_countFront,
      match?_char]
    simp only [headerLength?.closedBy, List.tail_drop, List.head?_cons, List.tail_cons,
      Option.some_inj, eq_comm]
    split_ifs <;> simp

theorem match?_either_header :
    (either (headerPattern '<' '>') (headerPattern '"' '"')).match? text =
      (headerLength? text).map (text.drop ·) := by
  rw [match?_either, match?_header, match?_header]
  fun_cases headerLength? text with
  | case1 => simp
  | case2 => simp
  | case3 text noAngle noQuote =>
    have noAngle : text.head? ≠ some '<' := by
      cases text <;> simp_all
    have noQuote : text.head? ≠ some '"' := by
      cases text <;> simp_all
    simp [noAngle, noQuote]

/-- The word, white space and a header. -/
def includePattern : Pattern :=
  .seq (.literal inclusionWord) (.seq (.many (.one Text.isBlank))
    (.either (headerPattern '<' '>') (headerPattern '"' '"')))

def includeLength? (text : List Char) : Option Nat :=
  if inclusionWord.isPrefixOf text then
    let behind := text.drop inclusionWord.length
    let gap := countFront Text.isBlank behind
    (headerLength? (behind.drop gap)).map (inclusionWord.length + gap + ·)
  else none

theorem match?_include :
    includePattern.match? text = (includeLength? text).map (text.drop ·) := by
  have apart (c : Char) (rest : List Char) (blank : Text.isBlank c) :
      (either (headerPattern '<' '>') (headerPattern '"' '"')).match? (c :: rest) = none := by
    have noAngle : c ≠ '<' := by rintro rfl; exact absurd blank (by decide)
    have noQuote : c ≠ '"' := by rintro rfl; exact absurd blank (by decide)
    simp [match?_header, noAngle, noQuote]
  rw [includePattern, match?_seq_literal, match?_seq_many_one apart, match?_either_header,
    ← drop_countFront, includeLength?]
  split <;> simp [Function.comp_def, Nat.add_assoc]

theorem match?_inclusion :
    inclusion.pattern.match? text = (inclusionLength? text).map (text.drop ·) := by
  rw [show inclusion.pattern = .seq (.either (.char '#') .empty) includePattern from rfl,
    match?_seq_either, match?_seq_empty]
  have length : inclusionLength? text =
      let hash := if text.head? = some '#' then 1 else 0
      (includeLength? (text.drop hash)).map (hash + ·) := by
    simp only [inclusionLength?, includeLength?]
    split_ifs <;> simp [Function.comp_def, Nat.add_assoc]
  rw [length]
  by_cases hash : text.head? = some '#'
  · obtain ⟨rest, rfl⟩ : ∃ rest, text = '#' :: rest := List.head?_eq_some_iff.mp hash
    have bare : includePattern.match? ('#' :: rest) = none := rfl
    rw [bare, match?_seq_char_cons, if_pos rfl, match?_include]
    simp [Function.comp_def, Nat.add_comm 1]
  · have bare : (seq (char '#') includePattern).match? text = none :=
      match?_seq_char_eq_none fun tail same => hash (same ▸ rfl)
    rw [bare, match?_include]
    simp [hash]

/-- The digits before the point of a fraction are all there are. -/
theorem match?_fraction_whole :
    fraction.pattern.match? text =
      if countFront Char.isDigit text = 0 then none
      else (seq (char '.') (plus (one Char.isDigit))).match?
        (text.drop (countFront Char.isDigit text)) := by
  refine match?_seq_plus text fun c rest digit => ?_
  have other : '.' ≠ c := by rintro rfl; exact absurd digit (by decide)
  simp [other]

theorem match?_fraction :
    fraction.pattern.match? text = (fractionLength? text).map (text.drop ·) := by
  rw [match?_fraction_whole]
  fun_cases fractionLength? text with
  | case1 whole rest behind fraction none =>
    rw [behind, match?_seq_char_cons, if_pos rfl, match?_plus, nonzero]
    simp only [Bool.or_eq_true, decide_eq_true_eq, whole, fraction] at none
    simp +contextual [none.resolve_left]
  | case2 whole rest behind fraction some =>
    rw [behind, match?_seq_char_cons, if_pos rfl, match?_plus, nonzero]
    simp only [Bool.or_eq_true, decide_eq_true_eq, not_or, whole, fraction] at some
    have split : text.drop (whole + 1 + fraction) = rest.drop fraction := by
      rw [Nat.add_assoc, ← List.drop_drop, behind, Nat.add_comm, List.drop_succ_cons]
    simp [some, split, whole, fraction]
  | case3 whole other =>
    rw [match?_seq_char_eq_none other, ite_self]
    rfl

theorem match?_character :
    character.pattern.match? text = (characterLength? text).map (text.drop ·) := by
  rw [pattern]
  fun_cases characterLength? text with
  | case1 => simp [escapePattern]
  | case2 text c other => simp [escapePattern, other]
  | case3 c text noEscape special =>
    have escape : '\\' = c → (char '\'').match? text = none :=
      fun same => match?_char_eq_none fun tail => noEscape tail same.symm
    simp only [Bool.or_eq_true, decide_eq_true_eq] at special
    simp [escapePattern]
    exact ⟨escape, special.resolve_left⟩
  | case4 c text noEscape plain =>
    simp only [Bool.or_eq_true, decide_eq_true_eq, not_or] at plain
    simp [escapePattern, plain, Ne.symm plain.2]
  | case5 text noEscape noPlain =>
    rcases text with _ | ⟨a, _ | ⟨b, _ | ⟨c, text⟩⟩⟩
    · rfl
    · simp [escapePattern]
    · simp [escapePattern]
    · simp [escapePattern]
      rintro rfl
      refine ⟨fun escape _ => match?_char_eq_none fun tail same => ?_, fun _ _ closes => ?_⟩
      · exact noEscape c tail (escape ▸ same ▸ rfl)
      · exact noPlain b text (closes ▸ rfl)

theorem spelling_ne_nil (spelling : String) (kind : Token.Kind)
    (listed : mark spelling kind ∈ Rule.all) : spelling.toList ≠ [] := by
  have marked : (spelling, kind) ∈ Token.Kind.marks := by
    simpa [all] using listed
  have spelled : ∀ entry ∈ Token.Kind.marks, entry.1.toList ≠ [] := by decide +kernel
  exact spelled _ marked

/-- What a rule covers is what the preferred match of its pattern takes. -/
theorem match?_pattern {rule : Rule} (listed : rule ∈ Rule.all) :
    rule.pattern.match? text = (rule.length? text).map (text.drop ·) := by
  fun_cases rule.length? text with
  | case1 => exact match?_plus text _
  | case2 text =>
    rw [pattern, match?_seq_literal, match?_many_one, ← drop_countFront]
    simp [Nat.add_comm 2]
  | case3 text other =>
    rw [pattern, match?_seq_literal, if_neg]
    · rfl
    · rw [List.isPrefixOf_iff_prefix]
      rintro ⟨rest, rfl⟩
      exact other rest rfl
  | case4 text =>
    rw [pattern, match?_seq_literal]
    exact (comment_closes text).trans (by simp [Function.comp_def])
  | case5 text other =>
    rw [pattern, match?_seq_literal, if_neg]
    · rfl
    · rw [List.isPrefixOf_iff_prefix]
      rintro ⟨rest, rfl⟩
      exact other rest rfl
  | case6 text => exact match?_inclusion text
  | case7 c text starts =>
    rw [pattern, match?_seq_one_cons, match?_many_one, ← drop_countFront, if_pos starts]
    simp [Nat.add_comm 1]
  | case8 c text starts =>
    rw [pattern, match?_seq_one_cons, if_neg starts]
    rfl
  | case9 => rfl
  | case10 text => exact match?_fraction text
  | case11 text => exact match?_plus text _
  | case12 text =>
    rw [pattern, match?_seq_char_cons]
    exact (string_closes text).trans (by simp [Function.comp_def])
  | case13 text other => exact match?_seq_char_eq_none other
  | case14 text => exact match?_character text
  | case15 text spelling kind starts =>
    rw [pattern, match?_literal, if_pos starts, nonzero,
      if_neg (by simpa using spelling_ne_nil _ _ listed)]
    rfl
  | case16 text spelling kind starts =>
    rw [pattern, match?_literal, if_neg starts]
    rfl

/-- No rule covers a front of no characters. -/
theorem length?_ne_zero (rule : Rule) : rule.length? text ≠ some 0 := by
  have nonzero (n : Nat) : nonzero n ≠ some 0 := by
    unfold Rule.nonzero
    split <;> simp_all
  fun_cases rule.length? text with
  | case1 | case11 | case15 => exact nonzero _
  | case6 =>
    rw [inclusionLength?]
    split <;> simp [inclusionWord]
  | case10 =>
    rw [fractionLength?]
    split <;> simp
  | case14 =>
    fun_cases characterLength? text <;> simp
  | _ => simp

end Rule
end Curly
