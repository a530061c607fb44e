import Curly.Proofs.Text.Slices

/-! Reading undoes writing. A text of lexemes with white space behind each of them comes apart into
just these lexemes: a rule that is tried before the one that is meant would have to match a front
of the lexeme alone, as no rule but that of white space goes over a blank. -/
namespace Curly

/-- A character as it is written between two `delimiter`s. -/
def escaped (delimiter c : Char) : List Char :=
  if c = '\\' ∨ c = delimiter then ['\\', c]
  else if c = '\n' then ['\\', 'n']
  else if c = '\t' then ['\\', 't']
  else if c = '\r' then ['\\', 'r']
  else if c = '\x00' then ['\\', '0']
  else [c]

def isWord : List Char → Bool
  | [] => false
  | c :: rest => isWordStart c && rest.all isWordPart

/-- A nonempty row of digits. -/
def isNumber (text : List Char) : Bool :=
  !text.isEmpty && text.all Char.isDigit

/-- What can be written so that it is read as one token. The word of inclusions is no identifier
here: with a header behind it, it is read as an inclusion. -/
inductive Lexeme where
  | reserved (word : String) (kind : Token.Kind) (listed : (word, kind) ∈ Token.Kind.reserved)
  | identifier (name : String) (word : isWord name.toList) (free : Token.Kind.ofWord? name = none)
    (other : name.toList ≠ inclusionWord)
  | whole (digits : String) (number : isNumber digits.toList)
  | fraction (digits decimals : String) (number : isNumber digits.toList)
    (decimal : isNumber decimals.toList)
  | mark (spelling : String) (kind : Token.Kind) (listed : (spelling, kind) ∈ Token.Kind.marks)
  | string (content : String)
  | character (content : Char)
  | inclusion (header : String) (inLine : ∀ c ∈ header.toList, c ≠ '>' ∧ c ≠ '\n')

namespace Lexeme

def spelling : Lexeme → List Char
  | .reserved word _ _ => word.toList
  | .identifier name _ _ _ => name.toList
  | .whole digits _ => digits.toList
  | .fraction digits decimals _ _ => digits.toList ++ '.' :: decimals.toList
  | .mark spelling _ _ => spelling.toList
  | .string content => '"' :: content.toList.flatMap (escaped '"') ++ ['"']
  | .character content => '\'' :: escaped '\'' content ++ ['\'']
  | .inclusion header _ => '#' :: inclusionWord ++ ' ' :: '<' :: header.toList ++ ['>']

/-- The kind and the value that the lexeme stands for. -/
def token : Lexeme → Token.Kind × String
  | .reserved word kind _ => (kind, word)
  | .identifier name _ _ _ => (.identifier, name)
  | .whole digits _ => (.intLiteral, digits)
  | .fraction digits decimals _ _ => (.floatLiteral, digits ++ "." ++ decimals)
  | .mark spelling kind _ => (kind, spelling)
  | .string content => (.stringLiteral, content)
  | .character content => (.charLiteral, String.singleton content)
  | .inclusion header _ => (.inclusion, header)

def rule : Lexeme → Rule
  | .reserved _ _ _ | .identifier _ _ _ _ => .word
  | .whole _ _ => .whole
  | .fraction _ _ _ _ => .fraction
  | .mark spelling kind _ => .mark spelling kind
  | .string _ => .string
  | .character _ => .character
  | .inclusion _ _ => .inclusion

end Lexeme

/-- A lexeme with the white space behind it. -/
structure Written where
  lexeme : Lexeme
  gap : List Char
  apart : gap ≠ []
  blank : ∀ c ∈ gap, Text.isBlank c

def Written.text (written : Written) : List Char :=
  written.lexeme.spelling ++ written.gap

variable {b c : Char} {front letters text rest : List Char}

/-! ## Blanks -/

theorem isAlpha_eq (c : Char) : c.isAlpha =
    (decide (c.val ≥ 'A'.val ∧ c.val ≤ 'Z'.val) ||
      (decide (c.val ≥ 'a'.val) && decide (c.val ≤ 'z'.val))) := rfl

theorem isBlank_of_isWordPart (part : isWordPart c) : Text.isBlank c = false := by
  simp only [isWordPart, Char.isAlphanum, isAlpha_eq, Char.isDigit, Bool.or_eq_true,
    Bool.and_eq_true, decide_eq_true_eq] at part
  rcases part with letter | rfl
  · have code : c.toNat = c.val.toNat := rfl
    simp only [ge_iff_le, UInt32.le_iff_toNat_le, Char.toNat_val] at letter
    simp [Text.isBlank, Text.blankRanges]
    simp at letter
    omega
  · decide

theorem isWordPart_of_isDigit (digit : c.isDigit) : isWordPart c := by
  simp [isWordPart, Char.isAlphanum, digit]

theorem isWordPart_of_isWordStart (start : isWordStart c) : isWordPart c := by
  simp only [isWordStart, isWordPart, Char.isAlphanum, Bool.or_eq_true] at start ⊢
  exact start.imp_left .inl

theorem isWordStart_of_isDigit (digit : c.isDigit) : isWordStart c = false := by
  have other : c ≠ '_' := by
    rintro rfl
    exact absurd digit (by decide)
  simp only [Char.isDigit, Bool.and_eq_true, decide_eq_true_eq, ge_iff_le,
    UInt32.le_iff_toNat_le] at digit
  simp only [isWordStart, isAlpha_eq, other, decide_false, Bool.or_false, Bool.or_eq_false_iff,
    Bool.and_eq_false_iff, decide_eq_false_iff_not, ge_iff_le, UInt32.le_iff_toNat_le]
  simp at digit ⊢
  omega

theorem isDigit_of_isBlank (blank : Text.isBlank c) : c.isDigit = false := by
  rw [← Bool.not_eq_true]
  intro digit
  exact absurd blank (by simp [isBlank_of_isWordPart (isWordPart_of_isDigit digit)])

/-- What has no blank in it and matches before a blank matches what stands before the blank. -/
theorem prefix_before_blank (solid : front.all (!Text.isBlank ·)) (blank : Text.isBlank b)
    (matched : front <+: text ++ b :: rest) : front <+: text := by
  rcases List.prefix_or_prefix_of_prefix matched (List.prefix_append text (b :: rest)) with
    inside | ⟨more, rfl⟩
  · exact inside
  · rw [List.prefix_append_right_inj] at matched
    cases more with
    | nil => simp
    | cons d more =>
      obtain ⟨rfl, -⟩ := List.cons_prefix_cons.mp matched
      exact absurd blank (by simp_all)

theorem countFront_append {p : Char → Bool} (all : ∀ c ∈ front, p c) (stop : p b = false) :
    countFront p (front ++ b :: rest) = front.length := by
  rw [countFront, List.takeWhile_append_of_pos all, List.takeWhile_cons]
  simp [stop]

/-! ## The rules that are tried first -/

namespace Rule

/-- None of the rules covers a front of the text. -/
def Passed (rules : List Rule) (text : List Char) : Prop :=
  ∀ rule ∈ rules, rule.length? text = none

theorem Passed.nil : Passed [] text :=
  nofun

theorem Passed.one {rule : Rule} (none : rule.length? text = none) : Passed [rule] text := by
  simpa [Passed] using none

theorem Passed.append {rules others : List Rule} (left : Passed rules text)
    (right : Passed others text) : Passed (rules ++ others) text :=
  List.forall_mem_append.mpr ⟨left, right⟩

theorem first?_of_earliest {rule : Rule} {earlier later : List Rule} {length : Nat}
    (order : all = earlier ++ rule :: later) (passed : Passed earlier text)
    (covers : rule.length? text = some length) : first? text = some (rule, length) :=
  List.findSome?_eq_some_iff.mpr
    ⟨earlier, rule, later, order, by simp [covers], fun other mem => by simp [passed other mem]⟩

theorem blanks_eq_none (solid : Text.isBlank c = false) : blanks.length? (c :: rest) = none := by
  simp [length?, countFront, solid, nonzero]

theorem length?_eq_none_iff {rule : Rule} (listed : rule ∈ all) :
    rule.length? text = none ↔ rule.pattern.match? text = none := by
  rw [match?_pattern text listed, Option.map_eq_none_iff]

theorem lineComment_eq_none (other : ¬ ['/', '/'] <+: text) :
    lineComment.length? text = none := by
  rw [length?_eq_none_iff (by simp [all]), pattern, Pattern.match?_seq_literal,
    if_neg (by rwa [List.isPrefixOf_iff_prefix])]

theorem blockComment_eq_none (other : ¬ ['/', '*'] <+: text) :
    blockComment.length? text = none := by
  rw [length?_eq_none_iff (by simp [all]), pattern, Pattern.match?_seq_literal,
    if_neg (by rwa [List.isPrefixOf_iff_prefix])]

theorem passed_skipped (solid : Text.isBlank c = false) (line : ¬ ['/', '/'] <+: c :: rest)
    (block : ¬ ['/', '*'] <+: c :: rest) :
    Passed [blanks, lineComment, blockComment] (c :: rest) :=
  (Passed.one (blanks_eq_none solid)).append
    ((Passed.one (lineComment_eq_none line)).append (.one (blockComment_eq_none block)))

theorem inclusion_eq_none (hash : text.head? ≠ some '#') (other : ¬ inclusionWord <+: text) :
    inclusion.length? text = none := by
  have unmatched : ¬ inclusionWord.isPrefixOf text := by rwa [List.isPrefixOf_iff_prefix]
  simp [length?, inclusionLength?, hash, unmatched]

theorem word_eq_none (other : isWordStart c = false) : Rule.word.length? (c :: rest) = none := by
  simp [length?, other]

theorem passed_words (solid : Text.isBlank c = false) (line : ¬ ['/', '/'] <+: c :: rest)
    (block : ¬ ['/', '*'] <+: c :: rest) (hash : c ≠ '#') (other : isWordStart c = false) :
    Passed [blanks, lineComment, blockComment, inclusion, word] (c :: rest) := by
  have inclusion : inclusion.length? (c :: rest) = none := by
    refine inclusion_eq_none (by simpa using hash) fun opens => ?_
    obtain ⟨rfl, -⟩ := List.cons_prefix_cons.mp opens
    exact absurd other (by decide)
  exact (passed_skipped solid line block).append
    ((Passed.one inclusion).append (.one (word_eq_none other)))

theorem fraction_eq_none (other : c.isDigit = false) : fraction.length? (c :: rest) = none := by
  have none : countFront Char.isDigit (c :: rest) = 0 := by simp [countFront, other]
  simp only [length?, fractionLength?, none, List.drop_zero]
  split <;> rfl

theorem whole_eq_none (other : c.isDigit = false) : whole.length? (c :: rest) = none := by
  simp [length?, countFront, other, nonzero]

theorem string_eq_none (other : c ≠ '"') : string.length? (c :: rest) = none := by
  rw [length?_eq_none_iff (by simp [all]), pattern, Pattern.match?_seq_char_cons, if_neg other.symm]

theorem character_eq_none (other : c ≠ '\'') : character.length? (c :: rest) = none := by
  rw [length?_eq_none_iff (by simp [all]), pattern, Pattern.match?_seq_char_cons, if_neg other.symm]

/-! ## The rule that is meant -/

variable {digits decimals : List Char}

/-- The word of inclusions that goes on, or has no header behind it, is no inclusion. -/
theorem inclusion_eq_none_of_word (spelled : isWord letters) (other : letters ≠ inclusionWord)
    (blank : Text.isBlank b) : inclusion.length? (letters ++ b :: rest) = none := by
  obtain ⟨c, letters, rfl⟩ : ∃ c tail, letters = c :: tail := by
    cases letters with
    | nil => exact nomatch spelled
    | cons c letters => exact ⟨c, letters, rfl⟩
  simp only [isWord, Bool.and_eq_true, List.all_eq_true] at spelled
  have hash : c ≠ '#' := by
    rintro rfl
    exact absurd spelled.1 (by decide)
  by_cases front : inclusionWord <+: c :: letters
  · obtain ⟨more, split⟩ := front
    cases more with
    | nil => exact absurd split (by simpa using other.symm)
    | cons d more =>
      have part : isWordPart d := spelled.2 d (by
        obtain ⟨rfl, rfl⟩ := List.cons.inj split
        simp)
      have angle : d ≠ '<' := by
        rintro rfl
        exact absurd part (by decide)
      have quote : d ≠ '"' := by
        rintro rfl
        exact absurd part (by decide)
      rw [← split]
      simp [length?, inclusionLength?, inclusionWord, countFront, isBlank_of_isWordPart part,
        headerLength?, angle, quote]
  · refine inclusion_eq_none (by simpa using hash) fun opens => front ?_
    exact prefix_before_blank (by decide) blank opens

theorem first?_word (spelled : isWord letters) (other : letters ≠ inclusionWord)
    (blank : Text.isBlank b) : first? (letters ++ b :: rest) = some (.word, letters.length) := by
  have inclusion : inclusion.length? (letters ++ b :: rest) = none :=
    inclusion_eq_none_of_word spelled other blank
  cases letters with
  | nil => exact nomatch spelled
  | cons c letters =>
    simp only [isWord, Bool.and_eq_true, List.all_eq_true] at spelled
    have slash : '/' ≠ c := by
      rintro rfl
      exact absurd spelled.1 (by decide)
    have solid := isBlank_of_isWordPart (isWordPart_of_isWordStart spelled.1)
    have passed : Passed [blanks, lineComment, blockComment, .inclusion]
        (c :: (letters ++ b :: rest)) :=
      (passed_skipped solid (by simp [slash]) (by simp [slash])).append (.one inclusion)
    have stop : isWordPart b = false := by
      rw [← Bool.not_eq_true]
      exact fun part => absurd blank (by simp [isBlank_of_isWordPart part])
    refine first?_of_earliest rfl passed ?_
    simp [length?, spelled.1, countFront_append spelled.2 stop, Nat.add_comm]

/-- What stands before the rules of numbers has no match at a digit. -/
theorem passed_at_digit (digit : c.isDigit) :
    Passed [blanks, lineComment, blockComment, inclusion, word] (c :: rest) := by
  have other (d : Char) (no : d.isDigit = false) : d ≠ c := by
    rintro rfl
    exact absurd digit (by simp [no])
  have solid := isBlank_of_isWordPart (isWordPart_of_isDigit digit)
  have slash := other '/' rfl
  exact passed_words solid (by simp [slash]) (by simp [slash]) (other '#' rfl).symm
    (isWordStart_of_isDigit digit)

theorem fractionLength?_whole (number : ∀ c ∈ digits, c.isDigit) (blank : Text.isBlank b) :
    fractionLength? (digits ++ b :: rest) = none := by
  have stop : b.isDigit = false := isDigit_of_isBlank blank
  rw [fractionLength?, countFront_append number stop, List.drop_left]
  split
  next point same =>
    obtain ⟨rfl, -⟩ := List.cons.inj same
    exact absurd blank (by decide)
  next => rfl

theorem fractionLength?_point (number : isNumber digits) (decimal : isNumber decimals)
    (blank : Text.isBlank b) :
    fractionLength? (digits ++ '.' :: decimals ++ b :: rest) =
      some (digits ++ '.' :: decimals).length := by
  simp only [isNumber, Bool.and_eq_true, Bool.not_eq_true', List.isEmpty_eq_false_iff,
    List.all_eq_true] at number decimal
  have stop : b.isDigit = false := isDigit_of_isBlank blank
  rw [List.append_assoc, List.cons_append, fractionLength?, countFront_append number.2 (by decide),
    List.drop_left]
  simp only [countFront_append decimal.2 stop, List.length_eq_zero_iff, number.1, decimal.1,
    decide_false, Bool.or_self, Bool.false_eq_true, if_false, List.length_append,
    List.length_cons]
  exact congrArg some (by omega)

theorem first?_fraction (number : isNumber digits) (decimal : isNumber decimals)
    (blank : Text.isBlank b) :
    first? (digits ++ '.' :: decimals ++ b :: rest) =
      some (.fraction, (digits ++ '.' :: decimals).length) := by
  have covers : fraction.length? (digits ++ '.' :: decimals ++ b :: rest) =
      some (digits ++ '.' :: decimals).length := fractionLength?_point number decimal blank
  cases digits with
  | nil => simp [isNumber] at number
  | cons d digits =>
    simp only [isNumber, List.isEmpty_cons, Bool.not_false, Bool.true_and, List.all_cons,
      Bool.and_eq_true] at number
    exact first?_of_earliest rfl (passed_at_digit number.1) covers

theorem first?_whole (number : isNumber digits) (blank : Text.isBlank b) :
    first? (digits ++ b :: rest) = some (.whole, digits.length) := by
  have covers : whole.length? (digits ++ b :: rest) = some digits.length := by
    simp only [isNumber, Bool.and_eq_true, Bool.not_eq_true', List.isEmpty_eq_false_iff,
      List.all_eq_true] at number
    rw [length?, countFront_append number.2 (isDigit_of_isBlank blank), nonzero,
      if_neg (by simpa using number.1)]
  cases digits with
  | nil => simp [isNumber] at number
  | cons d digits =>
    simp only [isNumber, List.isEmpty_cons, Bool.not_false, Bool.true_and, List.all_cons,
      Bool.and_eq_true, List.all_eq_true] at number
    have point : fraction.length? (d :: digits ++ b :: rest) = none :=
      fractionLength?_whole (by simpa using number) blank
    exact first?_of_earliest rfl ((passed_at_digit number.1).append (.one point)) covers

/-- What stands before the rules of quoted text has no match at a quote. -/
theorem passed_at_quote (quote : c = '"' ∨ c = '\'') :
    Passed [blanks, lineComment, blockComment, inclusion, word, fraction, whole] (c :: rest) := by
  have words : Passed [blanks, lineComment, blockComment, inclusion, word] (c :: rest) := by
    rcases quote with rfl | rfl <;>
      exact passed_words (by decide) (by simp) (by simp) (by decide) (by decide)
  have digit : c.isDigit = false := by rcases quote with rfl | rfl <;> decide
  exact words.append ((Passed.one (fraction_eq_none digit)).append (.one (whole_eq_none digit)))

theorem closeString?_escaped :
    closeString? (escaped '"' c ++ rest) =
      (closeString? rest).map (· + (escaped '"' c).length) := by
  fun_cases escaped '"' c with
  | case1 special => rcases special with rfl | rfl <;> rfl
  | case2 | case3 | case4 | case5 => rfl
  | case6 plain =>
    rw [List.singleton_append, closeString?]
    · rfl
    · simp_all
    · simp_all

theorem closeString?_content (content : List Char) :
    closeString? (content.flatMap (escaped '"') ++ '"' :: rest) =
      some ((content.flatMap (escaped '"')).length + 1) := by
  induction content with
  | nil => rfl
  | cons c content ih =>
    rw [List.flatMap_cons, List.append_assoc, closeString?_escaped, ih, Option.map_some,
      List.length_append]
    exact congrArg some (by omega)

theorem first?_string (content : List Char) :
    first? ('"' :: content.flatMap (escaped '"') ++ ['"'] ++ rest) =
      some (.string, ('"' :: content.flatMap (escaped '"') ++ ['"']).length) := by
  refine first?_of_earliest rfl (passed_at_quote (.inl rfl)) ?_
  simp [length?, closeString?_content]

theorem characterLength?_escaped :
    characterLength? ('\'' :: escaped '\'' c ++ ['\''] ++ rest) =
      some ('\'' :: escaped '\'' c ++ ['\'']).length := by
  fun_cases escaped '\'' c with
  | case1 special => rcases special with rfl | rfl <;> rfl
  | case2 | case3 | case4 | case5 => rfl
  | case6 plain => simp_all [characterLength?]

theorem first?_character :
    first? ('\'' :: escaped '\'' c ++ ['\''] ++ rest) =
      some (.character, ('\'' :: escaped '\'' c ++ ['\'']).length) := by
  exact first?_of_earliest rfl
    ((passed_at_quote (.inr rfl)).append (.one (string_eq_none (by decide))))
    characterLength?_escaped

theorem first?_inclusion {header : List Char} (inLine : ∀ c ∈ header, c ≠ '>' ∧ c ≠ '\n') :
    first? ('#' :: inclusionWord ++ ' ' :: '<' :: header ++ ['>'] ++ rest) =
      some (.inclusion, ('#' :: inclusionWord ++ ' ' :: '<' :: header ++ ['>']).length) := by
  refine first?_of_earliest rfl (passed_skipped (by decide) (by simp) (by simp)) ?_
  have gap : countFront Text.isBlank (' ' :: '<' :: (header ++ '>' :: rest)) = 1 := by
    rw [countFront, List.takeWhile_cons_of_pos (by decide), List.takeWhile_cons_of_neg (by decide)]
    rfl
  have closed : headerLength?.closedBy '>' (header ++ '>' :: rest) = some (header.length + 2) := by
    rw [headerLength?.closedBy, countFront_append (by simpa using inLine) (by decide)]
    simp
  simp only [length?, inclusionLength?, inclusionWord, List.cons_append, List.nil_append,
    List.append_assoc, List.head?_cons, if_true, List.drop_succ_cons, List.drop_zero,
    List.isPrefixOf, beq_self_eq_true, Bool.true_and, List.length_cons, List.length_nil, gap,
    headerLength?, closed, Option.map_some, List.length_append]
  exact congrArg some (by omega)

/-- No rule but those of comments and marks covers a text with this first character. -/
def beginsMark (c : Char) : Bool :=
  c ≠ '#' && !isWordStart c && !c.isDigit && c ≠ '"' && c ≠ '\''

/-- A mark has no blank in it and begins as no lexeme of another rule does. -/
theorem marks_apart : ∀ entry ∈ Token.Kind.marks,
    entry.1.toList.all (!Text.isBlank ·) ∧ ¬ ['/', '/'] <+: entry.1.toList ∧
      ¬ ['/', '*'] <+: entry.1.toList ∧ entry.1.toList.head?.any beginsMark := by
  decide +kernel

theorem marks_order :
    Token.Kind.marks.Pairwise fun entry later => ¬ entry.1.toList <+: later.1.toList := by
  decide +kernel

/-- What stands before the rules of marks has no match at a mark with a blank behind it. -/
theorem passed_at_mark {spelling : String} {kind : Token.Kind}
    (listed : (spelling, kind) ∈ Token.Kind.marks) (blank : Text.isBlank b) :
    Passed [blanks, lineComment, blockComment, inclusion, word, fraction, whole, string, character]
      (spelling.toList ++ b :: rest) := by
  obtain ⟨solid, line, block, other⟩ := marks_apart _ listed
  obtain ⟨c, first, begins⟩ := (Option.any_eq_true ..).mp other
  obtain ⟨more, split⟩ := List.head?_eq_some_iff.mp first
  simp only [beginsMark, Bool.and_eq_true, Bool.not_eq_true', decide_eq_true_eq] at begins
  obtain ⟨⟨⟨⟨hash, start⟩, digit⟩, quote⟩, tick⟩ := begins
  have line : ¬ ['/', '/'] <+: spelling.toList ++ b :: rest :=
    fun opens => line (prefix_before_blank (by decide) blank opens)
  have block : ¬ ['/', '*'] <+: spelling.toList ++ b :: rest :=
    fun opens => block (prefix_before_blank (by decide) blank opens)
  rw [split] at line block solid ⊢
  have printed : Text.isBlank c = false := by simp_all
  exact (passed_words printed line block hash start).append
    ((Passed.one (fraction_eq_none digit)).append ((Passed.one (whole_eq_none digit)).append
      ((Passed.one (string_eq_none quote)).append (.one (character_eq_none tick)))))

theorem first?_mark {spelling : String} {kind : Token.Kind}
    (listed : (spelling, kind) ∈ Token.Kind.marks) (blank : Text.isBlank b) :
    first? (spelling.toList ++ b :: rest) =
      some (.mark spelling kind, spelling.toList.length) := by
  obtain ⟨before, behind, split⟩ := List.append_of_mem listed
  have order : all = ([blanks, lineComment, blockComment, inclusion, word, fraction, whole, string,
      character] ++ before.map fun entry => mark entry.1 entry.2) ++
      mark spelling kind :: behind.map fun entry => mark entry.1 entry.2 := by
    rw [all, split, List.map_append, List.map_cons, List.append_assoc]
  have earlier : Passed (before.map fun entry => mark entry.1 entry.2)
      (spelling.toList ++ b :: rest) := by
    intro rule mem
    obtain ⟨entry, member, rfl⟩ := List.mem_map.mp mem
    have apart := marks_order
    rw [split, List.pairwise_append] at apart
    have other := apart.2.2 entry member (spelling, kind) (by simp)
    have solid := (marks_apart entry (by simp [split, member])).1
    rw [length?, if_neg]
    rw [List.isPrefixOf_iff_prefix]
    exact fun opens => other (prefix_before_blank solid blank opens)
  have nonempty : spelling.toList.length ≠ 0 := by
    simpa using spelling_ne_nil spelling kind (by rw [order]; simp)
  refine first?_of_earliest order ((passed_at_mark listed blank).append earlier) ?_
  rw [length?, if_pos (List.isPrefixOf_iff_prefix.mpr (List.prefix_append ..)), nonzero,
    if_neg nonempty]

theorem first?_blanks {gap : List Char} (apart : gap ≠ []) (blank : ∀ c ∈ gap, Text.isBlank c)
    (stop : ∀ c, text.head? = some c → Text.isBlank c = false) :
    first? (gap ++ text) = some (.blanks, gap.length) := by
  have covered : countFront Text.isBlank (gap ++ text) = gap.length := by
    cases text with
    | nil =>
      rw [countFront, List.takeWhile_append_of_pos blank, List.takeWhile_nil, List.append_nil]
    | cons c text => exact countFront_append blank (stop c rfl)
  refine first?_of_earliest rfl .nil ?_
  rw [length?, covered, nonzero, if_neg (by simpa using apart)]

end Rule

/-! ## Whole texts -/

theorem unescape_escaped {delimiter : Char} (quote : delimiter = '"' ∨ delimiter = '\'') :
    unescape (escaped delimiter c ++ rest) = c :: unescape rest := by
  fun_cases escaped delimiter c with
  | case1 special => rcases special with rfl | rfl <;> rcases quote with rfl | rfl <;> rfl
  | case2 _ same | case3 _ _ same | case4 _ _ _ same | case5 _ _ _ _ same => rw [same]; rfl
  | case6 plain =>
    have noEscape : c ≠ '\\' := fun same => plain (.inl same)
    rw [List.singleton_append, unescape]
    all_goals simp [noEscape]

theorem unescape_content {delimiter : Char} (quote : delimiter = '"' ∨ delimiter = '\'')
    (content : List Char) : unescape (content.flatMap (escaped delimiter)) = content := by
  induction content with
  | nil => rfl
  | cons c content ih => rw [List.flatMap_cons, unescape_escaped quote, ih]

theorem inside_quoted (first last : Char) (content : List Char) :
    inside (first :: content ++ [last]) = content := by
  simp [inside]

namespace Lexeme

theorem reserved_word : ∀ entry ∈ Token.Kind.reserved,
    isWord entry.1.toList ∧ entry.1.toList ≠ inclusionWord ∧
      Token.Kind.ofWord? entry.1 = some entry.2 := by
  decide +kernel

/-- In front of a blank a lexeme is read by its own rule, up to its end. -/
theorem first?_spelling (lexeme : Lexeme) (blank : Text.isBlank b) :
    Rule.first? (lexeme.spelling ++ b :: rest) = some (lexeme.rule, lexeme.spelling.length) := by
  cases lexeme with
  | reserved word kind listed =>
    obtain ⟨spelled, other, -⟩ := reserved_word _ listed
    exact Rule.first?_word spelled other blank
  | identifier name word free other => exact Rule.first?_word word other blank
  | whole digits number => exact Rule.first?_whole number blank
  | fraction digits decimals number decimal => exact Rule.first?_fraction number decimal blank
  | mark spelling kind listed => exact Rule.first?_mark listed blank
  | string content => exact Rule.first?_string content.toList
  | character content => exact Rule.first?_character
  | inclusion header inLine => exact Rule.first?_inclusion inLine

theorem token?_spelling (lexeme : Lexeme) :
    lexeme.rule.token? lexeme.spelling = some lexeme.token := by
  cases lexeme with
  | reserved word kind listed =>
    obtain ⟨-, -, found⟩ := reserved_word _ listed
    simp [rule, Rule.token?, spelling, token, found]
  | identifier name word free other => simp [rule, Rule.token?, spelling, token, free]
  | whole digits number => simp [rule, Rule.token?, spelling, token]
  | fraction digits decimals number decimal =>
    simp [rule, Rule.token?, spelling, token, String.ext_iff]
  | mark spelling kind listed => rfl
  | string content =>
    simp only [rule, Rule.token?, spelling, inside_quoted, unescape_content (.inl rfl), token,
      String.ofList_toList]
  | character content =>
    have content := unescape_content (.inr rfl) [content]
    rw [List.flatMap_singleton] at content
    simp only [rule, Rule.token?, spelling, inside_quoted, content, token]
    rfl
  | inclusion header inLine =>
    have enclosed : Curly.header (inclusion header inLine).spelling = header.toList :=
      inside_quoted '<' '>' header.toList
    simp only [rule, Rule.token?, enclosed, token, String.ofList_toList]

theorem spelling_ne_nil (lexeme : Lexeme) : lexeme.spelling ≠ [] := by
  intro empty
  have found := @lexeme.first?_spelling ' ' [] (by decide)
  rw [empty] at found
  exact lexeme.rule.length?_ne_zero _ (Rule.first?_eq_some found).1

/-- White space would be read by another rule. -/
theorem spelling_solid (lexeme : Lexeme) (front : lexeme.spelling.head? = some c) :
    Text.isBlank c = false := by
  rw [← Bool.not_eq_true]
  intro blank
  obtain ⟨more, split⟩ := List.head?_eq_some_iff.mp front
  have found := @lexeme.first?_spelling ' ' [] (by decide)
  have covers : Rule.blanks.length? (lexeme.spelling ++ [' ']) ≠ none := by
    simp [split, Rule.length?, Rule.nonzero, countFront, blank]
  obtain ⟨length, covers⟩ := Option.ne_none_iff_exists'.mp covers
  have blanks := @Rule.first?_of_earliest _ .blanks [] _ length rfl .nil covers
  rw [found] at blanks
  have other : lexeme.rule ≠ .blanks := by cases lexeme <;> exact Rule.noConfusion
  exact other (Prod.mk.inj (Option.some.inj blanks)).1

end Lexeme

/-- The kinds and values that a text is read as, where reading begins at `p`. -/
def readings (p : Position) (text : List Char) : Except SyntaxError (List (Token.Kind × String)) :=
  (scan 0 p text).map (List.map fun token => (token.kind, token.value))

theorem readings_first {rule : Rule} {lexeme following : List Char} (p : Position)
    (found : Rule.first? (lexeme ++ following) = some (rule, lexeme.length)) :
    readings p (lexeme ++ following) =
      (readings (p.afterAll lexeme) following).map ((rule.token? lexeme).toList ++ ·) := by
  cases lexeme with
  | nil => exact absurd (Rule.first?_eq_some found).1 (rule.length?_ne_zero _)
  | cons c lexeme =>
    rw [List.cons_append] at found
    have taken : (c :: (lexeme ++ following)).take (c :: lexeme).length = c :: lexeme :=
      List.take_left
    simp only [readings, List.cons_append, scan, found, taken]
    rw [scan_pending, List.length_cons, Nat.add_sub_cancel, List.take_left, List.drop_left,
      ← Position.afterAll_cons]
    cases rule.token? (c :: lexeme) <;> cases scan 0 (p.afterAll (c :: lexeme)) following <;> rfl

theorem written_solid (written : List Written)
    (front : (written.flatMap Written.text).head? = some c) : Text.isBlank c = false := by
  cases written with
  | nil => exact nomatch front
  | cons first written =>
    refine first.lexeme.spelling_solid ?_
    rw [List.flatMap_cons, Written.text, List.append_assoc] at front
    rwa [List.head?_append_of_ne_nil _ first.lexeme.spelling_ne_nil] at front

theorem readings_written (p : Position) (written : List Written) :
    readings p (written.flatMap Written.text) =
      .ok (written.map (·.lexeme.token) ++ [(.eof, "EOF")]) := by
  induction written generalizing p with
  | nil => rfl
  | cons first written ih =>
    obtain ⟨lexeme, gap, apart, blank⟩ := first
    have behind : readings (p.afterAll lexeme.spelling) (gap ++ written.flatMap Written.text) =
        .ok (written.map (·.lexeme.token) ++ [(.eof, "EOF")]) := by
      rw [readings_first _ (Rule.first?_blanks apart blank fun c => written_solid written), ih]
      rfl
    obtain ⟨b, gap, rfl⟩ := List.exists_cons_of_ne_nil apart
    have found : Rule.first? (lexeme.spelling ++ (b :: gap ++ written.flatMap Written.text)) =
        some (lexeme.rule, lexeme.spelling.length) :=
      lexeme.first?_spelling (blank b (by simp))
    rw [List.flatMap_cons, Written.text, List.append_assoc, readings_first p found, behind,
      lexeme.token?_spelling]
    rfl

/-- Whatever lexemes are written one behind the other, with white space between them, are read
again as they are. -/
theorem tokenize_written (written : List Written) :
    (tokenize (String.ofList (written.flatMap Written.text))).map
        (List.map fun token => (token.kind, token.value)) =
      .ok (written.map (·.lexeme.token) ++ [(.eof, "EOF")]) := by
  rw [tokenize, String.toList_ofList]
  exact readings_written .start written

/-- The word of inclusions is read together with a header behind it. -/
example : (tokenize "include <h> ").map (List.map Token.kind) = .ok [.inclusion, .eof] := by
  decide +kernel

end Curly
