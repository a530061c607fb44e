import Curly.Tokens
import Curly.Proofs.Text.Rules

/-! What reading a text comes to. The text is cut into slices, and each slice is what the first
rule with a match takes of the text from there on. The tokens are the slices that are neither white
space nor comments, each with the places where it begins and ends. Reading stops at a character
where no rule has a match. -/
namespace Curly

namespace Position

/-- The place behind a text: the number of its lines and of the characters on the last one, both
counted from one. -/
def behind (text : List Char) : Position :=
  ⟨1 + text.count '\n', 1 + (text.reverse.takeWhile (· ≠ '\n')).length⟩

theorem afterAll_behind (before text : List Char) :
    (behind before).afterAll text = behind (before ++ text) := by
  induction text generalizing before with
  | nil => simp
  | cons c text ih =>
    have step : (behind before).after c = behind (before ++ [c]) := by
      rw [after]
      split <;> simp_all [behind, Nat.add_assoc, Nat.add_comm]
    rw [afterAll_cons, step, ih, List.append_assoc, List.singleton_append]

end Position

namespace Rule

/-- The other rule has a match wherever this one has, and may take less. -/
def outlasts : Rule → Rule → Bool
  | .fraction, .whole => true
  | .mark long _, .mark short _ =>
    short.toList.isPrefixOf long.toList && short.length < long.length
  | _, _ => false

theorem outlasts_order : all.Pairwise fun rule other => other.outlasts rule = false := by
  decide +kernel

theorem outlasts_irrefl (rule : Rule) : rule.outlasts rule = false := by
  cases rule <;> simp [outlasts]

/-- A rule that can take more than another one is tried before it. -/
theorem mem_earlier {rule other : Rule} {earlier later : List Rule}
    (order : all = earlier ++ rule :: later) (listed : other ∈ all) (more : other.outlasts rule) :
    other ∈ earlier := by
  have pairwise := outlasts_order
  rw [order, List.pairwise_append, List.pairwise_cons] at pairwise
  rw [order, List.mem_append, List.mem_cons] at listed
  rcases listed with early | rfl | late
  · exact early
  · rw [other.outlasts_irrefl] at more
    exact nomatch more
  · rw [pairwise.2.1.1 other late] at more
    exact nomatch more

/-- The characters that follow a lexeme go on with it. -/
def Continues : Rule → (lexeme following : List Char) → Prop
  | .word, _, following => following.head?.any isWordPart
  | .fraction, _, following => following.head?.any Char.isDigit
  | .whole, _, following =>
    following.head?.any Char.isDigit ∨
      ∃ rest, following = '.' :: rest ∧ rest.head?.any Char.isDigit
  | .mark _ _, lexeme, following =>
    ∃ entry ∈ Token.Kind.marks,
      lexeme.length < entry.1.toList.length ∧ entry.1.toList <+: lexeme ++ following
  | _, _, _ => False

end Rule

/-- A part of a text with the rule that covers it. -/
structure Slice where
  rule : Rule
  lexeme : List Char

namespace Slice

/-- The slice is what the first rule with a match takes of a text. -/
structure First (slice : Slice) (following : List Char) : Prop where
  /-- No rule before this one has a match. -/
  earliest : ∃ earlier later, Rule.all = earlier ++ slice.rule :: later ∧
    ∀ rule ∈ earlier, rule.pattern.match? (slice.lexeme ++ following) = none
  matched : slice.rule.pattern.match? (slice.lexeme ++ following) = some following
  nonempty : slice.lexeme ≠ []
  complete : ¬ slice.rule.Continues slice.lexeme following

/-- The token that the slice is behind a text, if it is one. -/
def token? (slice : Slice) (before : List Char) : Option Token :=
  (slice.rule.token? slice.lexeme).map fun (kind, value) =>
    ⟨kind, value, ⟨.behind before, .behind (before ++ slice.lexeme)⟩⟩

end Slice

def spelled (slices : List Slice) : List Char :=
  slices.flatMap Slice.lexeme

/-- The slices one behind the other, with `rest` behind the last. -/
inductive Cut : List Slice → (rest : List Char) → Prop
  | nil (rest : List Char) : Cut [] rest
  | cons {slice : Slice} {slices : List Slice} {rest : List Char} :
    slice.First (spelled slices ++ rest) → Cut slices rest → Cut (slice :: slices) rest

def tokensOf (before : List Char) : List Slice → List Token
  | [] => [.eof (.behind before)]
  | slice :: slices => (slice.token? before).toList ++ tokensOf (before ++ slice.lexeme) slices

/-- What reading `text` behind `before` comes to. -/
inductive Lexed (before text : List Char) : Except SyntaxError (List Token) → Prop
  | all (slices : List Slice) : text = spelled slices → Cut slices [] →
    Lexed before text (.ok (tokensOf before slices))
  | upTo (slices : List Slice) (c : Char) (rest : List Char) :
    text = spelled slices ++ c :: rest → Cut slices (c :: rest) →
    (∀ rule ∈ Rule.all, rule.pattern.match? (c :: rest) = none) →
    Lexed before text
      (.error ⟨.unrecognised (String.singleton c), .behind (before ++ spelled slices)⟩)

theorem scan_pending (pending : Nat) (p : Position) (text : List Char) :
    scan pending p text = scan 0 (p.afterAll (text.take pending)) (text.drop pending) := by
  induction text generalizing pending p with
  | nil => cases pending <;> simp [scan]
  | cons c text ih =>
    cases pending with
    | zero => rfl
    | succ pending => rw [scan, ih]; rfl

theorem not_any_dropWhile (p : Char → Bool) (text : List Char) :
    (text.dropWhile p).head?.any p = false := by
  have first := List.head?_dropWhile_not p text
  cases h : (text.dropWhile p).head? <;> simp_all

namespace Rule

variable {rule : Rule} {text lexeme following : List Char} {length : Nat}

theorem first?_eq_some (found : first? text = some (rule, length)) :
    rule.length? text = some length ∧ ∃ earlier later, all = earlier ++ rule :: later ∧
      ∀ other ∈ earlier, other.length? text = none := by
  obtain ⟨earlier, first, later, order, here, others⟩ := List.findSome?_eq_some_iff.mp found
  obtain ⟨n, covers, same⟩ := Option.map_eq_some_iff.mp here
  obtain ⟨rfl, rfl⟩ := Prod.mk.inj same
  exact ⟨covers, earlier, later, order, fun other mem =>
    Option.map_eq_none_iff.mp (others other mem)⟩

theorem match?_plus_eq_some {p : Char → Bool} :
    (Pattern.plus (.one p)).match? text = some following ↔
      countFront p text ≠ 0 ∧ text.dropWhile p = following := by
  rw [match?_plus, ← drop_countFront, nonzero]
  split <;> simp_all

theorem word_complete (matched : word.pattern.match? text = some following) :
    following.head?.any isWordPart = false := by
  cases text with
  | nil => simp [pattern] at matched
  | cons c text =>
    rw [pattern, Pattern.match?_seq_one_cons, Pattern.match?_many_one] at matched
    split at matched
    · obtain rfl := Option.some.inj matched
      exact not_any_dropWhile isWordPart text
    · exact absurd matched (Option.some_ne_none following).symm

theorem whole_complete (matched : whole.pattern.match? text = some following) :
    following.head?.any Char.isDigit = false := by
  rw [← (match?_plus_eq_some.mp matched).2]
  exact not_any_dropWhile _ _

theorem fraction_complete (matched : fraction.pattern.match? text = some following) :
    following.head?.any Char.isDigit = false := by
  rw [match?_fraction_whole] at matched
  split at matched
  · exact nomatch matched
  · cases behind : text.drop (countFront Char.isDigit text) with
    | nil => simp [behind] at matched
    | cons c rest =>
      rw [behind, Pattern.match?_seq_char_cons] at matched
      split at matched
      · rw [← (match?_plus_eq_some.mp matched).2]
        exact not_any_dropWhile _ _
      · exact nomatch matched

/-- A fraction matches where a whole number ends before a point and a digit. -/
theorem fraction_matched {rest : List Char}
    (matched : whole.pattern.match? text = some ('.' :: rest))
    (digit : rest.head?.any Char.isDigit) :
    fraction.pattern.match? text ≠ none := by
  obtain ⟨some, behind⟩ := match?_plus_eq_some.mp matched
  obtain ⟨d, rest, rfl⟩ : ∃ d tail, rest = d :: tail := by
    cases rest with
    | nil => exact nomatch digit
    | cons d rest => exact ⟨d, rest, rfl⟩
  rw [match?_fraction_whole, if_neg some, drop_countFront, behind, Pattern.match?_seq_char_cons,
    if_pos rfl, Pattern.plus, Pattern.match?_seq_one_cons, if_pos (by simpa using digit),
    Pattern.match?_many_one]
  exact Option.some_ne_none _

theorem literal_eq {word : List Char}
    (matched : (Pattern.literal word).match? (lexeme ++ following) = some following) :
    lexeme = word := by
  rw [Pattern.match?_literal] at matched
  split at matched
  next opens =>
    obtain ⟨rest, split⟩ := List.isPrefixOf_iff_prefix.mp opens
    rw [← split, List.drop_left] at matched
    obtain rfl := Option.some.inj matched
    exact (List.append_cancel_right split).symm
  next => exact nomatch matched

/-- What a match leaves does not go on with what it takes. -/
theorem not_continues {earlier later : List Rule} (order : all = earlier ++ rule :: later)
    (others : ∀ other ∈ earlier, other.pattern.match? (lexeme ++ following) = none)
    (matched : rule.pattern.match? (lexeme ++ following) = some following) :
    ¬ rule.Continues lexeme following := by
  intro continues
  cases rule with
  | word => exact Bool.false_ne_true (word_complete matched ▸ continues)
  | fraction => exact Bool.false_ne_true (fraction_complete matched ▸ continues)
  | whole =>
    rcases continues with digit | ⟨rest, rfl, digit⟩
    · exact Bool.false_ne_true (whole_complete matched ▸ digit)
    · have early : fraction ∈ earlier := mem_earlier order (by simp [all]) rfl
      exact fraction_matched matched digit (others _ early)
  | mark spelling kind =>
    obtain ⟨entry, mem, longer, front⟩ := continues
    obtain rfl : lexeme = spelling.toList := literal_eq matched
    have early : mark entry.1 entry.2 ∈ earlier := by
      refine mem_earlier order (by simpa [all] using mem) ?_
      have prefixed :=
        List.prefix_of_prefix_length_le (List.prefix_append _ _) front (Nat.le_of_lt longer)
      simpa [outlasts, prefixed, String.length_toList] using longer
    have unmatched := others _ early
    rw [pattern, Pattern.match?_literal, if_pos (List.isPrefixOf_iff_prefix.mpr front)] at unmatched
    exact Option.some_ne_none _ unmatched
  | _ => exact continues

end Rule

namespace Slice

/-- What the first rule with a match takes. -/
theorem first_take {rule : Rule} {text : List Char} {length : Nat}
    (found : Rule.first? text = some (rule, length)) (characters : text ≠ []) :
    First ⟨rule, text.take length⟩ (text.drop length) := by
  obtain ⟨covers, earlier, later, order, others⟩ := Rule.first?_eq_some found
  have matched : rule.pattern.match? (text.take length ++ text.drop length) =
      some (text.drop length) := by
    rw [List.take_append_drop, Rule.match?_pattern text (by simp [order]), covers]
    rfl
  have unmatched (other : Rule) (mem : other ∈ earlier) :
      other.pattern.match? (text.take length ++ text.drop length) = none := by
    rw [List.take_append_drop, Rule.match?_pattern text (by simp [order, mem]), others other mem]
    rfl
  have nonempty : text.take length ≠ [] := by
    rw [Ne, List.take_eq_nil_iff, not_or]
    exact ⟨fun zero => rule.length?_ne_zero text (zero ▸ covers), characters⟩
  exact ⟨⟨earlier, later, order, unmatched⟩, matched, nonempty,
    Rule.not_continues order unmatched matched⟩

end Slice

/-- A slice before what the text behind it comes to. -/
theorem Lexed.cons {slice : Slice} (before : List Char) {following : List Char}
    {result : Except SyntaxError (List Token)} (first : slice.First following)
    (lexed : Lexed (before ++ slice.lexeme) following result) :
    Lexed before (slice.lexeme ++ following)
      (match slice.token? before with
      | none => result
      | some token => result.map (token :: ·)) := by
  cases lexed with
  | all slices same cut =>
    subst same
    have whole : Cut (slice :: slices) [] := .cons (by simpa using first) cut
    have lexed := @Lexed.all before _ _ rfl whole
    cases token : slice.token? before <;> simpa [spelled, tokensOf, token, Except.map] using lexed
  | upTo slices c rest same cut unmatched =>
    subst same
    have whole : Cut (slice :: slices) (c :: rest) := .cons first cut
    have lexed := @Lexed.upTo before _ _ c rest rfl whole unmatched
    cases token : slice.token? before <;> simpa [spelled, Except.map] using lexed

theorem scan_rest {length : Nat} (some : length ≠ 0) (before : List Char) (c : Char)
    (rest : List Char) :
    scan (length - 1) ((Position.behind before).after c) rest =
      scan 0 (.behind (before ++ (c :: rest).take length)) ((c :: rest).drop length) := by
  obtain ⟨length, rfl⟩ := Nat.exists_eq_succ_of_ne_zero some
  rw [scan_pending, ← Position.afterAll_behind]
  rfl

theorem lexed_scan (before text : List Char) :
    Lexed before text (scan 0 (.behind before) text) := by
  -- A slice takes at least a character, so what is left of the text is shorter.
  induction whole : text.length using Nat.strongRecOn generalizing before text with
  | _ size ih =>
    cases text with
    | nil =>
      rw [scan]
      exact .all [] rfl (.nil [])
    | cons c rest =>
      rw [scan]
      cases found : Rule.first? (c :: rest) with
      | none =>
        have unmatched (rule : Rule) (listed : rule ∈ Rule.all) :
            rule.pattern.match? (c :: rest) = none := by
          have uncovered := List.findSome?_eq_none_iff.mp found rule listed
          rw [Rule.match?_pattern _ listed, Option.map_eq_none_iff.mp uncovered]
          rfl
        simpa [spelled] using @Lexed.upTo before _ [] c rest rfl (.nil _) unmatched
      | some covered =>
        obtain ⟨rule, length⟩ := covered
        have some : length ≠ 0 := fun zero =>
          rule.length?_ne_zero _ (zero ▸ (Rule.first?_eq_some found).1)
        have shorter : ((c :: rest).drop length).length < size := by
          rw [← whole, List.length_drop]
          exact Nat.sub_lt (Nat.succ_pos _) (Nat.pos_of_ne_zero some)
        have lexed := Lexed.cons before
          (Slice.first_take found (List.cons_ne_nil c rest)) (ih _ shorter _ _ rfl)
        rw [List.take_append_drop] at lexed
        simp only [scan_rest some, Position.afterAll_behind]
        cases token : rule.token? ((c :: rest).take length) <;>
          simpa [Slice.token?, token] using lexed

/-- A token is one of the slices, or the end mark. -/
theorem mem_tokensOf {before rest : List Char} {slices : List Slice} {t : Token}
    (cut : Cut slices rest) (listed : t ∈ tokensOf before slices) :
    t.kind = .eof ∨ ∃ front slice back, slices = front ++ slice :: back ∧
      slice.First (spelled back ++ rest) ∧ slice.token? (before ++ spelled front) = some t := by
  induction cut generalizing before with
  | nil =>
    obtain rfl := List.mem_singleton.mp listed
    exact .inl rfl
  | @cons slice slices _ first _ ih =>
    rcases List.mem_append.mp listed with here | later
    · refine .inr ⟨[], slice, slices, rfl, first, ?_⟩
      simpa [spelled] using Option.mem_toList.mp here
    · refine (ih later).imp_right ?_
      rintro ⟨front, found, back, rfl, first, token⟩
      exact ⟨slice :: front, found, back, rfl, first, by simpa [spelled] using token⟩

/-- What stands in the text where a token comes from. -/
theorem exists_slice_of_tokenize {source : String} {tokens : List Token} {t : Token}
    (read : tokenize source = .ok tokens) (listed : t ∈ tokens) (solid : t.kind ≠ .eof) :
    ∃ (before : List Char) (slice : Slice) (following : List Char),
      source.toList = before ++ (slice.lexeme ++ following) ∧
      slice.First following ∧ slice.token? before = some t := by
  have lexed : Lexed [] source.toList (tokenize source) := lexed_scan [] source.toList
  rw [read] at lexed
  obtain ⟨slices, whole, cut⟩ := lexed
  obtain ⟨front, slice, back, rfl, first, token⟩ := (mem_tokensOf cut listed).resolve_left solid
  exact ⟨spelled front, slice, spelled back, by simpa [spelled] using whole,
    by simpa using first, token⟩

/-- Reading loses nothing and invents nothing: a text is its slices, up to a character that begins
none where it has one. -/
theorem lexed_tokenize (source : String) : Lexed [] source.toList (tokenize source) :=
  lexed_scan [] source.toList

end Curly
