import Curly.Text.Quoted

/-! Quoted text read back. What is written for one character tells it apart from every other, also
with more text behind, and where the delimiter stands the text is at its end. So two texts are
quoted alike only if they are the same, and no line ends in a quoted text. -/
namespace Curly.Text

def hexDigit (c : Char) : Nat :=
  if c.isDigit then c.toNat - '0'.toNat else c.toNat - 'a'.toNat + 10

def hexValue (digits : List Char) : Nat :=
  digits.foldl (fun value digit => 16 * value + hexDigit digit) 0

theorem digitChar_hex : ∀ n < 16, hexDigit n.digitChar = n ∧ n.digitChar.isAlphanum := by
  decide

/-- A number read back from its digits, which are small letters and decimal digits. -/
theorem toDigits_hex (n : Nat) :
    hexValue (Nat.toDigits 16 n) = n ∧ ∀ c ∈ Nat.toDigits 16 n, c.isAlphanum := by
  induction n using Nat.base_induction 16 (by decide) with
  | single n small =>
    obtain ⟨value, letter⟩ := digitChar_hex n small
    rw [Nat.toDigits_of_lt_base small]
    exact ⟨by simp [hexValue, value], List.forall_mem_singleton.mpr letter⟩
  | digit n k small some ih =>
    obtain ⟨value, letter⟩ := digitChar_hex k small
    obtain ⟨before, letters⟩ := ih
    rw [← Nat.toDigits_append_toDigits (by decide) some small, Nat.toDigits_of_lt_base small]
    refine ⟨?_, List.forall_mem_append.mpr ⟨letters, List.forall_mem_singleton.mpr letter⟩⟩
    rw [hexValue] at before ⊢
    simp [before, value]

/-- One character read back from a quoted text, with the text behind it. -/
def unquote? : List Char → Option (Char × List Char)
  | '\\' :: '0' :: rest => some ('\x00', rest)
  | '\\' :: 't' :: rest => some ('\t', rest)
  | '\\' :: 'r' :: rest => some ('\r', rest)
  | '\\' :: 'n' :: rest => some ('\n', rest)
  | '\\' :: 'u' :: '\x7b' :: rest =>
    -- No digit is the brace behind them, so they end there.
    some (.ofNat (hexValue (rest.takeWhile Char.isAlphanum)),
      (rest.dropWhile Char.isAlphanum).tail)
  | '\\' :: c :: rest => some (c, rest)
  | c :: rest => some (c, rest)
  | [] => none

theorem unquote?_codePoint (c : Char) (rest : List Char) :
    unquote? (codePoint c ++ rest) = some (c, rest) := by
  obtain ⟨value, letters⟩ := toDigits_hex c.toNat
  have digits : (Nat.toDigits 16 c.toNat ++ '\x7d' :: rest).takeWhile Char.isAlphanum =
      Nat.toDigits 16 c.toNat := by
    rw [List.takeWhile_append_of_pos letters]
    simp
  have behind : (Nat.toDigits 16 c.toNat ++ '\x7d' :: rest).dropWhile Char.isAlphanum =
      '\x7d' :: rest := by
    rw [List.dropWhile_append_of_pos letters]
    rfl
  simp only [codePoint, List.cons_append, List.nil_append, List.append_assoc, unquote?, digits,
    behind, value, List.tail_cons, Char.ofNat_toNat]

section

variable {delimiter : Char} (quote : delimiter = '"' ∨ delimiter = '\'')

include quote

theorem unquote?_quotedChar (c : Char) (rest : List Char) :
    unquote? (quotedChar delimiter c ++ rest) = some (c, rest) := by
  unfold quotedChar
  split
  next null => exact null ▸ rfl
  split
  next tab => exact tab ▸ rfl
  split
  next back => exact back ▸ rfl
  split
  next feed => exact feed ▸ rfl
  split
  next slash =>
    obtain rfl := slash
    rfl
  split
  next same =>
    obtain rfl := same
    rcases quote with rfl | rfl <;> rfl
  split
  next => exact unquote?_codePoint c rest
  next slash _ _ => simp [unquote?, slash]

/-- What is written for a character is no beginning of what is written for another one. -/
theorem quotedChar_append_inj {c d : Char} {rest others : List Char}
    (same : quotedChar delimiter c ++ rest = quotedChar delimiter d ++ others) :
    c = d ∧ rest = others := by
  have read := congrArg unquote? same
  rw [unquote?_quotedChar quote, unquote?_quotedChar quote] at read
  exact Prod.mk.inj (Option.some.inj read)

/-- No character is written with the delimiter in front. -/
theorem quotedChar_append_ne (c : Char) (rest others : List Char) :
    quotedChar delimiter c ++ rest ≠ delimiter :: others := by
  intro same
  have read : some (c, rest) = some (delimiter, others) := by
    rw [← unquote?_quotedChar quote c rest, same]
    rcases quote with rfl | rfl <;> rfl
  obtain ⟨rfl, rfl⟩ := Prod.mk.inj (Option.some.inj read)
  -- So the character is the delimiter itself, and that is written with two characters.
  have escaped : quotedChar c c = ['\\', c] := by
    rcases quote with rfl | rfl <;> rfl
  rw [escaped] at same
  exact absurd (congrArg List.length same) (by simp)

theorem flatMap_quotedChar_inj {text other : List Char}
    (same : text.flatMap (quotedChar delimiter) ++ [delimiter] =
      other.flatMap (quotedChar delimiter) ++ [delimiter]) : text = other := by
  induction text generalizing other with
  | nil =>
    cases other with
    | nil => rfl
    | cons d other =>
      rw [List.flatMap_cons, List.append_assoc] at same
      exact absurd same.symm (quotedChar_append_ne quote d _ [])
  | cons c text ih =>
    rw [List.flatMap_cons, List.append_assoc] at same
    cases other with
    | nil => exact absurd same (quotedChar_append_ne quote c _ [])
    | cons d other =>
      rw [List.flatMap_cons, List.append_assoc] at same
      obtain ⟨rfl, rest⟩ := quotedChar_append_inj quote same
      rw [ih rest]

theorem quotedWith_inj {text other : List Char}
    (same : quotedWith delimiter text = quotedWith delimiter other) : text = other := by
  have letters := congrArg String.toList same
  simp only [quotedWith, String.toList_ofList, List.cons_append] at letters
  exact flatMap_quotedChar_inj quote (List.cons.inj letters).2

/-- A line feed is written with a letter, and all that is written beside is no line feed. -/
theorem feed_not_mem_quotedChar (c : Char) : '\n' ∉ quotedChar delimiter c := by
  have digits : '\n' ∉ Nat.toDigits 16 c.toNat :=
    fun member => absurd ((toDigits_hex c.toNat).2 _ member) (by decide)
  have plain : '\n' ≠ delimiter := by
    rcases quote with rfl | rfl <;> decide
  have point : '\n' ∉ codePoint c := by simp [codePoint, digits]
  grind [quotedChar]

theorem feed_not_mem_quotedWith (text : List Char) :
    '\n' ∉ (quotedWith delimiter text).toList := by
  have plain : '\n' ≠ delimiter := by
    rcases quote with rfl | rfl <;> decide
  have inside : '\n' ∉ text.flatMap (quotedChar delimiter) := by
    intro member
    obtain ⟨c, -, written⟩ := List.mem_flatMap.mp member
    exact feed_not_mem_quotedChar quote c written
  simp [quotedWith, plain, inside]

end

theorem quotedString_inj {s t : String} (same : quotedString s = quotedString t) : s = t :=
  String.toList_inj.mp (quotedWith_inj (.inl rfl) same)

theorem quotedCharacter_inj {c d : Char} (same : quotedCharacter c = quotedCharacter d) : c = d :=
  (List.cons.inj (quotedWith_inj (.inr rfl) same)).1

theorem quotedString_ne_quotedCharacter (s : String) (c : Char) :
    quotedString s ≠ quotedCharacter c := by
  intro same
  have letters := congrArg String.toList same
  simp [quotedString, quotedCharacter, quotedWith] at letters

end Curly.Text
