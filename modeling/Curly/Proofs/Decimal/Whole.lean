import Curly.Decimal.Numeral

/-! Whole numbers read back from their text. -/
namespace Curly

theorem digitsValue_toDigits (n : Nat) : digitsValue (Nat.toDigits 10 n) = n := by
  rw [digitsValue, ← Nat.ofDigitChars_eq_foldl, Nat.ofDigitChars_ten_toDigits]

theorem all_isDigit_toDigits (n : Nat) : (Nat.toDigits 10 n).all Char.isDigit = true := by
  rw [List.all_eq_true]
  exact fun c member => Nat.isDigit_of_mem_toDigits (by decide) (by decide) member

theorem feed_not_mem_toDigits (n : Nat) : '\n' ∉ Nat.toDigits 10 n :=
  fun member => absurd (List.all_eq_true.mp (all_isDigit_toDigits n) _ member) (by decide)

theorem takeSign_toDigits (n : Nat) :
    takeSign (Nat.toDigits 10 n) = (false, Nat.toDigits 10 n) := by
  have digits := all_isDigit_toDigits n
  unfold takeSign
  split
  · rename_i same
    rw [same, List.all_cons, Bool.and_eq_true] at digits
    exact absurd digits.1 (by decide)
  · rename_i same
    rw [same, List.all_cons, Bool.and_eq_true] at digits
    exact absurd digits.1 (by decide)
  · rfl

theorem toList_toString_negSucc (n : Nat) :
    (toString (Int.negSucc n)).toList = '-' :: Nat.toDigits 10 (n + 1) := by
  rw [Int.toString_eq_repr, Int.repr_eq_if, if_neg (by omega)]
  simp

theorem readWhole?_toString (n : Int) : readWhole? (toString n).toList = some n := by
  cases n with
  | ofNat n =>
    have text : (toString (Int.ofNat n)).toList = Nat.toDigits 10 n := Nat.toList_repr
    rw [text, readWhole?, takeSign_toDigits]
    simp [all_isDigit_toDigits, digitsValue_toDigits, Nat.toDigits_ne_nil]
  | negSucc n =>
    rw [toList_toString_negSucc, readWhole?, takeSign]
    simp [all_isDigit_toDigits, digitsValue_toDigits, Nat.toDigits_ne_nil, Int.negSucc_eq]

theorem readInt?_toString {n : Int} (least : -wholeBound ≤ n) (bound : n < wholeBound) :
    readInt? (toString n) = some n := by
  rw [readInt?, readWhole?_toString, Option.filter_some, if_pos]
  rw [Bool.and_eq_true, decide_eq_true_eq, decide_eq_true_eq]
  exact ⟨least, bound⟩

end Curly
