import Curly.Proofs.Decimal.Whole

/-! How the text of a number begins. A decimal without a sign is read as a number without one, and
that is written with a digit in front, unless it is infinite. -/
namespace Curly

/-- The text begins with a digit. -/
def Digital (text : List Char) : Prop :=
  text.head?.any Char.isDigit

instance (text : List Char) : Decidable (Digital text) :=
  inferInstanceAs (Decidable (text.head?.any Char.isDigit = true))

theorem Digital.append {front : List Char} (digital : Digital front) (text : List Char) :
    Digital (front ++ text) := by
  cases front with
  | nil => exact nomatch digital
  | cons c front => exact digital

theorem digital_of_all {text : List Char} (nonempty : text ≠ []) (digits : text.all Char.isDigit) :
    Digital text := by
  obtain ⟨c, text, rfl⟩ := List.exists_cons_of_ne_nil nonempty
  rw [List.all_cons, Bool.and_eq_true] at digits
  simpa [Digital] using digits.1

theorem digital_toDigits (n : Nat) : Digital (Nat.toDigits 10 n) :=
  digital_of_all Nat.toDigits_ne_nil (all_isDigit_toDigits n)

theorem digital_take {text : List Char} (digital : Digital text) {n : Nat} (some : n ≠ 0) :
    Digital (text.take n) := by
  obtain ⟨n, rfl⟩ := Nat.exists_eq_succ_of_ne_zero some
  cases text with
  | nil => exact nomatch digital
  | cons c text => exact digital

theorem toLower_of_isDigit {c : Char} (digit : c.isDigit) : c.toLower = c := by
  simp only [Char.isDigit, Bool.and_eq_true, decide_eq_true_eq, ge_iff_le,
    UInt32.le_iff_toNat_le] at digit
  refine dif_neg fun upper => ?_
  simp only [ge_iff_le, UInt32.le_iff_toNat_le] at upper
  simp at digit upper
  omega

theorem digital_map_toLower {text : List Char} (digital : Digital text) :
    Digital (text.map Char.toLower) := by
  cases text with
  | nil => exact nomatch digital
  | cons c text =>
    have digit : c.isDigit := by simpa [Digital] using digital
    simpa [Digital, toLower_of_isDigit digit] using digital

theorem takeSign_of_digital {text : List Char} (digital : Digital text) :
    takeSign text = (false, text) := by
  unfold takeSign
  split
  · exact nomatch digital
  · exact nomatch digital
  · rfl

/-- What is read without a sign is no negative number. -/
theorem exists_nat_of_readInt? {text : String} {value : Int} (digital : Digital text.toList)
    (read : readInt? text = some value) : ∃ n : Nat, value = n := by
  rw [readInt?, Option.filter_eq_some_iff, readWhole?, takeSign_of_digital digital] at read
  simp only [Option.ite_none_left_eq_some, Option.some.injEq] at read
  exact ⟨_, read.1.2.symm⟩

namespace Double

/-- A number without a sign that is defined. -/
def Unsigned : Double → Prop
  | .nan => False
  | .infinite negative | .finite negative _ _ => negative = false

theorem unsigned_ofRatio (num den : Nat) : (ofRatio false num den).Unsigned := by
  unfold ofRatio
  split
  · exact Eq.refl false
  · extract_lets exponent scaled rounded
    clear_value exponent rounded
    -- The comparison with the bound is put away, as checking a split of it unfolds the bound.
    generalize (if rounded = significandBound then _ else _) = pair
    obtain ⟨significand, exponent⟩ := pair
    dsimp only
    split <;> exact Eq.refl false

theorem unsigned_ofDecimal (digits : Nat) (scale : Int) :
    (ofDecimal false digits scale).Unsigned := by
  unfold ofDecimal
  dsimp only
  split
  · exact Eq.refl false
  · split
    · exact Eq.refl false
    · split <;> exact unsigned_ofRatio _ _

theorem digital_withPoint {digits : List Char} (digital : Digital digits) (whole : Int) :
    Digital (withPoint digits whole) := by
  unfold withPoint
  split
  · rfl
  · split
    · exact ((digital_take digital (by omega)).append _).append _
    · exact ((digital.append _).append _)

theorem digital_decimalText (d : Decimal) : Digital (decimalText d) := by
  have digital := digital_toDigits d.digits
  unfold decimalText
  dsimp only
  split
  · exact digital_withPoint digital _
  · exact (((digital_take digital Nat.one_ne_zero).append _).append _).append _

theorem text_of_unsigned {d : Double} (unsigned : d.Unsigned) :
    d.text = "inf" ∨ Digital d.text.toList := by
  cases d with
  | nan => exact unsigned.elim
  | infinite negative =>
    obtain rfl : negative = false := unsigned
    exact .inl rfl
  | finite negative significand exponent =>
    obtain rfl : negative = false := unsigned
    right
    simp only [text, minus, Bool.false_eq_true, if_false, List.nil_append, String.toList_ofList]
    split
    · rfl
    · exact digital_decimalText _

theorem unsigned_readDecimal? {text : List Char} {d : Double}
    (read : readDecimal? false text = some d) : d.Unsigned := by
  simp only [readDecimal?, Option.ite_none_left_eq_some, Option.map_eq_some_iff] at read
  obtain ⟨-, exponent, -, rfl⟩ := read
  exact unsigned_ofDecimal _ _

theorem unsigned_read? {text : String} {d : Double} (digital : Digital text.toList)
    (read : read? text = some d) : d.Unsigned := by
  have other : String.ofList (text.toList.map Char.toLower) ≠ "nan" := by
    intro same
    have letters : text.toList.map Char.toLower = "nan".toList := by
      rw [← same, String.toList_ofList]
    exact absurd (letters ▸ digital_map_toLower digital) (by decide)
  rw [read?, takeSign_of_digital digital] at read
  simp only [other, if_false] at read
  split at read
  · obtain rfl := Option.some.inj read
    rfl
  · exact unsigned_readDecimal? read

end Double
end Curly
