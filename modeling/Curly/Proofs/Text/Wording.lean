import Curly.Proofs.Text.Written

/-! How names and numbers are spelled. Their tokens keep the characters of the lexeme, and the rule
that took the lexeme tells which characters it can have. -/
namespace Curly

/-- A word that is not reserved. -/
structure IsName (text : String) : Prop where
  word : isWord text.toList
  free : Token.Kind.ofWord? text = none

/-- Digits with a point between two of them. -/
def IsFraction (text : String) : Prop :=
  ∃ digits decimals, isNumber digits ∧ isNumber decimals ∧ text.toList = digits ++ '.' :: decimals

/-- A text that a token of the kind can have. -/
structure Token.Kind.Spells (k : Token.Kind) (text : String) : Prop where
  name : k = .identifier → IsName text
  whole : k = .intLiteral → isNumber text.toList
  fraction : k = .floatLiteral → IsFraction text

def Token.Spelled (t : Token) : Prop :=
  t.kind.Spells t.value

namespace Token.Kind

theorem spells_of_ne {k : Kind} (name : k ≠ .identifier) (whole : k ≠ .intLiteral)
    (fraction : k ≠ .floatLiteral) (text : String) : k.Spells text :=
  ⟨fun same => absurd same name, fun same => absurd same whole, fun same => absurd same fraction⟩

theorem spells_of_reserved {k : Kind} {word : String} (known : ofWord? word = some k)
    (text : String) : k.Spells text := by
  have fixed : ∀ entry ∈ reserved,
      entry.2 ≠ .identifier ∧ entry.2 ≠ .intLiteral ∧ entry.2 ≠ .floatLiteral := by decide
  obtain ⟨before, behind, split, -⟩ := List.lookup_eq_some_iff.mp known
  obtain ⟨name, whole, fraction⟩ := fixed (word, k) (by simp [split])
  exact spells_of_ne name whole fraction text

theorem spells_of_mark {k : Kind} {spelling : String} (listed : (spelling, k) ∈ marks)
    (text : String) : k.Spells text := by
  have fixed : ∀ entry ∈ marks,
      entry.2 ≠ .identifier ∧ entry.2 ≠ .intLiteral ∧ entry.2 ≠ .floatLiteral := by decide
  obtain ⟨name, whole, fraction⟩ := fixed _ listed
  exact spells_of_ne name whole fraction text

end Token.Kind

variable {text lexeme : List Char} {length : Nat}

theorem take_countFront (p : Char → Bool) (text : List Char) :
    text.take (countFront p text) = text.takeWhile p := by
  exact (List.prefix_iff_eq_take.mp (List.takeWhile_prefix p)).symm

theorem isNumber_takeWhile (some : countFront Char.isDigit text ≠ 0) :
    isNumber (text.takeWhile Char.isDigit) := by
  have nonempty : text.takeWhile Char.isDigit ≠ [] := fun none => some (by simp [countFront, none])
  simp only [isNumber, Bool.and_eq_true, Bool.not_eq_true', List.isEmpty_eq_false_iff]
  exact ⟨nonempty, List.all_takeWhile⟩

namespace Rule

theorem isWord_take (covers : word.length? text = some length) : isWord (text.take length) := by
  cases text with
  | nil => exact nomatch covers
  | cons c rest =>
    simp only [length?, Option.ite_none_right_eq_some, Option.some.injEq] at covers
    obtain ⟨start, rfl⟩ := covers
    rw [Nat.add_comm, List.take_succ_cons, take_countFront, isWord, start, Bool.true_and]
    exact List.all_takeWhile

theorem isNumber_take (covers : whole.length? text = some length) :
    isNumber (text.take length) := by
  simp only [length?, nonzero, Option.ite_none_left_eq_some, Option.some.injEq] at covers
  obtain ⟨some, rfl⟩ := covers
  rw [take_countFront]
  exact isNumber_takeWhile some

theorem isFraction_take (covers : fraction.length? text = some length) :
    IsFraction (String.ofList (text.take length)) := by
  simp only [length?, fractionLength?] at covers
  split at covers
  next rest behind =>
    simp only [Option.ite_none_left_eq_some, Option.some.injEq, Bool.or_eq_true, decide_eq_true_eq,
      not_or] at covers
    obtain ⟨⟨whole, decimal⟩, rfl⟩ := covers
    refine ⟨_, _, isNumber_takeWhile whole, isNumber_takeWhile decimal, ?_⟩
    rw [String.toList_ofList, Nat.add_assoc, List.take_add, take_countFront, behind, Nat.add_comm,
      List.take_succ_cons, take_countFront]
  next => simp at covers

theorem spells_token? {rule : Rule} (listed : rule ∈ all) (covers : rule.length? text = some length)
    {k : Token.Kind} {value : String} (token : rule.token? (text.take length) = some (k, value)) :
    k.Spells value := by
  cases rule with
  | word =>
    obtain ⟨rfl, rfl⟩ := Prod.mk.inj (Option.some.inj token)
    cases reserved : Token.Kind.ofWord? (String.ofList (text.take length)) with
    | none => exact ⟨fun _ => ⟨by simpa using isWord_take covers, reserved⟩, by simp, by simp⟩
    | some k => exact Token.Kind.spells_of_reserved reserved _
  | fraction =>
    obtain ⟨rfl, rfl⟩ := Prod.mk.inj (Option.some.inj token)
    exact ⟨by simp, by simp, fun _ => isFraction_take covers⟩
  | whole =>
    obtain ⟨rfl, rfl⟩ := Prod.mk.inj (Option.some.inj token)
    exact ⟨by simp, fun _ => by simpa using isNumber_take covers, by simp⟩
  | mark spelling kind =>
    obtain ⟨rfl, rfl⟩ := Prod.mk.inj (Option.some.inj token)
    exact Token.Kind.spells_of_mark (by simpa [all] using listed) _
  | blanks | lineComment | blockComment => simp [token?] at token
  | inclusion | string | character =>
    obtain ⟨rfl, rfl⟩ := Prod.mk.inj (Option.some.inj token)
    exact Token.Kind.spells_of_ne (by simp) (by simp) (by simp) _

end Rule

theorem spelled_scan {pending : Nat} {p : Position} {tokens : List Token}
    (scanned : scan pending p text = .ok tokens) : ∀ t ∈ tokens, t.Spelled := by
  induction text generalizing pending p tokens with
  | nil =>
    have ends : tokens = [Token.eof p] := by
      rw [scan] at scanned
      exact (Except.ok.inj scanned).symm
    rw [ends, List.forall_mem_singleton]
    exact @Token.Kind.spells_of_ne .eof (by decide) (by decide) (by decide) _
  | cons c rest ih =>
    cases pending with
    | succ pending => exact ih scanned
    | zero =>
      rw [scan] at scanned
      split at scanned
      next => simp at scanned
      next rule length found =>
        obtain ⟨covers, earlier, later, order, -⟩ := Rule.first?_eq_some found
        dsimp only at scanned
        split at scanned
        next => exact ih scanned
        next k value token =>
          cases others : scan (length - 1) (p.after c) rest with
          | error e =>
            rw [others] at scanned
            cases scanned
          | ok others' =>
            rw [others] at scanned
            obtain rfl := Except.ok.inj scanned
            exact List.forall_mem_cons.mpr
              ⟨Rule.spells_token? (by simp [order]) covers token, ih others⟩

/-- The names and numbers of a text are spelled as such. -/
theorem spelled_tokenize {source : String} {tokens : List Token}
    (read : tokenize source = .ok tokens) : ∀ t ∈ tokens, t.Spelled :=
  spelled_scan read

end Curly
