import Mathlib.Data.List.Basic

/-! Patterns over the front of a text. Of all the ways in which a pattern can match, the one that
it prefers counts: an alternative before those behind it, one more round of a greedy repetition
before none, and none before one more round of a reluctant repetition. -/
namespace Curly

inductive Pattern where
  | empty
  | one (accepts : Char → Bool)
  | seq (first second : Pattern)
  | either (first second : Pattern)
  | many (item : Pattern)
  | few (item : Pattern)

namespace Pattern

/-- What any number of rounds of an item leave of a text, one more round first. A round takes at
least a character. -/
def greedy (item : List Char → List (List Char)) (text : List Char) : List (List Char) :=
  (item text).flatMap (fun rest => if _ : rest.length < text.length then greedy item rest else [])
    ++ [text]
termination_by text.length

/-- As `greedy`, with no further round first. -/
def reluctant (item : List Char → List (List Char)) (text : List Char) : List (List Char) :=
  text ::
    (item text).flatMap fun rest =>
      if _ : rest.length < text.length then reluctant item rest else []
termination_by text.length

/-- What the matches of a pattern at the front of a text leave of it, in order of preference. -/
def rests : Pattern → List Char → List (List Char)
  | .empty, text => [text]
  | .one _, [] => []
  | .one accepts, c :: rest => if accepts c then [rest] else []
  | .seq first second, text => (first.rests text).flatMap second.rests
  | .either first second, text => first.rests text ++ second.rests text
  | .many item, text => greedy item.rests text
  | .few item, text => reluctant item.rests text

/-- What the preferred match leaves of the text. -/
def match? (pattern : Pattern) (text : List Char) : Option (List Char) :=
  (pattern.rests text).head?

def char (c : Char) : Pattern :=
  .one (c == ·)

def literal : List Char → Pattern
  | [] => .empty
  | c :: rest => .seq (.char c) (.literal rest)

def plus (item : Pattern) : Pattern :=
  .seq item (.many item)

def optional (item : Pattern) : Pattern :=
  .either item .empty

variable {p accepts : Char → Bool} {first second item : Pattern} {c : Char} {text rest : List Char}

theorem rests_empty : Pattern.empty.rests text = [text] := rfl

theorem rests_one_nil : (one p).rests [] = [] := rfl

theorem rests_one_cons : (one p).rests (c :: rest) = if p c then [rest] else [] := rfl

theorem rests_seq : (seq first second).rests text = (first.rests text).flatMap second.rests := rfl

theorem rests_either : (either first second).rests text = first.rests text ++ second.rests text :=
  rfl

theorem rests_greedy : (many item).rests text = greedy item.rests text := rfl

theorem rests_reluctant : (few item).rests text = reluctant item.rests text := rfl

@[simp] theorem match?_empty : Pattern.empty.match? text = some text := rfl

@[simp] theorem match?_one_nil : (one p).match? [] = none := rfl

@[simp] theorem match?_one_cons :
    (one p).match? (c :: rest) = if p c then some rest else none := by
  rw [match?, rests_one_cons]
  split <;> rfl

@[simp] theorem match?_either :
    (either first second).match? text = (first.match? text).or (second.match? text) :=
  List.head?_append ..

theorem match?_seq :
    (seq first second).match? text = (first.rests text).findSome? second.match? :=
  List.head?_flatMap ..

/-- Nothing is left to choose where a single character comes first. -/
@[simp] theorem match?_seq_one_nil : (seq (one p) second).match? [] = none := rfl

@[simp] theorem match?_seq_one_cons :
    (seq (one p) second).match? (c :: rest) = if p c then second.match? rest else none := by
  rw [match?_seq, rests_one_cons]
  split <;> simp

@[simp] theorem match?_char_nil : (char c).match? [] = none := rfl

@[simp] theorem match?_char_cons {d : Char} :
    (char c).match? (d :: rest) = if c = d then some rest else none := by
  simp [char]

theorem match?_char :
    (char c).match? text = if text.head? = some c then some text.tail else none := by
  cases text <;> simp [eq_comm]

@[simp] theorem match?_seq_char_nil : (seq (char c) second).match? [] = none := rfl

@[simp] theorem match?_seq_char_cons {d : Char} :
    (seq (char c) second).match? (d :: rest) = if c = d then second.match? rest else none := by
  simp [char]

/-- A character that the text does not begin with. -/
theorem match?_seq_char_eq_none (other : ∀ tail, text ≠ c :: tail) :
    (seq (char c) second).match? text = none := by
  cases text with
  | nil => rfl
  | cons d text =>
    have different : c ≠ d := fun same => other text (same ▸ rfl)
    rw [match?_seq_char_cons, if_neg different]

theorem match?_char_eq_none (other : ∀ tail, text ≠ c :: tail) : (char c).match? text = none := by
  cases text with
  | nil => rfl
  | cons d text =>
    have different : c ≠ d := fun same => other text (same ▸ rfl)
    rw [match?_char_cons, if_neg different]

@[simp] theorem match?_seq_either {third : Pattern} :
    (seq (either first second) third).match? text =
      ((seq first third).match? text).or ((seq second third).match? text) := by
  simp only [match?_seq, rests_either, List.findSome?_append]

@[simp] theorem match?_seq_seq {third : Pattern} :
    (seq (seq first second) third).match? text = (seq first (seq second third)).match? text :=
  congrArg List.head? List.flatMap_assoc

@[simp] theorem match?_seq_empty : (seq empty second).match? text = second.match? text := by
  simp [match?_seq, rests_empty]

/-- The item takes at least a character of the text. -/
def Takes (item : Pattern) (text : List Char) : Prop :=
  ∀ rest ∈ item.rests text, rest.length < text.length

theorem takes_one : (one p).Takes text := by
  intro rest mem
  cases text with
  | nil => exact nomatch mem
  | cons c text =>
    rw [rests_one_cons] at mem
    split at mem <;> simp_all

theorem Takes.seq (left : first.Takes text) (right : ∀ rest, second.Takes rest) :
    (seq first second).Takes text := by
  intro rest mem
  obtain ⟨between, first, second⟩ := List.mem_flatMap.mp mem
  exact Nat.lt_trans (right between rest second) (left between first)

theorem Takes.either (left : first.Takes text) (right : second.Takes text) :
    (either first second).Takes text :=
  fun rest mem => (List.mem_append.mp mem).elim (left rest) (right rest)

theorem rests_many (takes : item.Takes text) :
    (many item).rests text = (item.rests text).flatMap (many item).rests ++ [text] := by
  rw [rests_greedy, greedy]
  exact congrArg (· ++ [text]) (List.flatMap_congr fun rest mem => dif_pos (takes rest mem))

theorem rests_few (takes : item.Takes text) :
    (few item).rests text = text :: (item.rests text).flatMap (few item).rests := by
  rw [rests_reluctant, reluctant]
  exact congrArg (text :: ·) (List.flatMap_congr fun rest mem => dif_pos (takes rest mem))

/-- A repetition with something behind it, round by round. -/
theorem match?_seq_many (takes : item.Takes text) :
    (seq (many item) second).match? text =
      ((item.rests text).findSome? (seq (many item) second).match?).or (second.match? text) := by
  have rounds : (seq (many item) second).rests text =
      (item.rests text).flatMap (seq (many item) second).rests ++ second.rests text := by
    rw [rests_seq, rests_many takes, List.flatMap_append, List.flatMap_assoc,
      List.flatMap_singleton]
    rfl
  rw [match?, rounds, List.head?_append, List.head?_flatMap]
  rfl

theorem match?_seq_few (takes : item.Takes text) :
    (seq (few item) second).match? text =
      (second.match? text).or ((item.rests text).findSome? (seq (few item) second).match?) := by
  have rounds : (seq (few item) second).rests text =
      second.rests text ++ (item.rests text).flatMap (seq (few item) second).rests := by
    rw [rests_seq, rests_few takes, List.flatMap_cons, List.flatMap_assoc]
    rfl
  rw [match?, rounds, List.head?_append, List.head?_flatMap]
  rfl

/-- A repetition of single characters takes all it can when what comes behind it cannot begin
with one of them. -/
theorem match?_seq_many_one (apart : ∀ c rest, p c → second.match? (c :: rest) = none) :
    (seq (many (one p)) second).match? text = second.match? (text.dropWhile p) := by
  induction text with
  | nil => simp [match?_seq_many takes_one, rests_one_nil]
  | cons c text ih =>
    rw [match?_seq_many takes_one, rests_one_cons, List.dropWhile_cons]
    split
    next takes => simp [ih, apart c text takes]
    next => simp

theorem match?_many_one : (many (one p)).match? text = some (text.dropWhile p) := by
  induction text with
  | nil => rw [match?, rests_many takes_one]; rfl
  | cons c text ih =>
    rw [match?] at ih ⊢
    rw [rests_many takes_one, rests_one_cons, List.dropWhile_cons, List.head?_append,
      List.head?_flatMap]
    split <;> simp [ih]

theorem match?_literal {word : List Char} :
    (literal word).match? text =
      if word.isPrefixOf text then some (text.drop word.length) else none := by
  induction word generalizing text with
  | nil => simp [literal]
  | cons c word ih => cases text <;> simp [literal, ih, ite_and]

theorem match?_seq_literal {word : List Char} :
    (seq (literal word) second).match? text =
      if word.isPrefixOf text then second.match? (text.drop word.length) else none := by
  induction word generalizing text with
  | nil => simp [literal]
  | cons c word ih => cases text <;> simp [literal, ih, ite_and]

end Pattern
end Curly
