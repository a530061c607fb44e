import Curly.Compile
import Curly.Proofs.Text.Written

/-! Character literals. What stands between the quotes is a character, a backslash with a letter
that has a meaning there, or a backslash with any other character. The token of the last kind keeps
both of these characters, but the syntax tree has room for the backslash only. -/
namespace Curly

/-- The letters that mean a character behind a backslash, each with what it means. -/
def meanings : List (Char × Char) :=
  [('n', '\n'), ('t', '\t'), ('r', '\r'), ('0', '\x00'), ('\\', '\\'), ('"', '"'), ('\'', '\'')]

def isMeant (c : Char) : Bool :=
  meanings.any (·.1 = c)

/-- What can stand between the quotes of a character literal, and what it is read as. -/
inductive Quoted : (inner value : List Char) → Prop
  | plain {c : Char} : c ≠ '\'' → c ≠ '\\' → Quoted [c] [c]
  | meant {letter c : Char} : (letter, c) ∈ meanings → Quoted ['\\', letter] [c]
  | strange {c : Char} : c ≠ '\n' → isMeant c = false → Quoted ['\\', c] ['\\', c]

/-- A backslash before a character that means nothing there. -/
def IsStrange (inner : List Char) : Prop :=
  ∃ c, inner = ['\\', c] ∧ isMeant c = false

theorem unescape_meant : ∀ m ∈ meanings, unescape ['\\', m.1] = [m.2] := by
  decide

theorem unescape_strange {c : Char} (strange : isMeant c = false) :
    unescape ['\\', c] = ['\\', c] := by
  simp only [isMeant, meanings, List.any_cons, List.any_nil, Bool.or_false, Bool.or_eq_false_iff,
    decide_eq_false_iff_not] at strange
  rw [unescape]
  all_goals simp_all [unescape, eq_comm]

theorem unescape_plain {c : Char} (plain : c ≠ '\\') : unescape [c] = [c] := by
  rw [unescape]
  all_goals simp [unescape, plain]

namespace Quoted

variable {inner value : List Char}

theorem escape {c : Char} (inLine : c ≠ '\n') : Quoted ['\\', c] (unescape ['\\', c]) := by
  cases known : isMeant c with
  | true =>
    obtain ⟨⟨letter, meant⟩, listed, same⟩ := List.any_eq_true.mp known
    obtain rfl := of_decide_eq_true same
    rw [unescape_meant _ listed]
    exact .meant listed
  | false =>
    rw [unescape_strange known]
    exact .strange inLine known

theorem unescape_eq (quoted : Quoted inner value) : unescape inner = value := by
  cases quoted with
  | plain _ plain => exact unescape_plain plain
  | meant listed => exact unescape_meant _ listed
  | strange _ unknown => exact unescape_strange unknown

/-- A single character is read from every literal but the strange ones, which keep two. -/
theorem length_eq_one_iff (quoted : Quoted inner value) :
    value.length = 1 ↔ ¬ IsStrange inner := by
  cases quoted with
  | plain => simp [IsStrange]
  | @meant letter c listed =>
    have known : isMeant letter := List.any_eq_true.mpr ⟨_, listed, decide_eq_true rfl⟩
    simp [IsStrange, known]
  | strange _ unknown => simp [IsStrange, unknown]

theorem value_ne_nil (quoted : Quoted inner value) : value ≠ [] := by
  cases quoted <;> simp

end Quoted

theorem quoted_take {text : List Char} {length : Nat}
    (covers : characterLength? text = some length) :
    ∃ inner, text.take length = '\'' :: inner ++ ['\''] ∧ Quoted inner (unescape inner) := by
  unfold characterLength? at covers
  split at covers
  next c rest =>
    obtain ⟨inLine, same⟩ := Option.ite_none_left_eq_some.mp covers
    obtain rfl := Option.some.inj same
    exact ⟨['\\', c], rfl, .escape inLine⟩
  next c rest _ =>
    obtain ⟨plain, same⟩ := Option.ite_none_left_eq_some.mp covers
    obtain rfl := Option.some.inj same
    simp only [Bool.or_eq_true, decide_eq_true_eq, not_or] at plain
    refine ⟨[c], rfl, ?_⟩
    rw [unescape_plain plain.2]
    exact .plain plain.1 plain.2
  next => exact nomatch covers

/-- All of these literals are read, whatever follows. -/
theorem readings_quoted {inner value : List Char} (quoted : Quoted inner value) (p : Position)
    (following : List Char) :
    readings p ('\'' :: inner ++ ['\''] ++ following) =
      (readings (p.afterAll ('\'' :: inner ++ ['\''])) following).map
        ((.charLiteral, String.ofList value) :: ·) := by
  have covers : characterLength? ('\'' :: inner ++ ['\''] ++ following) =
      some ('\'' :: inner ++ ['\'']).length := by
    cases quoted with
    | plain quote escape => simp [characterLength?, quote, escape]
    | @meant letter c listed =>
      have inLine : letter ≠ '\n' := by
        rintro rfl
        simp [meanings] at listed
      simp [characterLength?, inLine]
    | strange inLine => simp [characterLength?, inLine]
  have found : Rule.first? ('\'' :: inner ++ ['\''] ++ following) =
      some (.character, ('\'' :: inner ++ ['\'']).length) :=
    Rule.first?_of_earliest rfl ((Rule.passed_at_quote (.inr rfl)).append
      (.one (Rule.string_eq_none (by decide)))) covers
  rw [readings_first p found]
  simp only [Rule.token?, inside_quoted, quoted.unescape_eq, Option.toList_some,
    List.singleton_append]

/-- What the rule for characters takes. -/
theorem quoted_of_match {lexeme following : List Char}
    (matched : Rule.character.pattern.match? (lexeme ++ following) = some following) :
    ∃ inner, lexeme = '\'' :: inner ++ ['\''] ∧ Quoted inner (unescape inner) := by
  rw [Rule.match?_character] at matched
  obtain ⟨length, covers, left⟩ := Option.map_eq_some_iff.mp matched
  have taken : (lexeme ++ following).take length = lexeme := by
    have whole := List.take_append_drop length (lexeme ++ following)
    rw [left] at whole
    exact List.append_cancel_right whole
  exact taken ▸ quoted_take covers

/-- Only the rule for characters makes tokens of their kind. -/
theorem Rule.eq_character {rule : Rule} {lexeme : List Char} {value : String}
    (listed : rule ∈ all) (token : rule.token? lexeme = some (.charLiteral, value)) :
    rule = .character := by
  cases rule with
  | word =>
    have other : ∀ entry ∈ Token.Kind.reserved, entry.2 ≠ .charLiteral := by decide
    have same := (Prod.mk.inj (Option.some.inj token)).1
    cases known : Token.Kind.ofWord? (String.ofList lexeme) with
    | none => simp [known] at same
    | some kind =>
      obtain ⟨before, behind, split, -⟩ := List.lookup_eq_some_iff.mp known
      rw [known] at same
      exact absurd same (other (String.ofList lexeme, kind) (by simp [split]))
  | mark spelling kind =>
    have other : ∀ entry ∈ Token.Kind.marks, entry.2 ≠ .charLiteral := by decide
    obtain ⟨rfl, -⟩ := Prod.mk.inj (Option.some.inj token)
    exact absurd rfl (other _ (by simpa [all] using listed))
  | character => rfl
  | _ => simp [token?] at token

theorem Parse.primary_character {c : Cursor} (literal : c.current.kind = .charLiteral) :
    Parse.primary.run c =
      .ok (.char (c.current.value.toList.headD '\x00') c.current.span) c.next := by
  have passed : Parse.advance.run c = .ok c.current c.next := rfl
  rw [Parse.primary, EStateM.run_bind, passed]
  simp only [literal]
  rfl

section

variable {source : String} {tokens : List Token} {t : Token}

/-- The place of a character literal in the text, and what its token has of it. -/
theorem exists_quoted_of_tokenize (read : tokenize source = .ok tokens) (listed : t ∈ tokens)
    (literal : t.kind = .charLiteral) :
    ∃ before inner following, source.toList = before ++ '\'' :: inner ++ '\'' :: following ∧
      t.span = ⟨.behind before, .behind (before ++ '\'' :: inner ++ ['\''])⟩ ∧
      Quoted inner t.value.toList := by
  have solid : t.kind ≠ .eof := literal ▸ Token.Kind.noConfusion
  obtain ⟨before, ⟨rule, lexeme⟩, following, whole, first, token⟩ :=
    exists_slice_of_tokenize read listed solid
  obtain ⟨⟨kind, value⟩, made, rfl⟩ := Option.map_eq_some_iff.mp token
  obtain rfl : kind = .charLiteral := literal
  obtain ⟨earlier, later, order, -⟩ := first.earliest
  obtain rfl := Rule.eq_character (by simp [order]) made
  obtain ⟨inner, rfl, quoted⟩ := quoted_of_match first.matched
  obtain ⟨-, rfl⟩ := Prod.mk.inj (Option.some.inj made)
  refine ⟨before, inner, following, by simpa using whole, by simp, ?_⟩
  have value : (String.ofList (unescape (inside ('\'' :: inner ++ ['\''])))).toList =
      unescape inner := by rw [inside_quoted, String.toList_ofList]
  exact value ▸ quoted

/-- A character literal keeps its character, in the token and in the syntax tree, unless a backslash
stands before a character that means nothing there. Then the token has both of them, and the tree
has the backslash without the character. -/
theorem characters_of_tokenize (read : tokenize source = .ok tokens) (listed : t ∈ tokens)
    (literal : t.kind = .charLiteral) :
    ∃ before inner following, source.toList = before ++ '\'' :: inner ++ '\'' :: following ∧
      t.span = ⟨.behind before, .behind (before ++ '\'' :: inner ++ ['\''])⟩ ∧
      Quoted inner t.value.toList ∧ (t.value.length = 1 ↔ ¬ IsStrange inner) ∧
      ∀ c : Cursor, c.current = t → ∃ kept dropped,
        Parse.primary.run c = .ok (.char kept t.span) c.next ∧
        t.value.toList = kept :: dropped ∧ (dropped = [] ↔ ¬ IsStrange inner) := by
  obtain ⟨before, inner, following, whole, span, quoted⟩ :=
    exists_quoted_of_tokenize read listed literal
  have single := quoted.length_eq_one_iff
  refine ⟨before, inner, following, whole, span, quoted,
    by rwa [String.length_toList] at single, ?_⟩
  rintro c rfl
  obtain ⟨kept, dropped, value⟩ := List.exists_cons_of_ne_nil quoted.value_ne_nil
  refine ⟨kept, dropped, ?_, value, ?_⟩
  · rw [Parse.primary_character literal, value]
    rfl
  · simpa [value] using single

end

/-- The character that is printed here is a backslash. -/
def backslashed : String :=
  "main \x7b print('\\q'); \x7d"

theorem backslashed_not_kept : ∃ tokens, tokenize backslashed = .ok tokens ∧
    (∃ t ∈ tokens, t.kind = .charLiteral ∧ t.value = "\\q" ∧ t.value.length ≠ 1) ∧
    compile backslashed = .ok [.beginFunction "main", .call none "print" [.constant "'\\\\'"],
      .giveBack (some (.constant "0")), .endFunction "main"] := by
  have kept : (tokenize backslashed).toOption.any fun tokens =>
      tokens.any fun t => t.kind = .charLiteral ∧ t.value = "\\q" ∧ t.value.length ≠ 1 := by
    decide +kernel
  cases read : tokenize backslashed with
  | error e => simp [read, Except.toOption] at kept
  | ok tokens =>
    refine ⟨tokens, rfl, ?_, by decide +kernel⟩
    simpa [read, Except.toOption] using kept

theorem characters_of_feed : ∃ tokens, tokenize "'\\n'" = .ok tokens ∧
    ∃ t ∈ tokens, t.kind = .charLiteral ∧ t.value = "\n" ∧
      ∃ inner, Quoted inner t.value.toList ∧ ¬ IsStrange inner := by
  have read : tokenize "'\\n'" =
      .ok [⟨.charLiteral, "\n", ⟨⟨1, 1⟩, ⟨1, 5⟩⟩⟩, .eof ⟨1, 5⟩] := by decide +kernel
  obtain ⟨_, inner, _, -, -, quoted, single, -⟩ :=
    characters_of_tokenize read (.head _) rfl
  exact ⟨_, read, _, .head _, rfl, rfl, inner, quoted, single.mp rfl⟩

end Curly
