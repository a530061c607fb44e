import Curly.Lexeme
import Curly.Diagnostic.Syntax

/-! A text as a list of tokens. -/
namespace Curly

/-- The tokens of a text that begins at `p`, once `pending` characters of a lexeme already taken
are passed. -/
def scan : (pending : Nat) → (p : Position) → List Char → Except SyntaxError (List Token)
  | _, p, [] => .ok [Token.eof p]
  | pending + 1, p, c :: rest => scan pending (p.after c) rest
  | 0, p, c :: rest =>
    match Rule.first? (c :: rest) with
    | none => .error ⟨.unrecognised (String.singleton c), p⟩
    | some (rule, length) =>
      let lexeme := (c :: rest).take length
      let others := scan (length - 1) (p.after c) rest
      match rule.token? lexeme with
      | none => others
      | some (kind, value) => others.map (⟨kind, value, ⟨p, p.afterAll lexeme⟩⟩ :: ·)

/-- All tokens of a text and the end mark, or the first character that begins no lexeme. -/
def tokenize (source : String) : Except SyntaxError (List Token) :=
  scan 0 .start source.toList

end Curly
