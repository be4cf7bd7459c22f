import LiveBindings.Json.Token
import Mathlib.Data.List.Chain
import Mathlib.Data.List.TakeWhile

namespace LiveBindings

namespace Token

/-- How a code point stands in a literal: as itself, or as an escape of a letter or of four digits. -/
inductive Piece : Nat → List Char → Prop
  | plain (c : Char) : 0x20 ≤ c.toNat → c ≠ '"' → c ≠ '\\' → Piece c.toNat [c]
  | letter {letter : Char} {point : Nat} : escaped? letter = some point → Piece point ['\\', letter]
  | digits {a b c d : Char} {point : Nat} : codePoint? a b c d = some point →
      Piece point ['\\', 'u', a, b, c, d]

/-- What stands between the quotes of a literal with the given code points. -/
inductive Literal : List Nat → List Char → Prop
  | nil : Literal [] []
  | cons {point : Nat} {points : List Nat} {piece chars : List Char} : Piece point piece →
      Literal points chars → Literal (point :: points) (piece ++ chars)

/-- At least one digit, and nothing else. -/
def IsDigits (chars : List Char) : Prop := chars ≠ [] ∧ ∀ c ∈ chars, c.isDigit = true

def digitValues (chars : List Char) : List Nat := chars.map fun c => c.toNat - 48

/-- The digits before a point: a zero alone, or digits that do not begin with one. -/
inductive Whole : List Char → Prop
  | zero : Whole ['0']
  | digits {chars : List Char} : IsDigits chars → chars.head? ≠ some '0' → Whole chars

inductive Fraction : List Nat → List Char → Prop
  | absent : Fraction [] []
  | present {chars : List Char} : IsDigits chars → Fraction (digitValues chars) ('.' :: chars)

inductive Exponent : Option Int → List Char → Prop
  | absent : Exponent none []
  | bare {mark : Char} {chars : List Char} : mark = 'e' ∨ mark = 'E' → IsDigits chars →
      Exponent (some (natOf (digitValues chars))) (mark :: chars)
  | plus {mark : Char} {chars : List Char} : mark = 'e' ∨ mark = 'E' → IsDigits chars →
      Exponent (some (natOf (digitValues chars))) (mark :: '+' :: chars)
  | minus {mark : Char} {chars : List Char} : mark = 'e' ∨ mark = 'E' → IsDigits chars →
      Exponent (some (-(natOf (digitValues chars) : Int))) (mark :: '-' :: chars)

/-- A number after its sign. -/
inductive Unsigned (negative : Bool) : Numeral → List Char → Prop
  | parts {whole fraction exponent : List Char} {places : List Nat} {power : Option Int} :
      Whole whole → Fraction places fraction → Exponent power exponent →
      Unsigned negative (.ofLiteral negative (digitValues whole) places power)
        (whole ++ (fraction ++ exponent))

/-- A number cannot go on with these characters. -/
def Ends (rest : List Char) : Prop :=
  ∀ c ∈ rest.head?, c.isDigit = false ∧ c ≠ '.' ∧ c ≠ 'e' ∧ c ≠ 'E'

theorem IsDigits.exists_cons {chars : List Char} (isDigits : IsDigits chars) :
    ∃ c rest, chars = c :: rest ∧ c.isDigit = true := by
  obtain ⟨c, rest, rfl⟩ := List.exists_cons_of_ne_nil isDigits.1
  exact ⟨c, rest, rfl, isDigits.2 c List.mem_cons_self⟩

theorem Exponent.head?_append {power : Option Int} {body rest : List Char}
    (exponent : Exponent power body) (ends : Ends rest) :
    ∀ c ∈ (body ++ rest).head?, c.isDigit = false ∧ c ≠ '.' := by
  cases exponent with
  | absent => exact fun c first => ⟨(ends c first).1, (ends c first).2.1⟩
  | bare mark _ | plus mark _ | minus mark _ =>
    rintro c ⟨⟩
    rcases mark with rfl | rfl <;> decide

theorem Fraction.head?_append {places : List Nat} {body rest : List Char}
    (fraction : Fraction places body) (ends : ∀ c ∈ rest.head?, c.isDigit = false) :
    ∀ c ∈ (body ++ rest).head?, c.isDigit = false := by
  cases fraction with
  | absent => exact ends
  | present _ =>
    rintro c ⟨⟩
    decide

/-- How a token is written. -/
inductive Lexeme : Token → List Char → Prop
  | openBracket : Lexeme .openBracket ['[']
  | closeBracket : Lexeme .closeBracket [']']
  | openBrace : Lexeme .openBrace ['{']
  | closeBrace : Lexeme .closeBrace ['}']
  | comma : Lexeme .comma [',']
  | colon : Lexeme .colon [':']
  | null : Lexeme .null ['n', 'u', 'l', 'l']
  | yes : Lexeme (.boolean true) ['t', 'r', 'u', 'e']
  | no : Lexeme (.boolean false) ['f', 'a', 'l', 's', 'e']
  | natural {numeral : Numeral} {chars : List Char} : Unsigned false numeral chars →
      Lexeme (.number numeral) chars
  | negative {numeral : Numeral} {chars : List Char} : Unsigned true numeral chars →
      Lexeme (.number numeral) ('-' :: chars)
  | string {points : List Nat} {chars : List Char} : Literal points chars →
      Lexeme (.string ((characters? points).map String.ofList)) ('"' :: (chars ++ ['"']))

def isNumber : Token → Bool
  | .number _ => true
  | _ => false

theorem Unsigned.exists_cons {negative : Bool} {numeral : Numeral} {chars : List Char}
    (unsigned : Unsigned negative numeral chars) : ∃ c rest, chars = c :: rest ∧ c.isDigit = true := by
  obtain ⟨_ | ⟨digits, -⟩, -, -⟩ := unsigned
  · exact ⟨'0', _, rfl, rfl⟩
  · obtain ⟨c, rest, rfl, digit⟩ := digits.exists_cons
    exact ⟨c, _, rfl, digit⟩

theorem isSpace_of_digit {c : Char} (digit : c.isDigit = true) : isSpace c = false := by
  simp only [isSpace, Bool.or_eq_false_iff, beq_eq_false_iff_ne]
  refine ⟨⟨⟨?_, ?_⟩, ?_⟩, ?_⟩ <;>
    · rintro rfl
      cases digit

/-- A token begins with a character that is no blank, and one that is no number ends a number before it. -/
theorem Lexeme.exists_cons {token : Token} {chars : List Char} (lexeme : Lexeme token chars) :
    ∃ c rest, chars = c :: rest ∧ isSpace c = false ∧ (token.isNumber = false → Ends chars) := by
  cases lexeme with
  | natural unsigned =>
    obtain ⟨c, rest, rfl, digit⟩ := unsigned.exists_cons
    exact ⟨c, rest, rfl, isSpace_of_digit digit, fun other => by cases other⟩
  | negative => exact ⟨'-', _, rfl, rfl, fun other => by cases other⟩
  | _ =>
    refine ⟨_, _, rfl, rfl, ?_⟩
    rintro - c ⟨⟩
    decide

/-- A text that writes tokens one after another, with blanks before, between and after them. -/
inductive Spaced : List Token → List Char → Prop
  | done {gap : List Char} : (∀ c ∈ gap, isSpace c = true) → Spaced [] gap
  | token {gap lexeme rest : List Char} {token : Token} {tokens : List Token} :
      (∀ c ∈ gap, isSpace c = true) → Lexeme token lexeme → Spaced tokens rest →
      Spaced (token :: tokens) (gap ++ (lexeme ++ rest))

/-- Tokens of which no two in a row are numbers. Two numbers could run together in a text. -/
def Apart (tokens : List Token) : Prop :=
  tokens.IsChain fun first second => first.isNumber = true → second.isNumber = false

theorem Spaced.ends {tokens : List Token} {chars : List Char} (spaced : Spaced tokens chars)
    (other : ∀ token ∈ tokens.head?, token.isNumber = false) : Ends chars := by
  have blank {c : Char} (space : isSpace c = true) :
      c.isDigit = false ∧ c ≠ '.' ∧ c ≠ 'e' ∧ c ≠ 'E' := by
    simp only [isSpace, Bool.or_eq_true, beq_iff_eq] at space
    rcases space with ((rfl | rfl) | rfl) | rfl <;> decide
  cases spaced with
  | done blanks => exact fun c first => blank (blanks c (List.mem_of_head? first))
  | @token gap lexeme rest token tokens blanks isLexeme =>
    cases gap with
    | nil =>
      obtain ⟨c, tail, rfl, -, ends⟩ := isLexeme.exists_cons
      exact ends (other token rfl)
    | cons c gap =>
      rintro c ⟨⟩
      exact blank (blanks c List.mem_cons_self)

end Token

end LiveBindings
