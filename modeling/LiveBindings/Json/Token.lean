import LiveBindings.Json.Numeral

namespace LiveBindings

/-- What a string literal holds: a text, or nothing when one of its escapes is a surrogate without
its partner. -/
abbrev Quoted := Option String

/-- A token of a document. -/
inductive Token
  | openBracket
  | closeBracket
  | openBrace
  | closeBrace
  | comma
  | colon
  | null
  | boolean (value : Bool)
  | number (value : Numeral)
  | string (value : Quoted)
  deriving DecidableEq, Inhabited

namespace Token

/-- The blanks that may stand between tokens. -/
def isSpace (c : Char) : Bool := c == ' ' || c == '\n' || c == '\t' || c == '\r'

def hexDigit? (c : Char) : Option Nat :=
  let n := c.toNat
  if 48 ≤ n && n ≤ 57 then some (n - 48)
  else if 97 ≤ n && n ≤ 102 then some (n - 87)
  else if 65 ≤ n && n ≤ 70 then some (n - 55)
  else none

/-- The code point that an escape of four hexadecimal digits stands for. -/
def codePoint? (a b c d : Char) : Option Nat := do
  return (((← hexDigit? a) * 16 + (← hexDigit? b)) * 16 + (← hexDigit? c)) * 16 + (← hexDigit? d)

/-- The code point that an escape of one letter stands for. -/
def escaped? : Char → Option Nat
  | '"' => some 34
  | '\\' => some 92
  | '/' => some 47
  | 'b' => some 8
  | 'f' => some 12
  | 'n' => some 10
  | 'r' => some 13
  | 't' => some 9
  | _ => none

/-- The code points of a string literal whose opening quote was read, halves of surrogate pairs
included, and what follows its closing quote. -/
def literal? : List Char → Option (List Nat × List Char)
  | [] => none
  | '"' :: rest => some ([], rest)
  | '\\' :: 'u' :: a :: b :: c :: d :: rest => do
    let point ← codePoint? a b c d
    let (points, rest) ← literal? rest
    return (point :: points, rest)
  | '\\' :: letter :: rest => do
    let point ← escaped? letter
    let (points, rest) ← literal? rest
    return (point :: points, rest)
  | c :: rest =>
    if c.toNat < 0x20 || c == '\\' then none
    else do
      let (points, rest) ← literal? rest
      return (c.toNat :: points, rest)

/-- Whether a code point is the first half of a surrogate pair. -/
def isHigh (point : Nat) : Bool := 0xd800 ≤ point && point < 0xdc00

/-- Whether a code point is the second half of a surrogate pair. -/
def isLow (point : Nat) : Bool := 0xdc00 ≤ point && point < 0xe000

/-- The characters of a sequence of code points, where two halves make one character; none when a
half stands alone. -/
def characters? : List Nat → Option (List Char)
  | [] => some []
  | high :: low :: rest =>
    if isHigh high && isLow low then
      (characters? rest).map (Char.ofNat (0x10000 + (high - 0xd800) * 0x400 + (low - 0xdc00)) :: ·)
    else if isHigh high || isLow high then none
    else (characters? (low :: rest)).map (Char.ofNat high :: ·)
  | [point] => if isHigh point || isLow point then none else some [Char.ofNat point]

/-- The leading decimal digits, and what follows them. -/
def digits (chars : List Char) : List Nat × List Char :=
  ((chars.takeWhile Char.isDigit).map fun c => c.toNat - 48, chars.dropWhile Char.isDigit)

def natOf (digits : List Nat) : Nat := digits.foldl (fun n digit => n * 10 + digit) 0

/-- The fraction digits after a point, if one comes first; a point without digits is refused. -/
def fraction? : List Char → Option (List Nat × List Char)
  | '.' :: rest =>
    match digits rest with
    | ([], _) => none
    | split => some split
  | rest => some ([], rest)

def power? (negative : Bool) (chars : List Char) : Option (Option Int × List Char) :=
  match digits chars with
  | ([], _) => none
  | (power, rest) => some (some (if negative then -(natOf power : Int) else natOf power), rest)

/-- The exponent, if one comes first; one without digits is refused. -/
def exponent? : List Char → Option (Option Int × List Char)
  | 'e' :: '-' :: rest | 'E' :: '-' :: rest => power? true rest
  | 'e' :: '+' :: rest | 'E' :: '+' :: rest => power? false rest
  | 'e' :: rest | 'E' :: rest => power? false rest
  | rest => some (none, rest)

/-- The digits before a point: a zero alone, or digits that do not begin with one. -/
def whole? : List Char → Option (List Nat × List Char)
  | '0' :: rest => some ([0], rest)
  | chars =>
    match digits chars with
    | ([], _) => none
    | split => some split

/-- A number after its sign: a whole part, a fraction, and an exponent. -/
def unsigned? (negative : Bool) (chars : List Char) : Option (Numeral × List Char) := do
  let (whole, rest) ← whole? chars
  let (fraction, rest) ← fraction? rest
  let (power, rest) ← exponent? rest
  return (.ofLiteral negative whole fraction power, rest)

/-- The token at the start of a text that begins with no blank, and what follows it. -/
def next? : List Char → Option (Token × List Char)
  | '[' :: rest => some (.openBracket, rest)
  | ']' :: rest => some (.closeBracket, rest)
  | '{' :: rest => some (.openBrace, rest)
  | '}' :: rest => some (.closeBrace, rest)
  | ',' :: rest => some (.comma, rest)
  | ':' :: rest => some (.colon, rest)
  | 'n' :: 'u' :: 'l' :: 'l' :: rest => some (.null, rest)
  | 't' :: 'r' :: 'u' :: 'e' :: rest => some (.boolean true, rest)
  | 'f' :: 'a' :: 'l' :: 's' :: 'e' :: rest => some (.boolean false, rest)
  | '"' :: rest => (literal? rest).map fun (points, rest) =>
      (.string ((characters? points).map String.ofList), rest)
  | '-' :: rest => (unsigned? true rest).map fun (numeral, rest) => (.number numeral, rest)
  | rest => (unsigned? false rest).map fun (numeral, rest) => (.number numeral, rest)

/-- Cuts a text into tokens, at most as many as `limit` tells. -/
def cut? : (limit : Nat) → List Char → Option (List Token)
  | 0, _ => none
  | limit + 1, chars =>
    match chars.dropWhile isSpace with
    | [] => some []
    | rest => do
      let (token, rest) ← next? rest
      return token :: (← cut? limit rest)

/-- The tokens of a text. A token takes at least one character, so no text has more tokens than
characters. -/
def ofText? (text : String) : Option (List Token) := cut? (text.length + 1) text.toList

def hexChar (n : Nat) : Char := if n < 10 then Char.ofNat (48 + n) else Char.ofNat (87 + n)

/-- How a character stands in a literal: quotes, backslashes and control characters are escaped, by
a letter where there is one. -/
def escape (c : Char) : List Char :=
  if c = '"' then ['\\', '"']
  else if c = '\\' then ['\\', '\\']
  else if c.toNat = 8 then ['\\', 'b']
  else if c.toNat = 12 then ['\\', 'f']
  else if c = '\n' then ['\\', 'n']
  else if c = '\r' then ['\\', 'r']
  else if c = '\t' then ['\\', 't']
  else if c.toNat < 0x20 then
    ['\\', 'u', '0', '0', hexChar (c.toNat / 16), hexChar (c.toNat % 16)]
  else [c]

/-- How a token is written. A literal without a text has no written form of its own; the empty
literal stands for it. -/
def chars : Token → List Char
  | .openBracket => ['[']
  | .closeBracket => [']']
  | .openBrace => ['{']
  | .closeBrace => ['}']
  | .comma => [',']
  | .colon => [':']
  | .null => ['n', 'u', 'l', 'l']
  | .boolean true => ['t', 'r', 'u', 'e']
  | .boolean false => ['f', 'a', 'l', 's', 'e']
  | .number n => n.text.toList
  | .string text => '"' :: (text.getD "").toList.flatMap escape ++ ['"']

end Token

end LiveBindings
