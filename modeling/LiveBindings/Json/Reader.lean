import LiveBindings.Json.Basic
import LiveBindings.Json.Token

namespace LiveBindings

namespace Json

/-- A container still open, with what it holds so far, the last part first. -/
inductive Open
  /-- An array that waits for an item. -/
  | items (done : List (Json Quoted))
  /-- An object that waits for the value of a name. -/
  | members (done : List (Quoted × Json Quoted)) (name : Quoted)

/-- What may come next, and the containers around it, the innermost first. -/
inductive Reader
  /-- A value must come. -/
  | value (around : List Open)
  /-- After an opening bracket: an item or the closing bracket. -/
  | itemOrEnd (around : List Open)
  /-- After an item: a comma or the closing bracket. -/
  | afterItem (done : List (Json Quoted)) (around : List Open)
  /-- After an opening brace: a name or the closing brace. -/
  | nameOrEnd (around : List Open)
  /-- After a comma in an object: a name. -/
  | name (done : List (Quoted × Json Quoted)) (around : List Open)
  /-- After a name: a colon. -/
  | colon (done : List (Quoted × Json Quoted)) (name : Quoted) (around : List Open)
  /-- After a member: a comma or the closing brace. -/
  | afterMember (done : List (Quoted × Json Quoted)) (around : List Open)
  /-- The document is complete. -/
  | complete (document : Json Quoted)

namespace Reader

/-- Puts a value that was read to its end into the innermost open container. -/
def finish (document : Json Quoted) : List Open → Reader
  | [] => .complete document
  | .items done :: around => .afterItem (document :: done) around
  | .members done key :: around => .afterMember ((key, document) :: done) around

def begin? (around : List Open) : Token → Option Reader
  | .null => some (finish .null around)
  | .boolean b => some (finish (.boolean b) around)
  | .number n => some (finish (.number n) around)
  | .string s => some (finish (.string s) around)
  | .openBracket => some (.itemOrEnd around)
  | .openBrace => some (.nameOrEnd around)
  | _ => none

def step? : Reader → Token → Option Reader
  | .value around, token => begin? around token
  | .itemOrEnd around, .closeBracket => some (finish (.array []) around)
  | .itemOrEnd around, token => begin? (.items [] :: around) token
  | .afterItem done around, .comma => some (.value (.items done :: around))
  | .afterItem done around, .closeBracket => some (finish (.array done.reverse) around)
  | .nameOrEnd around, .closeBrace => some (finish (.object []) around)
  | .nameOrEnd around, .string key => some (.colon [] key around)
  | .name done around, .string key => some (.colon done key around)
  | .colon done key around, .colon => some (.value (.members done key :: around))
  | .afterMember done around, .comma => some (.name done around)
  | .afterMember done around, .closeBrace => some (finish (.object done.reverse) around)
  | _, _ => none

def steps? : Reader → List Token → Option Reader
  | reader, [] => some reader
  | reader, token :: rest =>
    match step? reader token with
    | some next => steps? next rest
    | none => none

def document? : Reader → Option (Json Quoted)
  | .complete document => some document
  | _ => none

end Reader

def ofTokens? (tokens : List Token) : Option (Json Quoted) :=
  (Reader.steps? (.value []) tokens).bind Reader.document?

/-- The document that a text writes, whatever its string literals hold. -/
def read? (text : String) : Option (Json Quoted) := (Token.ofText? text).bind ofTokens?

/-- The document that a text writes, when every string literal holds a text and every number is
finite. -/
def parse? (text : String) : Option (Json String) := (read? text).bind texts?

mutual

def tokens : Json String → List Token
  | .null => [.null]
  | .boolean b => [.boolean b]
  | .number n => [.number n]
  | .string s => [.string (some s)]
  | .array items => .openBracket :: itemTokens items
  | .object members => .openBrace :: memberTokens members

/-- The tokens of the items of an array, up to its closing bracket. -/
def itemTokens : List (Json String) → List Token
  | [] => [.closeBracket]
  | item :: rest => tokens item ++ laterItemTokens rest

/-- The tokens after an item of an array, up to its closing bracket. -/
def laterItemTokens : List (Json String) → List Token
  | [] => [.closeBracket]
  | item :: rest => .comma :: (tokens item ++ laterItemTokens rest)

/-- The tokens of the members of an object, up to its closing brace. -/
def memberTokens : List (String × Json String) → List Token
  | [] => [.closeBrace]
  | (name, value) :: rest =>
    .string (some name) :: .colon :: (tokens value ++ laterMemberTokens rest)

/-- The tokens after a member of an object, up to its closing brace. -/
def laterMemberTokens : List (String × Json String) → List Token
  | [] => [.closeBrace]
  | (name, value) :: rest =>
    .comma :: .string (some name) :: .colon :: (tokens value ++ laterMemberTokens rest)

end

def write (document : Json String) : String :=
  String.ofList (document.tokens.flatMap Token.chars)

end Json

end LiveBindings
