import LiveBindings.Program

namespace LiveBindings

namespace Script

/-- How an expression refers to a module. -/
inductive Ref
  /-- The module whose body is running. -/
  | self
  /-- The module that has loaded, inside one of its hooks. -/
  | surface
  | handle (name : String)
  deriving DecidableEq, Inhabited

/-- What an expression makes of one value. -/
inductive Unary
  | text
  | typeName
  | isUndefined
  | isNullish
  | isFunction
  | asNumber
  | asString
  | structureText
  deriving DecidableEq, Inhabited

/-- What an expression makes of two values. -/
inductive Binary
  | equal
  | add
  | sub
  deriving DecidableEq, Inhabited

/-- What an expression asks of a module. -/
inductive Query
  | label
  | config
  | state
  | steps
  | merges
  | loaded
  | structureText
  | names
  | bindings
  | wildcards
  | surfaceText
  deriving DecidableEq, Inhabited

/-- What an expression asks of a name of a module, without running anything. -/
inductive NameQuery
  | peek
  | settled
  | declared
  deriving DecidableEq, Inhabited

/-- An expression. -/
inductive Expr
  | literal (value : Value)
  | array (items : List Expr)
  | object (fields : List (String × Expr))
  /-- A new function, with the expression that its calls evaluate. -/
  | function (name : String) (result : Expr)
  | argument (index : Nat)
  | arguments
  | call (callee : Expr) (arguments : List Expr)
  | unary (op : Unary) (operand : Expr)
  | binary (op : Binary) (left right : Expr)
  | assign (name : String) (value : Expr)
  /-- A variable of the script, undefined if it was not set. -/
  | fetch (name : String)
  /-- One expression after another; the value is that of the last one. -/
  | sequence (items : List Expr)
  /-- A choice: the first branch if the condition is true, and the second one otherwise. -/
  | branch (condition first second : Expr)
  | times (count : Nat) (items : List Expr)
  | emit (tag : String) (value : Expr)
  /-- Tells how an expression ended, if not with a panic. -/
  | attempt (body : Expr)
  /-- Tells how an expression ended, if not with a fault. -/
  | shield (body : Expr)
  | raise (fault : Fault)
  | create (handle : String) (names : List ExportName) (config : Config)
  | keep (handle : String) (module : Ref)
  | forget (handle : String)
  | same (left right : Ref)
  | query (query : Query) (module : Ref)
  | nameQuery (query : NameQuery) (module : Ref) (name : String)
  /-- Attaches a body of statements. The factory is evaluated before the body is made. -/
  | executeStatements (module : Ref) (statements factory : List Expr)
  | executeSteps (module : Ref) (steps : List (Step × List Expr)) (factory : List Expr)
  | finish (module : Ref)
  | settle (module : Ref) (name : String) (value : Expr)
  | commit (module : Ref) (entries : List (String × Expr))
  | importer (module : Ref) (hook : List Expr)
  | forward (module source : Ref) (pairs : List (String × String))
  | merge (module source : Ref)
  | read (how : Reading) (module : Ref) (name : String)
  | view (handle : String) (module : Ref) (names : List (String × String))
  | readView (how : Reading) (view localName : String)
  /-- The export that a local name of a view stands for. -/
  | remoteName (view localName : String)
  | localNames (view : String)
  | isSource (view : String) (module : Ref)
  /-- Keeps the module of an identifier, made if there is none. -/
  | prepare (handle id : String) (names : List ExportName)
  /-- Keeps the module of an identifier, if there is one. -/
  | lookup (handle id : String)
  | isRegistered (id : String)
  | identifiers
  | registrySize
  /-- Makes a body of statements that belongs to no module. -/
  | detach (handle : String) (statements : List Expr)
  | resume (handle : String) (module : Ref)
  | remaining (handle : String)
  | bodyText (handle : String)
  /-- An expression that is cut short: it is written with `count` parts, its name among them, and
  wants the list of those from position `start` on, which no shorter expression has. -/
  | truncated (start count : Nat)
  deriving Inhabited

end Script

end LiveBindings
