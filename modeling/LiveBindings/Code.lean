import LiveBindings.Program

namespace LiveBindings

/-- A computation that ends with an `α`, a fault or a panic, as a program that is given what follows
it for each of these ends. -/
def Code (σ α : Type) : Type := (Result α → Program σ) → Program σ

namespace Code

variable {σ α β : Type}

def ret (value : α) : Code σ α := fun next => next (.returned value)

def fail (fault : Fault) : Code σ α := fun next => next (.failed fault)

def panic (message : String) : Code σ α := fun next => next (.panicked message)

/-- Goes on with the result of a computation, if it has one. -/
def andThen (code : Code σ α) (rest : α → Code σ β) : Code σ β := fun next =>
  code fun
    | .returned value => rest value next
    | .failed fault => next (.failed fault)
    | .panicked message => next (.panicked message)

instance : Monad (Code σ) where
  pure := ret
  bind := andThen

def program (code : Code σ Value) : Program σ := code .done

/-- Hands over how a computation ended, whichever way. -/
def outcome (code : Code σ α) : Code σ (Result α) := fun next =>
  code fun result => next (.returned result)

/-- Handles the fault that a computation ends with. -/
def handle (code : Code σ α) (handler : Fault → Code σ α) : Code σ α := fun next =>
  code fun
    | .failed fault => handler fault next
    | other => next other

def act (action : Action) : Code σ action.Reply := fun next =>
  .act action fun reply => next (.returned reply)

def demand (demand : Demand) : Code σ Value := fun next => .demand demand next

def host : Code σ σ := fun next => .host id fun state => next (.returned state)

def change (f : σ → σ) : Code σ Unit := fun next => .host f fun _ => next (.returned ())

def all : List (Code σ α) → Code σ (List α)
  | [] => ret []
  | code :: rest => do
    let value ← code
    let values ← all rest
    return value :: values

/-- Does one computation after another, and gives the result of the last one, or undefined. -/
def last : List (Code σ Value) → Code σ Value
  | [] => ret .undefined
  | [code] => code
  | code :: rest => do
    let _ ← code
    last rest

def times : Nat → Code σ Value → Code σ Value
  | 0, _ => ret .undefined
  | count + 1, code => do
    let _ ← code
    times count code

end Code

end LiveBindings
