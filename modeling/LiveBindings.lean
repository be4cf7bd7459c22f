import LiveBindings.Config.Document
import LiveBindings.Config.Environment
import LiveBindings.Constants
import LiveBindings.Machine
import LiveBindings.Script.Session
import LiveBindings.Proofs.Reach
import LiveBindings.Proofs.Surface
import LiveBindings.Proofs.Turn
import LiveBindings.Proofs.History
import LiveBindings.Proofs.Lifecycle
import LiveBindings.Proofs.Course
import LiveBindings.Proofs.Linking
import LiveBindings.Proofs.Budget
import LiveBindings.Proofs.Termination
import LiveBindings.Proofs.Family
import LiveBindings.Proofs.Evaluation
import LiveBindings.Proofs.Reading
import LiveBindings.Proofs.Calls
import LiveBindings.Proofs.Growth
import LiveBindings.Proofs.Advance
import LiveBindings.Proofs.Reentry
import LiveBindings.Proofs.Absorption
import LiveBindings.Proofs.Resolution
import LiveBindings.Proofs.Clauses
import LiveBindings.Proofs.Ring
import LiveBindings.Proofs.Replay
import LiveBindings.Proofs.Failure
import LiveBindings.Proofs.Reexport
import LiveBindings.Proofs.Apart
import LiveBindings.Proofs.HookOrder
import LiveBindings.Proofs.ImportChain
import LiveBindings.Proofs.Loaded
import LiveBindings.Proofs.Unwinding
import LiveBindings.Proofs.LastWrite
import LiveBindings.Proofs.Policy
import LiveBindings.Proofs.Independence
import LiveBindings.Proofs.Annals
import LiveBindings.Proofs.Attachment
import LiveBindings.Proofs.Log
import LiveBindings.Proofs.Registry
import LiveBindings.Proofs.Merging
import LiveBindings.Proofs.Exhaustion
import LiveBindings.Proofs.Commits
import LiveBindings.Proofs.Needs
import LiveBindings.Proofs.Wildcards
import LiveBindings.Proofs.Relay
import LiveBindings.Proofs.Nesting
import LiveBindings.Proofs.Equality
import LiveBindings.Proofs.ArrayText
import LiveBindings.Proofs.Bystander
import LiveBindings.Proofs.Pulling
import LiveBindings.Proofs.Taking
import LiveBindings.Proofs.Overrides
import LiveBindings.Proofs.Nearest
import LiveBindings.Proofs.Conversion
import LiveBindings.Proofs.Lexemes
import LiveBindings.Proofs.Parsing
import LiveBindings.Proofs.Members
