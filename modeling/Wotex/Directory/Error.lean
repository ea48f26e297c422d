import Wotex.Term.Outcome
import Wotex.Term.Text

/-!
# Directory failures (`error.ex`)

A failure keeps its code, its phase, the operation in its details, the JSON Pointer of the submitted
member at fault and the other details the modelled functions put in. Its message is a function of the
code (`message_for/1`) and is left out.
-/

namespace Wotex.Directory

/-- The operation a failure names; `service` is for the values built outside of one. -/
inductive Operation where
  | service | register | get | replace | patch | delete | list | expire
  deriving DecidableEq

/-- `code`. -/
inductive Code where
  | invalidContext | invalidRequest | invalidThingDescription | identifierMismatch | notFound
  | expired | forbidden | conflict | collectionChanged | unsupportedQueryProfile | invalidPage
  | authorizationFailure | repositoryFailure | clockFailure | clockRegression | identifierFailure
  deriving DecidableEq

/-- `phase`. -/
inductive Phase where
  | validation | authorization | clock | identifier | repository | listing | patch | expiry
  deriving DecidableEq

/-- The structural `reason` of a refused merge patch. -/
inductive Reason where
  | invalidJsonValue | maxDepthExceeded | maxNodesExceeded
  deriving DecidableEq

structure Error where
  code : Code
  phase : Phase
  operation : Operation
  path : Option Text := none
  identifier : Option Text := none
  expectedVersion : Option Int := none
  reason : Option Reason := none
  deriving DecidableEq

/-- `{:ok, value} | {:error, Error.t()}`, or an exit of the call. -/
abbrev Result (α : Type) := Outcome Error α

/-- A test of a `with` chain and the failure behind it. -/
def check (p : Prop) [Decidable p] (e : Error) : Result Unit := if p then .ok () else .refuse e

@[simp] theorem check_eq_ok {p : Prop} [Decidable p] {e : Error} {u : Unit} : check p e = .ok u ↔ p := by
  unfold check
  split_ifs with h <;> simp [h]

end Wotex.Directory
