import Wotex.Term.Outcome

/-!
# Failures at the coordinator host boundary (`error.ex`)
-/

namespace Wotex.Zigbee

/-- `kind`. -/
inductive Kind where
  | invalidConfig | invalidFrame | invalidCommand | invalidValue | unsupportedProfile | versionMismatch
  | overload | timeout | coordinatorLost | staleHandle | serial | statusFailure | correlationExhausted
  | staleEpoch | staleObservation | unknownRoute | routeConflict | routeExpired | routeMismatch
  | networkMismatch | credentials | credentialDenied
  deriving DecidableEq

/-- The operations of the modelled functions. -/
inductive Operation where
  | encode | feed | request | routes | downlinks | freshness | freshnessPolicy | zcl | zclValue
  | pollControl
  deriving DecidableEq

structure Error where
  kind : Kind
  operation : Operation
  deriving DecidableEq

/-- What a function of the package returns. -/
abbrev Result (α : Type) := Outcome Error α

end Wotex.Zigbee
