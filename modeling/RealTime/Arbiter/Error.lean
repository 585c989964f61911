import RealTime.Arbiter.Record

/-! # Failures of the arbiter -/

namespace RealTime

/-- Why a request to the arbiter fails, or what is odd about monitoring data. -/
inductive ArbiterError where
  /-- The task is not supervised, or no longer. -/
  | notTracked (task : String) (ended : Option EndCause)
  | unknownCore (core cores : Nat)
  | duplicate (task : String)
  /-- No job explains a missed deadline. -/
  | unresolvedCause (task : String)
  /-- The newest known job is older than the current release. -/
  | staleJob (task : String) (job : Nat)
  deriving DecidableEq, Repr

/-- The wording of a failure. -/
def ArbiterError.message : ArbiterError → String
  | notTracked task none => s!"task '{task}' is not tracked"
  | notTracked task (some cause) => s!"task '{task}' is not tracked (already {cause.name})"
  | unknownCore core cores => s!"core {core} is out of range ({cores} core(s))"
  | duplicate task => s!"task '{task}' is already tracked"
  | unresolvedCause task => s!"deadline miss of '{task}' has no causation task in monitoring data"
  | staleJob task job => s!"newest known job {job} of '{task}' is stale"

end RealTime
