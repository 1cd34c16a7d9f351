import WorkPlan.Codec.Record

/-!
# Retry rules

A step may carry a retry rule.  Nothing here retries: a rule with at least one attempt becomes a
retrier of the compiled task, with the same three numbers.
-/

namespace WorkPlan

/-- How often and at what growing distance the execution service should try a step again. -/
structure Retry where
  maxAttempts : UInt32 := 0
  intervalSeconds : UInt64 := 15
  backoffRate : Binary64 := .ofInt 4
deriving DecidableEq, Repr

namespace Retry

instance : Inhabited Retry := ⟨{}⟩

def attempts (n : UInt32) : Retry := { maxAttempts := n }

def enabled (r : Retry) : Bool := decide (0 < r.maxAttempts)

def fieldNames : List String := ["max_attempts", "interval_seconds", "backoff_rate"]

def encode (r : Retry) : Tree :=
  .table
    [("max_attempts", .int r.maxAttempts.toNat), ("interval_seconds", .int r.intervalSeconds.toNat),
      ("backoff_rate", .float r.backoffRate)]

def decode? (d : Dialect) (t : Tree) : Option Retry := do
  let field ← Codec.fields? d fieldNames t
  let maxAttempts ← Codec.defaulted 0 (field "max_attempts") Codec.word32?
  let intervalSeconds ← Codec.defaulted 15 (field "interval_seconds") Codec.word64?
  let backoffRate ← Codec.defaulted (.ofInt 4) (field "backoff_rate") Codec.float?
  return { maxAttempts, intervalSeconds, backoffRate }

end Retry

/-- The retry entry of a compiled task. -/
structure Retrier where
  errorEquals : List String
  maxAttempts : UInt32
  intervalSeconds : UInt64
  backoffRate : Binary64
deriving DecidableEq, Repr

namespace Retrier

/-- The retrier that a rule asks for, matching the given error names. -/
def ofRetry? (errorEquals : List String) (r : Retry) : Option Retrier :=
  if r.enabled then some ⟨errorEquals, r.maxAttempts, r.intervalSeconds, r.backoffRate⟩ else none

def fieldNames : List String :=
  ["error_equals", "max_attempts", "interval_seconds", "backoff_rate"]

def encode (r : Retrier) : Tree :=
  .table
    [("error_equals", .strings r.errorEquals), ("max_attempts", .int r.maxAttempts.toNat),
      ("interval_seconds", .int r.intervalSeconds.toNat), ("backoff_rate", .float r.backoffRate)]

def decode? (d : Dialect) (t : Tree) : Option Retrier := do
  let field ← Codec.fields? d fieldNames t
  let errorEquals ← Codec.required (field "error_equals") Codec.texts?
  let maxAttempts ← Codec.required (field "max_attempts") Codec.word32?
  let intervalSeconds ← Codec.required (field "interval_seconds") Codec.word64?
  let backoffRate ← Codec.required (field "backoff_rate") Codec.float?
  return { errorEquals, maxAttempts, intervalSeconds, backoffRate }

end Retrier

end WorkPlan
