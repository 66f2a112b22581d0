/-! The one countdown of a transfer and its count of retries. Times are milliseconds
of a clock that the caller reads. -/

namespace TftpReceiver

structure RetryTimer where
  interval : Nat
  maxRetries : Nat
  deadline : Option Nat := none
  retries : Nat := 0
  deriving DecidableEq, Repr, Inhabited

inductive Expiry
  | retry (count : Nat)
  | exhausted (count : Nat)
  deriving DecidableEq, Repr, Inhabited

namespace RetryTimer

/-- The count of retries stops here. -/
def maxCount : Nat := 4294967295

def arm (now : Nat) (timer : RetryTimer) : RetryTimer :=
  { timer with deadline := some (now + timer.interval) }

def cancel (timer : RetryTimer) : RetryTimer := { timer with deadline := none }

def resetRetries (timer : RetryTimer) : RetryTimer := { timer with retries := 0 }

/-- Counts one retry against the budget and disarms. -/
def recordRetry (timer : RetryTimer) : Expiry × RetryTimer :=
  let count := min (timer.retries + 1) maxCount
  (if timer.maxRetries < count then .exhausted count else .retry count,
    { timer with deadline := none, retries := count })

def isArmed (timer : RetryTimer) : Bool := timer.deadline.isSome

end RetryTimer

end TftpReceiver
