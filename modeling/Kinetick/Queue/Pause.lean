/-!
# The durable Queue pause

The Session-level execution gate of the Queue. The Queue repository writes and removes it, and
the Turn repository's priority fence consumes it on admission.
-/

namespace Kinetick

inductive QueuePauseCause
  | userStop
  | turnFinalFailure
deriving DecidableEq, Repr

/-- A row of `local_runtime_queue_pauses`, less its session. -/
structure QueuePause where
  cause : QueuePauseCause
  triggerTurnId : String
  pausedAtMs : Int
deriving DecidableEq, Repr

end Kinetick
