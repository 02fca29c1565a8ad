import Dashboards.Json.Members

/-!
# Rate limits

Every caller may make a number of requests within a window of time. The window of a caller starts at
the first request that falls into no window before; it is over once its length has passed. Windows
that are over are forgotten whenever a request is accepted.

Time is of any type with differences and an order.
-/

namespace Dashboards

variable {τ : Type}

/-- When a window started, and the requests accepted in it. -/
structure Window (τ : Type) where
  start : τ
  count : Nat

/-- A budget of requests per window of some length, and the windows of the callers. -/
structure Limiter (τ : Type) where
  budget : Int
  length : τ
  windows : Members (Window τ)

namespace Limiter

/-- A limiter that has seen no request. -/
def new (budget : Int) (length : τ) : Limiter τ := ⟨budget, length, []⟩

variable [Sub τ] [LE τ] [DecidableLE τ]

/-- Whether a window is over at some moment. -/
def isOver (l : Limiter τ) (now : τ) (w : Window τ) : Bool := l.length ≤ now - w.start

/-- The window that a request of a caller falls into. -/
def windowFor (l : Limiter τ) (key : String) (now : τ) : Window τ :=
  match l.windows.get? key with
  | some w => if l.isOver now w then ⟨now, 0⟩ else w
  | none => ⟨now, 0⟩

/-- Forgets the windows that are over. -/
def prune (l : Limiter τ) (now : τ) : Limiter τ :=
  { l with windows := l.windows.filter fun e => !l.isOver now e.2 }

/-- Counts a request of a caller and says whether it is within the budget. -/
def hit (l : Limiter τ) (key : String) (now : τ) : Bool × Limiter τ :=
  let w := l.windowFor key now
  if l.budget ≤ w.count then (false, { l with windows := l.windows.set key w })
  else
    let counted := { l with windows := l.windows.set key ⟨w.start, w.count + 1⟩ }
    (true, counted.prune now)

/-- How long until the window of a caller is over; its full length without a window. -/
def retryAfter [LT τ] [DecidableLT τ] [OfNat τ 0] (l : Limiter τ) (key : String) (now : τ) : τ :=
  let start := ((l.windows.get? key).map (·.start)).getD now
  let left := l.length - (now - start)
  if 0 < left then left else 0

/-- Forgets all windows. -/
def reset (l : Limiter τ) : Limiter τ := { l with windows := [] }

end Limiter

end Dashboards
