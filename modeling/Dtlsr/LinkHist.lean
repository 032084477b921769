import Mathlib.Algebra.Field.Basic
import Mathlib.Data.Rat.Floor
import Dtlsr.Lib.Checked

/-!
    `algorithm/link_hist.c`: the history of one link's status changes, kept as a ring of time stamps,
    and the link metric computed from it. A `double` is read as an exact number of some ordered field
    `M`; the two functions taken from libm are the operations of the class `Libm`. -/

namespace Dtlsr
open Checked

inductive LinkState where | linkDown | linkUp
  deriving DecidableEq, Repr

def linkStateToggle : LinkState → LinkState
  | .linkUp => .linkDown
  | .linkDown => .linkUp

/-- `link_state_to_bool`, already cast to `double` as its callers do. -/
def linkStateToBool {M : Type} [Zero M] [One M] : LinkState → M
  | .linkUp => 1
  | .linkDown => 0

@[simp] theorem linkStateToggle_toggle (ls : LinkState) :
    linkStateToggle (linkStateToggle ls) = ls := by cases ls <;> rfl

/-- `TS_SIZE` -/
abbrev tsSize : ℕ := 64

/-- Circular array of link state history. -/
structure LSTimeSeries where
  timestamps : Fin tsSize → ℕ
  /-- one cell past the front element; on the last element once the array is full -/
  front : ℕ
  nStates : ℕ
  full : Bool
  currLinkState : LinkState

/-- `exp` and `pow` of libm. -/
class Libm (M : Type) where
  exp : M → M
  pow : M → M → M

/-- The tunable parameters `falloff` and `power`, at their defaults. -/
structure HistParams (M : Type) [Field M] where
  falloff : M := 320
  power : M := 4

instance {M : Type} [Field M] : Inhabited (HistParams M) := ⟨{}⟩

/-- `x % TS_SIZE` of a `size_t` expression: it wraps at 2^64, a multiple of `TS_SIZE`. -/
def wrapIdx (x : ℤ) : Fin tsSize := ⟨(x % tsSize).toNat, by unfold tsSize; omega⟩

def lastIdx (ts : LSTimeSeries) : Fin tsSize := if ts.full then wrapIdx ts.front else wrapIdx 0

section Metric
variable {M : Type} [Field M]

/-- The loop shared by `ts_average_uptime` and `ts_weighted_average_uptime`, for the weight that each
    gives to the interval between two readings. Where the whole history weighs nothing, the quotient is
    0 here and NaN in the program. -/
def uptimeRatio (weight : ℕ → ℕ → M) (ts : LSTimeSeries) (now : ℕ) : M :=
  let first : ℤ := wrapIdx (ts.front - 1)
  let total := weight (ts.timestamps (lastIdx ts)) now
  let summation := (List.range ((ts.nStates - 1) / 2)).foldl
    (fun sum k => -- the C loop variable is `i = -2 * k`
      sum + weight (ts.timestamps (wrapIdx (-2 * k + first - 2)))
        (ts.timestamps (wrapIdx (-2 * k + first - 1))))
    (weight (ts.timestamps (wrapIdx first)) now)
  (if ts.currLinkState = .linkDown then total - summation else summation) / total

/-- Difference of two `unsigned long long` readings, as a `double`. -/
def duration (l r : ℕ) : M := ((((r : ℤ) - l) % 2 ^ 64).toNat : M)

def tsAverageUptime (ts : LSTimeSeries) (now : ℕ) : M :=
  if ts.nStates = 1 then linkStateToBool ts.currLinkState else uptimeRatio duration ts now

variable [Libm M] (p : HistParams M)

/-- `exp((t_r - now) / falloff) - exp((t_l - now) / falloff)` -/
def integralBetween (l r now : ℕ) : M :=
  Libm.exp (((r : M) - now) / p.falloff) - Libm.exp (((l : M) - now) / p.falloff)

def tsWeightedAverageUptime (ts : LSTimeSeries) (now : ℕ) : M :=
  if ts.nStates = 1 then linkStateToBool ts.currLinkState
  else Libm.pow (uptimeRatio (fun l r => integralBetween p l r now) ts now) p.power

def tsComputeMetric (ts : LSTimeSeries) (now : ℕ) : M :=
  -- no hysteresis for links going up
  if ts.currLinkState = .linkUp then 1 else 1 / (tsWeightedAverageUptime p ts now + 1 / 10000)

end Metric

/-- Push a state change onto the history. -/
def tsToggleState (ts : LSTimeSeries) (ms : ℕ) : Exec LSTimeSeries := do
  let timestamps ← write ts.timestamps ts.front ms
  let front := ts.front + 1
  let nStates := if ts.full then ts.nStates else ts.nStates + 1
  pure
    { timestamps
      front := if front = tsSize then 0 else front
      nStates
      full := ts.full || front = tsSize
      currLinkState := linkStateToggle ts.currLinkState }

/-- `ts` is the uninitialised memory that `ts_init` is given. -/
def tsInit (ts : LSTimeSeries) (currLinkState : LinkState) (ms : ℕ) : Exec LSTimeSeries :=
  tsToggleState
    { ts with currLinkState := linkStateToggle currLinkState, front := 0, nStates := 0, full := false }
    ms

/-- `1 + x` for `exp` and `x` for `pow`: enough to run the driver on exact numbers. -/
instance : Libm ℚ where
  exp x := 1 + x
  pow x _ := x

end Dtlsr
