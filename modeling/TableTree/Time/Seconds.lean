import TableTree.Number.Binary64
import TableTree.Time.Duration
/-!
# Durations in seconds

Documents give durations as binary64 numbers of seconds.

Results:

* `Duration.ofBinarySeconds?`: seconds to the nearest nanosecond, below `2 ^ 64` seconds.
* `Duration.binarySeconds`: a duration in seconds, rounded part by part.
-/

namespace TableTree.Duration

/-- A number of seconds as a duration: the nearest nanosecond, and of two the even one. Refused from
`2 ^ 64` seconds on. -/
def ofBinarySeconds? (x : Binary64) : Option Duration :=
  if x.num < UInt64.size * x.den then some (ofNanos (roundDiv (x.num * nanosPerSecond) x.den))
  else none

/-- A duration as a number of seconds: the sum of the rounded whole seconds and the rounded
fraction, rounded again. None of the roundings can overflow. -/
def binarySeconds (d : Duration) : Binary64 :=
  let sum : Option Binary64 := do
    let whole ← Binary64.ofNat? d.seconds
    let part ← (← Binary64.ofNat? d.subNanos).div? (← Binary64.ofNat? nanosPerSecond)
    whole.add? part
  sum.getD Binary64.zero

end TableTree.Duration
