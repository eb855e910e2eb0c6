import PageReach.Data.Binary64
import PageReach.Fault

/-!
# Thresholds

Whether an operation is common depends on how many pages reach its file, compared with the other
files of the run: the threshold lies at the ninth decile of the counts. A twentieth of the pages is
the threshold for operations of a few pages only. Both have a least value.
-/

namespace PageReach.Threshold

/-- Nine tenths. -/
def decile : Binary64 := .ofDecimal false 9 (-1)

/-- A twentieth. -/
def fraction : Binary64 := .ofDecimal false 5 (-2)

/-- The integer part of a share of a number. -/
def share (n : Int) (part : Binary64) : Except Fault Int :=
  match (Binary64.ofInt? n).bind fun x => (x.mul part).floor? with
  | some k => .ok k
  | none => .error .countTooLarge

/-- The value at the ninth decile of some counts, and zero if there are none. -/
def ninthDecile (counts : List Int) : Except Fault Int :=
  if counts.isEmpty then .ok 0
  else do
    let k ← share counts.length decile
    return ((counts.mergeSort (· ≤ ·))[min (counts.length - 1) k.toNat]?).getD 0

/-- The threshold for common operations: at least ten. -/
def common (counts : List Int) : Except Fault Int := do
  return max 10 (← ninthDecile (counts.filter (0 < ·)))

/-- The threshold for operations of a few pages: at least two. -/
def few (pages : Int) : Except Fault Int := do
  return max 2 (← share pages fraction)

end PageReach.Threshold
