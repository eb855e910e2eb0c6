import PageReach.Session.Basic

/-!
# Statistics of a session

How many answers came from memory, what went wrong, and how much is remembered.
-/

namespace PageReach

/-- What a session has counted. -/
structure Statistics where
  hits : Nat
  misses : Nat
  readErrors : Nat
  parseFailures : Nat
  /-- The number of files whose text is remembered. -/
  texts : Nat
  trees : Nat
  resolutions : Nat
deriving DecidableEq, Repr, Inhabited

namespace Statistics

/-- The statistics of a session. -/
def ofSession (s : Session) : Statistics :=
  ⟨s.hits, s.misses, s.readErrors, s.parseFailures, s.texts.size, s.trees.size,
    s.resolutions.length⟩

/-- Tenths of a percent, a tie to the even one. -/
def tenths (part whole : Nat) : Nat :=
  match Binary64.mul (.ofQuotient false part whole) (.ofQuotient false 100 1) with
  | .finite _ m e =>
    let (num, den) := Binary64.scaleDown (10 * m) 1 (-e)
    Binary64.roundQuotient num den
  | _ => 0

/-- The share of answers from memory in percent with one place. -/
def hitRate (s : Statistics) : String :=
  if s.hits + s.misses = 0 then "0"
  else
    let t := tenths s.hits (s.hits + s.misses)
    toString (t / 10) ++ "." ++ toString (t % 10)

end Statistics

end PageReach
