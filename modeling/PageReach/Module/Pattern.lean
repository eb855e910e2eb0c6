import PageReach.Data.Value
import PageReach.Fault
import PageReach.Text.Split

/-!
# Path patterns

A table of path patterns maps specifiers to targets. A pattern may hold one star, which stands for
any text; the same text takes the place of the first star of each target.
-/

namespace PageReach

open Text

/-- How a pattern covers a specifier. -/
inductive Coverage where
  /-- The pattern is the specifier. -/
  | exact
  /-- The star of the pattern stands for `middle`. -/
  | star (middle : String)
deriving DecidableEq, Repr, Inhabited

namespace Coverage

/-- The texts on either side of the first star. -/
def aroundStar? (s : String) : Option (String × String) :=
  (cutAt? ['*'] s.toList).map fun (a, b) => (String.ofList a, String.ofList b)

/-- What stands between two texts at the ends of `s`, which may not overlap. -/
def between? (s front back : String) : Option String :=
  if startsWith s front && endsWith s back && front.length + back.length ≤ s.length then
    some (dropBack (dropFront s front.length) back.length)
  else none

/-- How a pattern covers a specifier, if it does. -/
def of? (pattern specifier : String) : Option Coverage :=
  match aroundStar? pattern with
  | none => if specifier = pattern then some .exact else none
  | some (front, back) => (between? specifier front back).map .star

/-- A target with the covered text put in. -/
def apply (c : Coverage) (target : String) : String :=
  match c with
  | .exact => target
  | .star middle =>
    match aroundStar? target with
    | none => target
    | some (front, back) => front ++ middle ++ back

/-- A target that may not be text. What holds other values stands for itself as long as none of
them is a star. -/
def applyValue (c : Coverage) (target : Value) : Except Fault Value :=
  match c, target with
  | .exact, v => .ok v
  | c, .text s => .ok (.text (c.apply s))
  | _, .list items =>
    if items.any (·.text? = some "*") then .error .targetHoldsStar else .ok target
  | _, .object fields =>
    if fields.any (·.1 = "*") then .error .targetHoldsStar else .ok target
  | _, _ => .error .targetNotText

end Coverage

/-- The targets of a specifier, in the order in which they are declared. -/
def expandTargets (specifier : String) (patterns : Table (List String)) : List String :=
  patterns.entries.flatMap fun (pattern, targets) =>
    match Coverage.of? pattern specifier with
    | none => []
    | some c => targets.map c.apply

/-- The targets of a specifier where some may not be text. -/
def expandValues (specifier : String) (patterns : Table (List Value)) :
    Except Fault (List Value) := do
  let targets ← patterns.entries.mapM fun (pattern, targets) =>
    match Coverage.of? pattern specifier with
    | none => .ok []
    | some c => targets.mapM c.applyValue
  return targets.flatten

end PageReach
