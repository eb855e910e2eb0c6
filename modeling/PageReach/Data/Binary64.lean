/-!
# Binary floating-point numbers

Numbers with 53 binary digits and a bounded exponent, in exact arithmetic on natural numbers. Every
operation takes the exact result to the nearest number, a tie to the even one. A number is written
with the fewest digits that read back as itself.
-/

namespace PageReach

/-- A floating-point number: `± significand · 2 ^ exponent`, an infinity, or no number. -/
inductive Binary64 where
  | finite (negative : Bool) (significand : Nat) (exponent : Int)
  | infinite (negative : Bool)
  | nan
deriving DecidableEq, Repr, Inhabited

namespace Binary64

/-! ### Rounding -/

/-- The natural number nearest to a quotient, the even one of two. -/
def roundQuotient (num den : Nat) : Nat :=
  let q := num / den
  let r := num % den
  if 2 * r < den then q else if den < 2 * r then q + 1 else q + q % 2

/-- The quotient by a power of two, as a pair of natural numbers. -/
def scaleDown (num den : Nat) (e : Int) : Nat × Nat :=
  if 0 ≤ e then (num, den * Nat.pow 2 e.toNat) else (num * Nat.pow 2 (-e).toNat, den)

/-- The exponent of the largest power of two that is at most a positive quotient. -/
def binaryExponent (num den : Nat) : Int :=
  let guess : Int := (Nat.log2 num : Int) - Nat.log2 den
  let (n, d) := scaleDown num den guess
  if n < d then guess - 1 else guess

/-- The number nearest to a quotient. -/
def ofQuotient (negative : Bool) (num den : Nat) : Binary64 :=
  if num = 0 then .finite negative 0 (-1074)
  else
    let e := max (binaryExponent num den - 52) (-1074)
    let (n, d) := scaleDown num den e
    let m := roundQuotient n d
    let (m, e) := if m = Nat.pow 2 53 then (Nat.pow 2 52, e + 1) else (m, e)
    if 971 < e then .infinite negative else .finite negative m e

/-- The number nearest to `digits · 10 ^ e`. Powers beyond the range of all numbers are not worked
out. -/
def ofDecimal (negative : Bool) (digits : Nat) (e : Int) : Binary64 :=
  let size : Int := (Nat.toDigits 10 digits).length
  if digits = 0 || size + e < -330 then .finite negative 0 (-1074)
  else if 330 < size + e then .infinite negative
  else if 0 ≤ e then ofQuotient negative (digits * Nat.pow 10 e.toNat) 1
  else ofQuotient negative digits (Nat.pow 10 (-e).toNat)

/-- The number nearest to an integer; `none` if that is beyond all numbers. -/
def ofInt? (n : Int) : Option Binary64 :=
  match ofQuotient (n < 0) n.natAbs 1 with
  | .infinite _ => none
  | x => some x

/-! ### Arithmetic -/

/-- The product of two finite numbers, and infinity or no number for others. -/
def mul : Binary64 → Binary64 → Binary64
  | .finite s m e, .finite t n f =>
    let (num, den) := scaleDown (m * n) 1 (-(e + f))
    ofQuotient (s != t) num den
  | _, _ => .nan

/-- The largest integer that is at most a number. -/
def floor? : Binary64 → Option Int
  | .finite negative m e =>
    let (num, den) := scaleDown m 1 (-e)
    some (Int.fdiv (if negative then -num else num) den)
  | _ => none

/-- Whether the number is zero. -/
def isZero : Binary64 → Bool
  | .finite _ m _ => m = 0
  | _ => false

/-! ### Text -/

/-- The least `k` with `num / den < 10 ^ k`, searched from `k` on with at most `fuel` steps. -/
def decimalPoint (num den : Nat) : (fuel : Nat) → (k : Int) → Int
  | 0, k => k
  | fuel + 1, k =>
    let below :=
      if 0 ≤ k then num < den * Nat.pow 10 k.toNat else num * Nat.pow 10 (-k).toNat < den
    if below then k else decimalPoint num den fuel (k + 1)

/-- The two multiples of `10 ^ e` between which a positive quotient lies, divided by that power, the
nearer one first. -/
def neighbours (num den : Nat) (e : Int) : List Nat :=
  let (n, d) :=
    if 0 ≤ e then (num, den * Nat.pow 10 e.toNat) else (num * Nat.pow 10 (-e).toNat, den)
  let q := n / d
  if 2 * (n % d) < d || (2 * (n % d) = d && q % 2 = 0) then [q, q + 1] else [q + 1, q]

/-- The fewest digits, and the power of ten at their end, that read back as the number `x`, whose
value is a quotient below `10 ^ k`. -/
def shortest (x : Binary64) (num den : Nat) (k : Int) : Nat × Int :=
  let hit := (List.range 17).findSome? fun (i : Nat) =>
    let e := k - ((i : Int) + 1)
    ((neighbours num den e).find? fun d => ofDecimal false d e = x).map fun d => (d, e)
  hit.getD (0, 0)

/-- Digits without zeros at their end, and the power of ten that makes up for it. -/
def dropZeros : (fuel : Nat) → Nat → Int → Nat × Int
  | 0, d, e => (d, e)
  | fuel + 1, d, e => if d ≠ 0 && d % 10 = 0 then dropZeros fuel (d / 10) (e + 1) else (d, e)

/-- Digits with the point after the first `point` of them. -/
def positional (digits : List Char) (point : Int) : String :=
  let zeros (n : Int) := List.replicate n.toNat '0'
  let count : Int := digits.length
  String.ofList <|
    if point ≤ 0 then ['0', '.'] ++ zeros (-point) ++ digits
    else if count ≤ point then digits ++ zeros (point - count) ++ ['.', '0']
    else digits.take point.toNat ++ ['.'] ++ digits.drop point.toNat

/-- Digits with the point after the first of them, and the power of ten in at least two digits. -/
def scientific (digits : List Char) (e : Int) : String :=
  let fraction := if digits.length = 1 then [] else '.' :: digits.drop 1
  let power := Nat.toDigits 10 e.natAbs
  let power := if power.length < 2 then '0' :: power else power
  String.ofList (digits.take 1 ++ fraction ++ ['e', if e < 0 then '-' else '+'] ++ power)

/-- Decimal text: positional from `0.0001` on and below ten to the sixteenth. -/
def text : Binary64 → String
  | .nan => "nan"
  | .infinite negative => if negative then "-inf" else "inf"
  | .finite negative m e =>
    let sign := if negative then "-" else ""
    if m = 0 then sign ++ "0.0"
    else
      let (num, den) := scaleDown m 1 (-e)
      let k := decimalPoint num den 640 (-324)
      let (d, p) := shortest (.finite false m e) num den k
      let (d, p) := dropZeros 20 d p
      let digits := Nat.toDigits 10 d
      let point := p + digits.length
      sign ++ if -4 < point && point ≤ 16 then positional digits point
        else scientific digits (point - 1)

end Binary64

end PageReach
