/-
Binary floating-point numbers of 64 bits, as exact data.

A finite number is a sign, a mantissa below 2^53 and an exponent from -1074 to 971; `round`
brings every non-negative ratio of natural numbers to the nearest of them, a tie to the even
mantissa.
-/

namespace SvgTree

/-- A floating-point number: `finite` stands for mantissa times two to the exponent. -/
inductive Binary64 where
  | nan
  | infinite (negative : Bool)
  | finite (negative : Bool) (mantissa : Nat) (exponent : Int)
  deriving DecidableEq, Inhabited

namespace Binary64

/-- The quotient rounded to the nearest integer, a half to the even one. -/
def divNearest (num den : Nat) : Nat :=
  let q := num / den
  let twice := 2 * (num % den)
  if twice < den then q
  else if den < twice then q + 1
  else if q % 2 == 0 then q else q + 1

def scaled (num den : Nat) (exponent : Int) : Nat :=
  if exponent < 0 then divNearest (num * Nat.pow 2 (-exponent).toNat) den
  else divNearest num (den * Nat.pow 2 exponent.toNat)

/-- The exponent at which the ratio has a mantissa of 53 bits, never below the least one. -/
def exponentOf (num den : Nat) : Int :=
  let guess : Int := (Nat.log2 num : Int) - (Nat.log2 den : Int) - 52
  let small := if guess < 0 then num * Nat.pow 2 (-guess).toNat < den * Nat.pow 2 52
    else num < den * Nat.pow 2 (guess.toNat + 52)
  max (if small then guess - 1 else guess) (-1074)

def round (negative : Bool) (num den : Nat) : Binary64 :=
  if num == 0 then finite negative 0 (-1074)
  else
    let e := exponentOf num den
    let m := scaled num den e
    let (m, e) := if m == Nat.pow 2 53 then (Nat.pow 2 52, e + 1) else (m, e)
    if 971 < e then infinite negative else finite negative m e

def digitCount (n : Nat) : Nat := (Nat.toDigits 10 n).length

/-- The number nearest to `digits` times ten to the exponent.  Far beyond either end of the
range the power is not computed. -/
def ofDecimal (negative : Bool) (digits : Nat) (exponent : Int) : Binary64 :=
  let size : Int := digitCount digits + exponent
  if digits == 0 || size < -400 then finite negative 0 (-1074)
  else if 400 < size then infinite negative
  else if exponent < 0 then round negative digits (Nat.pow 10 (-exponent).toNat)
  else round negative (digits * Nat.pow 10 exponent.toNat) 1

def ofInt (n : Int) : Binary64 := round (n < 0) n.natAbs 1

def ratio (mantissa : Nat) (exponent : Int) : Nat × Nat :=
  if exponent < 0 then (mantissa, Nat.pow 2 (-exponent).toNat)
  else (mantissa * Nat.pow 2 exponent.toNat, 1)

def neg : Binary64 → Binary64
  | nan => nan
  | infinite s => infinite (!s)
  | finite s m e => finite (!s) m e

def isZero : Binary64 → Bool
  | finite _ m _ => m == 0
  | _ => false

def compareInt (x : Binary64) (n : Int) : Option Ordering :=
  match x with
  | nan => none
  | infinite s => some (if s then .lt else .gt)
  | finite s m e =>
    let (num, den) := ratio m e
    let value : Int := if s then -(num : Int) else num
    some (compare value (n * den))

/-- Equality of value: the two zeros are equal, and what is no number equals nothing. -/
def sameValue : Binary64 → Binary64 → Bool
  | infinite s, infinite t => s == t
  | finite s m e, finite t n f =>
    let (a, b) := ratio m e
    let (c, d) := ratio n f
    a * d == c * b && (s == t || a == 0)
  | _, _ => false

def add : Binary64 → Binary64 → Binary64
  | nan, _ => nan
  | _, nan => nan
  | infinite s, infinite t => if s == t then infinite s else nan
  | infinite s, _ => infinite s
  | _, infinite s => infinite s
  | finite s m e, finite t n f =>
    let (a, b) := ratio m e
    let (c, d) := ratio n f
    let x : Int := (if s then -(a * d : Int) else a * d) + (if t then -(c * b : Int) else c * b)
    if x == 0 then round (s && t) 0 1 else round (x < 0) x.natAbs (b * d)

def mul : Binary64 → Binary64 → Binary64
  | nan, _ => nan
  | _, nan => nan
  | infinite s, y =>
    match y with
    | finite t n _ => if n == 0 then nan else infinite (s != t)
    | infinite t => infinite (s != t)
    | nan => nan
  | finite s m _, infinite t => if m == 0 then nan else infinite (s != t)
  | finite s m e, finite t n f =>
    let (a, b) := ratio m e
    let (c, d) := ratio n f
    round (s != t) (a * c) (b * d)

end Binary64
end SvgTree
