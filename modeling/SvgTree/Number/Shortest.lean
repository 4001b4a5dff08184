/-
Decimal text of floating-point numbers: the fewest digits that read back, and of those the
nearest.

Between a ten-thousandth and ten to the sixteenth the text is positional and keeps a
fraction digit; outside it has an exponent of at least two digits.
-/
import SvgTree.Number.Binary64

namespace SvgTree
namespace Binary64

/-- The numbers that round to a positive one, as numerators over one common denominator: the
number itself, its two bounds, and whether the bounds belong to it. -/
structure Interval where
  value : Nat
  low : Nat
  high : Nat
  denominator : Nat
  closed : Bool

def interval (mantissa : Nat) (exponent : Int) : Interval :=
  let (num, den) := ratio mantissa exponent
  let unit := num / mantissa
  -- Below a power of two the neighbour is half as far.
  let edge := mantissa == Nat.pow 2 52 && -1074 < exponent
  { value := 4 * num
    low := 4 * num - (if edge then unit else 2 * unit)
    high := 4 * num + 2 * unit
    denominator := 4 * den
    closed := mantissa % 2 == 0 }

def Interval.holds (i : Interval) (num den : Nat) : Bool :=
  let x := num * i.denominator
  if i.closed then i.low * den ≤ x && x ≤ i.high * den
  else i.low * den < x && x < i.high * den

/-- The power of ten above a positive ratio: the least `p` for which it is below ten to the
`p`. -/
def decimalPoint (num den : Nat) : Int :=
  let guess : Int := (digitCount num : Int) - (digitCount den : Int)
  let below :=
    if guess < 0 then num * Nat.pow 10 (-guess).toNat < den
    else num < den * Nat.pow 10 guess.toNat
  if below then guess else guess + 1

def onGrid (i : Interval) (point : Int) (count : Nat) : Option Nat :=
  let power : Int := point - count
  let (up, down) :=
    if power < 0 then (Nat.pow 10 (-power).toNat, 1) else (1, Nat.pow 10 power.toNat)
  let num := i.value * up
  let den := i.denominator * down
  let floor := num / den
  let rest := num % den
  let lowFits := i.holds (floor * down) up
  let highFits := i.holds ((floor + 1) * down) up
  match lowFits, highFits with
  | true, true =>
    if 2 * rest < den || (2 * rest == den && floor % 2 == 0) then some floor else some (floor + 1)
  | true, false => some floor
  | false, true => some (floor + 1)
  | false, false => none

/-- The first grid with a hit; seventeen digits always suffice. -/
def searchGrid (i : Interval) (point : Int) (count : Nat) : Nat → Nat × Nat
  | 0 => (0, count)
  | fuel + 1 =>
    match onGrid i point count with
    | some n => (n, count)
    | none => searchGrid i point (count + 1) fuel

def trimZeros (ds : List Char) : List Char :=
  (ds.reverse.dropWhile (· == '0')).reverse

def shortest (mantissa : Nat) (exponent : Int) : List Char × Int :=
  let i := interval mantissa exponent
  let point := decimalPoint i.value i.denominator
  let (n, count) := searchGrid i point 1 17
  let ds := Nat.toDigits 10 n
  (trimZeros ds, point + ((ds.length : Int) - count))

def layout (ds : List Char) (point : Int) : String :=
  if -4 < point && point ≤ 16 then
    if point ≤ 0 then
      String.ofList ('0' :: '.' :: List.replicate (-point).toNat '0' ++ ds)
    else
      let p := point.toNat
      let whole := ds.take p ++ List.replicate (p - ds.length) '0'
      let fraction := if ds.length ≤ p then ['0'] else ds.drop p
      String.ofList (whole ++ '.' :: fraction)
  else
    let power := point - 1
    let digits := Nat.toDigits 10 power.natAbs
    let padded := if digits.length < 2 then '0' :: digits else digits
    let sign := if power < 0 then '-' else '+'
    let head := match ds with
      | [] => ['0']
      | [d] => [d]
      | d :: rest => d :: '.' :: rest
    String.ofList (head ++ 'e' :: sign :: padded)

def text : Binary64 → String
  | nan => "nan"
  | infinite s => if s then "-inf" else "inf"
  | finite s m e =>
    let body := if m == 0 then "0.0" else
      let (ds, point) := shortest m e
      layout ds point
    if s then "-" ++ body else body

end Binary64
end SvgTree
