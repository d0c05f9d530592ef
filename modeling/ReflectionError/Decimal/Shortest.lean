/-!
# ReflectionError.Decimal.Shortest

Floating point numbers in decimal text: the fewest digits that read back as the number, and of those
the nearest to it. A double is `significand * 2 ^ exponent`; the numbers that round to it form an
interval, whose ends belong to it when the significand is even. The grids of multiples of a power of
ten are tried from coarse to fine, and the first that has a point in the interval gives the digits.
-/

namespace ReflectionError
namespace Decimal

/-- The size of a finite double: `significand * 2 ^ exponent`. -/
structure Binary where
  significand : Nat
  exponent : Int
  deriving DecidableEq

def Binary.leading : Nat := 0x10000000000000

def Binary.ofBits (bits : UInt64) : Binary :=
  let fraction : Nat := bits.toNat % leading
  let biased : Nat := bits.toNat / leading % 0x800
  if biased = 0 then ⟨fraction, -1074⟩ else ⟨leading + fraction, (biased : Int) - 1075⟩

structure Digits where
  digits : Nat
  exponent : Int
  deriving DecidableEq

/-- The point of the grid of multiples of `10 ^ j` that is nearest to `b` among those that read back
as `b`, with the even one of two at the same distance; `none` if there is no such point but zero. In
units of a quarter of the last place of `b` the interval reaches from `low` to `high` around
`middle`, and a point `d` of the grid lies at `d * scale / unit`. -/
def gridPoint? (b : Binary) (j : Int) : Option Nat :=
  let middle := 4 * b.significand
  let low := if b.significand = Binary.leading && -1074 < b.exponent then middle - 1 else middle - 2
  let high := middle + 2
  let places := b.exponent - 2
  let unit := Nat.pow 2 places.toNat * Nat.pow 10 (-j).toNat
  let scale := Nat.pow 10 j.toNat * Nat.pow 2 (-places).toNat
  let inside (d : Nat) : Bool :=
    if b.significand % 2 = 0 then low * unit ≤ d * scale && d * scale ≤ high * unit
    else low * unit < d * scale && d * scale < high * unit
  let below := middle * unit / scale
  let above := below + 1
  let toBelow := middle * unit - below * scale
  let toAbove := above * scale - middle * unit
  if below ≠ 0 && inside below then
    if inside above && (toAbove < toBelow || toAbove = toBelow && above % 2 = 0) then some above
    else some below
  else if inside above then some above
  else none

def searchGrids (b : Binary) (j : Int) : Nat → Digits
  | 0 => ⟨(gridPoint? b j).getD 0, j⟩
  | tries + 1 =>
    match gridPoint? b (j + (tries + 1)) with
    | some d => ⟨d, j + (tries + 1)⟩
    | none => searchGrids b j tries

def shortest (b : Binary) : Digits := searchGrids b (-326) 640

/-- When the power of ten of the first digit is one of these, the number is written without an
exponent. -/
def isPositional (power : Int) : Bool := -5 ≤ power && power ≤ 15

def natDigits (n : Nat) : List Char := Nat.toDigits 10 n

/-- Digits and exponent as text: positional with a point and at least one digit behind it, or one
digit, a point if more digits follow, and a signed exponent. -/
def Digits.render (n : Digits) : List Char :=
  let ds := natDigits n.digits
  let power := n.exponent + (ds.length - 1 : Nat)
  if isPositional power then
    if 0 ≤ n.exponent then ds ++ List.replicate n.exponent.toNat '0' ++ ['.', '0']
    else if 0 ≤ power then ds.take (power.toNat + 1) ++ ['.'] ++ ds.drop (power.toNat + 1)
    else ['0', '.'] ++ List.replicate (-power - 1).toNat '0' ++ ds
  else
    ds.take 1 ++ (if ds.length = 1 then [] else '.' :: ds.drop 1) ++
      ['e', if 0 ≤ power then '+' else '-'] ++ natDigits power.natAbs

def floatText (bits : UInt64) : String :=
  let sign := if bits.toNat / 0x8000000000000000 = 1 then ['-'] else []
  let b := Binary.ofBits bits
  if b.significand = 0 then String.ofList (sign ++ ['0', '.', '0'])
  else String.ofList (sign ++ (shortest b).render)

end Decimal
end ReflectionError
