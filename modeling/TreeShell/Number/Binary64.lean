/-!
# Numbers and their texts

Whole numbers and floating point numbers are read and written in decimal figures.
-/

namespace TreeShell

/-!
## Decimal texts of whole numbers
-/

namespace Number

def digits (n : Nat) : List Char := (Nat.repr n).toList

def natText (n : Nat) : String := Nat.repr n

def intText : Int → String
  | .ofNat n => natText n
  | .negSucc n => "-" ++ natText (n + 1)

/-- `n` in at least `width` digits, zeros in front. -/
def padded (width n : Nat) : String :=
  String.ofList (List.replicate (width - (digits n).length) '0' ++ digits n)

/-- The value of a list of decimal digits. -/
def ofDigits (cs : List Char) : Nat := cs.foldl (fun n c ↦ 10 * n + (c.toNat - '0'.toNat)) 0

/-- `num / den` to the nearest whole number, a half going to the even neighbour. -/
def roundHalfEven (num den : Nat) : Nat :=
  let q := num / den
  let r := num % den
  if 2 * r < den then q
  else if den < 2 * r then q + 1
  else if q % 2 = 0 then q else q + 1

end Number

/-!
## Decimal figures

The figures of a number are its digits, without zeros behind them, and the place of the decimal
point. A number is written positionally or with one digit before the point and an exponent.
-/

namespace Number

/-- The digits stand right behind the point of a fraction that is multiplied by ten to the power
of `place`. Zero has the single digit zero in front of its point. -/
structure Figures where
  digits : List Char
  place : Int
  deriving DecidableEq, Repr

structure Numeral where
  whole : List Char
  fraction : List Char := []
  exponent : Option Int := none
  deriving DecidableEq, Repr

/-- Digits with zeros behind them, at least `n` in all. -/
def zerosBehind (n : Nat) (cs : List Char) : List Char :=
  cs ++ List.replicate (n - cs.length) '0'

namespace Figures

def zero : Figures := ⟨['0'], 1⟩

/-- The figures of `n * 10 ^ unit`. -/
def ofNat (n : Nat) (unit : Int) : Figures :=
  if n = 0 then zero
  else
    let ds := Number.digits n
    ⟨(ds.reverse.dropWhile (· == '0')).reverse, unit + ds.length⟩

/-- Written positionally, with at least `places` digits after the point. -/
def positional (places : Nat) (f : Figures) : Numeral :=
  let front := f.place.toNat
  let behind := List.replicate (-f.place).toNat '0' ++ f.digits.drop front
  { whole := if front = 0 then ['0'] else zerosBehind front (f.digits.take front)
    fraction := zerosBehind places behind }

/-- Written with an exponent and at least `places` digits after the point. -/
def scientific (places : Nat) (f : Figures) : Numeral :=
  { whole := f.digits.take 1
    fraction := zerosBehind places (f.digits.drop 1)
    exponent := some (f.place - 1) }

/-- Written with up to `count` digits: positionally unless the point falls outside of them or
behind more than three zeros. If `full`, all the digits are written; if `pointed`, a digit
follows the point of a positional number. -/
def general (count : Nat) (full pointed : Bool) (f : Figures) : Numeral :=
  let least : Nat := if pointed then 1 else 0
  if -4 < f.place ∧ f.place + least ≤ count then
    f.positional (if full then max (count - f.place).toNat least else least)
  else f.scientific (if full then count - 1 else 0)

end Figures

namespace Numeral

def exponentText (mark : Char) (e : Int) : List Char :=
  mark :: (if e < 0 then '-' else '+') :: (padded 2 e.natAbs).toList

/-- What follows the whole part; `pointed` keeps a point without digits behind it. -/
def tail (pointed : Bool) (mark : Char) (n : Numeral) : List Char :=
  (if n.fraction = [] ∧ !pointed then [] else '.' :: n.fraction) ++
    n.exponent.elim [] (exponentText mark)

def text (n : Numeral) : String := String.ofList (n.whole ++ n.tail false 'e')

end Numeral

end Number

/-!
## Floating point numbers of 64 bits

A finite number is kept as `mantissa * 2 ^ exponent`; the mantissa has 53 bits unless the
exponent is the least one. A quotient of natural numbers is rounded to the nearest such number,
a tie going to the even mantissa. The text of a number has the fewest digits that read back as
the same number and, of those, the ones nearest to it.
-/

namespace Number

inductive Binary64 where
  | finite (negative : Bool) (mantissa : Nat) (exponent : Int)
  | infinity (negative : Bool)
  | notANumber
  deriving DecidableEq, Repr, Inhabited

namespace Binary64

def leastExponent : Int := -1074

/-- The magnitude `num * 2 ^ (-e) / den` as a quotient of natural numbers. -/
def scaled (num den : Nat) (e : Int) : Nat × Nat :=
  if 0 ≤ e then (num, den * Nat.pow 2 e.toNat) else (num * Nat.pow 2 (-e).toNat, den)

/-- The number nearest to `num / den`. -/
def ofRatio (negative : Bool) (num den : Nat) : Binary64 :=
  if num = 0 then .finite negative 0 leastExponent
  else
    let guess := max leastExponent ((num.log2 : Int) - den.log2 - 53)
    let (n, d) := scaled num den guess
    let exponent := if n / d < Nat.pow 2 53 then guess else guess + 1
    let (n, d) := scaled num den exponent
    let mantissa := roundHalfEven n d
    let (mantissa, exponent) :=
      if mantissa = Nat.pow 2 53 then (Nat.pow 2 52, exponent + 1) else (mantissa, exponent)
    if 971 < exponent then .infinity negative else .finite negative mantissa exponent

/-- The number nearest to `mantissa * 10 ^ exponent`. Beyond 400 decimal places on either side
the result is infinite or zero whatever the digits are. -/
def ofDecimal (negative : Bool) (mantissa : Nat) (exponent : Int) : Binary64 :=
  let size := exponent + (digits mantissa).length
  if mantissa = 0 ∨ size < -400 then .finite negative 0 leastExponent
  else if 400 < size then .infinity negative
  else if 0 ≤ exponent then ofRatio negative (mantissa * Nat.pow 10 exponent.toNat) 1
  else ofRatio negative mantissa (Nat.pow 10 (-exponent).toNat)

def ofInt (n : Int) : Binary64 := ofRatio (n < 0) n.natAbs 1

/-- The magnitude of a finite number as a quotient. -/
def ratio (mantissa : Nat) (exponent : Int) : Nat × Nat :=
  if 0 ≤ exponent then (mantissa * Nat.pow 2 exponent.toNat, 1)
  else (mantissa, Nat.pow 2 (-exponent).toNat)

/-- The `p` with `10 ^ (p - 1) ≤ num / den < 10 ^ p`. -/
def decimalPoint (num den : Nat) : Int :=
  if den ≤ num then ((digits (num / den)).length : Int)
  else 1 - ((digits ((den - 1) / num)).length : Int)

/-- The quotient `num / den` measured in units of `10 ^ unit`. -/
def inUnits (num den : Nat) (unit : Int) : Nat × Nat :=
  if 0 ≤ unit then (num, den * Nat.pow 10 unit.toNat) else (num * Nat.pow 10 (-unit).toNat, den)

/-- The decimal `value * 10 ^ point`. -/
structure Digits where
  value : Nat
  point : Int
  deriving DecidableEq, Repr

/-- The shortest decimal that reads back as the positive number `mantissa * 2 ^ exponent`;
`budget` bounds the number of digits still to be tried. -/
def shortestFrom (mantissa : Nat) (exponent : Int) (point : Int) :
    Nat → Nat → Digits
  | 0, count => ⟨mantissa, point + count⟩
  | budget + 1, count =>
      let (num, den) := ratio mantissa exponent
      -- the number measured in units of its last digit
      let unit := point - count
      let (n, d) := inUnits num den unit
      let below := n / d
      let nearest := roundHalfEven n d
      let other := if nearest = below then below + 1 else below
      let readsBack (v : Nat) := ofDecimal false v unit = .finite false mantissa exponent
      if readsBack nearest then ⟨nearest, unit⟩
      else if readsBack other then ⟨other, unit⟩
      else shortestFrom mantissa exponent point budget (count + 1)

/-- The shortest figures that read back as a positive number. -/
def shortest (mantissa : Nat) (exponent : Int) : Figures :=
  let (num, den) := ratio mantissa exponent
  let d := shortestFrom mantissa exponent (decimalPoint num den) 17 1
  .ofNat d.value d.point

/-- The figures of `num / den` rounded to a multiple of `10 ^ unit`. -/
def roundedTo (num den : Nat) (unit : Int) : Figures :=
  let (n, d) := inUnits num den unit
  .ofNat (roundHalfEven n d) unit

/-- No number has more digits after the point, nor more digits in all that are not zeros at either
end, so rounding to more of them changes nothing. -/
def mostDigits : Nat := 1074

/-- The figures of a number rounded to `places` digits after the point. -/
def toPlaces (mantissa : Nat) (exponent : Int) (places : Nat) : Figures :=
  let (num, den) := ratio mantissa exponent
  roundedTo num den (-(min places mostDigits : Nat))

/-- The figures of a number rounded to `count` digits. -/
def toDigits (mantissa : Nat) (exponent : Int) (count : Nat) : Figures :=
  if mantissa = 0 then .zero
  else
    let (num, den) := ratio mantissa exponent
    roundedTo num den (decimalPoint num den - (min count mostDigits : Nat))

/-- How a number is written: positionally from 0.0001 on and below 10 ^ 16, with a digit after the
point, else with an exponent. -/
def numeral (f : Figures) : Numeral :=
  if -4 < f.place ∧ f.place ≤ 16 then f.positional 1 else f.scientific 0

/-- A number multiplied by a whole number. -/
def times (n : Nat) : Binary64 → Binary64
  | .finite negative mantissa exponent =>
      let (num, den) := ratio mantissa exponent
      ofRatio negative (num * n) den
  | x => x

def text : Binary64 → String
  | .notANumber => "nan"
  | .infinity negative => if negative then "-inf" else "inf"
  | .finite negative mantissa exponent =>
      (if negative then "-" else "") ++
        if mantissa = 0 then "0.0" else (numeral (shortest mantissa exponent)).text

end Binary64

end Number

end TreeShell
