import TreeShell.Number.Binary64
import TreeShell.Template.Fault
import TreeShell.Text.Character

/-!
# Layouts

The layout of a field tells how a text or a number is written in it.
-/

namespace TreeShell

/-!
## Layouts of fields

A layout is an optional fill character and alignment, a sign, marks for special cases, a width,
a digit separator, a precision and a type code, in this order. Texts are cut to the precision
and padded to the width.
-/

namespace Template

structure Layout where
  fill : Char
  align : Char
  sign : Option Char
  zero : Bool
  alternate : Bool
  width : Nat
  separator : Option Char
  precision : Option Nat
  code : Char
  deriving Repr

namespace Layout

def isAlign (c : Char) : Bool := c == '<' || c == '>' || c == '=' || c == '^'

/-- The first character if it has the property, and the rest. -/
def takeIf (p : Char → Bool) : List Char → Option Char × List Char
  | c :: cs => if p c then (some c, cs) else (none, c :: cs)
  | [] => (none, [])

/-- The number at the front; beyond 63 bits there are too many digits. -/
def takeNumber (cs : List Char) : Except Fault (Option Nat × List Char) :=
  match cs.takeWhile Text.isDigit with
  | [] => .ok (none, cs)
  | ds =>
      let n := Text.digitsValue ds
      if n < Nat.pow 2 63 then .ok (some n, cs.dropWhile Text.isDigit) else .error .tooManyDigits

/-- The fill character and the alignment at the front. -/
def takeAlign : List Char → Option Char × Option Char × List Char
  | f :: a :: cs =>
      if isAlign a then (some f, some a, cs)
      else if isAlign f then (none, some f, a :: cs)
      else (none, none, f :: a :: cs)
  | [a] => if isAlign a then (none, some a, []) else (none, none, [a])
  | [] => (none, none, [])

/-- The code of a number that is written in its usual way. -/
def usual : Char := '\x00'

/-- The type codes that go with a digit separator. -/
def takesSeparator (mark code : Char) : Bool :=
  code == usual || "deEfFgG%".contains code || (mark == '_' && "boxX".contains code)

/-- Reads the layout of a value of the given kind, whose usual type code and alignment are
given. -/
def parse (kind : String) (code align : Char) (cs : List Char) : Except Fault Layout := do
  let (fill, align?, rest) := takeAlign cs
  let (sign, rest) := takeIf (fun c ↦ c == ' ' || c == '+' || c == '-') rest
  let (zero, rest) := takeIf (· == 'z') rest
  let (alternate, rest) := takeIf (· == '#') rest
  let (padding, rest) := if fill.isSome then (none, rest) else takeIf (· == '0') rest
  let (width, rest) ← takeNumber rest
  let (comma, rest) := takeIf (· == ',') rest
  let (underscore, rest) := takeIf (· == '_') rest
  if comma.isSome ∧ underscore.isSome ∨ underscore.isSome ∧ rest.head? = some ',' then
    throw .bothSeparators
  let (point, rest) := takeIf (· == '.') rest
  let (precision, rest) ← if point.isSome then takeNumber rest else pure (none, rest)
  if point.isSome ∧ precision = none then throw .noPrecision
  let code ← match rest with
    | [] => pure code
    | [c] => pure c
    | _ => throw (.badLayout (String.ofList cs) kind)
  let mark := comma.or underscore
  if let some m := mark then
    if !takesSeparator m code then throw (.separator m code)
  let spread := if padding.isSome ∧ align = '>' then '=' else align
  pure {
    fill := fill.getD (padding.getD ' ')
    align := align?.getD spread
    sign, zero := zero.isSome, alternate := alternate.isSome
    width := width.getD 0, separator := mark, precision, code }

/-- The greatest width that can be filled. -/
def greatestWidth : Nat := Nat.pow 2 36

/-- Pads a body to the width; a sign stays in front of the padding when the two are spread. -/
def pad (l : Layout) (front body : List Char) : Except Fault (List Char) :=
  let missing := l.width - (front.length + body.length)
  let blank := List.replicate missing l.fill
  if greatestWidth < l.width then .error .tooWide
  else
    .ok <| match l.align with
      | '>' => blank ++ front ++ body
      | '^' =>
          List.replicate (missing / 2) l.fill ++ front ++ body ++
            List.replicate (missing - missing / 2) l.fill
      | '=' => front ++ blank ++ body
      | _ => front ++ body ++ blank

def ofText (cs : List Char) (layout : List Char) : Except Fault (List Char) := do
  if layout = [] then return cs
  let l ← parse "str" 's' '<' layout
  if l.code ≠ 's' then throw (.unknownCode l.code "str")
  if let some mark := l.sign then throw (.signedText mark)
  if l.zero then throw .zeroText
  if l.alternate then throw .alternateText
  if l.align = '=' then throw .spreadText
  l.pad [] (match l.precision with | some n => cs.take n | none => cs)

end Layout

end Template

/-!
## Numbers under a layout

The digits of a number in front of the point may be grouped and filled up with zeros to the
width; the sign and the mark of the base stand in front of them. A whole number that is laid out
with a point, an exponent or a percent sign is taken as a floating point number.
-/

namespace Template

open Number (Binary64 Figures Numeral)

/-- The parts of a number to be laid out. -/
structure Numeric where
  negative : Bool
  /-- The mark of the base. -/
  base : List Char := []
  /-- The digits before the point; there are none of a number that is not finite. -/
  whole : List Char
  /-- Everything from the point on. -/
  tail : List Char := []
  deriving Repr

namespace Layout

def signOf (l : Layout) (negative : Bool) : List Char :=
  if negative then ['-'] else match l.sign with
    | some '+' => ['+']
    | some ' ' => [' ']
    | _ => []

/-- Digits in groups of `size` from the right. -/
def group (size : Nat) (mark : Char) (ds : List Char) : List Char :=
  (ds.zipIdx.map fun (d, i) ↦
    if 0 < i ∧ (ds.length - i) % size = 0 then [mark, d] else [d]).flatten

/-- The least number of digits that fill `room` places in groups of `size`; a group is never
without a digit. -/
def digitsFilling (size room : Nat) : Nat :=
  if room = 0 then 0 else size * (room / (size + 1)) + max (room % (size + 1)) 1

/-- The digits of a number, in groups of `size` if there is a separator. Zeros that fill the width
are grouped as well. -/
def digits (l : Layout) (size : Nat) (taken : Nat) (ds : List Char) : List Char :=
  match l.separator with
  | none => ds
  | some mark =>
      let room := if l.fill = '0' ∧ l.align = '=' then l.width - taken else 0
      let missing := digitsFilling size room - ds.length
      if ds = [] then [] else group size mark (List.replicate missing '0' ++ ds)

def ofNumeric (l : Layout) (size : Nat) (n : Numeric) : Except Fault (List Char) :=
  let front := l.signOf n.negative ++ n.base
  if greatestWidth < l.width then .error .tooWide
  else l.pad front (l.digits size (front.length + n.tail.length) n.whole ++ n.tail)

/-! ### Floating point numbers -/

/-- The figures of a finite number under a type code, and how they are written. -/
def numeral (l : Layout) (mantissa : Nat) (exponent : Int) : Figures × Numeral :=
  let places := l.precision.getD 6
  let count := max 1 places
  match l.code with
  | 'e' | 'E' =>
      let f := Binary64.toDigits mantissa exponent (places + 1)
      (f, f.scientific places)
  | 'f' | 'F' | '%' =>
      let f := Binary64.toPlaces mantissa exponent places
      (f, f.positional places)
  | 'g' | 'G' | 'n' =>
      let f := Binary64.toDigits mantissa exponent count
      (f, f.general count l.alternate false)
  | _ =>
      if l.precision.isSome then
        let f := Binary64.toDigits mantissa exponent count
        (f, f.general count l.alternate true)
      else
        let f := if mantissa = 0 then .zero else Binary64.shortest mantissa exponent
        (f, Binary64.numeral f)

/-- The parts of a number. A negative number that is rounded to zero may lose its sign. -/
def partsOf (l : Layout) (x : Binary64) : Numeric :=
  let capital := "EFG".contains l.code
  let word (s : String) : List Char := if capital then s.toList.map Char.toUpper else s.toList
  let percent := if l.code = '%' then ['%'] else []
  match if l.code = '%' then x.times 100 else x with
  | .notANumber => ⟨false, [], [], word "nan" ++ percent⟩
  | .infinity negative => ⟨negative, [], [], word "inf" ++ percent⟩
  | .finite negative mantissa exponent =>
      let (figures, n) := l.numeral mantissa exponent
      ⟨negative && !(l.zero && figures = .zero), [], n.whole,
        n.tail l.alternate (if capital then 'E' else 'e') ++ percent⟩

/-- A floating point number under a layout that is read already. -/
def ofFinite (l : Layout) (x : Binary64) : Except Fault (List Char) :=
  if Nat.pow 2 31 ≤ l.precision.getD 0 then .error .longPrecision
  else l.ofNumeric 3 (l.partsOf x)

/-- The type codes of floating point numbers. -/
def pointCodes : String := "eEfFgG%"

/-- The floating point number laid out. -/
def ofReal (x : Binary64) (layout : List Char) : Except Fault (List Char) := do
  let l ← parse "float" usual '>' layout
  if l.code = usual ∨ l.code = 'n' ∨ pointCodes.contains l.code then l.ofFinite x
  else throw (.unknownCode l.code "float")

/-! ### Whole numbers -/

/-- The digits of a number under a type code, with the mark of its base. -/
def digitsOf (code : Char) (n : Nat) : Option (List Char × List Char) :=
  match code with
  | 'd' | 'n' => some ([], Number.digits n)
  | 'b' => some ("0b".toList, Nat.toDigits 2 n)
  | 'o' => some ("0o".toList, Nat.toDigits 8 n)
  | 'x' => some ("0x".toList, Nat.toDigits 16 n)
  | 'X' => some ("0X".toList, (Nat.toDigits 16 n).map Char.toUpper)
  | _ => none

/-- The character with a code, which has neither sign nor base. -/
def letterOf (l : Layout) (n : Int) : Except Fault Numeric :=
  if l.sign.isSome then .error .signedLetter
  else if l.alternate then .error .alternateLetter
  else if n < -Nat.pow 2 63 ∨ Nat.pow 2 63 ≤ n then .error .longLetter
  else if n < 0 ∨ 0x10ffff < n then .error .noLetter
  else .ok ⟨false, [], [], [Char.ofNat n.toNat]⟩

/-- The whole number laid out. -/
def ofInt (kind : String) (n : Int) (layout : List Char) : Except Fault (List Char) := do
  let l ← parse kind 'd' '>' layout
  if pointCodes.contains l.code then
    match Binary64.ofInt n with
    | .infinity _ => throw .longNumber
    | x => l.ofFinite x
  else
    let spelled := digitsOf l.code n.natAbs
    if spelled.isNone ∧ l.code ≠ 'c' then throw (.unknownCode l.code kind)
    if l.precision.isSome then throw .wholePrecision
    if l.zero then throw .zeroWhole
    match spelled with
    | some (base, ds) =>
        l.ofNumeric (if l.code = 'd' then 3 else 4)
          ⟨n < 0, if l.alternate then base else [], ds, []⟩
    | none => l.ofNumeric 3 (← l.letterOf n)

end Layout

end Template

end TreeShell
