/-!
# What plain scalars stand for

A scalar without quotes need not be text: it may stand for nothing, a truth value or a number.
These rules are used twice, to read options and to decide which texts must be quoted when they
are written.

* `null`, `bool?`, `integer?`, `isFloat` — the scalars that are not text.
* `isPlainText` — the scalars that are; `007` is text to some readers and a number to others,
  so it counts as neither.
-/

namespace Songsheet.Yaml

/-- The plain scalars that stand for nothing. -/
def isNull (scalar : String) : Bool :=
  ["", "~", "null", "Null", "NULL"].contains scalar

/-- The truth value of a plain scalar. -/
def bool? (scalar : String) : Option Bool :=
  if ["true", "True", "TRUE"].contains scalar then some true
  else if ["false", "False", "FALSE"].contains scalar then some false
  else none

/-! ## Integers -/

/-- The sign of a numeral, true if it is negative, and the numeral behind it. -/
def splitSign : List Char → Bool × List Char
  | '+' :: digits => (false, digits)
  | '-' :: digits => (true, digits)
  | digits => (false, digits)

/-- The value of a digit, below 16. -/
def digitValue? (c : Char) : Option Nat :=
  if c.isDigit then some (c.toNat - '0'.toNat)
  else if 'a' ≤ c && c ≤ 'f' then some (c.toNat - 'a'.toNat + 10)
  else if 'A' ≤ c && c ≤ 'F' then some (c.toNat - 'A'.toNat + 10)
  else none

/-- The value of at least one digit, all below the base. -/
def radix? (base : Nat) (digits : List Char) : Option Nat :=
  if digits.isEmpty then none
  else digits.foldlM (fun n c =>
    ((digitValue? c).filter (· < base)).map fun d => base * n + d) 0

/-- Two or more digits that begin with a zero, behind an optional sign. -/
def isZeroPadded (scalar : String) : Bool :=
  match (splitSign scalar.toList).2 with
  | '0' :: rest => !rest.isEmpty && rest.all Char.isDigit
  | _ => false

/-- The value of a numeral without its sign; `0x`, `0o` and `0b` change the base. -/
def magnitude? : List Char → Option Nat
  | '0' :: 'x' :: digits => radix? 16 digits
  | '0' :: 'o' :: digits => radix? 8 digits
  | '0' :: 'b' :: digits => radix? 2 digits
  | digits => radix? 10 digits

/-- The integer that a plain scalar stands for: 128 bits, with a sign or without. -/
def integer? (scalar : String) : Option Int :=
  if isZeroPadded scalar then none
  else
    let (negative, digits) := splitSign scalar.toList
    match magnitude? digits with
    | none => none
    | some n =>
      if negative then (if n ≤ Nat.pow 2 127 then some (-(n : Int)) else none)
      else (if n < Nat.pow 2 128 then some (n : Int) else none)

/-- The number below a bound that a plain scalar without a minus sign stands for. -/
def natBelow? (bound : Nat) (scalar : String) : Option Nat :=
  if isZeroPadded scalar || scalar.toList.head? == some '-' then none
  else (magnitude? (splitSign scalar.toList).2).filter (· < bound)

/-! ## Decimal fractions -/

/-- A decimal fraction without its sign: the digits before and behind the point, and the
exponent of ten. -/
structure Fraction where
  whole : List Char
  places : List Char
  exponent : Int
  deriving Repr

/-- The exponent behind the digits of a fraction; none is zero. -/
def exponent? : List Char → Option Int
  | [] => some 0
  | mark :: rest =>
    if mark = 'e' ∨ mark = 'E' then
      let (negative, digits) := splitSign rest
      (radix? 10 digits).map fun n => if negative then -(n : Int) else n
    else none

/-- Reads a decimal fraction without its sign, with at least one digit. -/
def fraction? (text : List Char) : Option Fraction :=
  let whole := text.takeWhile Char.isDigit
  let (places, rest) := match text.dropWhile Char.isDigit with
    | '.' :: rest => (rest.takeWhile Char.isDigit, rest.dropWhile Char.isDigit)
    | rest => ([], rest)
  if whole.isEmpty && places.isEmpty then none
  else (exponent? rest).map fun e => ⟨whole, places, e⟩

/-- Half a unit above the greatest finite double: what is less rounds to a finite value. -/
def doubleOverflow : Nat := (Nat.pow 2 54 - 1) * Nat.pow 2 970

/-- Whether a decimal fraction rounds to a finite double. Numbers with more than 310 digits
before the point do not, those with fewer than 300 do, and the others are compared exactly. -/
def Fraction.isFinite (f : Fraction) : Bool :=
  let digits := (f.whole ++ f.places).dropWhile (· == '0')
  if digits.isEmpty then true
  else
    let exponent := f.exponent - f.places.length
    let size := digits.length + exponent
    if 310 < size then false
    else if size < 300 then true
    else
      let value := digits.foldl (fun n d => 10 * n + (d.toNat - '0'.toNat)) 0
      if 0 ≤ exponent then value * Nat.pow 10 exponent.toNat < doubleOverflow
      else value < doubleOverflow * Nat.pow 10 (-exponent).toNat

/-- The plain scalars that stand for a floating-point number that is no integer above. -/
def isFloat (scalar : String) : Bool :=
  let (_, unsigned) := splitSign scalar.toList
  [".inf", ".Inf", ".INF"].contains (String.ofList unsigned)
    || [".nan", ".NaN", ".NAN"].contains scalar
    || (fraction? unsigned).any Fraction.isFinite

/-- The plain scalars that stand for themselves, to every reader. -/
def isPlainText (scalar : String) : Bool :=
  !(isNull scalar || (bool? scalar).isSome || (integer? scalar).isSome || isZeroPadded scalar
    || isFloat scalar)

end Songsheet.Yaml
