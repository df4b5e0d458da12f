/-
  WireSchema/Json/Decimal.lean
  ============================
  **Decimal numbers and their shortest form.**  A number with a fraction or an
  exponent is kept as it was written, as digits times a power of ten.  When it
  is shown it is shown as a binary64 value: with the fewest digits that read
  back to that value.

  The digits are selected by exact integer arithmetic.  A value is `m * 2^q`;
  the reals that round to it form an interval; for one digit, two digits, and so
  on, the two neighbours of the value on that decimal grid are tested against
  the interval, and the first grid with a hit wins.
-/
import WireSchema.Text.Basic

namespace WireSchema

/-- The number `digits * 10 ^ exponent`, or its negative. -/
structure Decimal where
  negative : Bool
  digits : Nat
  exponent : Int
  deriving DecidableEq, Repr

namespace Decimal

/-- A power of two; one if the exponent is negative. -/
def twoTo (exponent : Int) : Nat := Nat.pow 2 exponent.toNat

/-- A power of ten; one if the exponent is negative. -/
def tenTo (exponent : Int) : Nat := Nat.pow 10 exponent.toNat

/-! ### Reading a decimal as a binary64 value -/

/-- Drops final digits until the digits fit into 64 bits. -/
def trim (digits : Nat) (exponent : Int) : Nat × Int :=
  if h : digits < UInt64.size then (digits, exponent) else trim (digits / 10) (exponent + 1)
termination_by digits
decreasing_by
  have large : UInt64.size = 18446744073709551616 := rfl
  exact Nat.div_lt_self (by omega) (by omega)

/-- Divides by a power of ten in steps of at most 308 places, the largest power
    that is finite. -/
def divPow (value : Float) (places : Nat) : Float :=
  if places ≤ 308 then value / Float.ofScientific 1 false places
  else divPow (value / Float.ofScientific 1 false 308) (places - 308)
termination_by places

/-- The absolute value of a decimal as binary64.  The digits and the power of
    ten are each rounded, and then their product or quotient. -/
def toFloat (d : Decimal) : Float :=
  let (digits, exponent) := trim d.digits d.exponent
  let value := Float.ofScientific digits false 0
  match exponent with
  | .ofNat places => value * Float.ofScientific 1 false places
  | .negSucc places => divPow value (places + 1)

/-! ### The interval of a binary64 value -/

/-- A finite value `mantissa * 2 ^ scale`.  Just above a power of two the gap
    below is half the gap above. -/
structure Binary where
  mantissa : Nat
  scale : Int
  narrowBelow : Bool

/-- The finite value with the given bits, its sign apart. -/
def Binary.ofBits (bits : UInt64) : Binary :=
  let biased := ((bits >>> 52) &&& 0x7FF).toNat
  let fraction := (bits &&& 0xFFFFFFFFFFFFF).toNat
  if biased = 0 then ⟨fraction, -1074, false⟩
  else ⟨twoTo 52 + fraction, biased - 1075, fraction == 0 && decide (1 < biased)⟩

/-- Compares `a * 10^i` with `n * 2^j`. -/
def compareScaled (a : Nat) (i : Int) (n : Nat) (j : Int) : Ordering :=
  compare (a * tenTo i * twoTo (-j)) (n * twoTo j * tenTo (-i))

/-- Whether `digits * 10^exponent` lies among the reals that round to the value.
    The ends of the interval belong to it if the mantissa is even. -/
def Binary.readsBack (x : Binary) (digits : Nat) (exponent : Int) : Bool :=
  let lower := if x.narrowBelow then 4 * x.mantissa - 1 else 4 * x.mantissa - 2
  let upper := 4 * x.mantissa + 2
  let even := x.mantissa % 2 == 0
  let low := compareScaled digits exponent lower (x.scale - 2)
  let high := compareScaled digits exponent upper (x.scale - 2)
  (low == .gt || (even && low == .eq)) && (high == .lt || (even && high == .eq))

/-! ### Selecting the digits -/

/-- The least `k` with `m * 2^q < 10^k`: an estimate from the binary logarithm,
    mended by exact comparison. -/
def Binary.magnitude (x : Binary) : Int :=
  let estimate := (x.mantissa.log2 + x.scale) * 30103 / 100000
  let candidates := (List.range 6).map fun i : Nat => estimate - 2 + i
  (candidates.find? fun k => compareScaled 1 k x.mantissa x.scale == .gt).getD (estimate + 4)

/-- The value's neighbours on the grid of `10^exponent`, if one of them reads
    back; of two the nearer, and on a tie the even one. -/
def Binary.onGrid? (x : Binary) (exponent : Int) : Option (Nat × Int) :=
  let above := x.mantissa * twoTo x.scale * tenTo (-exponent)
  let below := twoTo (-x.scale) * tenTo exponent
  let floor := above / below
  match x.readsBack floor exponent, x.readsBack (floor + 1) exponent with
  | true, true =>
    match compare (2 * (above % below)) below with
    | .lt => some (floor, exponent)
    | .gt => some (floor + 1, exponent)
    | .eq => some (if floor % 2 == 0 then floor else floor + 1, exponent)
  | true, false => some (floor, exponent)
  | false, true => some (floor + 1, exponent)
  | false, false => none

/-- Moves final zeros of the digits into the exponent. -/
def stripZeros (digits : Nat) (exponent : Int) : Nat × Int :=
  if h : digits ≠ 0 ∧ digits % 10 = 0 then stripZeros (digits / 10) (exponent + 1)
  else (digits, exponent)
termination_by digits
decreasing_by exact Nat.div_lt_self (by omega) (by omega)

/-- The fewest digits that read back to a value that is not zero, as digits and
    a power of ten.  Seventeen digits are always enough. -/
def Binary.shortest (x : Binary) : Nat × Int :=
  let magnitude := x.magnitude
  let found := (List.range 17).findSome? fun n : Nat => x.onGrid? (magnitude - n - 1)
  match found with
  | some (digits, exponent) => stripZeros digits exponent
  | none => (x.mantissa * twoTo x.scale * Nat.pow 5 (-x.scale).toNat, min x.scale 0)

/-! ### Showing a decimal -/

/-- Lays out digits and an exponent.  Values from `10^-5` up to but not including
    `10^16` are written positionally, always with a fraction; all others with
    one digit before the point and a signed exponent. -/
def layout (digits : Nat) (exponent : Int) : Text :=
  let numeral := Text.ofNat digits
  let point := numeral.length + exponent
  if 0 ≤ exponent ∧ point ≤ 16 then
    numeral ++ List.replicate exponent.toNat '0' ++ ['.', '0']
  else if 0 < point ∧ point ≤ 16 then
    numeral.take point.toNat ++ '.' :: numeral.drop point.toNat
  else if -5 < point ∧ point ≤ 0 then
    '0' :: '.' :: List.replicate (-point).toNat '0' ++ numeral
  else
    let tail := 'e' :: (if 0 < point then ['+'] else []) ++ Text.ofInt (point - 1)
    match numeral with
    | [digit] => digit :: tail
    | digit :: rest => digit :: '.' :: rest ++ tail
    | [] => tail

/-- The shortest text that reads back to the decimal's binary64 value. -/
def render (d : Decimal) : Text :=
  let x := Binary.ofBits d.toFloat.toBits
  let text :=
    if x.mantissa = 0 then "0.0".toList
    else
      let (digits, exponent) := x.shortest
      layout digits exponent
  if d.negative then '-' :: text else text

end Decimal

end WireSchema
