import Fide.FixedPointSpec

/-! The stand-alone prototype `dynamic-fix.c` of the fixed-point library.

The functions keep the names they share with `fixed-point.h`. The prototype divides and shifts
signed 64-bit numbers where the kernel library works on unsigned ones, and its `calc_log` shifts
the whole sum where the library shifts only the table entry. -/

namespace Fide.DynamicFix

open Words FixedPoint

def narrow (shift : Nat) (state : I32 × I64) : I32 × I64 :=
  let y : I32 := (state.2.sshiftRight shift).setWidth 32
  if y ≠ 0 then (state.1 - BitVec.ofNat 32 shift, y.setWidth 64) else state

def lastBits (state : I32 × I64) : I32 :=
  let y : I32 := (state.2.sshiftRight 1).setWidth 32
  if y ≠ 0 then state.1 - 2 else state.1 - state.2.setWidth 32

def countZero64 (x : I64) : I32 :=
  if x.sshiftRight 31 ≠ 0 then -1
  else lastBits (narrow 2 (narrow 4 (narrow 8 (narrow 16 (narrow 32 (64, x))))))

def countZero32 (x : I64) : I32 :=
  if x.sshiftRight 31 ≠ 0 then -1
  else lastBits (narrow 2 (narrow 4 (narrow 8 (narrow 16 (32, x)))))

def checkBit (target : Target) (first second : FixedPoint) : FixedPoint × FixedPoint :=
  if second.q.toInt < first.q.toInt then
    let second := { second with q := first.q }
    (first, { second with number := target.shl32 second.number (first.q - second.q) })
  else if first.q.toInt < second.q.toInt then
    let first := { first with q := second.q }
    ({ first with number := target.shl32 first.number (second.q - first.q) }, second)
  else (first, second)

/-- The common tail of the three binary operations. -/
def fit (target : Target) (sum : I64) (q : I32) : FixedPoint :=
  let allowedFixedPointBits := 64 - countZero64 sum
  if allowedFixedPointBits.toInt < q.toInt then
    { q := allowedFixedPointBits
      number := (target.shr64 sum (q - allowedFixedPointBits)).setWidth 32 }
  else { q := q, number := sum.setWidth 32 }

def add (target : Target) (first second : FixedPoint) : Operation :=
  let (first, second) := checkBit target first second
  let sum := (first.number + second.number).signExtend 64
  ⟨fit target sum first.q, first, second⟩

def subtract (target : Target) (first second : FixedPoint) : Operation :=
  let (first, second) := checkBit target first second
  let sum := (first.number - second.number).signExtend 64
  ⟨fit target sum first.q, first, second⟩

/-- Signed division of `int64_t`: no result for a zero divisor, nor for the one quotient that is
out of range. -/
def quotient (dividend divisor : I64) : Option I64 :=
  if divisor = 0 ∨ (dividend = BitVec.intMin 64 ∧ divisor = -1) then none
  else some (dividend.sdiv divisor)

def divide (target : Target) (first second : FixedPoint) : Option Operation :=
  let (first, second) := checkBit target first second
  (quotient (first.number.signExtend 64 <<< 32) (second.number.signExtend 64)).map fun ratio =>
    let sum := target.sar64 ratio (32 - first.q)
    ⟨fit target sum first.q, first, second⟩

/-- `+` binds before `>>`: integer part and table entry are shifted together. -/
def calcLog (target : Target) (number : FixedPoint) : FixedPoint :=
  let leadingZero := countZero32 (number.number.signExtend 64)
  if 0 ≤ leadingZero.toInt ∧ leadingZero.toInt < 32 then
    { q := 8
      number :=
        (target.shr64 (((31 - number.q - leadingZero) <<< 24).signExtend 64 +
          logEntry (logIndex target number.number leadingZero)) (24 - number.q)).setWidth 32 }
  else { q := 8, number := 0 }

def absVal (number : FixedPoint) : FixedPoint :=
  let mask := number.number.sshiftRight 31
  { number with number := (number.number + mask) ^^^ mask }

/-! ### What the two files share -/

theorem fit_eq (target : Target) (sum : I64) (q : I32) : fit target sum q = rescale target sum q :=
  rfl

theorem countZero32_eq (x : I64) : countZero32 x = FixedPoint.countZero32 x := rfl

theorem checkBit_agrees (target : Target) (first second : FixedPoint) :
    checkBit target first second = FixedPoint.checkBit target first second := rfl

theorem add_agrees (target : Target) (first second : FixedPoint) :
    add target first second = FixedPoint.add target first second := rfl

theorem subtract_agrees (target : Target) (first second : FixedPoint) :
    subtract target first second = FixedPoint.subtract target first second := rfl

theorem absVal_agrees (number : FixedPoint) : absVal number = FixedPoint.absVal number := rfl

end Fide.DynamicFix
