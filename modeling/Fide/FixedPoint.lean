import Fide.Words

/-! The dynamic fixed-point library of `fixed-point.h`.

A value is a 32-bit number with its own count `q` of fraction bits. The binary operations take
their operands by pointer and align the scales in place, so each returns the operands it leaves
behind together with its result. -/

namespace Fide

open Words

/-- `struct fixed_point`: `number / 2^q`. -/
structure FixedPoint where
  number : I32
  q : I32
  deriving DecidableEq, Repr

namespace FixedPoint

/-- The result of a binary operation and both operands as the call leaves them. -/
structure Operation where
  result : FixedPoint
  first : FixedPoint
  second : FixedPoint
  deriving DecidableEq, Repr

def low32 (number : FixedPoint) : I32 := number.number &&& 0xFFFF

def high32 (number : FixedPoint) : I32 := number.number.sshiftRight 16

/-- The first parameter is the scale and the second the quantity, as the header names them. -/
def toFixedPoint (target : Target) (fixedPoint q : I32) : FixedPoint where
  number := q * target.shl32 1 fixedPoint
  q := fixedPoint

/-- One halving of the bit search: `y = x >> shift; if (y != 0) (n = n - shift, x = y)`, with `y`
an unsigned 32-bit temporary and `x` a signed 64-bit one. -/
def searchStep (shift : Nat) (state : I32 × I64) : I32 × I64 :=
  let y : I32 := (state.2.sshiftRight shift).setWidth 32
  if y ≠ 0 then (state.1 - BitVec.ofNat 32 shift, y.setWidth 64) else state

def searchEnd (state : I32 × I64) : I32 :=
  let y : I32 := (state.2.sshiftRight 1).setWidth 32
  if y ≠ 0 then state.1 - 2 else state.1 - state.2.setWidth 32

def countZero64 (x : I64) : I32 :=
  if x.sshiftRight 31 ≠ 0 then -1
  else searchEnd (searchStep 2 (searchStep 4 (searchStep 8 (searchStep 16
    (searchStep 32 (64, x))))))

def countZero32 (x : I64) : I32 :=
  if x.sshiftRight 31 ≠ 0 then -1
  else searchEnd (searchStep 2 (searchStep 4 (searchStep 8 (searchStep 16 (32, x)))))

/-- Both branches assign `q` before they read it in the shift amount. -/
def checkBit (target : Target) (first second : FixedPoint) : FixedPoint × FixedPoint :=
  if second.q.toInt < first.q.toInt then
    let second := { second with q := first.q }
    (first, { second with number := target.shl32 second.number (first.q - second.q) })
  else if first.q.toInt < second.q.toInt then
    let first := { first with q := second.q }
    ({ first with number := target.shl32 first.number (second.q - first.q) }, second)
  else (first, second)

/-- The common tail of `add`, `subtract` and `divide`: give up fraction bits beyond the bit
count of the 64-bit result. -/
def rescale (target : Target) (sum : I64) (q : I32) : FixedPoint :=
  let allowedFixedPointBits := 64 - countZero64 sum
  if allowedFixedPointBits.toInt < q.toInt then
    { q := allowedFixedPointBits
      number := (target.shr64 sum (q - allowedFixedPointBits)).setWidth 32 }
  else { q := q, number := sum.setWidth 32 }

/-- The sum is formed in 32 bits and only then widened. -/
def add (target : Target) (first second : FixedPoint) : Operation :=
  let (first, second) := checkBit target first second
  let sum := (first.number + second.number).signExtend 64
  ⟨rescale target sum first.q, first, second⟩

def subtract (target : Target) (first second : FixedPoint) : Operation :=
  let (first, second) := checkBit target first second
  let sum := (first.number - second.number).signExtend 64
  ⟨rescale target sum first.q, first, second⟩

def multiply (target : Target) (first second : FixedPoint) : Operation :=
  let highF := high32 first
  let lowF := low32 first
  let highS := high32 second
  let lowS := low32 second
  let (first, second) := checkBit target first second
  let temp : I64 := (highF * highS).signExtend 64
  let fixedPointBits :=
    if (target.shl64 1 (32 - first.q - 1)).toNat < temp.toNat then 31 - (64 - countZero64 temp)
    else first.q
  let high := target.shl32 (temp.setWidth 32) fixedPointBits
  let low := target.sar32 (lowF * lowS) (32 - fixedPointBits)
  let prod :=
    if 16 ≤ fixedPointBits.toInt then
      let q := fixedPointBits - 16
      high + target.sar32 (lowF * highS) q + target.sar32 (highF * lowS) q + low
    else
      let q := 16 - fixedPointBits
      high + target.shl32 (lowF * highS) q + target.shl32 (highF * lowS) q + low
  ⟨{ number := prod, q := fixedPointBits }, first, second⟩

/-- Both operands are converted to `u_int64_t` and the division is unsigned; dividing by zero
leaves zero, as the instruction does. -/
def divide (target : Target) (first second : FixedPoint) : Operation :=
  let (first, second) := checkBit target first second
  let sum := target.shr64
    ((first.number.signExtend 64 <<< 32) / second.number.signExtend 64) (32 - first.q)
  ⟨rescale target sum first.q, first, second⟩

/-- `log2(1 + i / 256)` with 24 fraction bits. -/
def logTable : List Nat := [
    0, 94364, 188362, 281996, 375269, 468184, 560744, 652952, 744809, 836319, 927485, 1018308,
    1108792, 1198939, 1288751, 1378232, 1467382, 1556206, 1644705, 1732881, 1820738, 1908276,
    1995500, 2082410, 2169009, 2255299, 2341283, 2426962, 2512339, 2597416, 2682195, 2766679,
    2850868, 2934765, 3018373, 3101693, 3184727, 3267477, 3349946, 3432134, 3514044, 3595678,
    3677037, 3758124, 3838940, 3919487, 3999767, 4079782, 4159533, 4239022, 4318251, 4397221,
    4475935, 4554393, 4632598, 4710551, 4788254, 4865708, 4942915, 5019877, 5096595, 5173070,
    5249304, 5325299, 5401057, 5476578, 5551863, 5626916, 5701736, 5776326, 5850687, 5924820,
    5998727, 6072408, 6145866, 6219102, 6292117, 6364912, 6437489, 6509849, 6581994, 6653924,
    6725640, 6797145, 6868440, 6939525, 7010401, 7081071, 7151535, 7221795, 7291851, 7361705,
    7431358, 7500811, 7570066, 7639123, 7707983, 7776648, 7845119, 7913396, 7981482, 8049377,
    8117081, 8184597, 8251925, 8319066, 8386022, 8452793, 8519380, 8585784, 8652007, 8718049,
    8783912, 8849595, 8915101, 8980430, 9045583, 9110562, 9175366, 9239997, 9304456, 9368744,
    9432862, 9496810, 9560590, 9624202, 9687648, 9750927, 9814042, 9876992, 9939779, 10002404,
    10064867, 10127169, 10189311, 10251295, 10313119, 10374787, 10436297, 10497652, 10558851,
    10619897, 10680788, 10741527, 10802114, 10862549, 10922834, 10982970, 11042956, 11102794,
    11162484, 11222027, 11281425, 11340677, 11399784, 11458747, 11517567, 11576245, 11634780,
    11693174, 11751428, 11809542, 11867516, 11925353, 11983051, 12040612, 12098036, 12155325,
    12212478, 12269497, 12326381, 12383133, 12439751, 12496238, 12552593, 12608817, 12664910,
    12720874, 12776709, 12832415, 12887994, 12943445, 12998769, 13053968, 13109040, 13163988,
    13218811, 13273510, 13328086, 13382539, 13436870, 13491079, 13545167, 13599135, 13652982,
    13706710, 13760319, 13813810, 13867182, 13920437, 13973575, 14026597, 14079503, 14132293,
    14184969, 14237530, 14289977, 14342311, 14394532, 14446641, 14498637, 14550522, 14602296,
    14653960, 14705514, 14756958, 14808293, 14859519, 14910637, 14961647, 15012550, 15063347,
    15114037, 15164620, 15215099, 15265472, 15315741, 15365906, 15415967, 15465924, 15515779,
    15565531, 15615181, 15664729, 15714177, 15763523, 15812769, 15861915, 15910961, 15959909,
    16008757, 16057507, 16106159, 16154714, 16203171, 16251532, 16299796, 16347964, 16396036,
    16444013, 16491895, 16539683, 16587376, 16634976, 16682482, 16729895]

/-- `(unsigned char)((number << (leading_zero + 1)) >> 24)`: the eight bits below the leading
one. -/
def logIndex (target : Target) (number leadingZero : I32) : BitVec 8 :=
  ((target.shl32 number (leadingZero + 1)).sshiftRight 24).setWidth 8

def logEntry (index : BitVec 8) : I64 := BitVec.ofNat 64 (logTable.getD index.toNat 0)

def calcLog (target : Target) (number : FixedPoint) : FixedPoint :=
  let leadingZero := countZero32 (number.number.signExtend 64)
  if 0 ≤ leadingZero.toInt ∧ leadingZero.toInt < 32 then
    { q := 8
      number :=
        (((31 - number.q - leadingZero) <<< 24).signExtend 64 +
          target.shr64 (logEntry (logIndex target number.number leadingZero))
            (24 - number.q)).setWidth 32 }
  else { q := 8, number := 0 }

/-- The operand itself is replaced by its absolute value and returned. -/
def absVal (number : FixedPoint) : FixedPoint :=
  let mask := number.number.sshiftRight 31
  { number with number := (number.number + mask) ^^^ mask }

end FixedPoint

end Fide
