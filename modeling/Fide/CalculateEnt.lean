import Fide.Program
import Fide.UserKernel

/-! The user process of the split version: `calculate_ent` of `user+ebpf/main/xdp_loader.c`.

The routine is a program over the map syscalls, so that packets can arrive between any two of
them. Calls made at different places are different operations even where the syscall is the same.
Arithmetic on `double` is exact arithmetic over an ordered field, with `log2` and `sqrt` left open;
what `malloc` returns is arbitrary. -/

namespace Fide.UserEbpf

open Words

/-- The map syscalls of `calculate_ent`, by the place they are made at. -/
inductive Op
  | lookupData
  | nextKey (key : Addr)
  | lookupEntry (key : Addr)
  | updateData (value : DataValue)
  | lookupReset (key : Addr)
  | deleteEntry (key : Addr)
  | updateEntry (key : Addr) (value : LoggerValue)

/-- What a syscall hands back: a lookup that fails leaves its buffer alone, and the results of
updates and deletions are not looked at. -/
abbrev Answer : Op → Type
  | .lookupData => Option DataValue
  | .nextKey _ => Option Addr
  | .lookupEntry _ => Option LoggerValue
  | .updateData _ => Unit
  | .lookupReset _ => Option LoggerValue
  | .deleteEntry _ => Unit
  | .updateEntry _ _ => Unit

def exec (order : BoundedMap.Enumeration Addr) : (op : Op) → Maps → Answer op × Maps
  | .lookupData, maps => (maps.data.lookup 0, maps)
  | .nextKey key, maps => (maps.logger.nextKey order key, maps)
  | .lookupEntry key, maps => (maps.logger.lookup key, maps)
  | .updateData value, maps => ((), { maps with data := maps.data.update 0 value })
  | .lookupReset key, maps => (maps.logger.lookup key, maps)
  | .deleteEntry key, maps => ((), { maps with logger := maps.logger.delete key })
  | .updateEntry key value, maps => ((), { maps with logger := maps.logger.update key value })

/-- `struct entpy` has room for this many flows. -/
def maxFlows : Nat := 100000

/-- The functions of `libm` the routine calls. -/
structure Libm (R : Type) where
  log2 : R → R
  sqrt : R → R

/-- The memory `malloc` hands out; `ip` is read up to one past its end. -/
structure Heap (R : Type) where
  dataValue : DataValue
  loggerValue : LoggerValue
  ent : Nat → R
  ip : Nat → Addr

/-- The static variables of the file. -/
structure Statics where
  holder : I32
  beta : I32

section Analysis

variable {R : Type} [Field R] [LinearOrder R]

/-! ### Enumeration -/

/-- The buffers the enumeration fills, with the entries it evaluated. -/
structure Scan (R : Type) where
  loggerValue : LoggerValue
  ent : Nat → R
  ip : Nat → Addr
  entropyAll : R
  entries : List (Addr × LoggerValue)

/-- Where a divisor is zero or an argument of `log2` is not positive, the doubles of the code are
infinite or no number, and this is not what they compute. -/
def entropyOf (libm : Libm R) (data : DataValue) (value : LoggerValue) : R :=
  let prev : R := value.prev.toInt
  let cur : R := value.cur.toInt
  let prevInterval : R := data.prevIntervalPkt.toInt
  if value.cur.toInt ≤ value.prev.toInt then
    -1 * libm.log2 (prev / prevInterval) + |libm.log2 (cur / prev)|
  else -1 * libm.log2 (prev / prevInterval) + |libm.log2 (prev / cur)|

/-- The body of the enumeration loop for the key found last. -/
def Scan.record (libm : Libm R) (data : DataValue) (i : Nat) (key : Addr)
    (found : Option LoggerValue) (scan : Scan R) : Scan R :=
  let value := found.getD scan.loggerValue
  let entropy := entropyOf libm data value
  { loggerValue := value
    ent := Function.update scan.ent i entropy
    ip := Function.update scan.ip i key
    entropyAll := scan.entropyAll + entropy
    entries := scan.entries ++ [(key, value)] }

/-- `for (i = ..; i < 100000; i++)` with `fuel` iterations left: the value of `i` after the loop
and the buffers. A `break` leaves `i` at the last entry. -/
def enumerate (libm : Libm R) (data : DataValue) :
    (fuel i : Nat) → (nextKey : Addr) → Scan R → Program Op Answer (Nat × Scan R)
  | 0, i, _, scan => .done (i, scan)
  | fuel + 1, i, nextKey, scan =>
      .perform (.lookupEntry nextKey) fun found =>
        let scan := scan.record libm data i nextKey found
        .perform (.nextKey nextKey) fun next =>
          match next with
          | none => .done (i, scan)
          | some following => enumerate libm data fuel (i + 1) following scan

/-! ### Detection -/

/-- One test of the detection loop. -/
structure Test (R : Type) where
  address : Addr
  deviation : R
  beta : I32
  flagged : Bool

/-- The body of the detection loop. The blacklist update is commented out. -/
def detect (scan : Scan R) (avg std : R) (acc : List (Test R) × I32) (k : Nat) :
    List (Test R) × I32 :=
  let d := |scan.ent k - avg|
  let beta := if 3 / 2 * avg < scan.ent k then acc.2 + 1
    else if scan.ent k < 1 / 2 * avg then acc.2 - 1
    else acc.2
  (acc.1 ++ [⟨scan.ip k, d, beta, (beta.toInt : R) * std < d⟩], beta)

/-- A flow as the detection loop meets it. -/
structure Flow (R : Type) where
  address : Addr
  entropy : R
  avg : R
  std : R

/-- The flow raises `beta`. -/
def Flow.high (flow : Flow R) : Bool := 3 / 2 * flow.avg < flow.entropy

/-- The flow lowers `beta`. -/
def Flow.low (flow : Flow R) : Bool := !flow.high && decide (flow.entropy < 1 / 2 * flow.avg)

/-- What the call computes besides its effect on the maps. -/
structure Report (R : Type) where
  flows : Nat
  entries : List (Addr × LoggerValue)
  added : I32
  avg : R
  variance : R
  tests : List (Test R)
  moved : List (Addr × I32)
  statics : Statics

/-! ### Reset -/

/-- The end of the reset loop's body: delete an idle entry, or write the count back as `prev`. -/
def writeBack (key : Addr) (value : LoggerValue) (moved : List (Addr × I32))
    (rest : LoggerValue → List (Addr × I32) → Program Op Answer (List (Addr × I32))) :
    Program Op Answer (List (Addr × I32)) :=
  if value.cur = 0 then .perform (.deleteEntry key) fun _ => rest value moved
  else
    let written := { value with prev := value.cur, cur := 0 }
    .perform (.updateEntry key written) fun _ => rest written (moved ++ [(key, value.cur)])

/-- `for (k = 0; k <= i; k++)` with `fuel` iterations left, collecting the counts moved into
`prev`. -/
def reset (ip : Nat → Addr) :
    (fuel k : Nat) → LoggerValue → List (Addr × I32) → Program Op Answer (List (Addr × I32))
  | 0, _, _, moved => .done moved
  | fuel + 1, k, buffer, moved =>
      .perform (.lookupReset (ip k)) fun found =>
        writeBack (ip k) (found.getD buffer) moved (reset ip fuel (k + 1))

/-- The part of the call after the enumeration. -/
def concludeCall (libm : Libm R) (statics : Statics) (data : DataValue) (i : Nat) (scan : Scan R) :
    Program Op Answer (Report R) :=
  let added := data.curIntervalPkt
  .perform (.updateData { prevIntervalPkt := data.curIntervalPkt, curIntervalPkt := 0 }) fun _ =>
    let avg := scan.entropyAll / i
    let deviation := ((List.range i).map fun k => scan.ent k - avg).sum
    let variance := deviation * deviation
    let std := libm.sqrt variance
    let found := (List.range i).foldl (detect scan avg std) ([], statics.beta)
    (reset scan.ip (i + 1) 0 scan.loggerValue []).bind fun moved =>
      .done
        { flows := i
          entries := scan.entries
          added := added
          avg := avg
          variance := variance
          tests := found.1
          moved := moved
          statics := { holder := statics.holder + added, beta := found.2 } }

/-- The enumeration starts from the literal key 0, and `i` keeps its initial 1 when no key
follows it. -/
def calculateEnt (libm : Libm R) (heap : Heap R) (statics : Statics) :
    Program Op Answer (Report R) :=
  .perform .lookupData fun found =>
    let data := found.getD heap.dataValue
    let scan : Scan R := ⟨heap.loggerValue, heap.ent, heap.ip, 0, []⟩
    .perform (.nextKey 0) fun first =>
      match first with
      | none => concludeCall libm statics data 1 scan
      | some key =>
        (enumerate libm data maxFlows 0 key scan).bind fun (i, scan) =>
          concludeCall libm statics data i scan

end Analysis

end Fide.UserEbpf
