import Fide.BoundedMap
import Fide.FixedPoint
import Fide.Frame

/-! The fully in-kernel program: `fully_in-kernel/main/xdp_prog_kern.c`, one packet at a time.

Writes through map pointers are updates of the map. The two traversals of a rollover take their
orders from the packet event, since `bpf_for_each_map_elem` promises none. What the rollover
computes on the way (entropies, average, flags, divisors) is kept in a `Rollover` record. -/

namespace Fide.Kernel

open Words FixedPoint

def invlNs : I64 := 1000000000
def loggerMapSize : Nat := 100000

structure LoggerValue where
  prev : I32
  cur : I32
  entropy : FixedPoint
  deriving DecidableEq, Repr

structure DataValue where
  prevIntervalPkt : I32
  curIntervalPkt : I32
  threshold : I32
  intBits : I32
  deriving DecidableEq, Repr

abbrev Logger := BoundedMap Addr LoggerValue loggerMapSize

/-- The maps and the statics of the program. The lock word of `loc_ts` carries no data. -/
structure State where
  logger : Logger
  data : Slots DataValue 1
  locTs : Slots I64 1
  count : I32
  entropyAll : FixedPoint
  avg : FixedPoint

/-- What the program does not write: the shift instructions, the blacklist and the answer of
`bpf_redirect_map`. -/
structure Env where
  target : Target
  blacklist : Blacklist
  redirect : XdpAction

/-- One invocation: `bpf_ktime_get_ns`, the frame, and the orders of the two traversals. -/
structure Packet where
  ts : I64
  frame : Frame
  entropyOrder : BoundedMap.Enumeration Addr
  detectionOrder : BoundedMap.Enumeration Addr

/-! ### Entropy pass -/

/-- The counts of an entry as `calc_entropy` goes on to use them, and the divisors of the
`divide` calls so far. -/
structure Operands where
  prev : FixedPoint
  cur : FixedPoint
  divisors : List I32
  deriving DecidableEq, Repr

/-- A zero count is replaced by `divide(1, 10)`. When both are zero the second call sees
`tmp_one` and `tmp_ten` as the first one left them. -/
def operands (target : Target) (tmp : DataValue) (value : LoggerValue) : Operands :=
  let cur := toFixedPoint target value.cur tmp.intBits
  let prev := toFixedPoint target value.prev tmp.intBits
  let tmpOne := toFixedPoint target 1 tmp.intBits
  let tmpTen := toFixedPoint target 10 tmp.intBits
  if value.prev = 0 then
    let forPrev := divide target tmpOne tmpTen
    if value.cur = 0 then
      let forCur := divide target forPrev.first forPrev.second
      ⟨forPrev.result, forCur.result, [tmpTen.number, forPrev.second.number]⟩
    else ⟨forPrev.result, cur, [tmpTen.number]⟩
  else if value.cur = 0 then
    let forCur := divide target tmpOne tmpTen
    ⟨prev, forCur.result, [tmpTen.number]⟩
  else ⟨prev, cur, []⟩

/-- The entropy of one entry and the numbers passed to `divide` as divisors, in call order. -/
structure EntropyResult where
  entropy : FixedPoint
  divisors : List I32
  deriving DecidableEq, Repr

/-- The entropy computation of `calc_entropy`; the first quotient leaves `prev` at its scale. -/
def entropyOf (target : Target) (tmp : DataValue) (value : LoggerValue) : EntropyResult :=
  let prevInvl := toFixedPoint target tmp.prevIntervalPkt tmp.intBits
  let ⟨prev, cur, divisors⟩ := operands target tmp value
  let share := divide target prev prevInvl
  let prev := share.first
  let first := calcLog target share.result
  let first := { first with number := first.number * -1 }
  if cur.number.toInt ≤ prev.number.toInt then
    let second := absVal (calcLog target (divide target cur prev).result)
    ⟨(add target first second).result, divisors ++ [prevInvl.number, prev.number]⟩
  else
    let second := absVal (calcLog target (divide target prev cur).result)
    ⟨(add target first second).result, divisors ++ [prevInvl.number, cur.number]⟩

/-- The statics of the first traversal, with the divisors of all its `divide` calls. -/
structure EntropyPass where
  count : I32
  entropyAll : FixedPoint
  divisors : List I32
  deriving DecidableEq, Repr

/-- The stored entropy is the value before `add` widens the scale of the local copy. -/
def calcEntropy (target : Target) (tmp : DataValue) (_key : Addr) (value : LoggerValue)
    (pass : EntropyPass) : Option LoggerValue × EntropyPass :=
  let calculated := entropyOf target tmp value
  (some { value with entropy := calculated.entropy },
   { count := pass.count + 1
     entropyAll := (add target pass.entropyAll calculated.entropy).result
     divisors := pass.divisors ++ calculated.divisors })

/-! ### Detection pass -/

/-- The static average, and the addresses for which the flagging condition held. -/
structure DetectionPass where
  avg : FixedPoint
  flagged : List Addr
  deriving DecidableEq, Repr

/-- `subtract` aligns the stored entropy and the static average in place. The body of the
flagging branch only fills a local key; the blacklist update is commented out. -/
def detection (target : Target) (tmp : DataValue) (key : Addr) (value : LoggerValue)
    (pass : DetectionPass) : Option LoggerValue × DetectionPass :=
  if value.entropy.number = 0 then
    (some { value with prev := value.cur, cur := 0 }, pass)
  else
    let diff := subtract target value.entropy pass.avg
    let value := { value with entropy := diff.first }
    let d := absVal diff.result
    let flagged := if tmp.threshold.toInt < d.number.toInt then pass.flagged ++ [key]
      else pass.flagged
    let pass := ⟨diff.second, flagged⟩
    if value.cur = 0 then (none, pass)
    else (some { value with prev := value.cur, cur := 0 }, pass)

/-! ### Rollover -/

/-- What one rollover computes. `entropies` is the logger after the first traversal, `avg` the
average before the second. -/
structure Rollover where
  entropies : Logger
  divisors : List I32
  avg : FixedPoint
  logger : Logger
  finalAvg : FixedPoint
  flagged : List Addr

def analyse (target : Target) (packet : Packet) (tmp : DataValue) (st : State) : Rollover :=
  let pass := st.logger.forEach packet.entropyOrder (calcEntropy target tmp)
    ⟨st.count, st.entropyAll, []⟩
  let cnt := toFixedPoint target pass.2.count tmp.intBits
  let avg := (divide target pass.2.entropyAll cnt).result
  let found := pass.1.forEach packet.detectionOrder (detection target tmp) ⟨avg, []⟩
  { entropies := pass.1
    divisors := pass.2.divisors ++ [cnt.number]
    avg := avg
    logger := found.1
    finalAvg := found.2.avg
    flagged := found.2.flagged }

/-- The counters and statics an interval starts with. -/
def closeInterval (st : State) (tmp : DataValue) (rollover : Rollover) : State :=
  { st with
    logger := rollover.logger
    data := st.data.update 0
      { tmp with prevIntervalPkt := tmp.curIntervalPkt, curIntervalPkt := 0, intBits := 4 }
    count := 0
    entropyAll := ⟨0, 16⟩
    avg := rollover.finalAvg }

/-! ### Counting and the interval clock -/

/-- `lock_xadd` on the interval counter and, past the range of `int_bits`, on `int_bits`. -/
def countPacket (target : Target) (tmp : DataValue) : DataValue :=
  let tmp := { tmp with curIntervalPkt := tmp.curIntervalPkt + 1 }
  if (target.shl32 1 (tmp.intBits - 1) - 1).toInt < tmp.curIntervalPkt.toInt then
    { tmp with intBits := tmp.intBits + 1 }
  else tmp

def logPacket (saddr : Addr) (logger : Logger) : Logger :=
  match logger.lookup saddr with
  | some value => logger.update saddr { value with cur := value.cur + 1 }
  | none => logger.update saddr { prev := 0, cur := 1, entropy := ⟨0, 16⟩ }

/-- `ts > lts->timestamp + invl_ns`. -/
def due (ts timestamp : I64) : Bool := decide ((timestamp + invlNs).toInt < ts.toInt)

/-- The section under the spin lock: the timestamp it leaves and whether the caller goes on to
the rollover. -/
def lockedSection (ts timestamp : I64) : I64 × Bool :=
  if timestamp = 0 then (ts, false)
  else if due ts timestamp then (ts, true)
  else (timestamp, false)

/-- The unlocked check and the locked section with nothing in between. -/
def timestampCheck (ts timestamp : I64) : I64 × Bool :=
  if due ts timestamp then lockedSection ts timestamp else (timestamp, false)

/-! ### The program -/

structure Outcome where
  action : XdpAction
  state : State
  rollover : Option Rollover

def xdpFilterFunc (env : Env) (st : State) (packet : Packet) : Outcome :=
  if packet.frame.length < Frame.sizeofEthhdr then ⟨.pass, st, none⟩
  else if Frame.hProto packet.frame = Frame.ethPIp then
    if packet.frame.length < Frame.sizeofEthhdr + Frame.sizeofIphdr then ⟨.pass, st, none⟩
    else
      let saddr := Frame.saddr packet.frame
      match env.blacklist.lookup (filterKey saddr) with
      | some _ => ⟨.drop, st, none⟩
      | none =>
        match st.data.lookup 0 with
        | none => ⟨.pass, st, none⟩
        | some tmp =>
          let tmp := countPacket env.target tmp
          let st := { st with data := st.data.update 0 tmp, logger := logPacket saddr st.logger }
          match st.locTs.lookup 0 with
          | none => ⟨.pass, st, none⟩
          | some timestamp =>
            let (timestamp, body) := timestampCheck packet.ts timestamp
            let st := { st with locTs := st.locTs.update 0 timestamp }
            if body then
              let rollover := analyse env.target packet tmp st
              ⟨env.redirect, closeInterval st tmp rollover, some rollover⟩
            else ⟨env.redirect, st, none⟩
  else ⟨env.redirect, st, none⟩

/-- All maps zeroed and the statics as the loader leaves them. -/
def zeroed : State where
  logger := BoundedMap.empty
  data := Slots.single ⟨0, 0, 0, 0⟩
  locTs := Slots.single 0
  count := 0
  entropyAll := ⟨0, 0⟩
  avg := ⟨0, 0⟩

/-- Zeroed but for `int_bits`, which holds the value every rollover resets it to. -/
def initialised : State := { zeroed with data := Slots.single ⟨0, 0, 0, 4⟩ }

end Fide.Kernel
