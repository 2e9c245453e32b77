import Fide.Kernel
import Fide.Pool

/-! The in-kernel program as a sequence of accesses to what its executions share.

Every access to `data`, to the logger and to `loc_ts` is an operation of its own, as are the reads
and writes of the statics; the section under the spin lock is one. Arithmetic that works on an
entropy or on a static in place is one operation too. An access through a pointer to an entry that
has been deleted does nothing here. -/

namespace Fide.Kernel

open Words FixedPoint

/-- The accesses of `xdp_filter_func` and its two callbacks, in the order of the source. -/
inductive Op
  | findData
  | countPacket
  | readCounter
  | readBits
  | widen
  | findEntry (key : Addr)
  | countEntry (key : Addr)
  | insertEntry (key : Addr)
  | findTimestamp
  | readTimestamp
  | locked (ts : I64)
  | copyData
  | traverse (order : BoundedMap.Enumeration Addr)
  | readEntry (key : Addr)
  | storeEntropy (key : Addr) (entropy : FixedPoint)
  | addEntropy (entropy : FixedPoint)
  | countEntropy
  | readCount
  | setAvg (cnt : FixedPoint)
  | readEntropy (key : Addr)
  | subtractAvg (key : Addr)
  | readCur (key : Addr)
  | deleteEntry (key : Addr)
  | movePrev (key : Addr) (n : I32)
  | zeroEntry (key : Addr)
  | setPrevInterval (n : I32)
  | zeroCounter
  | resetBits
  | resetCount
  | resetEntropyAll

abbrev Answer : Op → Type
  | .findData | .findEntry _ | .findTimestamp | .locked _ => Bool
  | .readCounter | .readBits | .readCount | .readCur _ => I32
  | .readTimestamp => I64
  | .copyData => DataValue
  | .traverse _ => List Addr
  | .readEntry _ => LoggerValue
  | .readEntropy _ | .subtractAvg _ => FixedPoint
  | _ => Unit

/-! ### What an access does -/

/-- A write through the pointer to an entry. -/
def modifyEntry (key : Addr) (change : LoggerValue → LoggerValue) (logger : Logger) : Logger :=
  match logger.lookup key with
  | some value => logger.update key (change value)
  | none => logger

def readThrough (key : Addr) (logger : Logger) : LoggerValue :=
  (logger.lookup key).getD ⟨0, 0, ⟨0, 0⟩⟩

def State.modify (st : State) (key : Addr) (change : LoggerValue → LoggerValue) : State :=
  { st with logger := modifyEntry key change st.logger }

def State.setData (st : State) (change : DataValue → DataValue) : State :=
  { st with data := st.data.update 0 (change st.data.value) }

def exec (target : Target) : (op : Op) → State → Answer op × State
  | .findData, st => ((st.data.lookup 0).isSome, st)
  | .countPacket, st =>
      ((), st.setData fun tmp => { tmp with curIntervalPkt := tmp.curIntervalPkt + 1 })
  | .readCounter, st => (st.data.value.curIntervalPkt, st)
  | .readBits, st => (st.data.value.intBits, st)
  | .widen, st => ((), st.setData fun tmp => { tmp with intBits := tmp.intBits + 1 })
  | .findEntry key, st => ((st.logger.lookup key).isSome, st)
  | .countEntry key, st => ((), st.modify key fun value => { value with cur := value.cur + 1 })
  | .insertEntry key, st =>
      ((), { st with logger := st.logger.update key ⟨0, 1, ⟨0, 16⟩⟩ })
  | .findTimestamp, st => ((st.locTs.lookup 0).isSome, st)
  | .readTimestamp, st => (st.locTs.value, st)
  | .locked ts, st =>
      ((lockedSection ts st.locTs.value).2,
        { st with locTs := st.locTs.update 0 (lockedSection ts st.locTs.value).1 })
  | .copyData, st => (st.data.value, st)
  | .traverse order, st => (order.order st.logger.keys, st)
  | .readEntry key, st => (readThrough key st.logger, st)
  | .storeEntropy key entropy, st =>
      ((), st.modify key fun value => { value with entropy := entropy })
  | .addEntropy entropy, st =>
      ((), { st with entropyAll := (add target st.entropyAll entropy).result })
  | .countEntropy, st => ((), { st with count := st.count + 1 })
  | .readCount, st => (st.count, st)
  | .setAvg cnt, st =>
      let quotient := divide target st.entropyAll cnt
      ((), { st with entropyAll := quotient.first, avg := quotient.result })
  | .readEntropy key, st => ((readThrough key st.logger).entropy, st)
  | .subtractAvg key, st =>
      let diff := subtract target (readThrough key st.logger).entropy st.avg
      (diff.result,
        { st.modify key fun value => { value with entropy := diff.first } with avg := diff.second })
  | .readCur key, st => ((readThrough key st.logger).cur, st)
  | .deleteEntry key, st => ((), { st with logger := st.logger.delete key })
  | .movePrev key n, st => ((), st.modify key fun value => { value with prev := n })
  | .zeroEntry key, st => ((), st.modify key fun value => { value with cur := 0 })
  | .setPrevInterval n, st => ((), st.setData fun tmp => { tmp with prevIntervalPkt := n })
  | .zeroCounter, st => ((), st.setData fun tmp => { tmp with curIntervalPkt := 0 })
  | .resetBits, st => ((), st.setData fun tmp => { tmp with intBits := 4 })
  | .resetCount, st => ((), { st with count := 0 })
  | .resetEntropyAll, st => ((), { st with entropyAll := ⟨0, 16⟩ })

/-! ### The program -/

abbrev Execution := Program Op Answer

def recordPacket (target : Target) : Execution Unit :=
  .perform .countPacket fun _ =>
  .perform .readCounter fun (packets : I32) =>
  .perform .readBits fun (intBits : I32) =>
    if (target.shl32 1 (intBits - 1) - 1).toInt < packets.toInt then
      .perform .widen fun _ => .done ()
    else .done ()

def recordSource (saddr : Addr) : Execution Unit :=
  .perform (.findEntry saddr) fun (found : Bool) =>
    if found then .perform (.countEntry saddr) fun _ => .done ()
    else .perform (.insertEntry saddr) fun _ => .done ()

/-- A traversal calls its callback for a listed key only if there is an entry by then. -/
def calledFor {β : Type} (body : β → Addr → Execution β) (result : β) (key : Addr) :
    Execution β :=
  .perform (.findEntry key) fun (present : Bool) =>
    if present then body result key else .done result

def calcEntropyVisit (target : Target) (tmp : DataValue) (_ : Unit) (key : Addr) :
    Execution Unit :=
  .perform (.readEntry key) fun (value : LoggerValue) =>
  .perform (.storeEntropy key (entropyOf target tmp value).entropy) fun _ =>
  .perform (.addEntropy (entropyOf target tmp value).entropy) fun _ =>
  .perform .countEntropy fun _ => .done ()

/-- `logger_value->prev = logger_value->cur; logger_value->cur = 0`. -/
def closeEntry {β : Type} (key : Addr) (result : β) : Execution β :=
  .perform (.readCur key) fun (n : I32) =>
  .perform (.movePrev key n) fun _ =>
  .perform (.zeroEntry key) fun _ => .done result

def detectionVisit (tmp : DataValue) (flagged : List Addr) (key : Addr) :
    Execution (List Addr) :=
  .perform (.readEntropy key) fun (entropy : FixedPoint) =>
    if entropy.number = 0 then closeEntry key flagged
    else
      .perform (.subtractAvg key) fun (diff : FixedPoint) =>
        let flagged := if tmp.threshold.toInt < (absVal diff).number.toInt then flagged ++ [key]
          else flagged
        .perform (.readCur key) fun (cur : I32) =>
          if cur = 0 then .perform (.deleteEntry key) fun _ => .done flagged
          else closeEntry key flagged

/-- The counters and statics of the next interval. -/
def startInterval {β : Type} (result : β) : Execution β :=
  .perform .readCounter fun (packets : I32) =>
  .perform (.setPrevInterval packets) fun _ =>
  .perform .zeroCounter fun _ =>
  .perform .resetBits fun _ =>
  .perform .resetCount fun _ =>
  .perform .resetEntropyAll fun _ => .done result

/-- What follows the locked section, with the addresses for which the flagging condition held. -/
def rolloverBody (target : Target) (packet : Packet) : Execution (List Addr) :=
  .perform .copyData fun (tmp : DataValue) =>
  .perform (.traverse packet.entropyOrder) fun (listed : List Addr) =>
  (Program.forEach (calledFor (calcEntropyVisit target tmp)) listed ()).bind fun _ =>
  .perform .readCount fun (n : I32) =>
  .perform .readBits fun (intBits : I32) =>
  .perform (.setAvg (toFixedPoint target n intBits)) fun _ =>
  .perform (.traverse packet.detectionOrder) fun (listed : List Addr) =>
  (Program.forEach (calledFor (detectionVisit tmp)) listed []).bind startInterval

def consultClock (env : Env) (packet : Packet) : Execution (XdpAction × List Addr) :=
  .perform .readTimestamp fun (timestamp : I64) =>
    if due packet.ts timestamp then
      .perform (.locked packet.ts) fun (body : Bool) =>
        if body then
          (rolloverBody env.target packet).bind fun flagged => .done (env.redirect, flagged)
        else .done (env.redirect, [])
    else .done (env.redirect, [])

/-- What follows the blacklist check. -/
def countedExecution (env : Env) (packet : Packet) (saddr : Addr) :
    Execution (XdpAction × List Addr) :=
  .perform .findData fun (found : Bool) =>
    if found then
      (recordPacket env.target).bind fun _ =>
      (recordSource saddr).bind fun _ =>
      .perform .findTimestamp fun (found : Bool) =>
        if found then consultClock env packet else .done (.pass, [])
    else .done (.pass, [])

/-- One execution of `xdp_filter_func`. The blacklist has no writer among the executions. -/
def xdpFilterExecution (env : Env) (packet : Packet) : Execution (XdpAction × List Addr) :=
  if packet.frame.length < Frame.sizeofEthhdr then .done (.pass, [])
  else if Frame.hProto packet.frame = Frame.ethPIp then
    if packet.frame.length < Frame.sizeofEthhdr + Frame.sizeofIphdr then .done (.pass, [])
    else
      let saddr := Frame.saddr packet.frame
      match env.blacklist.lookup (filterKey saddr) with
      | some _ => .done (.drop, [])
      | none => countedExecution env packet saddr
  else .done (env.redirect, [])

end Fide.Kernel
