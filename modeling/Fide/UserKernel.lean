import Fide.BoundedMap
import Fide.Frame

/-! The packet side of the split version: `user+ebpf/main/xdp_prog_kern.c`.

It counts and forwards; the analysis runs in the user process. Blacklisted packets are counted
too, and dropped at the end. -/

namespace Fide.UserEbpf

open Words

def loggerMapSize : Nat := 100000

structure LoggerValue where
  prev : I32
  cur : I32
  entropy : I32
  deriving DecidableEq, Repr

structure DataValue where
  prevIntervalPkt : I32
  curIntervalPkt : I32
  deriving DecidableEq, Repr

abbrev Logger := BoundedMap Addr LoggerValue loggerMapSize

/-- The maps the two sides share. -/
structure Maps where
  logger : Logger
  data : Slots DataValue 1

structure Env where
  blacklist : Blacklist
  redirect : XdpAction

structure Outcome where
  action : XdpAction
  maps : Maps

def logPacket (saddr : Addr) (logger : Logger) : Logger :=
  match logger.lookup saddr with
  | some value => logger.update saddr { value with cur := value.cur + 1 }
  | none => logger.update saddr { prev := 0, cur := 1, entropy := 0 }

def xdpFilterFunc (env : Env) (maps : Maps) (frame : Frame) : Outcome :=
  if frame.length < Frame.sizeofEthhdr then ⟨.aborted, maps⟩
  else if Frame.hProto frame = Frame.ethPIp then
    if frame.length < Frame.sizeofEthhdr + Frame.sizeofIphdr then ⟨.aborted, maps⟩
    else
      let saddr := Frame.saddr frame
      let dropFlag := (env.blacklist.lookup (filterKey saddr)).isSome
      match maps.data.lookup 0 with
      | none => ⟨.aborted, maps⟩
      | some tmp =>
        let maps : Maps :=
          { data := maps.data.update 0 { tmp with curIntervalPkt := tmp.curIntervalPkt + 1 }
            logger := logPacket saddr maps.logger }
        ⟨if dropFlag then .drop else env.redirect, maps⟩
  else ⟨env.redirect, maps⟩

/-- The source of a full IPv4 frame. -/
def ipv4Source (frame : Frame) : Option Addr :=
  if frame.length < Frame.sizeofEthhdr + Frame.sizeofIphdr then none
  else if Frame.hProto frame ≠ Frame.ethPIp then none
  else some (Frame.saddr frame)

/-- The maps after a packet from a source. -/
def recorded (saddr : Addr) (maps : Maps) : Maps where
  data := maps.data.update 0
    { maps.data.value with curIntervalPkt := maps.data.value.curIntervalPkt + 1 }
  logger := logPacket saddr maps.logger

theorem filter_ignored (env : Env) (maps : Maps) (frame : Frame) (other : ipv4Source frame = none) :
    (xdpFilterFunc env maps frame).maps = maps := by
  unfold ipv4Source at other
  unfold xdpFilterFunc
  split_ifs with short proto cut
  · rfl
  · rfl
  · rw [if_neg cut, if_neg (by simpa using proto)] at other
    cases other
  · rfl

theorem filter_recorded (env : Env) (maps : Maps) (frame : Frame) (saddr : Addr)
    (source : ipv4Source frame = some saddr) :
    (xdpFilterFunc env maps frame).maps = recorded saddr maps := by
  unfold ipv4Source at source
  split_ifs at source with short proto
  have long : ¬ frame.length < Frame.sizeofEthhdr := by omega
  cases source
  simp only [xdpFilterFunc, if_neg long, if_neg short, if_pos (not_not.mp proto),
    Slots.lookup_zero, recorded]

/-! ### The counters of one source -/

/-- The packets an entry counts in the current interval; no entry counts none. -/
def curOf (logger : Logger) (k : Addr) : I32 := logger.valueAt LoggerValue.cur k

theorem curOf_update_self (logger : Logger) (k : Addr) (value : LoggerValue)
    (accepted : logger.accepts k = true) : curOf (logger.update k value) k = value.cur := by
  rw [curOf, BoundedMap.valueAt, BoundedMap.lookup_update_self logger k value accepted]
  rfl

theorem curOf_update_of_ne (logger : Logger) (k other : Addr) (value : LoggerValue)
    (different : other ≠ k) : curOf (logger.update k value) other = curOf logger other := by
  rw [curOf, BoundedMap.valueAt, BoundedMap.lookup_update_of_ne logger k other value different]
  rfl

theorem curOf_delete_self (logger : Logger) (k : Addr) : curOf (logger.delete k) k = 0 := by
  rw [curOf, BoundedMap.valueAt, BoundedMap.lookup_delete_self]
  rfl

theorem curOf_delete_of_ne (logger : Logger) (k other : Addr) (different : other ≠ k) :
    curOf (logger.delete k) other = curOf logger other := by
  rw [curOf, BoundedMap.valueAt, BoundedMap.lookup_delete_of_ne logger k other different]
  rfl

theorem curOf_logPacket_self (logger : Logger) (saddr : Addr)
    (accepted : logger.accepts saddr = true) :
    curOf (logPacket saddr logger) saddr = curOf logger saddr + 1 := by
  unfold logPacket
  cases present : logger.lookup saddr with
  | none =>
      have before : curOf logger saddr = 0 := by
        rw [curOf, BoundedMap.valueAt, present]
        rfl
      rw [before, curOf_update_self logger saddr _ accepted]
      rfl
  | some value =>
      have before : curOf logger saddr = value.cur := by
        rw [curOf, BoundedMap.valueAt, present]
        rfl
      rw [before, curOf_update_self logger saddr _ accepted]

theorem logPacket_lookup_of_ne (logger : Logger) (saddr other : Addr) (different : other ≠ saddr) :
    (logPacket saddr logger).lookup other = logger.lookup other := by
  unfold logPacket
  split <;> exact BoundedMap.lookup_update_of_ne _ _ _ _ different

theorem curOf_logPacket_of_ne (logger : Logger) (saddr other : Addr) (different : other ≠ saddr) :
    curOf (logPacket saddr logger) other = curOf logger other := by
  rw [curOf, BoundedMap.valueAt, logPacket_lookup_of_ne logger saddr other different]
  rfl

end Fide.UserEbpf
