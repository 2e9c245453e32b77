import Fide.CalculateEnt

/-! The split version as a whole: packets interleaved with the syscalls of `calculate_ent`.

A system is the shared maps, the user process and the reports of its finished calls. Packets are
counted as they arrive, so that the counters can be held against them. -/

namespace Fide.UserEbpf

open Words

/-- The maps, with the number of IPv4 packets processed so far, in all and by source. -/
structure World where
  maps : Maps
  total : Nat
  sent : Addr → Nat

structure System (R : Type) where
  world : World
  statics : Statics
  process : Option (Program Op Answer (Report R))
  reports : List (Report R)

/-- A frame reaches the filter, a call starts on the given memory, or the process moves on: it
performs its next syscall or returns. -/
inductive Event (R : Type)
  | packet (frame : Frame)
  | call (heap : Heap R)
  | user

def World.receive (env : Env) (w : World) (frame : Frame) : World where
  maps := (xdpFilterFunc env w.maps frame).maps
  total := w.total + if (ipv4Source frame).isSome then 1 else 0
  sent := fun a => w.sent a + if ipv4Source frame = some a then 1 else 0

def World.exec (order : BoundedMap.Enumeration Addr) (op : Op) (w : World) : Answer op × World :=
  ((UserEbpf.exec order op w.maps).1, { w with maps := (UserEbpf.exec order op w.maps).2 })

def System.pending {R : Type} (s : System R) : Option Op := s.process.bind Program.pending

/-- Empty maps, `beta` at one, no call so far. -/
def System.initial (R : Type) : System R where
  world := ⟨⟨BoundedMap.empty, Slots.single ⟨0, 0⟩⟩, 0, fun _ => 0⟩
  statics := ⟨0, 1⟩
  process := none
  reports := []

section System

variable {R : Type} [Field R] [LinearOrder R]
  (env : Env) (order : BoundedMap.Enumeration Addr) (libm : Libm R)

def System.step (s : System R) : Event R → System R
  | .packet frame => { s with world := s.world.receive env frame }
  | .call heap =>
      match s.process with
      | none => { s with process := some (calculateEnt libm heap s.statics) }
      | some _ => s
  | .user =>
      match s.process with
      | none => s
      | some (.done report) =>
          { s with process := none, statics := report.statics, reports := s.reports ++ [report] }
      | some (.perform op next) =>
          { s with
            world := (s.world.exec order op).2
            process := some (next (s.world.exec order op).1) }

def System.run (s : System R) (events : List (Event R)) : System R :=
  events.foldl (System.step env order libm) s

/-- A condition on every event of a run and the system it meets. -/
def System.along (condition : System R → Event R → Bool) (s : System R) : List (Event R) → Bool
  | [] => true
  | event :: rest => condition s event && along condition (s.step env order libm event) rest

end System

/-! ### Balances -/

section Balances

variable {R : Type}

/-- The counts moved into `prev` under an address. -/
def movedFrom (moved : List (Addr × I32)) (a : Addr) : Int :=
  ((moved.filter fun entry => entry.1 = a).map fun entry => entry.2.toInt).sum

/-- Every packet is in a value added to `holder` or in the current interval counter. -/
def System.TotalBalanced (s : System R) : Prop :=
  (s.world.total : Int) =
    (s.reports.map fun report => report.added.toInt).sum +
      s.world.maps.data.value.curIntervalPkt.toInt

/-- Every packet of a source is in a count moved into `prev` or in the current count of its
entry. -/
def System.SourceBalanced (s : System R) (a : Addr) : Prop :=
  (s.world.sent a : Int) =
    (s.reports.map fun report => movedFrom report.moved a).sum +
      (curOf s.world.maps.logger a).toInt

/-- The process has read the data record and not yet written it back. -/
def holdsData : Option Op → Bool
  | some (.nextKey _) | some (.lookupEntry _) | some (.updateData _) => true
  | _ => false

/-- The process has read the entry of the address and is about to delete or write it. -/
def holdsEntry (a : Addr) : Option Op → Bool
  | some (.deleteEntry key) | some (.updateEntry key _) => key = a
  | _ => false

/-- The process is about to write an entry of the address. -/
def writesEntry (a : Addr) : Option Op → Bool
  | some (.updateEntry key _) => key = a
  | _ => false

/-- No IPv4 packet arrives while the process holds the data record, nor overflows the counter. -/
def dataQuiet (s : System R) : Event R → Bool
  | .packet frame => (ipv4Source frame).isNone ||
      (!holdsData s.pending && s.world.maps.data.value.curIntervalPkt.toInt < 2 ^ 31 - 1)
  | _ => true

/-- No packet of the source arrives while the process holds its entry, none is refused or
overflows the count, and the process writes the entry only if there is one. -/
def sourceQuiet (a : Addr) (s : System R) : Event R → Bool
  | .packet frame => ipv4Source frame ≠ some a ||
      (!holdsEntry a s.pending && s.world.maps.logger.accepts a &&
        (curOf s.world.maps.logger a).toInt < 2 ^ 31 - 1)
  | .user => !writesEntry a s.pending || (s.world.maps.logger.lookup a).isSome
  | .call _ => true

end Balances

end Fide.UserEbpf
