import Fide.Words

/-! Frames, source addresses and the blacklist shared by both filter programs. -/

namespace Fide

open Words

abbrev Byte := BitVec 8
abbrev Frame := List Byte

/-- A source address, first byte most significant. Map keys are compared byte by byte, so the
byte order of the host never shows. -/
abbrev Addr := BitVec 32

inductive XdpAction
  | aborted
  | drop
  | pass
  | tx
  | redirect
  deriving DecidableEq, Repr

namespace Frame

def sizeofEthhdr : Nat := 14
def sizeofIphdr : Nat := 20

def byte (frame : Frame) (offset : Nat) : Byte := frame.getD offset 0

def hProto (frame : Frame) : BitVec 16 := byte frame 12 ++ byte frame 13

def ethPIp : BitVec 16 := 0x0800

def saddr (frame : Frame) : Addr :=
  byte frame 26 ++ byte frame 27 ++ byte frame 28 ++ byte frame 29

/-- A full IPv4 frame from a source, every other byte zero. -/
def ipv4From (source : Addr) : Frame :=
  [0, 0, 0, 0, 0, 0, 0, 0, 0, 0, 0, 0, 0x08, 0x00,
    0, 0, 0, 0, 0, 0, 0, 0, 0, 0, 0, 0,
    source.extractLsb' 24 8, source.extractLsb' 16 8, source.extractLsb' 8 8,
    source.extractLsb' 0 8,
    0, 0, 0, 0]

theorem hProto_ipv4From (source : Addr) : hProto (ipv4From source) = ethPIp := by
  change (0x08 : Byte) ++ (0x00 : Byte) = (0x0800 : BitVec 16)
  decide

theorem saddr_ipv4From (source : Addr) : saddr (ipv4From source) = source := by
  change source.extractLsb' 24 8 ++ source.extractLsb' 16 8 ++ source.extractLsb' 8 8 ++
    source.extractLsb' 0 8 = source
  grind

end Frame

structure LpmV4Key where
  prefixlen : I32
  address : Addr
  deriving DecidableEq, Repr

/-- The key a program looks a source up with. -/
def filterKey (address : Addr) : LpmV4Key := ⟨32, address⟩

/-- The rules of a longest-prefix-match trie with their values. -/
abbrev Blacklist := List (LpmV4Key × I32)

namespace Blacklist

/-- A rule covers a key when it is no longer than the key and their leading bits agree. -/
def covers (rule key : LpmV4Key) : Bool :=
  rule.prefixlen.toNat ≤ key.prefixlen.toNat &&
    rule.address >>> (32 - rule.prefixlen.toNat) == key.address >>> (32 - rule.prefixlen.toNat)

def lookup (blacklist : Blacklist) (key : LpmV4Key) : Option I32 :=
  ((blacklist.filter fun rule => covers rule.1 key).argmax
    fun rule => rule.1.prefixlen.toNat).map Prod.snd

end Blacklist

end Fide
