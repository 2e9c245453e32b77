import Fide.Pool
import Fide.Frame

/-! How the user process of the split version starts: `common_params.c`, `common_user_bpf_xdp.c` and
`main` of `xdp_loader.c` up to its loop.

The start is a program over the requests it makes of the kernel and of `libbpf`, whose answers are
arbitrary. What `getopt_long` returns is given option by option. -/

namespace Fide.Loader

open Words

/-! ### Flags and exit codes -/

abbrev Flags := BitVec 32

def updateIfNoexist : Flags := 1
def skbMode : Flags := 2
def drvMode : Flags := 4
def hwMode : Flags := 8
def modes : Flags := skbMode ||| drvMode ||| hwMode

def xdpCopy : BitVec 16 := 2
def xdpZerocopy : BitVec 16 := 4

/-- The exit codes of `common_defines.h`. -/
inductive Exit
  | ok
  | fail
  | failOption
  | failXdp
  | failBpf
  deriving DecidableEq, Repr

def Exit.code : Exit → Nat
  | .ok => 0
  | .fail => 1
  | .failOption => 2
  | .failXdp => 30
  | .failBpf => 40

def eexist : I32 := 17

/-! ### The command line -/

/-- The bytes of a C string before its end. -/
abbrev Text := List Byte

def ifNamesize : Nat := 16

/-- `strncpy` into a buffer of the given size. -/
def strncpy (size : Nat) (text : Text) : Text := text.take size

/-- What `getopt_long` returns, with the argument if there is one. The argument of `-Q` is the number
`atoi` makes of it; `other` is every option the `switch` has no case for, `--udef` among them. -/
inductive Opt
  | dev (name : Text)
  | redirectDev (name : Text)
  | autoMode
  | skbMode
  | nativeMode
  | offloadMode
  | force
  | reuseMaps
  | unload
  | pollMode
  | quiet
  | queue (number : I32)
  | filename (text : Text)
  | progsec (text : Text)
  | srcMac (text : Text)
  | destMac (text : Text)
  | copy
  | zeroCopy
  | help
  | other
  deriving DecidableEq, Repr

/-- `struct config`, and the global `verbose`. -/
structure Config where
  xdpFlags : Flags
  ifindex : I32
  ifname : Text
  redirectIfindex : I32
  redirectIfname : Text
  doUnload : Bool
  reuseMaps : Bool
  filename : Text
  progsec : Text
  srcMac : Text
  destMac : Text
  xskBindFlags : BitVec 16
  xskIfQueue : I32
  xskPollMode : Bool
  verbose : Bool
  deriving DecidableEq, Repr

/-- Why the command line is refused; every refusal prints the usage and exits. -/
inductive Refusal
  | devNameTooLong
  | devNameUnknown
  | redirectNameTooLong
  | redirectNameUnknown
  | help
  | other
  deriving DecidableEq, Repr

def defaultProgsec : Text := "xdp_filter".toUTF8.toList.map UInt8.toBitVec

def Config.initial : Config where
  xdpFlags := updateIfNoexist ||| drvMode
  ifindex := -1
  ifname := []
  redirectIfindex := 0
  redirectIfname := []
  doUnload := false
  reuseMaps := false
  filename := []
  progsec := strncpy 32 defaultProgsec
  srcMac := []
  destMac := []
  xskBindFlags := 0
  xskIfQueue := 0
  xskPollMode := false
  verbose := true

def Config.setMode (mode : Flags) (cfg : Config) : Config :=
  { cfg with xdpFlags := cfg.xdpFlags &&& ~~~modes ||| mode }

section Start

variable (ifNametoindex : Text → I32)

/-- One turn of the `while` loop. -/
def parseOption (cfg : Config) : Opt → Except Refusal Config
  | .dev name =>
      if ifNamesize ≤ name.length then .error .devNameTooLong
      else
        let ifname := strncpy ifNamesize name
        let ifindex := ifNametoindex ifname
        if ifindex = 0 then .error .devNameUnknown
        else .ok { cfg with ifname := ifname, ifindex := ifindex }
  | .redirectDev name =>
      if ifNamesize ≤ name.length then .error .redirectNameTooLong
      else
        let ifname := strncpy ifNamesize name
        let ifindex := ifNametoindex ifname
        if ifindex = 0 then .error .redirectNameUnknown
        else .ok { cfg with redirectIfname := ifname, redirectIfindex := ifindex }
  | .autoMode => .ok (cfg.setMode 0)
  | .skbMode =>
      .ok { cfg.setMode Loader.skbMode with
        xskBindFlags := cfg.xskBindFlags &&& xdpZerocopy ||| xdpCopy }
  | .nativeMode => .ok (cfg.setMode drvMode)
  | .offloadMode => .ok (cfg.setMode hwMode)
  | .force => .ok { cfg with xdpFlags := cfg.xdpFlags &&& ~~~updateIfNoexist }
  | .reuseMaps => .ok { cfg with reuseMaps := true }
  | .unload => .ok { cfg with doUnload := true }
  | .pollMode => .ok { cfg with xskPollMode := true }
  | .quiet => .ok { cfg with verbose := false }
  | .queue number => .ok { cfg with xskIfQueue := number }
  | .filename text => .ok { cfg with filename := strncpy 512 text }
  | .progsec text => .ok { cfg with progsec := strncpy 32 text }
  | .srcMac text => .ok { cfg with srcMac := strncpy 18 text }
  | .destMac text => .ok { cfg with destMac := strncpy 18 text }
  | .copy => .ok { cfg with xskBindFlags := cfg.xskBindFlags &&& xdpZerocopy ||| xdpCopy }
  | .zeroCopy => .ok { cfg with xskBindFlags := cfg.xskBindFlags &&& xdpCopy ||| xdpZerocopy }
  | .help => .error .help
  | .other => .error .other

def parseCmdlineArgs (opts : List Opt) : Except Refusal Config :=
  opts.foldlM (parseOption ifNametoindex) Config.initial

end Start

/-! ### Requests -/

inductive Op
  | setrlimit
  | setLinkXdpFd (ifindex fd : I32) (flags : Flags)
  | getLinkXdpId (ifindex : I32) (flags : Flags)
  | progLoad (ifindex : I32)
  | findProgram (title : Text)
  | programFd
  | accessPinned (subdir : Text)
  | unpinMaps (subdir : Text)
  | pinMaps (subdir : Text)
  | nextMap (found : Nat)
  | updateTxPort (index ifindex : I32)
  deriving DecidableEq, Repr

/-- Error codes, and whether what was asked for is there. -/
abbrev Answer : Op → Type
  | .setrlimit => I32
  | .setLinkXdpFd _ _ _ => I32
  | .getLinkXdpId _ _ => I32 × BitVec 32
  | .progLoad _ => I32
  | .findProgram _ => Bool
  | .programFd => I32
  | .accessPinned _ => Bool
  | .unpinMaps _ => I32
  | .pinMaps _ => I32
  | .nextMap _ => Bool
  | .updateTxPort _ _ => I32

def attachResult (err : I32) : Exit := if err.toInt < 0 then .failXdp else .ok

/-- The flags of the mode a program has to leave when the requested one is refused. -/
def oppositeMode (flags : Flags) : Flags :=
  flags &&& ~~~modes ||| if flags &&& skbMode ≠ 0 then drvMode else skbMode

def xdpLinkAttach (ifindex : I32) (flags : Flags) (progFd : I32) : Program Op Answer Exit :=
  .perform (.setLinkXdpFd ifindex progFd flags) fun err =>
    if err = -eexist ∧ flags &&& updateIfNoexist = 0 then
      .perform (.setLinkXdpFd ifindex (-1) (oppositeMode flags)) fun err =>
        if err = 0 then
          .perform (.setLinkXdpFd ifindex progFd flags) fun err => .done (attachResult err)
        else .done (attachResult err)
    else .done (attachResult err)

def xdpLinkDetach (ifindex : I32) (flags : Flags) (expectedProgId : BitVec 32) :
    Program Op Answer Exit :=
  .perform (.getLinkXdpId ifindex flags) fun found =>
    if found.1 ≠ 0 then .done .failXdp
    else if found.2 = 0 then .done .ok
    else if expectedProgId ≠ 0 ∧ found.2 ≠ expectedProgId then .done .fail
    else .perform (.setLinkXdpFd ifindex (-1) flags) fun err => .done (attachResult err)

/-- Errors end the process; otherwise the program is attached. -/
def loadBpfAndXdpAttach (cfg : Config) : Program Op Answer (Except Exit Unit) :=
  let offloadIfindex := if cfg.xdpFlags &&& hwMode ≠ 0 then cfg.ifindex else 0
  .perform (.progLoad offloadIfindex) fun err =>
    if err ≠ 0 then .done (.error .failBpf)
    else
      .perform (.findProgram cfg.progsec) fun found =>
        if !found then .done (.error .failBpf)
        else
          .perform .programFd fun progFd =>
            if progFd.toInt ≤ 0 then .done (.error .failBpf)
            else
              (xdpLinkAttach cfg.ifindex cfg.xdpFlags progFd).bind fun err =>
                .done (if err = .ok then .ok () else .error err)

def pinMapsInBpfObject (subdir : Text) : Program Op Answer Exit :=
  let pin : Program Op Answer Exit :=
    .perform (.pinMaps subdir) fun err => .done (if err ≠ 0 then .failBpf else .ok)
  .perform (.accessPinned subdir) fun pinned =>
    if pinned then
      .perform (.unpinMaps subdir) fun err => if err ≠ 0 then .done .failBpf else pin
    else pin

/-- `bpf_map__next` for the maps from the given one on, up to the fourth. -/
def findMaps : (left found : Nat) → Program Op Answer Bool
  | 0, _ => .done true
  | left + 1, found =>
      .perform (.nextMap found) fun next => if next then findMaps left (found + 1) else .done false

/-- The process ends, or it goes on to call `calculate_ent` every second. -/
inductive Start
  | exited (code : Exit)
  | monitoring
  deriving DecidableEq, Repr

/-- `main` up to its loop. The result of pinning the maps is not looked at, and neither is that of
the update of `tx_port`, but for a message. -/
def main (ifNametoindex : Text → I32) (opts : List Opt) : Program Op Answer Start :=
  match parseCmdlineArgs ifNametoindex opts with
  | .error _ => .done (.exited .failOption)
  | .ok cfg =>
    if cfg.ifindex = -1 then .done (.exited .failOption)
    else
      .perform .setrlimit fun err =>
        if err ≠ 0 then .done (.exited .fail)
        else if cfg.doUnload then
          (xdpLinkDetach cfg.ifindex cfg.xdpFlags 0).bind fun code => .done (.exited code)
        else
          (loadBpfAndXdpAttach cfg).bind fun attached =>
            match attached with
            | .error code => .done (.exited code)
            | .ok () =>
              (pinMapsInBpfObject cfg.ifname).bind fun _ =>
                (findMaps 4 0).bind fun found =>
                  if found then .perform (.updateTxPort 0 4) fun _ => .done .monitoring
                  else .done (.exited .fail)

end Fide.Loader
