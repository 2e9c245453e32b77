import Fide.Kernel
import Fide.UserKernel

/-! What the two programs do with a frame.

Both follow one filter, which leaves open what happens to a frame cut inside its headers. -/

namespace Fide

/-- The frame holds an Ethernet header and, where that announces IPv4, an IP header. -/
def HeadersComplete (frame : Frame) : Prop :=
  Frame.sizeofEthhdr ≤ frame.length ∧
    (Frame.hProto frame = Frame.ethPIp → Frame.sizeofEthhdr + Frame.sizeofIphdr ≤ frame.length)

instance (frame : Frame) : Decidable (HeadersComplete frame) := inferInstanceAs (Decidable (_ ∧ _))

/-- An IPv4 frame whose source the blacklist covers. -/
def blocked (blacklist : Blacklist) (frame : Frame) : Bool :=
  Frame.hProto frame = Frame.ethPIp ∧ (blacklist.lookup (filterKey (Frame.saddr frame))).isSome

/-- The filter: complete frames are dropped if blocked and sent on otherwise. -/
def filterAction (incomplete : XdpAction) (blacklist : Blacklist) (forward : XdpAction)
    (frame : Frame) : XdpAction :=
  if HeadersComplete frame then if blocked blacklist frame then .drop else forward
  else incomplete

section Cases

variable (incomplete : XdpAction) (blacklist : Blacklist) (forward : XdpAction) (frame : Frame)

theorem filterAction_short (short : frame.length < Frame.sizeofEthhdr) :
    filterAction incomplete blacklist forward frame = incomplete := by
  rw [filterAction, if_neg]
  intro complete
  exact absurd complete.1 (by omega)

theorem filterAction_cut (proto : Frame.hProto frame = Frame.ethPIp)
    (cut : frame.length < Frame.sizeofEthhdr + Frame.sizeofIphdr) :
    filterAction incomplete blacklist forward frame = incomplete := by
  rw [filterAction, if_neg]
  intro complete
  exact absurd (complete.2 proto) (by omega)

theorem filterAction_other (long : ¬ frame.length < Frame.sizeofEthhdr)
    (other : Frame.hProto frame ≠ Frame.ethPIp) :
    filterAction incomplete blacklist forward frame = forward := by
  have complete : HeadersComplete frame := ⟨by omega, fun proto => absurd proto other⟩
  have free : blocked blacklist frame = false := by simp [blocked, other]
  simp [filterAction, complete, free]

theorem filterAction_ipv4 (proto : Frame.hProto frame = Frame.ethPIp)
    (long : ¬ frame.length < Frame.sizeofEthhdr + Frame.sizeofIphdr) :
    filterAction incomplete blacklist forward frame =
      if (blacklist.lookup (filterKey (Frame.saddr frame))).isSome then .drop else forward := by
  have complete : HeadersComplete frame := ⟨by omega, fun _ => by omega⟩
  simp [filterAction, complete, blocked, proto]

end Cases

/-- The in-kernel program passes incomplete frames. -/
theorem kernel_action (env : Kernel.Env) (st : Kernel.State) (packet : Kernel.Packet) :
    (Kernel.xdpFilterFunc env st packet).action =
      filterAction .pass env.blacklist env.redirect packet.frame := by
  rw [Kernel.xdpFilterFunc]
  split_ifs with short proto cut
  · exact (filterAction_short _ _ _ _ short).symm
  · exact (filterAction_cut _ _ _ _ proto cut).symm
  · rw [filterAction_ipv4 _ _ _ _ proto cut]
    cases found : env.blacklist.lookup (filterKey (Frame.saddr packet.frame)) with
    | some rule => simp only [found, Option.isSome_some, ↓reduceIte]
    | none =>
        simp only [found, Slots.lookup_zero, Option.isSome_none, Bool.false_eq_true, ↓reduceIte]
        split <;> rfl
  · exact (filterAction_other _ _ _ _ short proto).symm

/-- The packet side of the split version aborts them. -/
theorem user_action (env : UserEbpf.Env) (maps : UserEbpf.Maps) (frame : Frame) :
    (UserEbpf.xdpFilterFunc env maps frame).action =
      filterAction .aborted env.blacklist env.redirect frame := by
  rw [UserEbpf.xdpFilterFunc]
  split_ifs with short proto cut
  · exact (filterAction_short _ _ _ _ short).symm
  · exact (filterAction_cut _ _ _ _ proto cut).symm
  · rw [filterAction_ipv4 _ _ _ _ proto cut]
    simp only [Slots.lookup_zero]
  · exact (filterAction_other _ _ _ _ short proto).symm

def refuses (action : XdpAction) : Bool := action = .drop ∨ action = .aborted

/-- Both refuse the frame, or both forward it with the same action. -/
def FilterAlike (first second : XdpAction) : Prop :=
  (refuses first = true ∧ refuses second = true) ∨ (refuses first = false ∧ first = second)

/-- The programs filter alike, whatever their maps hold, exactly where the headers are
complete. -/
theorem programs_filter_alike_iff (target : Words.Target) (blacklist : Blacklist)
    (answer : XdpAction) (st : Kernel.State) (packet : Kernel.Packet) (maps : UserEbpf.Maps) :
    FilterAlike (Kernel.xdpFilterFunc ⟨target, blacklist, answer⟩ st packet).action
        (UserEbpf.xdpFilterFunc ⟨blacklist, answer⟩ maps packet.frame).action ↔
      HeadersComplete packet.frame := by
  rw [kernel_action, user_action]
  by_cases complete : HeadersComplete packet.frame
  · have same : filterAction .pass blacklist answer packet.frame =
        filterAction .aborted blacklist answer packet.frame := by
      rw [filterAction, if_pos complete, filterAction, if_pos complete]
    refine iff_of_true ?_ complete
    rw [same]
    cases refused : refuses (filterAction .aborted blacklist answer packet.frame) with
    | true => exact .inl ⟨refused, refused⟩
    | false => exact .inr ⟨refused, rfl⟩
  · refine iff_of_false ?_ complete
    rw [filterAction, if_neg complete, filterAction, if_neg complete]
    intro alike
    rcases alike with ⟨refused, -⟩ | ⟨-, same⟩
    · exact absurd refused (by decide)
    · exact absurd same (by decide)

/-- An empty frame is passed by one and refused by the other. -/
theorem empty_frame_passed :
    ¬ ∀ (target : Words.Target) (blacklist : Blacklist) (answer : XdpAction) (st : Kernel.State)
      (packet : Kernel.Packet) (maps : UserEbpf.Maps),
      FilterAlike (Kernel.xdpFilterFunc ⟨target, blacklist, answer⟩ st packet).action
        (UserEbpf.xdpFilterFunc ⟨blacklist, answer⟩ maps packet.frame).action := by
  intro claim
  have alike := claim Words.masking [] .redirect Kernel.zeroed
    ⟨0, [], .stored _, .stored _⟩
    ⟨BoundedMap.empty, Slots.single ⟨0, 0⟩⟩
  rcases alike with ⟨refused, -⟩ | ⟨-, same⟩
  · exact absurd refused (by decide)
  · exact absurd same (by decide)

end Fide
