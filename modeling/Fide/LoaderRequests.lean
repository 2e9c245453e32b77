import Fide.Loader

/-! What the start of the user process asks of the kernel, held against its command line.

The command line is read as a whole here: the last mode and the last device named count, and force
and unload count wherever they stand. -/

namespace Fide.Loader

open Words

/-! ### What a command line asks for -/

def Opt.mode : Opt → Option Flags
  | .autoMode => some 0
  | .skbMode => some Loader.skbMode
  | .nativeMode => some drvMode
  | .offloadMode => some hwMode
  | _ => none

def Opt.named : Opt → Option Text
  | .dev name => some name
  | _ => none

def requestedMode (opts : List Opt) : Flags := (opts.filterMap Opt.mode).getLast?.getD drvMode

/-- A program that is attached already is replaced only by force. -/
def requestedCare (opts : List Opt) : Flags := if .force ∈ opts then 0 else updateIfNoexist

def requestedFlags (opts : List Opt) : Flags := requestedCare opts ||| requestedMode opts

def requestedDev (opts : List Opt) : Option Text := (opts.filterMap Opt.named).getLast?

/-- The configuration says what the command line asks for. -/
structure Config.Requested (ifNametoindex : Text → I32) (opts : List Opt) (cfg : Config) : Prop where
  flags : cfg.xdpFlags = requestedFlags opts
  unload : cfg.doUnload = decide (.unload ∈ opts)
  dev : cfg.ifindex = (requestedDev opts).elim (-1) ifNametoindex

theorem requestedMode_cases (opts : List Opt) :
    requestedMode opts ∈ [0, Loader.skbMode, drvMode, hwMode] := by
  unfold requestedMode
  cases last : (opts.filterMap Opt.mode).getLast? with
  | none => decide
  | some mode =>
      obtain ⟨opt, -, found⟩ := List.mem_filterMap.mp (List.mem_of_getLast? last)
      cases opt <;> cases found <;> decide

theorem requestedCare_cases (opts : List Opt) :
    requestedCare opts ∈ [0, updateIfNoexist] := by
  unfold requestedCare
  split <;> decide

/-- The two parts of the flags do not overlap. -/
theorem requestedFlags_parts (opts : List Opt) :
    requestedFlags opts &&& ~~~modes = requestedCare opts ∧
      requestedFlags opts &&& ~~~updateIfNoexist = requestedMode opts ∧
      requestedFlags opts &&& updateIfNoexist = requestedCare opts := by
  have apart : ([0, updateIfNoexist].all fun care =>
      [0, Loader.skbMode, drvMode, hwMode].all fun mode =>
        (care ||| mode) &&& ~~~modes = care && (care ||| mode) &&& ~~~updateIfNoexist = mode &&
          (care ||| mode) &&& updateIfNoexist = care) = true := by decide
  have parts := List.all_eq_true.mp (List.all_eq_true.mp apart _ (requestedCare_cases opts)) _
    (requestedMode_cases opts)
  simp only [Bool.and_eq_true, decide_eq_true_eq] at parts
  exact ⟨parts.1.1, parts.1.2, parts.2⟩

theorem requestedMode_append (opts : List Opt) (opt : Opt) :
    requestedMode (opts ++ [opt]) = opt.mode.getD (requestedMode opts) := by
  unfold requestedMode
  rw [List.filterMap_append]
  cases found : opt.mode with
  | none => simp [found]
  | some mode => simp [found]

theorem requestedDev_append (opts : List Opt) (opt : Opt) :
    requestedDev (opts ++ [opt]) = opt.named.or (requestedDev opts) := by
  unfold requestedDev
  rw [List.filterMap_append]
  cases found : opt.named with
  | none => simp [found]
  | some name => simp [found]

section Parse

variable {ifNametoindex : Text → I32}

/-- What one option does to the flags, to the device and to whether to unload. -/
structure Config.Changed (ifNametoindex : Text → I32) (opt : Opt) (cfg cfg' : Config) : Prop where
  flags : cfg'.xdpFlags = if opt = .force then cfg.xdpFlags &&& ~~~updateIfNoexist
    else opt.mode.elim cfg.xdpFlags fun mode => cfg.xdpFlags &&& ~~~modes ||| mode
  unload : cfg'.doUnload = (cfg.doUnload || decide (opt = .unload))
  dev : cfg'.ifindex = opt.named.elim cfg.ifindex ifNametoindex

theorem parseOption_changed (cfg cfg' : Config) (opt : Opt)
    (parsed : parseOption ifNametoindex cfg opt = .ok cfg') :
    cfg.Changed ifNametoindex opt cfg' := by
  cases opt with
  | dev name =>
      simp only [parseOption] at parsed
      split at parsed
      · cases parsed
      · next short =>
          have whole : strncpy ifNamesize name = name := List.take_of_length_le (by omega)
          rw [whole] at parsed
          split at parsed
          · cases parsed
          · cases parsed
            exact ⟨rfl, (Bool.or_false _).symm, rfl⟩
  | redirectDev name =>
      simp only [parseOption] at parsed
      split at parsed
      · cases parsed
      · split at parsed
        · cases parsed
        · cases parsed
          exact ⟨rfl, (Bool.or_false _).symm, rfl⟩
  | unload =>
      cases parsed
      exact ⟨rfl, (Bool.or_true _).symm, rfl⟩
  | help => cases parsed
  | other => cases parsed
  | _ =>
      cases parsed
      exact ⟨rfl, (Bool.or_false _).symm, rfl⟩

/-- One more option. -/
theorem Config.Requested.changed {opts : List Opt} {cfg cfg' : Config} {opt : Opt}
    (requested : cfg.Requested ifNametoindex opts) (changed : cfg.Changed ifNametoindex opt cfg') :
    cfg'.Requested ifNametoindex (opts ++ [opt]) := by
  obtain ⟨cleared, forced, -⟩ := requestedFlags_parts opts
  have parts : requestedFlags (opts ++ [opt]) =
      requestedCare (opts ++ [opt]) ||| opt.mode.getD (requestedMode opts) := by
    rw [requestedFlags, requestedMode_append]
  constructor
  · rw [changed.flags, requested.flags, parts]
    by_cases force : opt = .force
    · subst force
      rw [if_pos rfl, forced, requestedCare, if_pos (by simp)]
      exact (BitVec.zero_or).symm
    · have care : requestedCare (opts ++ [opt]) = requestedCare opts := by
        simp only [requestedCare, List.mem_append, List.mem_singleton, Ne.symm force, or_false]
      rw [if_neg force, care]
      cases opt.mode with
      | none => rfl
      | some mode => rw [Option.elim_some, cleared, Option.getD_some]
  · rw [changed.unload, requested.unload]
    simp [eq_comm]
  · rw [changed.dev, requested.dev, requestedDev_append]
    cases opt.named <;> rfl

/-- An index other than the initial one is that of the device named last. -/
theorem Config.Requested.dev_named {opts : List Opt} {cfg : Config}
    (requested : cfg.Requested ifNametoindex opts) (named : cfg.ifindex ≠ -1) :
    ∃ name, requestedDev opts = some name ∧ cfg.ifindex = ifNametoindex name := by
  have index := requested.dev
  cases last : requestedDev opts with
  | none =>
      rw [last] at index
      exact absurd index named
  | some name =>
      rw [last] at index
      exact ⟨name, rfl, index⟩

theorem parseCmdlineArgs_requested (opts : List Opt) (cfg : Config)
    (parsed : parseCmdlineArgs ifNametoindex opts = .ok cfg) :
    cfg.Requested ifNametoindex opts := by
  induction opts using List.reverseRecOn generalizing cfg with
  | nil =>
      cases parsed
      exact ⟨rfl, rfl, rfl⟩
  | append_singleton front last ih =>
      unfold parseCmdlineArgs at parsed
      rw [List.foldlM_append] at parsed
      cases earlier : front.foldlM (parseOption ifNametoindex) Config.initial with
      | error refusal =>
          rw [earlier] at parsed
          cases parsed
      | ok before =>
          rw [earlier] at parsed
          change List.foldlM (parseOption ifNametoindex) before [last] = _ at parsed
          rw [List.foldlM_cons] at parsed
          cases step : parseOption ifNametoindex before last with
          | error refusal =>
              rw [step] at parsed
              cases parsed
          | ok after =>
              rw [step] at parsed
              cases parsed
              exact (ih before earlier).changed (parseOption_changed before cfg last step)

end Parse

/-! ### Requests -/

section Requests

variable (ifNametoindex : Text → I32) (opts : List Opt)

/-- The last request was to attach a program with these flags, and the kernel refused because there
is one already. -/
def justRefused (ifindex : I32) (flags : Flags) : Program.History Op Answer → Bool
  | ⟨.setLinkXdpFd ifindex' fd flags', err⟩ :: _ =>
      ifindex' = ifindex && 0 < fd.toInt && flags' = flags && err = -eexist
  | _ => false

/-- What the command line permits to ask for after the requests so far. Changes of the link are for
the device named last and with the flags asked for; a program is removed when unloading, or by force
in the opposite mode when the kernel has just refused the attachment. -/
def permitted (past : Program.History Op Answer) : Op → Bool
  | .setrlimit => true
  | .setLinkXdpFd ifindex fd flags =>
      (requestedDev opts).map ifNametoindex = some ifindex &&
        if .unload ∈ opts then fd = -1 && flags = requestedFlags opts
        else if 0 < fd.toInt then flags = requestedFlags opts
        else .force ∈ opts && fd = -1 && flags = oppositeMode (requestedFlags opts) &&
          justRefused ifindex (requestedFlags opts) past
  | .getLinkXdpId ifindex flags =>
      .unload ∈ opts && (requestedDev opts).map ifNametoindex = some ifindex &&
        flags = requestedFlags opts
  | _ => .unload ∉ opts

def concernsLink : Op → Bool
  | .setLinkXdpFd _ _ _ => true
  | .getLinkXdpId _ _ => true
  | _ => false

variable {ifNametoindex opts}

theorem permitted_of_loads (loads : .unload ∉ opts) (past : Program.History Op Answer) (op : Op)
    (other : concernsLink op = false) : permitted ifNametoindex opts past op = true := by
  cases op with
  | setrlimit => rfl
  | setLinkXdpFd ifindex fd flags => cases other
  | getLinkXdpId ifindex flags => cases other
  | _ => exact decide_eq_true loads

theorem xdpLinkAttach_permitted (loads : .unload ∉ opts) (ifindex progFd : I32)
    (dev : (requestedDev opts).map ifNametoindex = some ifindex) (positive : 0 < progFd.toInt)
    (past : Program.History Op Answer) :
    (xdpLinkAttach ifindex (requestedFlags opts) progFd).Obeys (permitted ifNametoindex opts)
      past := by
  have attach : ∀ past, permitted ifNametoindex opts past
      (.setLinkXdpFd ifindex progFd (requestedFlags opts)) = true := by
    simp [permitted, dev, loads, positive]
  refine ⟨attach past, ?_⟩
  intro err
  dsimp only
  split
  · next refused =>
      have force : Opt.force ∈ opts := by
        have care := (requestedFlags_parts opts).2.2
        rw [refused.2, requestedCare] at care
        by_contra careful
        rw [if_neg careful] at care
        exact absurd care (by decide)
      refine ⟨by simp [permitted, justRefused, dev, loads, force, positive, refused.1], ?_⟩
      intro err
      dsimp only
      split
      · exact ⟨attach _, fun _ => trivial⟩
      · trivial
  · trivial

theorem xdpLinkDetach_permitted (unload : .unload ∈ opts) (ifindex : I32)
    (dev : (requestedDev opts).map ifNametoindex = some ifindex)
    (past : Program.History Op Answer) :
    (xdpLinkDetach ifindex (requestedFlags opts) 0).Obeys (permitted ifNametoindex opts) past := by
  refine ⟨by simp [permitted, dev, unload], ?_⟩
  intro found
  dsimp only
  split
  · trivial
  · split
    · trivial
    · split
      · trivial
      · exact ⟨by simp [permitted, dev, unload], fun _ => trivial⟩

theorem findMaps_avoids {bad : Op → Bool} (fine : ∀ found, bad (.nextMap found) = false)
    (left found : Nat) : (findMaps left found).Avoids bad := by
  induction left generalizing found with
  | zero => trivial
  | succ left ih =>
      refine ⟨fine found, ?_⟩
      intro next
      dsimp only
      split
      · exact ih (found + 1)
      · trivial

/-- Requests that do not concern the link. -/
theorem pinMapsInBpfObject_avoids {bad : Op → Bool} (subdir : Text)
    (access : bad (.accessPinned subdir) = false) (unpin : bad (.unpinMaps subdir) = false)
    (pin : bad (.pinMaps subdir) = false) : (pinMapsInBpfObject subdir).Avoids bad := by
  refine ⟨access, ?_⟩
  intro pinned
  dsimp only
  split
  · refine ⟨unpin, ?_⟩
    intro err
    dsimp only
    split
    · trivial
    · exact ⟨pin, fun _ => trivial⟩
  · exact ⟨pin, fun _ => trivial⟩

theorem loadBpfAndXdpAttach_permitted (loads : .unload ∉ opts) (cfg : Config)
    (requested : cfg.Requested ifNametoindex opts)
    (dev : (requestedDev opts).map ifNametoindex = some cfg.ifindex)
    (past : Program.History Op Answer) :
    (loadBpfAndXdpAttach cfg).Obeys (permitted ifNametoindex opts) past := by
  refine ⟨permitted_of_loads loads _ _ rfl, ?_⟩
  intro err
  dsimp only
  generalize List.cons _ past = past
  split
  · trivial
  · refine ⟨permitted_of_loads loads _ _ rfl, ?_⟩
    intro found
    dsimp only
    split
    · trivial
    · refine ⟨permitted_of_loads loads _ _ rfl, ?_⟩
      intro progFd
      dsimp only
      split
      · trivial
      · next positive =>
          rw [requested.flags]
          exact Program.obeys_bind
            (xdpLinkAttach_permitted loads cfg.ifindex progFd dev (by omega) _)
            (fun _ _ => trivial)

end Requests

/-- Whatever the kernel and `libbpf` answer, the start asks for nothing the command line does not
permit after the requests before. -/
theorem start_keeps_to_command_line (ifNametoindex : Text → I32) (opts : List Opt) :
    (main ifNametoindex opts).Obeys (permitted ifNametoindex opts) [] := by
  unfold main
  cases parsed : parseCmdlineArgs ifNametoindex opts with
  | error refusal => trivial
  | ok cfg =>
      have requested := parseCmdlineArgs_requested opts cfg parsed
      dsimp only
      split
      · trivial
      · next named =>
          have dev : (requestedDev opts).map ifNametoindex = some cfg.ifindex := by
            obtain ⟨name, last, index⟩ := requested.dev_named named
            rw [last, Option.map_some, index]
          refine ⟨rfl, ?_⟩
          intro err
          dsimp only
          split
          · trivial
          · split
            · next unload =>
                rw [requested.unload, decide_eq_true_eq] at unload
                rw [requested.flags]
                exact Program.obeys_bind (xdpLinkDetach_permitted unload cfg.ifindex dev _)
                  (fun _ _ => trivial)
            · next loads =>
                rw [requested.unload, decide_eq_true_eq] at loads
                have others : ∀ past op, concernsLink op = false →
                    permitted ifNametoindex opts past op = true := permitted_of_loads loads
                refine Program.obeys_bind (loadBpfAndXdpAttach_permitted loads cfg requested dev _)
                  ?_
                intro attached past
                cases attached with
                | error code => trivial
                | ok done =>
                    refine Program.obeys_bind
                      ((pinMapsInBpfObject_avoids _ rfl rfl rfl).obeys others past) ?_
                    intro _ past
                    refine Program.obeys_bind
                      ((findMaps_avoids (fun _ => rfl) 4 0).obeys others past) ?_
                    intro found past
                    split
                    · exact ⟨others _ _ rfl, fun _ => trivial⟩
                    · trivial

/-! ### The link -/

/-- The change of a link that succeeded last: the device, the program and the flags. -/
abbrev Link := Option (I32 × I32 × Flags)

/-- A request to change a link answers with zero or an error; no other request changes it. -/
def answers : (op : Op) → Link → Answer op → Link → Prop
  | .setLinkXdpFd ifindex fd flags, link, err, link' =>
      err.toInt ≤ 0 ∧ link' = if err = 0 then some (ifindex, fd, flags) else link
  | _, link, _, link' => link' = link

def changesLink : Op → Bool
  | .setLinkXdpFd _ _ _ => true
  | _ => false

/-- No program of this process is attached. -/
def Link.Free (link : Link) : Prop := ∀ ifindex fd flags, link = some (ifindex, fd, flags) → fd = -1

section Link

variable {α : Type} {post : α → Link → Prop}

/-- Nothing else changes the link meanwhile. -/
theorem ensures_request {op : Op} {next : Answer op → Program Op Answer α} {link : Link}
    (rest : ∀ answer link', answers op link answer link' →
      (next answer).Ensures answers (fun _ _ _ => False) post link') :
    (Program.perform op next).Ensures answers (fun _ _ _ => False) post link :=
  Program.ensures_perform (fun before => before = link) rfl (fun _ _ _ never => never.elim)
    (fun _ answer link' same action => rest answer link' (same ▸ action))

theorem avoids_ensures {p : Program Op Answer α} {link : Link} (avoids : p.Avoids changesLink) :
    p.Ensures answers (fun _ _ _ => False) (fun _ link' => link' = link) link := by
  induction p with
  | done result => rfl
  | perform op next ih =>
      apply ensures_request
      intro answer link' action
      have same : link' = link := by
        cases op with
        | setLinkXdpFd ifindex fd flags => cases avoids.1
        | _ => exact action
      rw [same]
      exact ih answer (avoids.2 answer)

theorem attachResult_cases (err : I32) (nonpos : err.toInt ≤ 0) :
    (err = 0 ∧ attachResult err = .ok) ∨ (err ≠ 0 ∧ attachResult err = .failXdp) := by
  by_cases zero : err = 0
  · subst zero
    exact .inl ⟨rfl, rfl⟩
  · have nonzero : err.toInt ≠ 0 := fun value => zero (BitVec.eq_of_toInt_eq value)
    exact .inr ⟨zero, if_pos (by omega)⟩

theorem xdpLinkAttach_link (ifindex : I32) (flags : Flags) (progFd : I32) :
    (xdpLinkAttach ifindex flags progFd).Ensures answers (fun _ _ _ => False)
      (fun code link => (code = .ok → link = some (ifindex, progFd, flags)) ∧
        (code ≠ .ok → Link.Free link)) none := by
  have unchanged : Link.Free none := fun _ _ _ attached => nomatch attached
  -- the last request decides, and without it the link is free
  have last : ∀ before err link', Link.Free before →
      answers (.setLinkXdpFd ifindex progFd flags) before err link' →
      (attachResult err = .ok → link' = some (ifindex, progFd, flags)) ∧
        (attachResult err ≠ .ok → Link.Free link') := by
    intro before err link' free action
    obtain ⟨nonpos, rfl⟩ := action
    rcases attachResult_cases err nonpos with ⟨zero, result⟩ | ⟨failed, result⟩
    · rw [if_pos zero, result]
      exact ⟨fun _ => rfl, fun bad => absurd rfl bad⟩
    · rw [if_neg failed, result]
      exact ⟨nofun, fun _ => free⟩
  apply ensures_request
  intro err link action
  split
  · next refused =>
      obtain ⟨nonpos, rfl⟩ := action
      have failed : err ≠ 0 := by
        rw [refused.1]
        exact (by decide : (-17 : I32) ≠ 0)
      rw [if_neg failed]
      apply ensures_request
      rintro err link ⟨nonpos, rfl⟩
      split
      · apply ensures_request
        intro err link action
        refine last _ err link ?_ action
        intro _ _ _ same
        cases same
        rfl
      · next kept =>
          rcases attachResult_cases err nonpos with ⟨zero, -⟩ | ⟨-, result⟩
          · exact absurd zero kept
          · refine ⟨?_, fun _ => unchanged⟩
            rw [result]
            intro bad
            cases bad
  · exact last none err link unchanged action

theorem loadBpfAndXdpAttach_link (cfg : Config) :
    (loadBpfAndXdpAttach cfg).Ensures answers (fun _ _ _ => False)
      (fun attached link =>
        (attached = .ok () → ∃ progFd : I32, 0 < progFd.toInt ∧
          link = some (cfg.ifindex, progFd, cfg.xdpFlags)) ∧
        (∀ code, attached = .error code → Link.Free link)) none := by
  have ended : ∀ code, ((Except.error code : Except Exit Unit) = .ok () → ∃ progFd : I32,
      0 < progFd.toInt ∧ (none : Link) = some (cfg.ifindex, progFd, cfg.xdpFlags)) ∧
      (∀ other, (Except.error code : Except Exit Unit) = .error other → Link.Free none) :=
    fun _ => ⟨nofun, fun _ _ _ _ _ attached => nomatch attached⟩
  apply ensures_request
  rintro err _ rfl
  split
  · exact ended _
  · apply ensures_request
    rintro found _ rfl
    split
    · exact ended _
    · apply ensures_request
      rintro progFd _ rfl
      split
      · exact ended _
      · next positive =>
          apply Program.ensures_bind
          refine (xdpLinkAttach_link cfg.ifindex cfg.xdpFlags progFd).mono ?_
          rintro code link ⟨attached, free⟩
          change _ ∧ _
          split
          · next done =>
              exact ⟨fun _ => ⟨progFd, by omega, attached done⟩, nofun⟩
          · next failed => exact ⟨nofun, fun _ _ => free failed⟩

theorem xdpLinkDetach_link (ifindex : I32) (flags : Flags) (expectedProgId : BitVec 32) :
    (xdpLinkDetach ifindex flags expectedProgId).Ensures answers (fun _ _ _ => False)
      (fun _ link => Link.Free link) none := by
  have unchanged : Link.Free none := fun _ _ _ attached => nomatch attached
  apply ensures_request
  rintro found _ rfl
  split
  · exact unchanged
  · split
    · exact unchanged
    · split
      · exact unchanged
      · apply ensures_request
        rintro err link ⟨-, rfl⟩
        change Link.Free _
        split
        · intro _ _ _ same
          cases same
          rfl
        · exact unchanged

end Link

/-- The process goes on to watch only with its program attached to the device named last, by the
last change of the link that succeeded. When it ends before that, none of its programs stays
attached, except when the maps cannot be found. -/
theorem monitoring_means_attached (ifNametoindex : Text → I32) (opts : List Opt) :
    (main ifNametoindex opts).Ensures answers (fun _ _ _ => False)
      (fun start link =>
        (start = .monitoring → ∃ name progFd, requestedDev opts = some name ∧
          0 < BitVec.toInt progFd ∧
          link = some (ifNametoindex name, progFd, requestedFlags opts)) ∧
        (∀ code, start = .exited code → code ≠ .fail → Link.Free link)) none := by
  have unchanged : Link.Free none := fun _ _ _ attached => nomatch attached
  unfold main
  cases parsed : parseCmdlineArgs ifNametoindex opts with
  | error refusal => exact ⟨nofun, fun _ _ _ => unchanged⟩
  | ok cfg =>
      have requested := parseCmdlineArgs_requested opts cfg parsed
      dsimp only
      split
      · exact ⟨nofun, fun _ _ _ => unchanged⟩
      · next named =>
          apply ensures_request
          rintro err _ rfl
          split
          · exact ⟨nofun, fun _ _ _ => unchanged⟩
          · split
            · apply Program.ensures_bind
              refine (xdpLinkDetach_link cfg.ifindex cfg.xdpFlags 0).mono ?_
              intro code link free
              exact ⟨nofun, fun _ _ _ => free⟩
            · apply Program.ensures_bind
              refine (loadBpfAndXdpAttach_link cfg).mono ?_
              intro attached link result
              cases attached with
              | error code => exact ⟨nofun, fun _ _ _ => result.2 code rfl⟩
              | ok done =>
                  obtain ⟨progFd, positive, rfl⟩ := result.1 rfl
                  apply Program.ensures_bind
                  refine (avoids_ensures (pinMapsInBpfObject_avoids _ rfl rfl rfl)).mono ?_
                  rintro _ _ rfl
                  apply Program.ensures_bind
                  refine (avoids_ensures (findMaps_avoids (fun _ => rfl) 4 0)).mono ?_
                  rintro found _ rfl
                  split
                  · apply ensures_request
                    rintro _ _ rfl
                    refine ⟨fun _ => ?_, nofun⟩
                    obtain ⟨name, last, index⟩ := requested.dev_named named
                    exact ⟨name, progFd, last, positive, by rw [index, requested.flags]⟩
                  · exact ⟨nofun, fun code same other => absurd (Start.exited.inj same).symm other⟩

end Fide.Loader
