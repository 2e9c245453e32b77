import Fide.RelatedRuns

/-! No address is special to the in-kernel program.

Let the addresses of a run be renamed, and the traversals meet the renamed keys in the same order.
The run then does the same with the new names: the same counts, entropies and averages, and flags
for the same sources. -/

namespace Fide.Kernel

open Words FixedPoint

section Renaming

variable (rename : Addr ↪ Addr)

def State.renamed (st : State) : State := { st with logger := st.logger.mapKeys rename }

def DetectionPass.renamed (pass : DetectionPass) : DetectionPass :=
  { pass with flagged := pass.flagged.map rename }

def Rollover.renamed (rollover : Rollover) : Rollover :=
  { rollover with
    entropies := rollover.entropies.mapKeys rename
    logger := rollover.logger.mapKeys rename
    flagged := rollover.flagged.map rename }

/-- The same packet under the new names. -/
structure Packet.Renamed (env env' : Env) (packet packet' : Packet) : Prop where
  ts : packet'.ts = packet.ts
  source : countedSource env' packet'.frame = (countedSource env packet.frame).map rename
  action : filterAction .pass env'.blacklist env'.redirect packet'.frame =
    filterAction .pass env.blacklist env.redirect packet.frame
  entropyOrder : ∀ keys, packet'.entropyOrder.order (keys.map rename) =
    (packet.entropyOrder.order keys).map rename
  detectionOrder : ∀ keys, packet'.detectionOrder.order (keys.map rename) =
    (packet.detectionOrder.order keys).map rename

theorem map_flagged (above : Prop) [Decidable above] (flagged : List Addr) (key : Addr) :
    (if above then flagged.map rename ++ [rename key] else flagged.map rename) =
      (if above then flagged ++ [key] else flagged).map rename := by
  split
  · rw [List.map_append, List.map_singleton]
  · rfl

theorem detection_renamed (target : Target) (tmp : DataValue) (key : Addr) (value : LoggerValue)
    (pass : DetectionPass) :
    detection target tmp (rename key) value (pass.renamed rename) =
      ((detection target tmp key value pass).1,
        (detection target tmp key value pass).2.renamed rename) := by
  unfold detection
  by_cases unset : value.entropy.number = 0
  · simp only [if_pos unset]
  · simp only [if_neg unset, DetectionPass.renamed]
    split
    · exact congrArg (fun flagged => (_, DetectionPass.mk _ flagged))
        (map_flagged rename _ pass.flagged key)
    · exact congrArg (fun flagged => (_, DetectionPass.mk _ flagged))
        (map_flagged rename _ pass.flagged key)

theorem analyse_renamed (target : Target) {env env' : Env} {packet packet' : Packet}
    (paired : packet.Renamed rename env env' packet') (tmp : DataValue) (st : State) :
    analyse target packet' tmp (st.renamed rename) =
      (analyse target packet tmp st).renamed rename := by
  -- the first traversal does not look at the keys
  have agree : ∀ k v s, calcEntropy target tmp (rename k) v (id s) =
      ((calcEntropy target tmp k v s).1, id (calcEntropy target tmp k v s).2) := fun _ _ _ => rfl
  have entropies := BoundedMap.forEach_mapKeys rename id agree packet.entropyOrder
    packet'.entropyOrder paired.entropyOrder st.logger ⟨st.count, st.entropyAll, []⟩
  simp only [id_eq] at entropies
  unfold analyse
  simp only [State.renamed, entropies]
  generalize st.logger.forEach packet.entropyOrder (calcEntropy target tmp)
    ⟨st.count, st.entropyAll, []⟩ = pass
  generalize (divide target pass.2.entropyAll (toFixedPoint target pass.2.count tmp.intBits)).result =
    avg
  have found := BoundedMap.forEach_mapKeys rename (DetectionPass.renamed rename)
    (detection_renamed rename target tmp) packet.detectionOrder packet'.detectionOrder
    paired.detectionOrder pass.1 ⟨avg, []⟩
  have start : DetectionPass.renamed rename ⟨avg, []⟩ = ⟨avg, []⟩ := rfl
  rw [start] at found
  rw [found]
  rfl

theorem logPacket_renamed (saddr : Addr) (logger : Logger) :
    logPacket (rename saddr) (logger.mapKeys rename) = (logPacket saddr logger).mapKeys rename := by
  unfold logPacket
  rw [BoundedMap.lookup_mapKeys]
  cases logger.lookup saddr with
  | none => exact (BoundedMap.mapKeys_update rename logger saddr _).symm
  | some value => exact (BoundedMap.mapKeys_update rename logger saddr _).symm

theorem counted_renamed (env env' : Env) (target : env'.target = env.target) (st : State)
    {packet packet' : Packet} (paired : packet.Renamed rename env env' packet') (saddr : Addr) :
    counted env' (st.renamed rename) packet' (rename saddr) =
      (counted env st packet saddr).renamed rename := by
  simp only [counted, State.renamed, target, paired.ts, logPacket_renamed]

/-- One packet under both names. -/
theorem step_renamed (env env' : Env) (target : env'.target = env.target) (st : State)
    {packet packet' : Packet} (paired : packet.Renamed rename env env' packet') :
    (xdpFilterFunc env st packet).Like (fun st st' => st' = st.renamed rename)
      (fun rollover rollover' => rollover' = rollover.renamed rename)
      (xdpFilterFunc env' (st.renamed rename) packet') := by
  have action : (xdpFilterFunc env' (st.renamed rename) packet').action =
      (xdpFilterFunc env st packet).action := by
    rw [kernel_action, kernel_action, paired.action]
  have source' := paired.source
  cases source : countedSource env packet.frame with
  | none =>
      rw [source] at source'
      exact ignored_like env env' st _ packet packet' paired.action source source' rfl
  | some saddr =>
      rw [source, Option.map_some] at source'
      have clock : rollsOver (st.renamed rename) packet' = rollsOver st packet := by
        rw [rollsOver, paired.ts]
        rfl
      have state := counted_renamed rename env env' target st paired saddr
      have rolled : rolloverOf env' (st.renamed rename) packet' (rename saddr) =
          (rolloverOf env st packet saddr).renamed rename := by
        rw [rolloverOf, state, target]
        exact analyse_renamed rename env.target paired _ _
      rw [step_counted env st packet saddr source] at action ⊢
      rw [step_counted env' (st.renamed rename) packet' (rename saddr) source', clock, state,
        rolled, target] at action ⊢
      split
      · next due =>
          rw [if_pos due, if_pos due] at action
          exact ⟨action, rfl, .cons rfl .nil⟩
      · next early =>
          rw [if_neg early, if_neg early] at action
          exact ⟨action, rfl, .nil⟩

end Renaming

/-- Renaming the addresses of a run renames them in everything it leaves behind and flags, and
changes nothing else. -/
theorem addresses_interchangeable (rename : Addr ↪ Addr) (env env' : Env)
    (target : env'.target = env.target) (st : State) (packets packets' : List Packet)
    (paired : List.Forall₂ (Packet.Renamed rename env env') packets packets') :
    run env' (st.renamed rename) packets' = (run env st packets).renamed rename ∧
      (verdicts env' (st.renamed rename) packets').map Prod.snd =
        (verdicts env st packets).map Prod.snd ∧
      rollovers env' (st.renamed rename) packets' =
        (rollovers env st packets).map (Rollover.renamed rename) := by
  obtain ⟨state, actions, rolled⟩ := related_runs env env'
    (fun st st' => st' = st.renamed rename)
    (fun rollover rollover' => rollover' = rollover.renamed rename) _
    (by
      rintro st _ packet packet' rfl pair
      exact step_renamed rename env env' target st pair)
    paired (rfl : st.renamed rename = st.renamed rename)
  refine ⟨state, actions, ?_⟩
  have pointwise := List.forall₂_map_left_iff.mpr
    (rolled.imp fun _ _ same => same.symm : List.Forall₂ (fun rollover rollover' =>
      rollover.renamed rename = rollover') _ _)
  exact (List.forall₂_eq_eq_eq ▸ pointwise).symm

/-- Every address moved up by the same amount. -/
def moveUp (n : Addr) : Addr ↪ Addr := ⟨fun a => a + n, add_left_injective n⟩

theorem countedSource_packetAt (a : Addr) (ts : I64) :
    countedSource bareEnv (packetAt a ts).frame = some a := by
  change countedSource bareEnv (Frame.ipv4From a) = some a
  rw [countedSource, if_neg (by change ¬ (34 < 34); decide), if_neg (by
    rw [not_not, Frame.hProto_ipv4From]), if_neg (by
    change ¬ (none : Option I32).isSome = true
    decide), Frame.saddr_ipv4From]

theorem packetAt_moved (n a : Addr) (ts : I64) :
    (packetAt a ts).Renamed (moveUp n) bareEnv bareEnv (packetAt (moveUp n a) ts) where
  ts := rfl
  source := by rw [countedSource_packetAt, countedSource_packetAt, Option.map_some]
  action := by
    have forwards : ∀ a, filterAction .pass bareEnv.blacklist bareEnv.redirect
        (packetAt a ts).frame = .redirect := by
      intro a
      change filterAction .pass bareEnv.blacklist bareEnv.redirect (Frame.ipv4From a) = .redirect
      rw [filterAction_ipv4 _ _ _ _ (Frame.hProto_ipv4From a) (by change ¬ (34 < 34); decide)]
      rfl
    rw [forwards, forwards]
  entropyOrder _ := rfl
  detectionOrder _ := rfl

/-- Two intervals of two addresses. -/
def pairPackets (a b : Addr) : List Packet :=
  [packetAt a 2000000000, packetAt b 2000000001, packetAt b 2000000002, packetAt a 4000000000,
    packetAt b 4000000001, packetAt a 6000000000]

/-- Both are flagged, whichever they are. -/
theorem pair_packets_moved :
    (rollovers bareEnv initialised (pairPackets 1 2)).map Rollover.flagged = [[], [2, 1]] ∧
      rollovers bareEnv (initialised.renamed (moveUp 5)) (pairPackets 6 7) =
        (rollovers bareEnv initialised (pairPackets 1 2)).map (Rollover.renamed (moveUp 5)) :=
  ⟨by decide +kernel, (addresses_interchangeable (moveUp 5) bareEnv bareEnv rfl initialised _ _
    (.cons (packetAt_moved 5 1 _) (.cons (packetAt_moved 5 2 _) (.cons (packetAt_moved 5 2 _)
      (.cons (packetAt_moved 5 1 _) (.cons (packetAt_moved 5 2 _)
        (.cons (packetAt_moved 5 1 _) .nil))))))).2.2⟩

end Fide.Kernel
