import DpiEngine.FastPath.Stricter
import DpiEngine.Pipeline.Written

/-! # The engine under more rules

Further rules take packets from the output file and add none, even if the
further rules are in force in an engine with other numbers of threads.
-/

namespace DpiEngine.DPIEngine

open Network FastPathProcessor

variable {cfg cfg' : Config} {H H' : StdHash} {rules rules' : RuleManager}
  {frames : List RawPacketJob} {ls : List (Label (Thread cfg) PacketEnv)}
  {ls' : List (Label (Thread cfg') PacketEnv)} {s : State cfg} {s' : State cfg'}

theorem forwardedJobs_stricter {jobs : List PacketJob} {fp fp' : FastPathProcessor}
    (hrules : rules.Within rules') (h : Follows rules jobs fp) (h' : Follows rules' jobs fp')
    (k : FlowKey) :
    ((forwardedJobs fp').filter (·.flow = k)).Sublist ((forwardedJobs fp).filter (·.flow = k)) := by
  obtain ⟨r, hr, -, hverdicts⟩ := h k
  obtain ⟨r', hr', -, hverdicts'⟩ := h' k
  rw [filter_forwardedJobs, filter_forwardedJobs, hverdicts, hverdicts']
  exact passed_sublist (flowHistory_stricter hrules hr hr').2

/-- A run that has returned with the output queue drained, in which the packets of a flow have kept
their order and no tracker has lost a connection. -/
structure Finished (rules : RuleManager) (frames : List RawPacketJob)
    (ls : List (Label (Thread cfg) PacketEnv)) (s : State cfg) (H : StdHash) : Prop where
  orderly :
    Run (OrderlyStep (processFile cfg H rules)) (start (processFile cfg H rules) frames) ls s
  returned : s.script = []
  drained : (s.queue .output).items = []
  complete : ∀ i j, (fastPath s i j).tracker.Complete

theorem finished_of_runIf {p : State cfg → Prop} [DecidablePred p]
    (h : (((processFile cfg H rules).runIf InTurn
      (start (processFile cfg H rules) frames) ls).map fun s =>
        (s.script, (s.queue .output).items.isEmpty,
          decide (∀ i j, (fastPath s i j).tracker.Complete), decide (p s))) =
      some ([], true, true, true)) : ∃ s, p s ∧ Finished rules frames ls s H := by
  obtain ⟨s, hs, hfacts⟩ := Option.map_eq_some_iff.mp h
  simp only [Prod.mk.injEq, List.isEmpty_iff, decide_eq_true_eq] at hfacts
  obtain ⟨hscript, hdrained, hcomplete, hp⟩ := hfacts
  exact ⟨s, hp, run_of_runIf hs, hscript, hdrained, hcomplete⟩

/-- One processor for all packets has forwarded of each flow what is in the output file. -/
theorem Finished.filter_outputFile (h : Finished rules frames ls s H) :
    ∃ fp, sequential rules frames.length (acceptedJobs frames) = .ok fp ∧
      Follows rules (acceptedJobs frames) fp ∧
      ∀ k, (outputFile s).filter (·.flow = k) = (forwardedJobs fp).filter (·.flow = k) :=
  DPIEngine.filter_outputFile h.returned h.drained h.orderly h.complete

def outputReturns : List (Label (Thread twoParsers) PacketEnv) :=
  [.test .output, .test .output, .control, .control]

/-- More rules never let a packet through: of each flow the output file keeps a part, in order. -/
theorem outputFile_stricter (hrules : rules.Within rules') (h : Finished rules frames ls s H)
    (h' : Finished rules' frames ls' s' H') :
    (∀ k, ((outputFile s').filter (·.flow = k)).Sublist ((outputFile s).filter (·.flow = k))) ∧
      (outputFile s').Subperm (outputFile s) := by
  obtain ⟨fp, -, hfp, hfile⟩ := h.filter_outputFile
  obtain ⟨fp', -, hfp', hfile'⟩ := h'.filter_outputFile
  have hflow (k : FlowKey) :
      ((outputFile s').filter (·.flow = k)).Sublist ((outputFile s).filter (·.flow = k)) := by
    rw [hfile, hfile']
    exact forwardedJobs_stricter hrules hfp hfp' k
  refine ⟨hflow, List.subperm_ext_iff.mpr fun job _ => ?_⟩
  rw [← count_filter_flow, ← count_filter_flow (outputFile s)]
  exact (hflow job.flow).count_le job

def addressFile : List UInt8 := ascii "[BLOCKED_IPS]\n1.0.0.0\n"

/-- Under a file with the source address of the flow and one more call nothing is written, otherwise
both segments. -/
theorem outputFile_stricter_two : ∃ (loaded rules' : RuleManager) (s s' : State twoParsers),
    ({} : RuleManager).loadRules addressFile = some loaded ∧
      loaded.perform (.blockPort 443) = some rules' ∧
      (outputFile s).length = 2 ∧ outputFile s' = [] ∧
      Finished {} oneFlow (writingRun 0 1 ++ windDown 0 1 ++ outputReturns) s identityHash ∧
      Finished rules' oneFlow
        (racingRun 0 1 ++ .work fp00 {} :: windDown 0 1 ++ outputReturns) s' identityHash ∧
      (outputFile s').Subperm (outputFile s) := by
  obtain ⟨loaded, hloaded⟩ : ∃ loaded, ({} : RuleManager).loadRules addressFile = some loaded :=
    Option.isSome_iff_exists.mp (by decide +kernel)
  have hblocked : loaded.perform (.blockPort 443) = some (loaded.blockPort 443) := rfl
  obtain ⟨s, hlength, h⟩ : ∃ s : State twoParsers, (outputFile s).length = 2 ∧ Finished {} oneFlow
      (writingRun 0 1 ++ windDown 0 1 ++ outputReturns) s identityHash :=
    finished_of_runIf (p := fun s => (outputFile s).length = 2) (by decide +kernel)
  have hfinal : ((({} : RuleManager).loadRules addressFile).bind fun loaded =>
      let N := processFile twoParsers identityHash (loaded.blockPort 443)
      (N.runIf InTurn (start N oneFlow)
        (racingRun 0 1 ++ .work fp00 {} :: windDown 0 1 ++ outputReturns)).map fun s =>
          (s.script, (s.queue .output).items.isEmpty,
            decide (∀ i j, (fastPath s i j).tracker.Complete), decide (outputFile s = []))) =
      some ([], true, true, true) := by decide +kernel
  rw [hloaded, Option.bind_some] at hfinal
  obtain ⟨s', hnil, h'⟩ : ∃ s : State twoParsers, outputFile s = [] ∧
      Finished (loaded.blockPort 443) oneFlow
        (racingRun 0 1 ++ .work fp00 {} :: windDown 0 1 ++ outputReturns) s identityHash :=
    finished_of_runIf (p := fun s => outputFile s = []) hfinal
  have hblocks : (RuleManager.Operation.blockPort 443).Blocks := trivial
  have hwithin : ({} : RuleManager).Within (loaded.blockPort 443) :=
    (RuleManager.within_loadRules hloaded).trans (RuleManager.within_perform hblocks hblocked)
  exact ⟨loaded, _, s, s', hloaded, hblocked, hlength, hnil, h, h',
    (outputFile_stricter hwithin h h').2⟩

end DpiEngine.DPIEngine
