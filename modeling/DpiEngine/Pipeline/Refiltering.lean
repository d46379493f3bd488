import DpiEngine.Pipeline.Capture
import DpiEngine.Pipeline.Stricter

/-! # The output as input

An engine with the same rules writes the output of another one again, if no flow
had a packet forwarded after a dropped one. Otherwise the dropped packets would
be missing from the state of their connections.
-/

namespace DpiEngine.DPIEngine

open Network FastPathProcessor Traced

variable {cfg cfg' : Config} {H H' : StdHash} {rules : RuleManager}
  {frames frames' : List RawPacketJob} {ls : List (Label (Thread cfg) PacketEnv)}
  {ls' : List (Label (Thread cfg') PacketEnv)} {s : State cfg} {s' : State cfg'} {k : FlowKey}

/-- Of each flow the output file has what passes in the history of the flow. -/
theorem Finished.exists_history (h : Finished rules frames ls s H) (k : FlowKey) :
    ∃ r, flowHistory rules ((acceptedJobs frames).filter (·.flow = k)) = .ok r ∧
      (∃ i j, (fastPath s i j).verdicts k = r.2) ∧
      (outputFile s).filter (·.flow = k) = passed r.2 := by
  obtain ⟨fp, hsequential, hfollows, hfile⟩ := h.filter_outputFile
  obtain ⟨fp', hsequential', -, hroute⟩ := exists_sequential h.orderly
    (exited_of_returned (run_of_orderly h.orderly) h.returned) h.complete
  cases hsequential.symm.trans hsequential'
  obtain ⟨r, hr, -, hverdicts⟩ := hfollows k
  obtain ⟨i, j, -, hfp, -⟩ := hroute k
  refine ⟨r, hr, ⟨i, j, ?_⟩, ?_⟩
  · rw [hfp, if_pos ⟨rfl, rfl⟩, hverdicts]
  · rw [hfile, filter_forwardedJobs, hverdicts]
    rfl

theorem map_unnumbered_filter (k : FlowKey) (l : List PacketJob) :
    (l.filter (·.flow = k)).map PacketJob.unnumbered =
      (l.map PacketJob.unnumbered).filter (·.flow = k) := by
  rw [List.filter_map]
  rfl

/-- The second output has the packets of the first one, if these are all that the second engine
accepts. -/
theorem unnumbered_refiltered (h : Finished rules frames ls s H)
    (h' : Finished rules frames' ls' s' H')
    (habsorbing : ∀ i j k, Absorbing ((fastPath s i j).verdicts k))
    (hframes : (acceptedJobs frames').map PacketJob.unnumbered =
      (outputFile s).map PacketJob.unnumbered) (k : FlowKey) :
    ((outputFile s').filter (·.flow = k)).map PacketJob.unnumbered =
      ((outputFile s).filter (·.flow = k)).map PacketJob.unnumbered := by
  obtain ⟨r, hr, ⟨i, j, hverdicts⟩, hfile⟩ := h.exists_history k
  obtain ⟨r', hr', -, hfile'⟩ := h'.exists_history k
  obtain ⟨t, ht, hpassed⟩ := flowHistory_passed hr (hverdicts ▸ habsorbing i j k)
  have hjobs : ((acceptedJobs frames').filter (·.flow = k)).map PacketJob.unnumbered =
      (passed r.2).map PacketJob.unnumbered := by
    rw [map_unnumbered_filter, hframes, ← map_unnumbered_filter, hfile]
  have hhistory := flowHistory_unnumbered hr'
  rw [hjobs, flowHistory_unnumbered ht] at hhistory
  have hsame : t.unnumbered = r'.unnumbered := Except.ok.inj hhistory
  rw [hfile, hfile', ← map_unnumbered_passed, ← hsame, map_unnumbered_passed, hpassed]

/--
Filtering is idempotent: the output for a capture in native order is read back as a capture for
which every engine with the same rules writes the same packets again, flow by flow in the same
order, if no packet of a flow was forwarded after a dropped one.
-/
theorem refiltered {file : List UInt8} {opened : PcapReader} {packets : List PcapPacket}
    (hopen : PcapReader.openFile {} (some file) = (true, opened))
    (hnative : wordAtLE file 0 = pcapMagicNative) (hread : opened.ReadsToEnd packets)
    (h : Finished rules (readerJobs packets) ls s H)
    (habsorbing : ∀ i j k, Absorbing ((fastPath s i j).verdicts k)) :
    ∃ written got,
      PcapReader.openFile {} (DpiEngine.outputFile opened.globalHeader (outputFile s)) =
        (true, written) ∧ written.ReadsToEnd got ∧
      got.map PcapPacket.content = (outputFile s).map PacketJob.content ∧
      ∀ (cfg' : Config) (H' : StdHash) (ls' : List (Label (Thread cfg') PacketEnv))
        (s' : State cfg'), Finished rules (readerJobs got) ls' s' H' →
        (∀ k, ((outputFile s').filter (·.flow = k)).map PacketJob.content =
          ((outputFile s).filter (·.flow = k)).map PacketJob.content) ∧
        ((outputFile s').map PacketJob.content).Perm ((outputFile s).map PacketJob.content) := by
  have hrun := run_of_orderly h.orderly
  obtain ⟨written, got, hwritten, hgot, hcontent⟩ := readBack_outputFile hopen hnative hread hrun
  refine ⟨written, got, hwritten, hgot, hcontent, fun cfg' H' ls' s' h' => ?_⟩
  have hflow := unnumbered_refiltered h h' habsorbing (unnumbered_of_readBack hrun hcontent)
  have hmap (l : List PacketJob) :
      l.map PacketJob.content = (l.map PacketJob.unnumbered).map PacketJob.content := by
    rw [List.map_map]
    rfl
  have hperm : ((outputFile s').map PacketJob.unnumbered).Perm
      ((outputFile s).map PacketJob.unnumbered) := by
    rw [List.perm_iff_count]
    intro job
    rw [← count_filter_flow, ← map_unnumbered_filter, hflow, map_unnumbered_filter,
      count_filter_flow]
  refine ⟨fun k => ?_, ?_⟩
  · rw [hmap, hflow, ← hmap]
  · rw [hmap, hmap (outputFile s)]
    exact hperm.map _

/-- The segment is written, and the output gives the same run again. -/
theorem refiltered_cut : ∃ (s : State oneEach) (got : List PcapPacket),
    Finished {} (readerJobs [cutSegment]) patientRun s identityHash ∧
      Finished {} (readerJobs got) patientRun s identityHash ∧
      got.map PcapPacket.content = [cutSegment.content] ∧
      ∀ (cfg' : Config) (H' : StdHash) (ls' : List (Label (Thread cfg') PacketEnv))
        (s' : State cfg'), Finished {} (readerJobs got) ls' s' H' →
        ((outputFile s').map PacketJob.content).Perm [cutSegment.content] := by
  obtain ⟨s, ⟨habsorbing, hfile⟩, h⟩ : ∃ s : State oneEach,
      ((∀ i j, Absorbing (fastPath s i j).actions) ∧
        (outputFile s).map PacketJob.content = [cutSegment.content]) ∧
      Finished {} (readerJobs [cutSegment]) patientRun s identityHash :=
    finished_of_runIf (by decide +kernel)
  obtain ⟨written, got, -, -, hcontent, hrefiltered⟩ := refiltered openFile_cutCapture
    (by decide +kernel) readsToEnd_cutCapture h fun i j k => (habsorbing i j).filter _
  rw [hfile] at hcontent hrefiltered
  have hjobs : readerJobs got = readerJobs [cutSegment] := by
    obtain ⟨q, rfl, hq⟩ : ∃ q, got = [q] ∧ q.content = cutSegment.content :=
      List.map_eq_singleton_iff.mp hcontent
    simp [readerJobs, PcapPacket.toJob_congr hq]
  exact ⟨s, got, h, hjobs ▸ h, hcontent, fun cfg' H' ls' s' h' =>
    (hrefiltered cfg' H' ls' s' h').2⟩

end DpiEngine.DPIEngine
