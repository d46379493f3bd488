import DpiEngine.FastPath.Addresses
import DpiEngine.Pipeline.Capture

/-! # The engine as an address filter

With rules for addresses only, a run that returns has written the accepted
frames without a listed address and no others, whatever the threads did in
between. An output in native order is read back as these records.
-/

namespace DpiEngine

namespace FastPathProcessor

open ConnectionTracker

variable {rules : RuleManager} {env : PacketEnv} {fp fp' : FastPathProcessor} {f : Frame}

theorem isIPv4_of_processed (hpol : AddressPoliced rules fp)
    (h : processPacket rules env f.job fp = .ok fp') : f.IsIPv4 := by
  by_contra hne
  obtain ⟨t, p, client, t', action, hlookup, hverdict, -⟩ := processPacket_ok.mp h
  obtain ⟨hhas, rfl, hkey, -⟩ := lookupConnection_flowKey hpol.1 hlookup
  rcases f.key_of_not_isIPv4 hne with hnone | ⟨src, dst, sport, dport, proto, hkey'⟩
  · exact absurd (hnone.symm.trans hhas) Bool.false_ne_true
  · have hv6 : ∃ a b, f.job.flowKey.canonical.srcAddr = .v6 a ∧
        f.job.flowKey.canonical.dstAddr = .v6 b := by
      rw [hkey']
      rcases FlowKey.canonical_cases (.fromIPv6 src dst sport dport proto) with hc | hc <;> rw [hc]
      · exact ⟨src, dst, rfl, rfl⟩
      · exact ⟨dst, src, rfl, rfl⟩
    obtain ⟨a, b, ha, hb⟩ := hv6
    have hthrows : ipBlocked rules (t.conn f.job.flowKey.canonical) = .error .badVariantAccess :=
      ipBlocked_of_isIPv6 (hkey ▸ ha)
    rcases verdict_ok hverdict with ⟨hstate, -⟩ | ⟨-, hip, -⟩ | ⟨-, hip, -⟩
    · obtain ⟨hmem, hblocked⟩ := lookupConnection_blocked hpol.1 hlookup hstate
      obtain ⟨addr, -, haddr | haddr⟩ := hpol.2 _ hmem hblocked
      · cases ha.symm.trans haddr
      · cases hb.symm.trans haddr
    · cases hthrows.symm.trans hip
    · cases hthrows.symm.trans hip

theorem processPacket_frame (hrules : rules.OnlyAddresses) (hpol : AddressPoliced rules fp)
    (h : processPacket rules env f.job fp = .ok fp') :
    f.IsIPv4 ∧ AddressPoliced rules fp' ∧ (Drops fp f.job fp' ↔ AddressBlocked rules f.job) := by
  have hf := isIPv4_of_processed hpol h
  refine ⟨hf, ?_, (processPacket_addresses hrules hpol (f.isIPv4_job hf) h).1⟩
  exact step_addressPoliced (x := .packet env f.job) hrules ⟨f, hf, rfl⟩ hpol h

end FastPathProcessor

theorem Frame.isIPv4_of_job (f : Frame) (h : f.job.IsIPv4) : f.IsIPv4 := by
  by_contra hne
  rcases f.key_of_not_isIPv4 hne with hnone | ⟨src, dst, sport, dport, proto, hkey⟩
  · exact absurd (hnone.symm.trans h.1) Bool.false_ne_true
  · cases hkey.symm.trans h.2

/-- The accepted frame of a job. -/
def RawPacketJob.Accepted.frame {r : RawPacketJob} {job : PacketJob} (h : r.Accepted job) :
    Frame where
  raw := r.toRawPacket
  packetId := r.packetId
  job := job
  built := h

namespace DPIEngine

open Network FastPathProcessor Traced

variable {cfg : Config} {H : StdHash} {rules : RuleManager} {frames : List RawPacketJob}
  {ls : List (Label (Thread cfg) PacketEnv)} {s : State cfg} {i : Fin cfg.numLoadBalancers}
  {j : Fin cfg.fpsPerLb} {n : ℕ} {job : PacketJob}

/-- The processor has forwarded the frame of the entry unless its address is blocked. -/
def Filtered (rules : RuleManager) (e : Entry (QueueId cfg) (Thread cfg) Item) : Prop :=
  ∃ f : Frame, e.item = .packet f.job ∧ f.IsIPv4 ∧ (e.out = none ↔ AddressBlocked rules f.job)

/-- What holds of a processor and its log if its packets are the jobs of frames. -/
def FiltersFrames (rules : RuleManager) (fp : FastPathProcessor)
    (es : List (Entry (QueueId cfg) (Thread cfg) Item)) : Prop :=
  (∀ e ∈ es, ∃ f : Frame, e.item = .packet f.job) →
    AddressPoliced rules fp ∧ ∀ e ∈ es, Filtered rules e

theorem filtersFrames_start :
    FiltersFrames rules {} ([] : List (Entry (QueueId cfg) (Thread cfg) Item)) := by
  refine fun _ => ⟨⟨ConnectionTracker.keyed_empty 100000, fun k hk => ?_⟩, fun e he => ?_⟩
  · exact absurd hk (AList.notMem_empty k)
  · exact absurd he List.not_mem_nil

theorem filtersFrames_work (hrules : rules.OnlyAddresses) {env : PacketEnv}
    {fp fp' : FastPathProcessor} {es : List (Entry (QueueId cfg) (Thread cfg) Item)} {x : Item}
    {out : Result cfg} (hes : FiltersFrames rules fp es)
    (hwork : Thread.process cfg rules true env fp x = some (fp', out)) :
    FiltersFrames rules fp' (es ++ [⟨.fp i j, n, x, out⟩]) := by
  intro hframes
  obtain ⟨hold, hnew⟩ := List.forall_mem_append.mp hframes
  obtain ⟨f, hf⟩ := hnew _ List.mem_cons_self
  obtain ⟨job, action, rfl, hok, hactions, rfl⟩ := Thread.process_some hwork
  cases hf
  obtain ⟨hpol, hes⟩ := hes hold
  obtain ⟨hv4, hpol', hdrops⟩ := processPacket_frame hrules hpol hok
  refine ⟨hpol', List.forall_mem_append.mpr ⟨hes, List.forall_mem_singleton.mpr ?_⟩⟩
  refine ⟨f, rfl, hv4, ?_⟩
  rw [← hdrops, Drops, hactions, List.append_cancel_left_eq]
  cases action <;> simp [handleOutput]

theorem filtersFrames_cleanup (hrules : rules.OnlyAddresses) {fp : FastPathProcessor}
    {es : List (Entry (QueueId cfg) (Thread cfg) Item)} (hes : FiltersFrames rules fp es)
    (now : ℕ) :
    FiltersFrames rules
      { fp with tracker := fp.tracker.cleanupStale now FastPathProcessor.defaultTimeout } es := by
  intro hframes
  obtain ⟨hpol, hes⟩ := hes hframes
  exact ⟨step_addressPoliced (x := .cleanup now) hrules trivial hpol rfl, hes⟩

theorem fp_filtered (hrules : rules.OnlyAddresses) (h : Run (processFile cfg H rules).Step
    (start (processFile cfg H rules) frames) ls s)
    {e : Entry (QueueId cfg) (Thread cfg) Item} (he : e ∈ s.log) (hw : e.worker = .fp i j) :
    Filtered rules e := by
  have hhistory : FiltersFrames rules (fastPath s i j) (s.log.filter (·.worker = .fp i j)) := by
    refine run_history (w := .fp i j)
      (R := fun (fp : FastPathProcessor) es => FiltersFrames rules fp es)
      filtersFrames_start (fun hR hwork => filtersFrames_work hrules hR hwork) (fun q hR => hR)
      (fun env hR => filtersFrames_cleanup hrules hR env.seenAt) h
  refine (hhistory fun e he => ?_).2 e (List.mem_filter.mpr ⟨he, decide_eq_true hw⟩)
  obtain ⟨hmem, hw⟩ := List.mem_filter.mp he
  obtain ⟨job, hitem, ⟨r, -, haccepted⟩, -⟩ := fp_entry h hmem (of_decide_eq_true hw)
  exact ⟨haccepted.frame, hitem⟩

section Returned

variable (hrules : rules.OnlyAddresses) (h : Run (processFile cfg H rules).Step
  (start (processFile cfg H rules) frames) ls s)
include hrules h

theorem not_blocked_of_forwarded (hjob : (n, job) ∈ forwarded s) : ¬ AddressBlocked rules job := by
  obtain ⟨e, he, hforwarded⟩ := List.mem_filterMap.mp hjob
  obtain ⟨i, j, hw⟩ : ∃ i j, e.worker = .fp i j := by
    unfold forwardedJob at hforwarded
    split at hforwarded
    · next i j _ _ hw _ => exact ⟨i, j, hw⟩
    · cases hforwarded
  obtain ⟨f, hitem, -, hblocked⟩ := fp_filtered hrules h he hw
  obtain ⟨job', hitem', -, -, ⟨-, hnone⟩ | ⟨hout, hsome⟩⟩ := fp_entry h he hw
  · cases hnone.symm.trans hforwarded
  · cases hsome.symm.trans hforwarded
    cases hitem.symm.trans hitem'
    rw [← hblocked, hout]
    exact Option.some_ne_none _

variable (hexit : ∀ i j, s.position (.fp i j) = .exited)
include hexit

theorem accepted_filtered (hjob : IsJobOf frames n job) :
    job.IsIPv4 ∧ (¬ AddressBlocked rules job → (n, job) ∈ forwarded s) := by
  obtain ⟨⟨m, x⟩, hx, hmap⟩ := List.mem_filterMap.mp (workedJobs_complete hexit h hjob)
  obtain ⟨e, he, hentry⟩ := List.mem_map.mp hx
  obtain ⟨hmem, hw⟩ := List.mem_filter.mp he
  obtain ⟨f, hitem, hv4, hblocked⟩ := fp_filtered hrules h hmem (of_decide_eq_true hw)
  obtain ⟨job', hitem', -, -, hout⟩ := fp_entry h hmem (of_decide_eq_true hw)
  have hticket : e.ticket = n ∧ f.job = job := by
    cases hentry
    rw [hitem] at hmap
    cases hmap
    exact ⟨rfl, rfl⟩
  obtain ⟨rfl, rfl⟩ := hticket
  cases hitem.symm.trans hitem'
  refine ⟨f.isIPv4_job hv4, fun hfree => ?_⟩
  rcases hout with ⟨hnone, -⟩ | ⟨-, hsome⟩
  · exact absurd (hblocked.mp hnone) hfree
  · exact List.mem_filterMap.mpr ⟨e, hmem, hsome⟩

theorem forwarded_perm :
    (forwarded s).Perm ((numberedJobs frames).filter (¬ AddressBlocked rules ·.2)) := by
  have hnumbered : (numberedJobs frames).Nodup :=
    (pairwise_numberedJobs frames).imp fun {a b} hlt heq => (heq ▸ hlt).ne rfl
  refine (List.perm_ext_iff_of_nodup (forwarded_nodup h).of_map (hnumbered.filter _)).mpr ?_
  rintro ⟨n, job⟩
  rw [List.mem_filter, mem_numberedJobs, decide_eq_true_iff]
  constructor
  · intro hjob
    exact ⟨forwarded_isJobOf h hjob, not_blocked_of_forwarded hrules h hjob⟩
  · rintro ⟨hjob, hfree⟩
    exact (accepted_filtered hrules h hexit hjob).2 hfree

end Returned

section Listed

def source (data : List UInt8) : String :=
  dottedDecimal (byteAt data 26) (byteAt data 27) (byteAt data 28) (byteAt data 29)

def dest (data : List UInt8) : String :=
  dottedDecimal (byteAt data 30) (byteAt data 31) (byteAt data 32) (byteAt data 33)

def unlisted (ips : List String) (frames : List RawPacketJob) : List RawPacketJob :=
  frames.filter fun r => source r.data ∉ ips ∧ dest r.data ∉ ips

theorem addressBlocked_iff {ips : List String} (hblocks : ({} : RuleManager).Blocks ips rules)
    {f : Frame} (hf : f.IsIPv4) :
    AddressBlocked rules f.job ↔ f.source ∈ ips ∨ f.dest ∈ ips := by
  obtain ⟨hsrc, hdst⟩ := f.ipv4ToString_job hf
  have hempty (addr : UInt32) : ({} : RuleManager).isIPBlocked addr = false := rfl
  simp only [AddressBlocked, hblocks.isIPBlocked, hempty, hsrc, hdst, Bool.false_eq_true, false_or]

theorem acceptedJobs_filter {p : RawPacketJob → Bool} {q : PacketJob → Bool}
    (h : ∀ r ∈ frames, ∀ job, r.Accepted job → p r = q job) :
    acceptedJobs (frames.filter p) = (acceptedJobs frames).filter q := by
  rw [acceptedJobs, acceptedJobs, List.filterMap_filter, List.filter_filterMap]
  refine List.filterMap_congr fun r hr => ?_
  cases hjob : r.acceptedJob with
  | none => simp
  | some job =>
    rw [h r hr job (RawPacketJob.acceptedJob_eq_some.mp hjob)]
    cases hq : q job <;> simp [Option.filter, hq]

end Listed

/-- In the end the output file has the accepted packets that are not listed. -/
theorem outputFile_perm {ips : List String} (hblocks : ({} : RuleManager).Blocks ips rules)
    (h : Run (processFile cfg H rules).Step (start (processFile cfg H rules) frames) ls s)
    (hscript : s.script = []) (hdrained : (s.queue .output).items = []) :
    (outputFile s).Perm (acceptedJobs (unlisted ips frames)) := by
  have hexit := exited_of_returned h hscript
  have hunlisted : acceptedJobs (unlisted ips frames) =
      (acceptedJobs frames).filter (¬ AddressBlocked rules ·) := by
    refine acceptedJobs_filter fun r hr job haccepted => ?_
    obtain ⟨n, hn⟩ := List.mem_iff_getElem?.mp hr
    have hv4 := (accepted_filtered hblocks.rest h hexit ⟨r, hn, haccepted⟩).1
    have hiff := addressBlocked_iff hblocks (haccepted.frame.isIPv4_of_job hv4)
    rw [decide_eq_decide, ← not_or]
    exact not_congr hiff.symm
  rw [hunlisted, outputFile, file_eq h, ← map_numberedJobs frames, List.filter_map]
  exact ((written_perm h hscript hdrained).trans (forwarded_perm hblocks.rest h hexit)).map _

end DPIEngine

def PcapPacket.isAccepted (p : PcapPacket) : Bool := (p.toJob 0).acceptedJob.isSome

/-- The packet is accepted and has no address of the list. -/
def PcapPacket.passes (ips : List String) (p : PcapPacket) : Bool :=
  p.isAccepted ∧ DPIEngine.source p.data ∉ ips ∧ DPIEngine.dest p.data ∉ ips

namespace DPIEngine

open Network FastPathProcessor Traced

variable {cfg : Config} {H : StdHash} {rules : RuleManager}
  {ls : List (Label (Thread cfg) PacketEnv)} {s : State cfg} {packets : List PcapPacket}

theorem map_content_acceptedJob (ips : List String) (p : PcapPacket) (packetId : UInt32) :
    (if source p.data ∉ ips ∧ dest p.data ∉ ips then
        (p.toJob packetId).acceptedJob.map PacketJob.content else none) =
      if p.passes ips then some p.content else none := by
  have hsome : (p.toJob packetId).acceptedJob.isSome = p.isAccepted := by
    rw [PcapPacket.isAccepted, ← p.acceptedJob_unnumbered packetId, Option.isSome_map]
  by_cases hlisted : source p.data ∉ ips ∧ dest p.data ∉ ips
  · have hpasses : p.passes ips = p.isAccepted := by simp [PcapPacket.passes, hlisted]
    rw [if_pos hlisted, hpasses, ← hsome]
    cases hjob : (p.toJob packetId).acceptedJob with
    | none => rfl
    | some job =>
      exact congrArg some
        (PcapPacket.content_of_accepted (RawPacketJob.acceptedJob_eq_some.mp hjob))
  · rw [if_neg hlisted, if_neg fun h => hlisted (of_decide_eq_true h).2]

theorem map_content_unlisted (ips : List String) (packets : List PcapPacket) :
    (acceptedJobs (unlisted ips (readerJobs packets))).map PacketJob.content =
      (packets.filter (·.passes ips)).map PcapPacket.content := by
  have hpackets : packets = packets.zipIdx.map Prod.fst := (List.zipIdx_map_fst ..).symm
  have hjobs : readerJobs packets = packets.zipIdx.map fun x => x.1.toJob (.ofNat x.2) := by
    rw [readerJobs, List.mapIdx_eq_zipIdx_map]
  rw [hjobs]
  conv_rhs => rw [hpackets]
  rw [acceptedJobs, unlisted, List.filter_map, List.filterMap_map, List.filterMap_filter,
    List.map_filterMap, List.filter_map, List.map_map, ← List.filterMap_eq_map,
    List.filterMap_filter]
  refine List.filterMap_congr fun x _ => ?_
  refine Eq.trans ?_ (map_content_acceptedJob ips x.1 (.ofNat x.2))
  rw [apply_ite (Option.map PacketJob.content)]
  exact if_congr decide_eq_true_iff rfl rfl

/--
The engine filters a capture in native order: with a list of canonical texts as the only rules, the
output is read back as the accepted packets whose addresses are not in the list.
-/
theorem capture_filtered (ips : List String) (hips : ∀ ip ∈ ips, IsDottedDecimal ip) :
    ∃ rules, ({} : RuleManager).blockIPs ips = some rules ∧
      ∀ (cfg : Config) (H : StdHash) (file : List UInt8) (opened : PcapReader)
        (packets : List PcapPacket) (ls : List (Label (Thread cfg) PacketEnv)) (s : State cfg),
        PcapReader.openFile {} (some file) = (true, opened) → wordAtLE file 0 = pcapMagicNative →
        opened.ReadsToEnd packets →
        Run (processFile cfg H rules).Step
          (start (processFile cfg H rules) (readerJobs packets)) ls s → s.script = [] →
        (s.queue .output).items = [] →
        ∃ written got,
          PcapReader.openFile {} (DpiEngine.outputFile opened.globalHeader (outputFile s)) =
            (true, written) ∧ written.ReadsToEnd got ∧
          (got.map PcapPacket.content).Perm
            ((packets.filter (·.passes ips)).map PcapPacket.content) := by
  obtain ⟨rules, hblock, hblocks⟩ := RuleManager.blockIPs_blocks hips {}
  refine ⟨rules, hblock, ?_⟩
  intro cfg H file opened packets ls s hopen hnative hread h hscript hdrained
  have hperm := (outputFile_perm hblocks h hscript hdrained).map PacketJob.content
  rw [map_content_unlisted] at hperm
  obtain ⟨written, got, hwritten, hgot, hcontent⟩ :=
    readBack_outputFile hopen hnative hread h
  exact ⟨written, got, hwritten, hgot, hcontent ▸ hperm⟩

def listedSegment : PcapPacket where
  header := { tsSec := 1, tsUsec := 1, inclLen := 55, origLen := 55 }
  data := cutSegment.data.take 26 ++ [9, 9, 9, 9] ++ cutSegment.data.drop 30

def twoSources : List PcapPacket := [listedSegment, cutSegment]

def twoSourcesCapture : List UInt8 := ByteOrder.native.encodeFile { snaplen := 55 } twoSources

def filteringRun : List (Label (Thread oneEach) PacketEnv) :=
  let segment : List (Label (Thread oneEach) PacketEnv) :=
    [.pop parser0, .work parser0 {}, .push parser0, .pop lb0, .work lb0 {}, .push lb0, .pop fp0,
      .work fp0 {}]
  [.test .output, .read, .read] ++ segment ++ segment ++
    [.push fp0, .control, .control, .timeout parser0, .control, .test parser0, .test parser0,
      .control, .control, .control, .timeout lb0, .control, .control, .test lb0, .test lb0,
      .control, .timeout fp0, .control, .control, .test fp0, .test fp0, .control, .pop .output,
      .work .output {}, .test .output, .test .output, .control, .control]

/-- With 9.9.9.9 in the list the output has the segment from the other source alone. -/
theorem capture_filtered_two : ∃ (rules : RuleManager) (s : State oneEach) (written : PcapReader)
    (got : List PcapPacket), ({} : RuleManager).blockIPs ["9.9.9.9"] = some rules ∧
      Run (processFile oneEach identityHash rules).Step
        (start (processFile oneEach identityHash rules) (readerJobs twoSources)) filteringRun s ∧
      written.ReadsToEnd got ∧ (got.map PcapPacket.content).Perm [cutSegment.content] := by
  obtain ⟨rules, hrules, hfilter⟩ := capture_filtered ["9.9.9.9"]
    (by simpa using ⟨9, 9, 9, 9, by decide⟩)
  let N := processFile oneEach identityHash rules
  have hfinal : ((({} : RuleManager).blockIPs ["9.9.9.9"]).bind fun rules =>
      let N := processFile oneEach identityHash rules
      (N.runLabels (start N (readerJobs twoSources)) filteringRun).map fun s =>
        (s.script, (s.queue .output).items.isEmpty)) = some ([], true) := by decide +kernel
  rw [hrules, Option.bind_some] at hfinal
  obtain ⟨s, hs, hfacts⟩ := Option.map_eq_some_iff.mp hfinal
  simp only [Prod.mk.injEq, List.isEmpty_iff] at hfacts
  have hrun : Run N.Step (start N (readerJobs twoSources)) filteringRun s := run_of_runLabels hs
  have hopen : PcapReader.openFile {} (some twoSourcesCapture) =
      (true, (PcapReader.openFile {} (some twoSourcesCapture)).2) := by decide +kernel
  obtain ⟨written, got, -, hgot, hperm⟩ := hfilter oneEach identityHash twoSourcesCapture _ _ _ s
    hopen (by decide +kernel) (by decide +kernel) hrun hfacts.1 hfacts.2
  have hpasses : twoSources.filter (·.passes ["9.9.9.9"]) = [cutSegment] := by decide +kernel
  rw [hpasses] at hperm
  exact ⟨rules, s, written, got, hrules, hrun, hgot, hperm⟩

end DPIEngine

end DpiEngine
