import DpiEngine.Pipeline.Exchanges
import DpiEngine.Traffic.Capture
import DpiEngine.Traffic.Sessions

/-! # The generated traffic under the rules

The engine reads the file that the script has written, and of each exchange it
writes what the rules leave of it.
-/

namespace DpiEngine

namespace TestPcap

variable {e : Exchange} {seqBase : ℕ} {raws : List RawPacketJob} {jobs : List PacketJob}
  {es : List Exchange} {packets : List (List (List UInt8))} {k : FlowKey}

theorem Exchange.Sends.filter_flow (h : e.Sends jobs) (k : FlowKey) :
    jobs.filter (·.flow = k) = if e.key.canonical = k then jobs else [] := by
  by_cases hk : e.key.canonical = k
  · rw [if_pos hk, List.filter_eq_self]
    exact fun job hjob => decide_eq_true ((h.flow job hjob).trans hk)
  · rw [if_neg hk, List.filter_eq_nil_iff]
    exact fun job hjob hflow => hk ((h.flow job hjob).symm.trans (of_decide_eq_true hflow))

theorem traffic_cons (h : traffic seqBase (e :: es) = some packets)
    (hraws : raws.map (·.data) = packets.flatten) :
    ∃ frames rest jobs raws', packets = frames :: rest ∧ e.packets seqBase = some frames ∧
      jobs.map (·.data) = frames ∧ e.Sends jobs ∧
      traffic (seqBase + e.seqStep) es = some rest ∧ raws'.map (·.data) = rest.flatten ∧
      DPIEngine.acceptedJobs raws = jobs ++ DPIEngine.acceptedJobs raws' := by
  obtain ⟨frames, hframes, h⟩ := Option.bind_eq_some_iff.mp h
  obtain ⟨rest, hrest, h⟩ := Option.bind_eq_some_iff.mp h
  obtain rfl : frames :: rest = packets := Option.some.inj h
  rw [List.flatten_cons] at hraws
  obtain ⟨raws₁, raws₂, rfl, hraws₁, hraws₂⟩ := List.map_eq_append_iff.mp hraws
  obtain ⟨jobs, hjobs, hdata, hsends⟩ := Exchange.accepted hframes hraws₁
  refine ⟨frames, rest, jobs, raws₂, rfl, hframes, hdata, hsends, hrest, hraws₂, ?_⟩
  rw [DPIEngine.acceptedJobs, List.filterMap_append, ← DPIEngine.acceptedJobs, hjobs,
    ← DPIEngine.acceptedJobs]

theorem traffic_other (h : traffic seqBase es = some packets)
    (hraws : raws.map (·.data) = packets.flatten) (hk : ∀ e ∈ es, e.key.canonical ≠ k) :
    (DPIEngine.acceptedJobs raws).filter (·.flow = k) = [] := by
  induction es generalizing seqBase packets raws with
  | nil =>
    cases h
    obtain rfl := List.map_eq_nil_iff.mp hraws
    rfl
  | cons e es ih =>
    obtain ⟨frames, rest, jobs, raws', -, -, -, hsends, hrest, hraws', hjobs⟩ :=
      traffic_cons h hraws
    rw [List.forall_mem_cons] at hk
    rw [hjobs, List.filter_append, hsends.filter_flow, if_neg hk.1, ih hrest hraws' hk.2]
    rfl

/-- The packets of a flow that only one exchange has are the packets of this exchange. -/
theorem traffic_jobs (h : traffic seqBase es = some packets)
    (hraws : raws.map (·.data) = packets.flatten)
    (he : es.filter (·.key.canonical = e.key.canonical) = [e]) :
    ∃ seq frames jobs, e.packets seq = some frames ∧ frames ∈ packets ∧
      jobs.map (·.data) = frames ∧ e.Sends jobs ∧
      (DPIEngine.acceptedJobs raws).filter (·.flow = e.key.canonical) = jobs := by
  induction es generalizing seqBase packets raws with
  | nil => cases he
  | cons e' es ih =>
    obtain ⟨frames, rest, jobs, raws', rfl, hframes, hdata, hsends, hrest, hraws', hjobs⟩ :=
      traffic_cons h hraws
    by_cases hk : e'.key.canonical = e.key.canonical
    · rw [List.filter_cons_of_pos (by simpa using hk), List.cons.injEq,
        List.filter_eq_nil_iff] at he
      obtain ⟨rfl, hothers⟩ := he
      refine ⟨seqBase, frames, jobs, hframes, List.mem_cons_self, hdata, hsends, ?_⟩
      rw [hjobs, List.filter_append, hsends.filter_flow, if_pos rfl,
        traffic_other hrest hraws' fun e hmem hsame => hothers e hmem (decide_eq_true hsame),
        List.append_nil]
    · rw [List.filter_cons_of_neg (by simpa using hk)] at he
      obtain ⟨seq, frames', jobs', hframes', hmem, hdata', hsends', hfilter⟩ := ih hrest hraws' he
      refine ⟨seq, frames', jobs', hframes', List.mem_cons_of_mem _ hmem, hdata', hsends', ?_⟩
      rw [hjobs, List.filter_append, hsends.filter_flow, if_neg hk, List.nil_append, hfilter]

end TestPcap

namespace DPIEngine

open Network TestPcap

variable {cfg : Config} {H : StdHash} {rules : RuleManager} {raws : List RawPacketJob}
  {ls : List (Label (Thread cfg) PacketEnv)} {s : State cfg} {es : List TestPcap.Exchange}
  {e : TestPcap.Exchange} {seqBase : ℕ} {packets : List (List (List UInt8))}

theorem exchange_left (htraffic : traffic seqBase es = some packets)
    (hraws : raws.map (·.data) = packets.flatten) (h : Finished rules raws ls s H)
    (hplain : e.Plain) (he : es.filter (·.key.canonical = e.key.canonical) = [e]) :
    ∃ seq frames, e.packets seq = some frames ∧ frames ∈ packets ∧
      ((outputFile s).filter (·.flow = e.key.canonical)).map (·.data) =
        if e.AddressBlocked rules then []
        else if e.FindingBlocked rules then frames.dropLast else frames := by
  obtain ⟨seq, frames, jobs, hframes, hmem, rfl, hsends, hflow⟩ :=
    traffic_jobs htraffic hraws he
  obtain ⟨r, hr, -, hfile⟩ := h.exists_history e.key.canonical
  rw [hflow] at hr
  refine ⟨seq, _, hframes, hmem, ?_⟩
  rw [hfile, hsends.passed_eq hplain hr]
  split_ifs
  · rfl
  · exact List.map_dropLast
  · rfl

theorem map_data_readerJobs (packets : List PcapPacket) :
    (readerJobs packets).map (·.data) = packets.map (·.data) := by
  refine List.ext_getElem? fun n => ?_
  rw [readerJobs, List.getElem?_map, List.getElem?_mapIdx, List.getElem?_map, Option.map_map]
  rfl

/--
The file of the script is read to its end, and of its traffic the output file has each exchange
whose flow no other exchange shares completely, if no rule blocks an address or what it announces;
without its last packet if a rule blocks what it announces; and not at all under a blocked address.
-/
theorem traffic_written {tsUsec : ℕ → ℕ} {file : List UInt8}
    (hfile : TestPcap.main es tsUsec = some file) (htraffic : traffic 1000 es = some packets)
    (hsmall : ∀ data ∈ packets.flatten, data.length ≤ 65535) :
    let got := PCAPWriter.captured tsUsec 1700000000 packets.flatten
    ∃ opened, PcapReader.openFile {} (some file) = (true, opened) ∧ opened.ReadsToEnd got ∧
      ∀ (cfg : Config) (H : StdHash) (rules : RuleManager)
        (ls : List (Label (Thread cfg) PacketEnv)) (s : State cfg),
        Finished rules (readerJobs got) ls s H →
        ∀ e : TestPcap.Exchange, e.Plain →
          es.filter (·.key.canonical = e.key.canonical) = [e] →
          ∃ seq frames, e.packets seq = some frames ∧ frames ∈ packets ∧
            ((outputFile s).filter (·.flow = e.key.canonical)).map (·.data) =
              if e.AddressBlocked rules then []
              else if e.FindingBlocked rules then frames.dropLast else frames := by
  intro got
  obtain ⟨opened, hopen, hread⟩ := readsToEnd_main hfile htraffic hsmall
  refine ⟨opened, hopen, hread, fun cfg H rules ls s h e hplain he => ?_⟩
  have hraws : (readerJobs got).map (·.data) = packets.flatten := by
    rw [map_data_readerJobs, PCAPWriter.map_data_captured]
  exact exchange_left htraffic hraws h hplain he

def videoSession : TestPcap.Exchange where
  subject := .tls ⟨142, 250, 185, 110⟩ "www.youtube.com".toList 443 (Vector.replicate 32 0)
  srcPort := 50000
  srcPort_ge := by decide
  srcPort_le := by decide
  ident _ := 1

def videoFrames : List (List UInt8) := (videoSession.packets 1000).getD []

def videoRun : List (Label (Thread oneEach) PacketEnv) :=
  let forwarded := handled ++ [.push fp0, .test .output, .pop .output, .work .output {}]
  [.read, .read, .read, .read] ++ forwarded ++ forwarded ++ forwarded ++ handled ++
    [.control, .control, .timeout parser0, .control, .test parser0, .test parser0, .control,
      .control, .control, .timeout lb0, .control, .control, .test lb0, .test lb0, .control,
      .timeout fp0, .control, .control, .test fp0, .test fp0, .control, .test .output,
      .test .output, .control, .control]

/-- With a rule for the application the ClientHello is missing. -/
theorem traffic_written_video : ∃ (file : List UInt8) (s : State oneEach),
    TestPcap.main [videoSession] (fun _ => 0) = some file ∧
      Finished { blockedApps := {.youtube} }
        (readerJobs (PCAPWriter.captured (fun _ => 0) 1700000000 videoFrames)) videoRun s
        identityHash ∧
      ((outputFile s).filter (·.flow = videoSession.key.canonical)).map (·.data) =
        videoFrames.dropLast := by
  have htraffic : traffic 1000 [videoSession] = some [videoFrames] := by decide +kernel
  have hflatten : [videoFrames].flatten = videoFrames := List.flatten_singleton
  have hsmall : ∀ data ∈ [videoFrames].flatten, data.length ≤ 65535 := by
    have hall : videoFrames.all (fun data => data.length ≤ 65535) = true := by decide +kernel
    rw [hflatten]
    exact fun data hdata => of_decide_eq_true (List.all_eq_true.mp hall data hdata)
  obtain ⟨file, hfile⟩ : ∃ file, TestPcap.main [videoSession] (fun _ => 0) = some file :=
    Option.isSome_iff_exists.mp (by decide +kernel)
  obtain ⟨opened, -, -, hall⟩ := traffic_written hfile htraffic hsmall
  rw [hflatten] at hall
  obtain ⟨s, -, h⟩ : ∃ s : State oneEach, True ∧ Finished { blockedApps := {.youtube} }
      (readerJobs (PCAPWriter.captured (fun _ => 0) 1700000000 videoFrames)) videoRun s
      identityHash :=
    finished_of_runIf (p := fun _ => True) (by decide +kernel)
  have hplain : videoSession.Plain := ⟨by decide, by decide⟩
  obtain ⟨seq, frames, -, hmem, hwritten⟩ := hall _ _ _ _ _ h videoSession hplain (by simp)
  obtain rfl := List.mem_singleton.mp hmem
  rw [if_neg (by decide +kernel), if_pos (by decide +kernel)] at hwritten
  exact ⟨file, s, hfile, h, hwritten⟩

end DPIEngine

end DpiEngine
