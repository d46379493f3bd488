import DpiEngine.Library.Accounting
import DpiEngine.Pipeline.Engine

/-! # The stages of the pipeline

What the threads do with an item, and which queues they feed. The script joins
the threads of a stage before it stops the next stage, up to the output thread.
Every item carries its frame on the way that the hash of its tuple prescribes.
-/

namespace DpiEngine

/-- The parser workers accept the frame and build the job. -/
def RawPacketJob.Accepted (r : RawPacketJob) (job : PacketJob) : Prop :=
  (ParserWorker.parseJob r.toRawPacket r.packetId).value = some (some job)

def RawPacketJob.Rejected (r : RawPacketJob) : Prop :=
  (ParserWorker.parseJob r.toRawPacket r.packetId).value = some none

variable {cfg : Config} {H : StdHash} {rules : RuleManager} {isOpen : Bool} {x : Item}
  {out : Result cfg}

theorem handleOutput_some {job : PacketJob} {action : PacketAction} {q : QueueId cfg}
    (h : handleOutput cfg isOpen job action = some (q, x)) :
    action ≠ .drop ∧ isOpen = true ∧ q = .output ∧ x = .packet job := by
  unfold handleOutput at h
  split_ifs at h with hdrop hopen
  cases h
  exact ⟨hdrop, hopen, rfl, rfl⟩

namespace Thread

theorem parse_some {stats stats' : ParserStats} (h : parse cfg H stats x = some (stats', out)) :
    ∃ r, x = .raw r ∧
      (r.Rejected ∧ stats' = { stats with totalErrors := stats.totalErrors + 1 } ∧ out = none ∨
        ∃ job, r.Accepted job ∧ stats' = stats ∧
          out = some (.lb (getLBForPacket cfg H job.tuple), .packet job)) := by
  cases x with
  | packet job => cases h
  | raw r =>
    refine ⟨r, rfl, ?_⟩
    simp only [parse] at h
    split at h
    · cases h
    · next hr => cases h; exact .inl ⟨hr, rfl, rfl⟩
    · next job hjob => cases h; exact .inr ⟨job, hjob, rfl, rfl⟩

theorem dispatch_some {i : Fin cfg.numLoadBalancers} {stats stats' : LBStats cfg}
    (h : dispatch cfg H i stats x = some (stats', out)) :
    ∃ job, x = .packet job ∧ out = some (.fp i (selectFP cfg H job.tuple), .packet job) := by
  cases x with
  | raw r => cases h
  | packet job => cases h; exact ⟨job, rfl, rfl⟩

theorem process_some {env : PacketEnv} {fp fp' : FastPathProcessor}
    (h : process cfg rules isOpen env fp x = some (fp', out)) :
    ∃ job action, x = .packet job ∧ fp.processPacket rules env job = .ok fp' ∧
      fp'.actions = fp.actions ++ [(job, action)] ∧ out = handleOutput cfg isOpen job action := by
  cases x with
  | raw r => cases h
  | packet job =>
    simp only [process] at h
    split at h
    · next hok =>
      cases h
      obtain ⟨t, p, client, t', action, -, -, rfl⟩ := FastPathProcessor.processPacket_ok.mp hok
      exact ⟨job, action, rfl, hok, rfl, by simp [FastPathProcessor.handleAction]⟩
    · cases h

theorem write_some {file file' : List PacketJob} (h : write cfg file x = some (file', out)) :
    ∃ job, x = .packet job ∧ file' = file ++ [job] ∧ out = none := by
  cases x with
  | raw r => cases h
  | packet job => cases h; exact ⟨job, rfl, rfl, rfl⟩

end Thread

namespace DPIEngine

open Network Command

variable {w : Thread cfg} {q : QueueId cfg} {s : State cfg}

theorem feeds_cases (h : (network cfg H rules isOpen).Feeds w q) :
    (∃ p i, w = .parser p ∧ q = .lb i) ∨ (∃ i j, w = .lb i ∧ q = .fp i j) ∨
      ∃ i j, w = .fp i j ∧ q = .output := by
  obtain ⟨env, σ, a, σ', b, h⟩ := h
  cases w with
  | parser p =>
    obtain ⟨r, -, ⟨-, -, hout⟩ | ⟨job, -, -, hout⟩⟩ := Thread.parse_some h
    · cases hout
    · cases hout; exact .inl ⟨p, _, rfl, rfl⟩
  | lb i =>
    obtain ⟨job, -, hout⟩ := Thread.dispatch_some h
    cases hout
    exact .inr (.inl ⟨i, _, rfl, rfl⟩)
  | fp i j =>
    obtain ⟨job, action, -, -, -, hout⟩ := Thread.process_some h
    obtain ⟨-, -, rfl, -⟩ := handleOutput_some hout.symm
    exact .inr (.inr ⟨i, j, rfl, rfl⟩)
  | output =>
    obtain ⟨job, -, -, hout⟩ := Thread.write_some h
    cases hout

theorem output_not_send (hs : (network cfg H rules isOpen).Staged s) {y : ℕ × Item} :
    s.position .output ≠ .send q y := by
  intro hpos
  rcases feeds_cases (hs.sends _ q y hpos) with ⟨_, _, hw, -⟩ | ⟨_, _, hw, -⟩ | ⟨_, _, hw, -⟩ <;>
    cases hw

section Script

theorem mem_stopParsers {c : Command (QueueId cfg) (Thread cfg)} :
    c ∈ stopParsers cfg ↔ ∃ p, c = clear (.parser p) ∨ c = join (.parser p) := by
  simp [stopParsers]

theorem mem_stopLBs {c : Command (QueueId cfg) (Thread cfg)} :
    c ∈ stopLBs cfg ↔ ∃ i, c = clear (.lb i) ∨ c = close (.lb i) ∨ c = join (.lb i) := by
  simp [stopLBs]

theorem mem_stopFPs {c : Command (QueueId cfg) (Thread cfg)} :
    c ∈ stopFPs cfg ↔
      ∃ i j, c = clear (.fp i j) ∨ c = close (.fp i j) ∨ c = join (.fp i j) := by
  simp [stopFPs]

theorem joinSource_precedes {c : Command (QueueId cfg) (Thread cfg)} (hc : c ≠ joinSource) :
    (network cfg H rules isOpen).Precedes joinSource c :=
  precedes_of_append (l := [joinSource]) rfl (List.mem_singleton_self _) (by simpa using hc)

theorem joinParser_precedes {c : Command (QueueId cfg) (Thread cfg)} (p : Fin cfg.parserCount)
    (hc : c ∉ waitForCompletion cfg) :
    (network cfg H rules isOpen).Precedes (join (.parser p)) c := by
  refine precedes_of_append (l := waitForCompletion cfg) rfl ?_ hc
  exact List.mem_append_right _ (mem_stopParsers.mpr ⟨p, .inr rfl⟩)

theorem joinLB_precedes {c : Command (QueueId cfg) (Thread cfg)} (i : Fin cfg.numLoadBalancers)
    (hc : c ∉ waitForCompletion cfg ++ ([clear .output, close .rawPacket] ++ stopLBs cfg)) :
    (network cfg H rules isOpen).Precedes (join (.lb i)) c := by
  have hscript : (network cfg H rules isOpen).script =
      (waitForCompletion cfg ++ ([clear .output, close .rawPacket] ++ stopLBs cfg)) ++
        (stopFPs cfg ++ [close .output, join .output]) := by simp [network, stop]
  refine precedes_of_append hscript ?_ hc
  exact List.mem_append_right _ (List.mem_append_right _ (mem_stopLBs.mpr ⟨i, .inr (.inr rfl)⟩))

theorem joinFP_precedes {c : Command (QueueId cfg) (Thread cfg)} (i : Fin cfg.numLoadBalancers)
    (j : Fin cfg.fpsPerLb)
    (hc : c ∉ waitForCompletion cfg ++
      ([clear .output, close .rawPacket] ++ stopLBs cfg ++ stopFPs cfg)) :
    (network cfg H rules isOpen).Precedes (join (.fp i j)) c := by
  have hscript : (network cfg H rules isOpen).script =
      (waitForCompletion cfg ++
        ([clear .output, close .rawPacket] ++ stopLBs cfg ++ stopFPs cfg)) ++
        [close .output, join .output] := by simp [network, stop]
  refine precedes_of_append hscript ?_ hc
  exact List.mem_append_right _
    (List.mem_append_right _ (mem_stopFPs.mpr ⟨i, j, .inr (.inr rfl)⟩))

theorem settles_close (q : QueueId cfg) : (network cfg H rules isOpen).Settles q (close q) where
  source _ := joinSource_precedes nofun
  feeders w hw := by
    rcases feeds_cases hw with ⟨p, i, rfl, rfl⟩ | ⟨i, j, rfl, rfl⟩ | ⟨i, j, rfl, rfl⟩
    · exact joinParser_precedes p (by simp [waitForCompletion, mem_stopParsers])
    · exact joinLB_precedes i (by simp [waitForCompletion, mem_stopParsers, mem_stopLBs])
    · exact joinFP_precedes i j
        (by simp [waitForCompletion, mem_stopParsers, mem_stopLBs, mem_stopFPs])

theorem settles_clear (hw : w ≠ .output) : (network cfg H rules isOpen).Settles
    ((network cfg H rules isOpen).input w) (clear w) where
  source _ := joinSource_precedes nofun
  feeders v hv := by
    rcases feeds_cases hv with ⟨p, i, rfl, hq⟩ | ⟨i, j, rfl, hq⟩ | ⟨i, j, rfl, hq⟩
    · cases w <;> cases hq
      exact joinParser_precedes p (by simp [waitForCompletion, mem_stopParsers])
    · cases w <;> cases hq
      exact joinLB_precedes i (by simp [waitForCompletion, mem_stopParsers, mem_stopLBs])
    · cases w <;> cases hq
      exact absurd rfl hw

end Script

section Content

/-- The packet is the job of the frame with its number. -/
def IsJobOf (frames : List RawPacketJob) (n : ℕ) (job : PacketJob) : Prop :=
  ∃ r, frames[n]? = some r ∧ r.Accepted job

variable (cfg H) in
/-- The item is its frame or the job of its frame, in a queue that its tuple selects. -/
def OnItsWay (frames : List RawPacketJob) : QueueId cfg → ℕ × Item → Prop
  | .rawPacket, (n, x) => ∃ r, x = .raw r ∧ frames[n]? = some r
  | .lb i, (n, x) => ∃ job, x = .packet job ∧ IsJobOf frames n job ∧
      getLBForPacket cfg H job.tuple = i
  | .fp i j, (n, x) => ∃ job, x = .packet job ∧ IsJobOf frames n job ∧
      getLBForPacket cfg H job.tuple = i ∧ selectFP cfg H job.tuple = j
  | .output, (n, x) => ∃ job, x = .packet job ∧ IsJobOf frames n job

variable {frames : List RawPacketJob}

theorem carries_onItsWay :
    (network cfg H rules isOpen).Carries (OnItsWay cfg H frames) := by
  intro w env σ n a σ' q b hin h
  cases w with
  | parser p =>
    obtain ⟨r, rfl, ⟨-, -, hout⟩ | ⟨job, hjob, -, hout⟩⟩ := Thread.parse_some h
    · cases hout
    · cases hout
      obtain ⟨r', hr', hframe⟩ := hin
      cases hr'
      exact ⟨job, rfl, ⟨r, hframe, hjob⟩, rfl⟩
  | lb i =>
    obtain ⟨job, rfl, hout⟩ := Thread.dispatch_some h
    cases hout
    obtain ⟨job', hjob', hframe, hi⟩ := hin
    cases hjob'
    exact ⟨job, rfl, hframe, hi, rfl⟩
  | fp i j =>
    obtain ⟨job, action, rfl, -, -, hout⟩ := Thread.process_some h
    obtain ⟨-, -, rfl, rfl⟩ := handleOutput_some hout.symm
    obtain ⟨job', hjob', hframe, -, -⟩ := hin
    cases hjob'
    exact ⟨job, rfl, hframe⟩
  | output =>
    obtain ⟨job, -, -, hout⟩ := Thread.write_some h
    cases hout

theorem source_onItsWay {n : ℕ} {x : Item} (h : (frames.map Item.raw)[n]? = some x) :
    OnItsWay cfg H frames .rawPacket (n, x) := by
  rw [List.getElem?_map, Option.map_eq_some_iff] at h
  obtain ⟨r, hr, rfl⟩ := h
  exact ⟨r, rfl, hr⟩

def start (N : Network (QueueId cfg) (Thread cfg) PacketEnv Item (ThreadState cfg))
    (frames : List RawPacketJob) : State cfg :=
  N.init (frames.map .raw)

variable {ls : List (Label (Thread cfg) PacketEnv)}

theorem run_onItsWay (h : Run (network cfg H rules isOpen).Step
    (start (network cfg H rules isOpen) frames) ls s) :
    (network cfg H rules isOpen).Content (OnItsWay cfg H frames) s :=
  run_content carries_onItsWay (fun _ _ => source_onItsWay) h

end Content

end DPIEngine

end DpiEngine
