import DpiEngine.FastPath.Exchange
import DpiEngine.Pipeline.Refiltering

/-! # The flows of the output file

A flow in which the client announces an application with its first payload is
written without a gap: completely, up to this payload, or not at all. Which of
these it is depends on the addresses, the application and its name alone.
-/

namespace DpiEngine.DPIEngine

open Network FastPathProcessor

variable {cfg : Config} {H : StdHash} {rules : RuleManager} {frames : List RawPacketJob}
  {ls : List (Label (Thread cfg) PacketEnv)} {s : State cfg} {key : FlowKey}
  {found : AppType × Name} {jobs rest : List PacketJob} {job : PacketJob}

/--
The output file has the whole flow if no rule blocks an address or what the payload announces, the
packets before the payload if a rule blocks what it announces, and nothing under a blocked address.
-/
theorem exchange_written (hexchange : Exchange key found jobs job rest)
    (h : Finished rules frames ls s H)
    (hflow : (acceptedJobs frames).filter (·.flow = key.canonical) = jobs ++ job :: rest) :
    (outputFile s).filter (·.flow = key.canonical) =
      if AddressBlocked rules job then []
      else if FindingBlocked rules found then jobs else jobs ++ job :: rest := by
  obtain ⟨r, hr, -, hfile⟩ := h.exists_history key.canonical
  rw [hflow] at hr
  rw [hfile, hexchange.passed_eq hr]

def evilRequest : PacketJob :=
  segmentJob 8080 1 TCPFlags.ACK (ascii "GET / HTTP/1.1\r\nHost: evil.com\r\n\r\n")

def evilJobs : List PacketJob :=
  [segmentJob 8080 0 TCPFlags.SYN [], evilRequest, segmentJob 8080 36 TCPFlags.ACK []]

def evilFrames : List RawPacketJob := evilJobs.map fun job => { data := job.data }

theorem evilExchange : Exchange evilRequest.flowKey (requestFinding evilRequest.payload)
    [segmentJob 8080 0 TCPFlags.SYN []] evilRequest [segmentJob 8080 36 TCPFlags.ACK []] where
  quiet := List.forall_mem_singleton.mpr ⟨⟨⟨rfl, rfl⟩, rfl, rfl⟩, rfl⟩
  first job' hjob' := by
    cases hjob'
    rfl
  continues := ⟨⟨rfl, rfl⟩, rfl, rfl⟩
  flowKey := rfl
  announces := .request rfl (by decide) (.inr (by decide))
  sustains := List.forall_mem_singleton.mpr ⟨⟨⟨rfl, rfl⟩, rfl, rfl⟩, .inl rfl⟩

def handled : List (Label (Thread oneEach) PacketEnv) :=
  [.pop parser0, .work parser0 {}, .push parser0, .pop lb0, .work lb0 {}, .push lb0, .pop fp0,
    .work fp0 {}]

def evilRun : List (Label (Thread oneEach) PacketEnv) :=
  [.test .output, .read, .read, .read] ++ handled ++ .push fp0 :: handled ++ handled ++
    [.control, .control, .timeout parser0, .control, .test parser0, .test parser0, .control,
      .control, .control, .timeout lb0, .control, .control, .test lb0, .test lb0, .control,
      .timeout fp0, .control, .control, .test fp0, .test fp0, .control, .pop .output,
      .work .output {}, .test .output, .test .output, .control, .control]

/-- With a rule for the domain the request and what follows it are missing. -/
theorem exchange_written_evil : ∃ s : State oneEach,
    Finished { blockedDomains := {ascii "evil.com"} } evilFrames evilRun s identityHash ∧
      (outputFile s).filter (·.flow = evilRequest.flow) = [segmentJob 8080 0 TCPFlags.SYN []] := by
  obtain ⟨s, -, h⟩ : ∃ s : State oneEach, True ∧
      Finished { blockedDomains := {ascii "evil.com"} } evilFrames evilRun s identityHash :=
    finished_of_runIf (p := fun _ => True) (by decide +kernel)
  have hwritten := exchange_written evilExchange h (by decide +kernel)
  rw [if_neg (by decide), if_pos (by decide +kernel)] at hwritten
  exact ⟨s, h, hwritten⟩

end DpiEngine.DPIEngine
