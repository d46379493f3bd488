import DpiEngine.FastPath.FlowHistory

/-! # Forwarded packets once more

If no packet of a flow is forwarded after a dropped one, the forwarded packets
alone are all forwarded again. The numbers of the packets play no part.
-/

namespace DpiEngine

open FastPathProcessor

variable {rules : RuleManager} {jobs : List PacketJob} {job : PacketJob} {r r' : FlowState}
  {actions : List (PacketJob × PacketAction)}

def PacketJob.unnumbered (job : PacketJob) : PacketJob := { job with packetId := 0 }

/-- The history of a flow with the numbers taken from its packets. -/
def FlowState.unnumbered (r : FlowState) : FlowState :=
  (r.1, r.2.map (Prod.map PacketJob.unnumbered id))

theorem flowStep_unnumbered (h : flowStep rules r job = .ok r') :
    flowStep rules r.unnumbered job.unnumbered = .ok r'.unnumbered := by
  obtain ⟨conn, action, hreceive, rfl⟩ := flowStep_ok.mp h
  refine flowStep_ok.mpr ⟨conn, action, hreceive, ?_⟩
  simp [FlowState.unnumbered]

theorem flowHistory_unnumbered (h : flowHistory rules jobs = .ok r) :
    flowHistory rules (jobs.map PacketJob.unnumbered) = .ok r.unnumbered := by
  induction jobs using List.reverseRecOn generalizing r with
  | nil =>
    cases h
    rfl
  | append_singleton jobs job ih =>
    rw [flowHistory_concat, Except.do_eq_ok_iff] at h
    obtain ⟨s, hs, hstep⟩ := h
    rw [List.map_append, List.map_singleton, flowHistory_concat, ih hs]
    exact flowStep_unnumbered hstep

/-- No packet is forwarded after a dropped one. -/
def Absorbing (actions : List (PacketJob × PacketAction)) : Prop :=
  actions.Pairwise fun x y => x.2 = .drop → y.2 = .drop

instance : Decidable (Absorbing actions) := inferInstanceAs (Decidable (List.Pairwise _ _))

theorem Absorbing.exists_append (h : Absorbing actions) : ∃ front back,
    actions = front ++ back ∧ (∀ x ∈ front, x.2 ≠ .drop) ∧ ∀ x ∈ back, x.2 = .drop := by
  induction actions with
  | nil => exact ⟨[], [], rfl, by simp, by simp⟩
  | cons x actions ih =>
    obtain ⟨hx, hactions⟩ := List.pairwise_cons.mp h
    by_cases hdrop : x.2 = .drop
    · refine ⟨[], x :: actions, rfl, by simp, List.forall_mem_cons.mpr ⟨hdrop, fun y hy => ?_⟩⟩
      exact hx y hy hdrop
    · obtain ⟨front, back, rfl, hfront, hback⟩ := ih hactions
      exact ⟨x :: front, back, rfl, List.forall_mem_cons.mpr ⟨hdrop, hfront⟩, hback⟩

/-- The packets that pass are the whole of their own history. -/
theorem flowHistory_passed (h : flowHistory rules jobs = .ok r) (ha : Absorbing r.2) :
    ∃ s, flowHistory rules (passed r.2) = .ok s ∧ passed s.2 = passed r.2 := by
  obtain ⟨front, back, hr, hfront, hback⟩ := ha.exists_append
  have hpassed : passed r.2 = front.map Prod.fst := by
    rw [passed, hr, List.filter_append, List.filter_eq_self.mpr (by simpa using hfront),
      List.filter_eq_nil_iff.mpr (by simpa using hback), List.append_nil]
  have hjobs : jobs = front.map Prod.fst ++ back.map Prod.fst := by
    rw [← map_flowHistory h, hr, List.map_append]
  obtain ⟨s, hs, rest, hrest, hback⟩ := flowHistory_append _ (hjobs ▸ h)
  have hlength : s.2.length = front.length := by
    have hmap := congrArg List.length (map_flowHistory hs)
    rwa [List.length_map, List.length_map] at hmap
  have hs2 : s.2 = front := (List.append_inj (hrest.symm.trans hr) hlength).1
  refine ⟨s, hpassed ▸ hs, ?_⟩
  rw [hpassed, hs2, passed, List.filter_eq_self.mpr (by simpa using hfront)]

theorem map_unnumbered_passed (r : FlowState) :
    passed r.unnumbered.2 = (passed r.2).map PacketJob.unnumbered := by
  simp only [passed, FlowState.unnumbered, List.filter_map, List.map_map]
  rfl

end DpiEngine
