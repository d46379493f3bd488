import DpiEngine.FastPath.FlowHistory
import DpiEngine.Rules.Extension

/-! # A flow under more rules

The same packets of a flow are handled under some rules and under rules that
contain them. What the first drop, the second drop as well, although blocked
connections are reopened under both. The two entries differ in what the further
rules have blocked alone.
-/

namespace DpiEngine

open Except FastPathProcessor

variable {rules rules' : RuleManager} {job : PacketJob} {client client' : Bool}
  {c c' d d' : Connection} {action action' : PacketAction}

namespace Connection

def acting (a : PacketAction) (conn : Connection) : Connection := { conn with action := a }

theorem acting_inert (a : PacketAction) : Inert (acting a) where
  flowKey _ := rfl
  state _ := rfl
  packets _ := rfl
  reassembler _ := rfl
  feed _ _ := rfl
  classify _ _ _ _ _ := rfl

theorem follow_acting (a : PacketAction) (env : PacketEnv) (job : PacketJob) (client : Bool) :
    (c.acting a).follow env job client = (c.follow env job client).acting a := by
  have hflags (d : Connection) (flags : UInt8) :
      (d.acting a).followFlags flags = (d.followFlags flags).acting a := by
    unfold followFlags acting
    dsimp only
    split_ifs <;> rfl
  have hupdate (now size : ℕ) :
      (c.acting a).update now size client = (c.update now size client).acting a := by
    unfold update
    split_ifs <;> rfl
  unfold follow
  rw [hupdate, hflags]
  split_ifs <;> rfl

theorem ipBlocked_congr (h : c'.flowKey = c.flowKey) : ipBlocked rules c' = ipBlocked rules c := by
  rw [ipBlocked, ipBlocked, h]

/-- The entries of a flow under some rules and under more. -/
inductive Stricter (rules' : RuleManager) (c : Connection) : Connection → Prop
  /-- Nothing has been blocked by the further rules, or the connection has been reopened. -/
  | same (a : PacketAction) : Stricter rules' c (c.acting a)
  /-- The further rules have blocked the content of the flow. -/
  | content (a : PacketAction) : c.state = .classified →
      Stricter rules' c { c with state := .blocked, action := a }
  /-- The rules block an address of the flow. -/
  | address {c' : Connection} : ipBlocked rules' c' = .ok true → Stricter rules' c c'

theorem Stricter.isClient (h : Stricter rules' c c') (key : FlowKey) :
    isClient c' key = isClient c key ∨ ipBlocked rules' c' = .ok true := by
  cases h with
  | same a => exact .inl rfl
  | content a _ => exact .inl rfl
  | address hip => exact .inr hip

theorem Stricter.follow (h : Stricter rules' c c') (env : PacketEnv) (job : PacketJob)
    (key : FlowKey) :
    Stricter rules' (c.follow env job (FastPathProcessor.isClient c key))
      (c'.follow env job (FastPathProcessor.isClient c' key)) := by
  cases h with
  | same a =>
    rw [follow_acting]
    exact .same a
  | address hip => exact .address ((ipBlocked_congr (flowKey_follow ..)).trans hip)
  | content a hclass =>
    change Stricter rules' _ (Connection.follow _ env job (FastPathProcessor.isClient c key))
    have hflags (e : Connection) (he : e.state = .classified) (flags : UInt8) :
        Stricter rules' (e.followFlags flags)
          (followFlags { e with state := .blocked, action := a } flags) := by
      unfold followFlags
      dsimp only
      split_ifs
      -- flags that set the state set it in both
      · exact .same a
      all_goals first | exact .content a he | exact .same a
    have hupdate (now size : ℕ) (b : Bool) :
        update { c with state := .blocked, action := a } now size b =
          { c.update now size b with state := .blocked, action := a } := by
      unfold update
      split_ifs <;> rfl
    have hstate (now size : ℕ) (b : Bool) : (c.update now size b).state = .classified :=
      (state_update ..).trans hclass
    unfold Connection.follow
    rw [hupdate]
    split_ifs
    · exact hflags _ (hstate ..) _
    · exact .content a (hstate ..)

theorem contentBlocked_within (h : rules.Within rules')
    (hc : contentBlocked rules c = true) : contentBlocked rules' c = true := by
  simp only [contentBlocked, Bool.or_eq_true, Bool.and_eq_true] at *
  exact hc.imp h.isAppBlocked (And.imp_right h.isDomainBlocked)

theorem ipBlocked_within (h : rules.Within rules') (hip : ipBlocked rules c = .ok true) {b : Bool}
    (hip' : ipBlocked rules' c = .ok b) : b = true := by
  obtain ⟨src, hsrc, hip⟩ := Except.do_eq_ok_iff.mp hip
  obtain ⟨src', hsrc', hip'⟩ := Except.do_eq_ok_iff.mp hip'
  cases hsrc.symm.trans hsrc'
  split_ifs at hip hip' with hblocked hblocked'
  · cases hip'
    rfl
  · exact absurd (h.isIPBlocked hblocked) hblocked'
  · cases hip'
    rfl
  · obtain ⟨dst, hdst, hip⟩ := Except.do_eq_ok_iff.mp hip
    obtain ⟨dst', hdst', hip'⟩ := Except.do_eq_ok_iff.mp hip'
    cases hdst.symm.trans hdst'
    cases hip'
    exact h.isIPBlocked (Except.ok.inj hip)

/-- The further rules keep the relation, and drop what the others drop. -/
theorem Stricter.verdict (hrules : rules.Within rules') (h : Stricter rules' c c')
    (hclient : client' = client ∨ ipBlocked rules' c' = .ok true)
    (hc : c.verdict rules job client = .ok (d, action))
    (hc' : c'.verdict rules' job client' = .ok (d', action')) :
    Stricter rules' d d' ∧ (action = .drop → action' = .drop) := by
  cases h with
  | address hip =>
    rcases verdict_ok hc' with ⟨-, rfl, rfl⟩ | ⟨-, -, rfl, rfl⟩ | ⟨-, hip', -⟩
    · exact ⟨.address hip, fun _ => rfl⟩
    · exact ⟨.address hip, fun _ => rfl⟩
    · cases hip.symm.trans hip'
  | content a hclass =>
    rcases verdict_ok hc' with ⟨-, rfl, rfl⟩ | ⟨hstate, -⟩ | ⟨hstate, -⟩
    · refine ⟨?_, fun _ => rfl⟩
      rcases verdict_ok hc with ⟨hstate, -⟩ | ⟨-, -, rfl, -⟩ | ⟨-, -, e, he, hd⟩
      · cases hclass.symm.trans hstate
      · exact .same a
      · -- a classified connection is not inspected
        rw [inspectOpen, hclass, if_neg (by simp)] at he
        cases he
        split_ifs at hd
        · rw [hd.1]
          exact .same a
        · rw [hd.1]
          exact .content a hclass
    · exact absurd rfl hstate
    · exact absurd rfl hstate
  | same a =>
    have hkey : ipBlocked rules' (c.acting a) = ipBlocked rules' c := ipBlocked_congr rfl
    rcases verdict_ok hc' with ⟨hstate, rfl, rfl⟩ | ⟨hstate, hip', rfl, rfl⟩ |
      ⟨hstate, hip', e', he', hd'⟩
    · refine ⟨?_, fun _ => rfl⟩
      rcases verdict_ok hc with ⟨-, rfl, -⟩ | ⟨hne, -⟩ | ⟨hne, -⟩
      · exact .same a
      · exact absurd hstate hne
      · exact absurd hstate hne
    · exact ⟨.address hip', fun _ => rfl⟩
    · rcases verdict_ok hc with ⟨heq, -⟩ | ⟨-, hip, -⟩ | ⟨-, -, e, he, hd⟩
      · exact absurd heq hstate
      · cases ipBlocked_within hrules hip (hkey ▸ hip')
      · obtain rfl := hclient.resolve_right fun hip => by cases hip.symm.trans hip'
        obtain ⟨e'', hinspected, rfl⟩ := ((acting_inert a).inspectOpen c job _).of_ok he
        cases hinspected.symm.trans he'
        change if e.state = .classified ∧ contentBlocked rules' e then _ else _ at hd'
        split_ifs at hd hd' with hblocked hblocked' hfurther
        · rw [hd.1, hd'.1]
          exact ⟨.same .drop, fun _ => hd'.2⟩
        · exact absurd ⟨hblocked.1, contentBlocked_within hrules hblocked.2⟩ hblocked'
        · rw [hd.1, hd'.1]
          exact ⟨.content .drop hfurther.1, fun _ => hd'.2⟩
        · rw [hd.1, hd'.1, hd.2]
          exact ⟨.same a, fun hdrop => by cases hdrop⟩

end Connection

open Connection

inductive StricterEntry (rules' : RuleManager) : Option Connection → Option Connection → Prop
  | none : StricterEntry rules' none none
  | some {c c' : Connection} : Stricter rules' c c' → StricterEntry rules' (some c) (some c')

def DropsMore (x x' : PacketJob × PacketAction) : Prop := x'.1 = x.1 ∧ (x.2 = .drop → x'.2 = .drop)

theorem receive_stricter (hrules : rules.Within rules') {env : PacketEnv}
    {entry entry' : Option Connection} (h : StricterEntry rules' entry entry')
    (hr : receive rules env job entry = .ok (d, action))
    (hr' : receive rules' env job entry' = .ok (d', action')) :
    Stricter rules' d d' ∧ (action = .drop → action' = .drop) := by
  obtain ⟨⟨c, client⟩, hlookup, hd⟩ := Except.do_eq_ok_iff.mp hr
  obtain ⟨⟨c', client'⟩, hlookup', hd'⟩ := Except.do_eq_ok_iff.mp hr'
  cases h with
  | none =>
    cases hlookup.symm.trans hlookup'
    exact Stricter.verdict hrules (.same c.action) (.inl rfl) hd hd'
  | some h =>
    obtain ⟨key, hkey, hlookup⟩ := Except.do_eq_ok_iff.mp hlookup
    obtain ⟨key', hkey', hlookup'⟩ := Except.do_eq_ok_iff.mp hlookup'
    cases hkey.symm.trans hkey'
    cases hlookup
    cases hlookup'
    refine (h.follow env job key).verdict hrules ?_ hd hd'
    exact (h.isClient key).imp_right (ipBlocked_congr (flowKey_follow ..)).trans

/-- The same packets under more rules: none is let through in addition. -/
theorem flowHistory_stricter (hrules : rules.Within rules') {jobs : List PacketJob}
    {r r' : FlowState} (h : flowHistory rules jobs = .ok r)
    (h' : flowHistory rules' jobs = .ok r') :
    StricterEntry rules' r.1 r'.1 ∧ List.Forall₂ DropsMore r.2 r'.2 := by
  induction jobs using List.reverseRecOn generalizing r r' with
  | nil =>
    cases h
    cases h'
    exact ⟨.none, .nil⟩
  | append_singleton jobs job ih =>
    rw [flowHistory_concat, Except.do_eq_ok_iff] at h h'
    obtain ⟨s, hs, hstep⟩ := h
    obtain ⟨s', hs', hstep'⟩ := h'
    obtain ⟨hentry, hdrops⟩ := ih hs hs'
    obtain ⟨c, action, hreceive, rfl⟩ := flowStep_ok.mp hstep
    obtain ⟨c', action', hreceive', rfl⟩ := flowStep_ok.mp hstep'
    obtain ⟨hstricter, haction⟩ := receive_stricter hrules hentry hreceive hreceive'
    refine ⟨.some hstricter, ?_⟩
    exact List.rel_append hdrops (.cons ⟨rfl, haction⟩ .nil)

theorem passed_sublist {l l' : List (PacketJob × PacketAction)} (h : List.Forall₂ DropsMore l l') :
    (passed l').Sublist (passed l) := by
  induction h with
  | nil => exact .refl _
  | @cons x x' l l' hx _ ih =>
    obtain ⟨job, action⟩ := x
    obtain ⟨job', action'⟩ := x'
    obtain ⟨rfl, hdrop⟩ := hx
    by_cases hx' : action' = .drop
    · have hfirst : passed ((job', action') :: l') = passed l' := by simp [passed, hx']
      rw [hfirst]
      exact ih.trans (((List.sublist_cons_self _ _).filter _).map _)
    · have hx : action ≠ .drop := fun heq => hx' (hdrop heq)
      have hfirst : passed ((job', action') :: l') = job' :: passed l' := by simp [passed, hx']
      have hsecond : passed ((job', action) :: l) = job' :: passed l := by simp [passed, hx]
      rw [hfirst, hsecond]
      exact ih.cons_cons job'

end DpiEngine
