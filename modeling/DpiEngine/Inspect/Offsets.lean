import DpiEngine.Inspect.Query

/-! # The offset behind a name

A name ends behind its zero byte or behind its first pointer. The loop stops on
the zero byte, and only a pointer makes it return the offset that it noted, so
behind a name without a pointer the offset is one too small.
-/

namespace DpiEngine.DNSExtractor

open Traced

/-- At offset `o` of the message `m` stands an encoding of the labels whose bytes at this place end
in front of `next`. Its pointers lead to `targets`, anywhere in the message. -/
inductive EncodesTo (m : List UInt8) : ℕ → ℕ → List ℕ → List Name → Prop
  | root {o : ℕ} : [0] <+: m.drop o → EncodesTo m o (o + 1) [] []
  | label {o next : ℕ} {targets : List ℕ} {l : Name} {labels : List Name} : 1 ≤ l.length →
      l.length ≤ 63 → [.ofNat l.length] ++ l <+: m.drop o →
      EncodesTo m (o + 1 + l.length) next targets labels → EncodesTo m o next targets (l :: labels)
  | pointer {o next target : ℕ} {targets : List ℕ} {labels : List Name} : target < m.length →
      target < 2 ^ 14 → bytes16 (0xC000 + target) <+: m.drop o →
      EncodesTo m target next targets labels → EncodesTo m o (o + 2) (target :: targets) labels

variable {m : List UInt8} {o next : ℕ} {targets : List ℕ} {labels : List Name}

theorem EncodesTo.encodesAt (h : EncodesTo m o next targets labels)
    (hbody : ∀ target ∈ targets, 12 ≤ target) : EncodesAt m o targets.length labels := by
  induction h with
  | root hroot => exact .root hroot
  | label hpos hmax hlabel _ ih => exact .label hpos hmax hlabel (ih hbody)
  | pointer hlt hmax hpointer _ ih =>
    obtain ⟨hmin, hbody⟩ := List.forall_mem_cons.mp hbody
    exact .pointer hmin hlt hmax hpointer (ih hbody)

section Loop

variable {c c' : NameCursor} {fuel : ℕ}

theorem jumped_of_nameLoop (h : (nameLoop m fuel c).value = some (some c'))
    (hc : c.jumped = true) :
    c'.jumped = true ∧ c'.originalOffset = c.originalOffset := by
  induction fuel generalizing c with
  | zero => cases h
  | succ fuel ih =>
    rw [nameLoop] at h
    obtain ⟨step, hstep, h⟩ := value_bind_some h
    cases Round.of_nameStep hstep with
    | reject => cases h
    | atEnd =>
      cases h
      exact ⟨hc, rfl⟩
    | root =>
      cases h
      exact ⟨hc, if_pos hc⟩
    | pointer =>
      obtain ⟨hjumped, hoffset⟩ := ih h rfl
      exact ⟨hjumped, hoffset.trans (if_pos hc)⟩
    | label =>
      have hrest := ih h hc
      exact hrest

theorem exists_fuel_of_nameLoop (h : (nameLoop m fuel c).value = some (some c')) :
    ∃ n, fuel = n + 1 := by
  cases fuel with
  | zero => cases h
  | succ n => exact ⟨n, rfl⟩

/-- A loop that is left has followed all pointers behind the header. Without one it stands on the
last byte of the name, and with one it has noted where the name ends. -/
theorem EncodesTo.of_nameLoop (h : EncodesTo m o next targets labels)
    (hloop : (nameLoop m fuel c).value = some (some c')) (ho : c.offset = o) :
    (∀ target ∈ targets, 12 ≤ target) ∧ (c.jumped = false →
      (targets = [] → c'.jumped = false ∧ c'.offset + 1 = next) ∧
      (targets ≠ [] → c'.jumped = true ∧ c'.originalOffset = next)) := by
  induction h generalizing c fuel with
  | root hroot =>
    subst ho
    obtain ⟨fuel, rfl⟩ := exists_fuel_of_nameLoop hloop
    obtain ⟨hlt, hzero⟩ := root_of_isPrefix hroot
    rw [(Round.root hlt hzero).nameLoop_leave] at hloop
    cases hloop
    refine ⟨fun _ ht => absurd ht List.not_mem_nil, fun hc => ⟨fun _ => ⟨hc, rfl⟩, ?_⟩⟩
    exact fun hpointer => absurd rfl hpointer
  | label hpos hmax hlabel _ ih =>
    subst ho
    obtain ⟨fuel, rfl⟩ := exists_fuel_of_nameLoop hloop
    obtain ⟨hne, hmask, hvalue, hfits, hslice⟩ := label_of_isPrefix hpos hmax hlabel
    rw [(Round.label hne hmask hfits hslice).nameLoop_next] at hloop
    have hrest := ih hloop (congrArg (c.offset + 1 + ·) hvalue)
    exact hrest
  | pointer hlt hmax hpointer _ ih =>
    subst ho
    obtain ⟨fuel, rfl⟩ := exists_fuel_of_nameLoop hloop
    obtain ⟨hlow, hmask, htarget⟩ := pointer_of_isPrefix hmax hpointer
    rw [nameLoop] at hloop
    obtain ⟨step, hstep, hloop⟩ := value_bind_some hloop
    cases Round.of_nameStep hstep with
    | reject => cases hloop
    | atEnd hend => omega
    | root _ hzero => exact absurd hzero (not_pointer_zero hmask)
    | label _ hmask' => exact absurd hmask hmask'
    | pointer _ _ htarget' hmin =>
      obtain rfl := htarget.trans htarget'.symm
      have hrest := ih hloop rfl
      obtain ⟨hjumped, hoffset⟩ := jumped_of_nameLoop hloop rfl
      refine ⟨List.forall_mem_cons.mpr ⟨hmin, hrest.1⟩, fun hc => ⟨?_, fun _ => ?_⟩⟩
      · exact fun ht => absurd ht (List.cons_ne_nil _ _)
      · exact ⟨hjumped, hoffset.trans (if_neg (by simp [hc]))⟩

end Loop

theorem EncodesTo.of_readDomainName {after : ℕ} {name : Name}
    (h : EncodesTo m o next targets labels)
    (hread : (readDomainName m o).value = some (some (name, after))) :
    (∀ target ∈ targets, 12 ≤ target) ∧ (targets = [] → after + 1 = next) ∧
      (targets ≠ [] → after = next) := by
  obtain ⟨c, hloop, -, -, rfl⟩ := nameLoop_of_readDomainName hread
  obtain ⟨hbody, hend⟩ := h.of_nameLoop hloop rfl
  obtain ⟨hplain, hpointer⟩ := hend rfl
  refine ⟨hbody, fun ht => ?_, fun ht => ?_⟩
  · obtain ⟨hjumped, hnext⟩ := hplain ht
    simpa [hjumped] using hnext
  · obtain ⟨hjumped, hnext⟩ := hpointer ht
    simpa [hjumped] using hnext

/--
A name with labels that goes through at most ten pointers is read, and the offset is left behind
its encoding, exactly if it has a pointer and none leads into the header.
-/
theorem readDomainName_next_iff (h : EncodesTo m o next targets labels) (hne : labels ≠ [])
    (hjumps : targets.length ≤ maxJumps) :
    (∃ name, (readDomainName m o).value = some (some (name, next))) ↔
      targets ≠ [] ∧ ∀ target ∈ targets, 12 ≤ target := by
  constructor
  · rintro ⟨name, hread⟩
    obtain ⟨hbody, hplain, -⟩ := h.of_readDomainName hread
    exact ⟨fun ht => Nat.succ_ne_self next (hplain ht), hbody⟩
  · rintro ⟨hpointer, hbody⟩
    obtain ⟨after, hread⟩ := readDomainName_nameAt (h.encodesAt hbody).nameAt.1 hjumps hne
    obtain rfl := (h.of_readDomainName hread).2.2 hpointer
    exact ⟨_, hread⟩

/-- A name that goes on behind a pointer at offset 14. -/
theorem readDomainName_next_iff_pointer : ∃ name,
    (readDomainName
      [0x12, 0x34, 1, 0, 0, 1, 0, 0, 0, 0, 0, 0, 1, 0x61, 0xC0, 0x10, 1, 0x62, 0] 12).value =
        some (some (name, 16)) := by
  have hrest : EncodesTo
      [0x12, 0x34, 1, 0, 0, 1, 0, 0, 0, 0, 0, 0, 1, 0x61, 0xC0, 0x10, 1, 0x62, 0] 16 19 []
        [[0x62]] :=
    .label (by decide) (by decide) (by decide) (.root (by decide))
  have h : EncodesTo
      [0x12, 0x34, 1, 0, 0, 1, 0, 0, 0, 0, 0, 0, 1, 0x61, 0xC0, 0x10, 1, 0x62, 0] 12 16 [16]
        [[0x61], [0x62]] :=
    .label (by decide) (by decide) (by decide)
      (.pointer (by decide) (by decide) (by decide) hrest)
  exact (readDomainName_next_iff h (by decide) (by decide)).mpr ⟨by decide, by decide⟩

/-- Behind the name `a` in a query the offset is left on the zero byte. -/
theorem not_readDomainName_next :
    ¬ ∀ m o next targets labels, EncodesTo m o next targets labels → labels ≠ [] →
      targets.length ≤ maxJumps → (∀ target ∈ targets, 12 ≤ target) →
      ∃ name, (readDomainName m o).value = some (some (name, next)) := by
  intro h
  let m : List UInt8 := [0x12, 0x34, 1, 0, 0, 1, 0, 0, 0, 0, 0, 0, 1, 0x61, 0]
  have hname : EncodesTo m 12 15 [] [[0x61]] :=
    .label (by decide) (by decide) (by decide) (.root (by decide))
  obtain ⟨name, hread⟩ := h m 12 15 [] [[0x61]] hname (by decide) (by decide) (by decide)
  have hnext : 15 + 1 = 15 := (hname.of_readDomainName hread).2.1 rfl
  exact absurd hnext (by decide)

end DpiEngine.DNSExtractor
