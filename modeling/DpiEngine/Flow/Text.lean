import DpiEngine.Flow.Key
import DpiEngine.Library.AddressText
import Mathlib.Data.List.FinRange
import Mathlib.Tactic.SplitIfs

/-! # Addresses and flows as text

An IPv6 address is written in hexadecimal, with `::` for the first longest run
of at least two zero groups. The run finder meets a sentinel behind the groups,
which ends the last run; up to each group it knows the first longest run that
has ended.
-/

namespace DpiEngine

open AddressText

def IPv6Address.groups (addr : IPv6Address) : List UInt16 :=
  (List.finRange 8).map fun i : Fin 8 =>
    (addr.get ⟨2 * i, by have := i.isLt; omega⟩).toUInt16 <<< 8 |||
      (addr.get ⟨2 * i + 1, by have := i.isLt; omega⟩).toUInt16

/-- The variables of the run finder; none is the source's `-1`. -/
structure RunFinder where
  bestStart : Option ℕ := none
  bestLen : ℕ := 0
  cs : Option ℕ := none
  cl : ℕ := 0

def RunFinder.step (g : List UInt16) (s : RunFinder) (i : ℕ) : RunFinder :=
  if g[i]? = some 0 then
    match s.cs with
    | none => { s with cs := some i, cl := 1 }
    | some _ => { s with cl := s.cl + 1 }
  else if s.cl ≥ 2 ∧ s.cl > s.bestLen then
    { bestStart := s.cs, bestLen := s.cl, cs := none, cl := 0 }
  else { s with cs := none, cl := 0 }

def findRun (g : List UInt16) (i : ℕ) : RunFinder := (List.range i).foldl (RunFinder.step g) {}

/-- The printer from index `i` on; every round consumes a group, so `fuel` counts the groups. -/
def printGroups (g : List UInt16) (bestStart : Option ℕ) (bestLen : ℕ) :
    (fuel i : ℕ) → (prevCollapsed : Bool) → List Char
  | 0, _, _ => []
  | fuel + 1, i, prevCollapsed =>
    match g[i]? with
    | none => []
    | some group =>
      if bestStart = some i then
        ':' :: ':' :: printGroups g bestStart bestLen fuel (i + bestLen) true
      else
        (if i > 0 ∧ prevCollapsed = false then [':'] else []) ++ Nat.toDigits 16 group.toNat ++
          printGroups g bestStart bestLen fuel (i + 1) false

def ipv6ToString (addr : IPv6Address) : String :=
  let g := IPv6Address.groups addr
  let s := findRun g 9
  .ofList (printGroups g s.bestStart s.bestLen 8 0 false)

def IPAddress.text : IPAddress → String
  | .v4 s =>
    (s >>> 0 &&& 0xFF).toNat.repr ++ "." ++ (s >>> 8 &&& 0xFF).toNat.repr ++ "." ++
      (s >>> 16 &&& 0xFF).toNat.repr ++ "." ++ (s >>> 24 &&& 0xFF).toNat.repr
  | .v6 addr => ipv6ToString addr

def FlowKey.toString (k : FlowKey) : String :=
  k.srcAddr.text ++ ":" ++ k.srcPort.toNat.repr ++ " -> " ++ k.dstAddr.text ++ ":" ++
    k.dstPort.toNat.repr ++ " (" ++
    (if k.protocol = 6 then "TCP" else if k.protocol = 17 then "UDP"
      else if k.protocol = 1 then "ICMP" else if k.protocol = 58 then "ICMPv6" else "?") ++ ")"

variable {g : List UInt16} {s : RunFinder} {i start len : ℕ}

/-! ### The run finder -/

/-- From `start` on `len` groups are zero. -/
def ZeroRun (g : List UInt16) (start len : ℕ) : Prop := ∀ j < len, g[start + j]? = some 0

/-- What the finder knows of the runs that end at `k` or before. -/
def Best (g : List UInt16) (k bestLen : ℕ) : Option ℕ → Prop
  | none => bestLen = 0 ∧ ∀ start len, ZeroRun g start len → start + len ≤ k → len < 2
  | some bestStart => 2 ≤ bestLen ∧ ZeroRun g bestStart bestLen ∧ bestStart + bestLen ≤ k ∧
    ∀ start len, ZeroRun g start len → start + len ≤ k →
      len < bestLen ∨ len = bestLen ∧ bestStart ≤ start

/-- Before index `i` the current run is `cl` long, and the best one has ended in front of it. -/
structure RunFinder.Scanned (g : List UInt16) (i : ℕ) (s : RunFinder) : Prop where
  le : s.cl ≤ i
  run : ZeroRun g (i - s.cl) s.cl
  maximal : ∀ j, j + 1 = i - s.cl → g[j]? ≠ some 0
  cs : s.cs = if s.cl = 0 then none else some (i - s.cl)
  best : Best g (i - s.cl) s.bestLen s.bestStart

theorem RunFinder.Scanned.ended (h : s.Scanned g i) (hzero : g[i]? ≠ some 0)
    (hrun : ZeroRun g start len) (hle : start + len ≤ i + 1) (hpos : 0 < len) :
    start + len ≤ i - s.cl ∨ i - s.cl ≤ start ∧ start + len ≤ i := by
  by_cases hold : start + len ≤ i - s.cl
  · exact .inl hold
  right
  constructor
  · by_contra hlt
    have hj := hrun (i - s.cl - 1 - start) (by omega)
    refine h.maximal (i - s.cl - 1) (by omega) ?_
    rwa [show start + (i - s.cl - 1 - start) = i - s.cl - 1 by omega] at hj
  · by_contra hlt
    have hj := hrun (len - 1) (by omega)
    rw [show start + (len - 1) = i by omega] at hj
    exact hzero hj

theorem Best.extend {k k' bestLen : ℕ} {bestStart : Option ℕ} (h : Best g k bestLen bestStart)
    (hk : k ≤ k') (hnew : ∀ start len, ZeroRun g start len → start + len ≤ k' → 0 < len →
      start + len ≤ k ∨ k ≤ start ∧ (len < 2 ∨ len ≤ bestLen)) : Best g k' bestLen bestStart := by
  cases bestStart with
  | none =>
    obtain ⟨hlen, hbest⟩ := h
    refine ⟨hlen, fun start len hrun hle => ?_⟩
    rcases Nat.eq_zero_or_pos len with rfl | hpos
    · decide
    rcases hnew start len hrun hle hpos with hold | hin
    · exact hbest start len hrun hold
    · omega
  | some b =>
    obtain ⟨hlen, hbrun, hend, hbest⟩ := h
    refine ⟨hlen, hbrun, hend.trans hk, fun start len hrun hle => ?_⟩
    rcases Nat.eq_zero_or_pos len with rfl | hpos
    · exact .inl (by omega)
    rcases hnew start len hrun hle hpos with hold | hin
    · exact hbest start len hrun hold
    · omega

theorem Best.replace {k k' bestLen cl : ℕ} {bestStart : Option ℕ} (h : Best g k bestLen bestStart)
    (hrun : ZeroRun g k cl) (htwo : 2 ≤ cl) (hlonger : bestLen < cl) (hk : k + cl ≤ k')
    (hnew : ∀ start len, ZeroRun g start len → start + len ≤ k' → 0 < len →
      start + len ≤ k ∨ k ≤ start ∧ start + len ≤ k + cl) : Best g k' cl (some k) := by
  refine ⟨htwo, hrun, hk, fun start len hother hle => ?_⟩
  rcases Nat.eq_zero_or_pos len with rfl | hpos
  · exact .inl (by omega)
  rcases hnew start len hother hle hpos with hold | hin
  · left
    cases bestStart with
    | none => exact (h.2 start len hother hold).trans_le htwo
    | some b =>
      have := h.2.2.2 start len hother hold
      omega
  · omega

theorem RunFinder.Scanned.grow (h : s.Scanned g i) (hzero : g[i]? = some 0) :
    (s.step g i).Scanned g (i + 1) := by
  obtain ⟨hle, hrun, hmax, hcs, hbest⟩ := h
  have hstep : s.step g i = { s with cs := some (i - s.cl), cl := s.cl + 1 } := by
    rw [RunFinder.step, if_pos hzero]
    by_cases hcl : s.cl = 0
    · rw [if_pos hcl] at hcs
      simp [hcs, hcl]
    · rw [if_neg hcl] at hcs
      simp [hcs]
  have hstart : i + 1 - (s.cl + 1) = i - s.cl := by omega
  rw [hstep]
  constructor
  · exact Nat.succ_le_succ hle
  · intro j hj
    rw [hstart]
    rcases Nat.lt_or_ge j s.cl with hlt | hge
    · exact hrun j hlt
    · rw [show i - s.cl + j = i by simp only at hj; omega]
      exact hzero
  · rw [hstart]
    exact hmax
  · simp [hstart]
  · rw [hstart]
    exact hbest

theorem RunFinder.Scanned.finish (h : s.Scanned g i) (hzero : g[i]? ≠ some 0) :
    (s.step g i).Scanned g (i + 1) := by
  have hle := h.le
  have hempty (best : RunFinder) (hcl : best.cl = 0) (hcs : best.cs = none)
      (hbest : Best g (i + 1) best.bestLen best.bestStart) : best.Scanned g (i + 1) := by
    constructor
    · omega
    · exact fun j hj => absurd hj (by omega)
    · intro j hj
      obtain rfl : j = i := by omega
      exact hzero
    · rw [hcs, if_pos hcl]
    · rw [hcl]
      exact hbest
  rw [RunFinder.step, if_neg hzero]
  split_ifs with hnew
  · have hcs : s.cs = some (i - s.cl) := by rw [h.cs, if_neg (by omega)]
    have hbest : Best g (i + 1) s.cl (some (i - s.cl)) := by
      refine h.best.replace h.run hnew.1 hnew.2 (by omega) ?_
      intro start len hrun hk hpos
      have := h.ended hzero hrun hk hpos
      omega
    rw [hcs]
    exact hempty _ rfl rfl hbest
  · refine hempty _ rfl rfl (h.best.extend (by omega) ?_)
    intro start len hrun hk hpos
    have := h.ended hzero hrun hk hpos
    omega

theorem RunFinder.Scanned.step (h : s.Scanned g i) : (s.step g i).Scanned g (i + 1) := by
  by_cases hzero : g[i]? = some 0
  · exact h.grow hzero
  · exact h.finish hzero

theorem scanned_findRun (g : List UInt16) (i : ℕ) : (findRun g i).Scanned g i := by
  induction i with
  | zero =>
    refine ⟨le_rfl, fun j hj => absurd hj (Nat.not_lt_zero j), fun j hj => absurd hj (by simp), rfl,
      rfl, fun start len hrun hk => ?_⟩
    have : start + len ≤ 0 := hk
    omega
  | succ i ih =>
    rw [findRun, List.range_succ, List.foldl_append]
    exact ih.step

/-! ### The printer -/

def values (g : List UInt16) : List ℕ := g.map UInt16.toNat

@[simp] theorem values_cons (a : UInt16) (g : List UInt16) :
    values (a :: g) = a.toNat :: values g := rfl

@[simp] theorem length_values (g : List UInt16) : (values g).length = g.length := List.length_map _

theorem values_ne_nil (hi : i < g.length) : values (g.drop i) ≠ [] := by
  simpa [← List.length_pos_iff] using hi

theorem zeroRun_iff : IsZeroRun (values g) start len ↔ ZeroRun g start len := by
  have hzero (k : ℕ) : (values g)[k]? = some 0 ↔ g[k]? = some 0 := by
    rw [values, List.getElem?_map, Option.map_eq_some_iff]
    constructor
    · rintro ⟨a, ha, hn⟩
      have hzero : a = 0 := UInt16.toNat_inj.mp hn
      rw [ha, hzero]
    · exact fun h => ⟨0, h, rfl⟩
  exact forall₂_congr fun j _ => hzero (start + j)

variable {bestStart : Option ℕ} {b bestLen fuel : ℕ} {prevCollapsed : Bool}

def separator (i : ℕ) (prevCollapsed : Bool) : List Char :=
  if i > 0 ∧ prevCollapsed = false then [':'] else []

theorem printGroups_end (hi : g.length ≤ i) :
    printGroups g bestStart bestLen fuel i prevCollapsed = [] := by
  cases fuel with
  | zero => rfl
  | succ fuel => rw [printGroups, List.getElem?_eq_none hi]

theorem printGroups_group (hi : i < g.length) (hne : bestStart ≠ some i) :
    printGroups g bestStart bestLen (fuel + 1) i prevCollapsed =
      separator i prevCollapsed ++
        (group g[i].toNat ++ printGroups g bestStart bestLen fuel (i + 1) false) := by
  rw [printGroups, List.getElem?_eq_getElem hi, ← List.append_assoc]
  exact if_neg hne

theorem printGroups_back (hstart : ∀ b ∈ bestStart, b < i) (hfuel : g.length ≤ i + fuel)
    (hi : i < g.length) : printGroups g bestStart bestLen fuel i prevCollapsed =
      separator i prevCollapsed ++ joined (values (g.drop i)) := by
  induction fuel generalizing i prevCollapsed with
  | zero => omega
  | succ fuel ih =>
    have hne : bestStart ≠ some i := fun h => Nat.lt_irrefl i (hstart i h)
    rw [printGroups_group hi hne, List.drop_eq_getElem_cons hi, values_cons]
    congr 1
    by_cases hlast : i + 1 < g.length
    · rw [ih (fun b hb => (hstart b hb).trans (Nat.lt_succ_self i)) (by omega) hlast,
        joined_cons _ (values_ne_nil hlast), separator, if_pos ⟨Nat.succ_pos i, rfl⟩]
      rfl
    · rw [printGroups_end (by omega), List.drop_of_length_le (by omega), List.append_nil]
      exact (joined_singleton _).symm

theorem printGroups_best (hlen : 0 < bestLen) (hb : b < g.length)
    (hfuel : g.length ≤ b + fuel) : printGroups g (some b) bestLen fuel b prevCollapsed =
      ':' :: ':' :: joined (values (g.drop (b + bestLen))) := by
  cases fuel with
  | zero => omega
  | succ fuel =>
    rw [printGroups, List.getElem?_eq_getElem hb]
    simp only [if_true, List.cons.injEq, true_and]
    by_cases hend : b + bestLen < g.length
    · rw [printGroups_back _ (by omega) hend]
      · simp [separator]
      · rintro _ ⟨⟩
        omega
    · rw [printGroups_end (by omega), List.drop_of_length_le (by omega)]
      rfl

theorem printGroups_front (hlen : 0 < bestLen) (hb : b < g.length) (hib : i < b)
    (hfuel : g.length ≤ i + fuel) : printGroups g (some b) bestLen fuel i prevCollapsed =
      separator i prevCollapsed ++
        collapsed (values ((g.take b).drop i)) (values (g.drop (b + bestLen))) := by
  induction fuel generalizing i prevCollapsed with
  | zero => omega
  | succ fuel ih =>
    have hi : i < (g.take b).length := by
      rw [List.length_take]
      omega
    have hne : some b ≠ some i := by
      rintro ⟨⟩
      omega
    rw [printGroups_group (by omega) hne, List.drop_eq_getElem_cons hi, values_cons,
      List.getElem_take]
    congr 1
    rcases Nat.lt_or_ge (i + 1) b with hlt | hge
    · have hrest : i + 1 < (g.take b).length := by
        rw [List.length_take]
        omega
      rw [ih hlt (by omega), collapsed, collapsed, joined_cons _ (values_ne_nil hrest), separator,
        if_pos ⟨Nat.succ_pos i, rfl⟩]
      simp
    · obtain rfl : i + 1 = b := by omega
      rw [printGroups_best hlen hb (by omega), collapsed, List.drop_of_length_le
        (List.length_take_le _ _)]
      simp [values]

/-- The text of eight groups shortens their first longest run. -/
theorem shortened_printGroups (hg : g.length = 8) : Shortened (values g)
    (printGroups g (findRun g 9).bestStart (findRun g 9).bestLen 8 0 false) := by
  obtain ⟨hle, hrun, -, -, hbest⟩ := scanned_findRun g 9
  have hin {start len : ℕ} (hrun : ZeroRun g start len) (hpos : 0 < len) : start + len ≤ 8 := by
    have := (zeroRun_iff.mpr hrun).add_le hpos
    rwa [length_values, hg] at this
  have hcl : (findRun g 9).cl = 0 := by
    by_contra hne
    have := hin hrun (Nat.pos_of_ne_zero hne)
    omega
  rw [hcl] at hbest
  cases hb : (findRun g 9).bestStart with
  | none =>
    rw [hb] at hbest
    rw [printGroups_back (by simp) (by omega) (by omega)]
    refine .full fun start len hrun => ?_
    rcases Nat.eq_zero_or_pos len with rfl | hpos
    · decide
    · have := hin (zeroRun_iff.mp hrun) hpos
      exact hbest.2 start len (zeroRun_iff.mp hrun) (by omega)
  | some b =>
    rw [hb] at hbest
    obtain ⟨hlen, hrun, hle, hfirst⟩ := hbest
    have hend := hin hrun (by omega)
    have hlongest : FirstLongest (values g) b (findRun g 9).bestLen := by
      refine ⟨zeroRun_iff.mpr hrun, fun start len hrun => ?_⟩
      rcases Nat.eq_zero_or_pos len with rfl | hpos
      · exact .inl (by omega)
      · have := hin (zeroRun_iff.mp hrun) hpos
        exact hfirst start len (zeroRun_iff.mp hrun) (by omega)
    have htext : printGroups g (some b) (findRun g 9).bestLen 8 0 false =
        collapsed ((values g).take b) ((values g).drop (b + (findRun g 9).bestLen)) := by
      rw [values, ← List.map_take, ← List.map_drop]
      rcases Nat.eq_zero_or_pos b with rfl | hpos
      · exact printGroups_best (by omega) (by omega) (by omega)
      · exact printGroups_front (by omega) (by omega) hpos (by omega)
    rw [htext]
    exact .collapsed hlen hlongest

theorem length_groups (addr : IPv6Address) : (IPv6Address.groups addr).length = 8 := by
  simp [IPv6Address.groups]

theorem bytes16_group (hi lo : UInt8) :
    Traced.bytes16 (hi.toUInt16 <<< 8 ||| lo.toUInt16).toNat = [hi, lo] := by
  have hvalue : (hi.toUInt16 <<< 8 ||| lo.toUInt16).toNat = Traced.be16 hi lo := by
    have hlt := hi.toNat_lt
    rw [UInt16.toNat_or, UInt16.toNat_shiftLeft, UInt8.toNat_toUInt16, UInt8.toNat_toUInt16,
      Nat.mod_eq_of_lt]
    · rfl
    · rw [Nat.shiftLeft_eq]
      simp
      omega
  have hlo := lo.toNat_lt
  have hdiv : (hi.toNat * 256 + lo.toNat) / 256 = hi.toNat := by omega
  rw [hvalue, Traced.be16_eq, Traced.bytes16, hdiv, UInt8.ofNat_toNat]
  simp

theorem flatMap_groups (addr : IPv6Address) :
    (values (IPv6Address.groups addr)).flatMap Traced.bytes16 = addr.toList := by
  have hlist : (List.finRange 16).map addr.get = addr.toList :=
    List.ext_getElem (by simp) (by simp [Vector.get])
  rw [values, IPv6Address.groups, List.map_map, List.flatMap_map, ← hlist]
  simp only [Function.comp_apply, bytes16_group]
  rfl

theorem shortened_ipv6ToString (addr : IPv6Address) :
    Shortened (values (IPv6Address.groups addr)) (ipv6ToString addr).toList := by
  rw [ipv6ToString, String.toList_ofList]
  exact shortened_printGroups (length_groups addr)

/-- What was printed is read back. -/
theorem readBytes_ipv6ToString (addr : IPv6Address) :
    readBytes (ipv6ToString addr).toList = some addr.toList := by
  have hread : AddressText.read (ipv6ToString addr).toList =
      some (values (IPv6Address.groups addr)) := by
    apply (shortened_ipv6ToString addr).read_eq
    · rw [length_values, length_groups]
    · rintro n hn
      obtain ⟨a, -, rfl⟩ := List.mem_map.mp hn
      exact a.toNat_lt
  rw [readBytes, hread, Option.map_some, flatMap_groups]

/--
The text of an address is read as the address and as no other one. In it `::` stands at most once,
for the first longest run of at least two zero groups, and no group has leading zeros.
-/
theorem ipv6ToString_canonical (addr : IPv6Address) :
    readBytes (ipv6ToString addr).toList = some addr.toList ∧
    (∀ addr', ipv6ToString addr' = ipv6ToString addr → addr' = addr) ∧
    doubles (ipv6ToString addr).toList ≤ 1 ∧
    Shortened (values (IPv6Address.groups addr)) (ipv6ToString addr).toList ∧
    NoLeadingZeros (ipv6ToString addr).toList := by
  have hread := readBytes_ipv6ToString addr
  have hshort := shortened_ipv6ToString addr
  refine ⟨hread, fun addr' heq => ?_, hshort.doubles_le, hshort, hshort.noLeadingZeros⟩
  have hread' := readBytes_ipv6ToString addr'
  rw [heq, hread] at hread'
  exact (Vector.toList_inj.mp (Option.some.inj hread')).symm

/-- The first of two longest runs. -/
example : ipv6ToString #v[0x20, 0x01, 0x0d, 0xb8, 0, 0, 0, 0, 0, 1, 0, 0, 0, 0, 0, 1] =
    "2001:db8::1:0:0:1" := by decide +kernel

end DpiEngine
