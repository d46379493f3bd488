import DpiEngine.Library.Bytes
import DpiEngine.Library.Digits
import Mathlib.Data.List.Chain

/-! # The text of IPv6 addresses

An address is eight groups between colons, each one to four hexadecimal digits.
Once in an address `::` may stand for one or more zero groups, and an IPv4
address in dotted decimal may stand for the last two. The reader takes all these
forms. A text without leading zeros whose `::` stands for the first longest run
of zero groups is read back.
-/

namespace AddressText

def hexValue (c : Char) : Option ℕ :=
  if '0' ≤ c ∧ c ≤ '9' then some (c.toNat - 48)
  else if 'a' ≤ c ∧ c ≤ 'f' then some (c.toNat - 87)
  else if 'A' ≤ c ∧ c ≤ 'F' then some (c.toNat - 55)
  else none

def readHex (s : List Char) : Option ℕ :=
  s.foldlM (fun n c => (hexValue c).map (16 * n + ·)) 0

def readGroup (s : List Char) : Option ℕ :=
  if s = [] ∨ 4 < s.length then none else readHex s

def readOctet (s : List Char) : Option ℕ :=
  if s = [] ∨ 3 < s.length ∨ ¬ s.all Char.isDigit then none
  else if 255 < Nat.ofDigitChars 10 s 0 then none
  else some (Nat.ofDigitChars 10 s 0)

/-- The last piece of an address: a group or an IPv4 address for two groups. -/
def readLast (s : List Char) : Option (List ℕ) :=
  match readGroup s with
  | some n => some [n]
  | none =>
    match (s.splitOn '.').mapM readOctet with
    | some [a, b, c, d] => some [256 * a + b, 256 * c + d]
    | _ => none

def readGroups : List (List Char) → Option (List ℕ)
  | [] => some []
  | [s] => readLast s
  | s :: rest => (readGroup s).bind fun n => (readGroups rest).map (n :: ·)

def pieces (s : List Char) : List (List Char) := if s = [] then [] else s.splitOn ':'

def splitDouble : List Char → Option (List Char × List Char)
  | [] => none
  | c :: s =>
    if [':', ':'] <+: c :: s then some ([], s.drop 1)
    else (splitDouble s).map fun (front, back) => (c :: front, back)

def read (s : List Char) : Option (List ℕ) :=
  match splitDouble s with
  | none => (readGroups (pieces s)).bind fun gs => if gs.length = 8 then some gs else none
  | some (front, back) =>
    ((pieces front).mapM readGroup).bind fun before =>
      (readGroups (pieces back)).bind fun after =>
        if before.length + after.length < 8 then
          some (before ++ List.replicate (8 - (before.length + after.length)) 0 ++ after)
        else none

def readBytes (s : List Char) : Option (List UInt8) := (read s).map (·.flatMap Traced.bytes16)

def group (n : ℕ) : List Char := Nat.toDigits 16 n

def joined (gs : List ℕ) : List Char := [':'].intercalate (gs.map group)

def collapsed (before after : List ℕ) : List Char := joined before ++ ':' :: ':' :: joined after

def IsZeroRun (gs : List ℕ) (start len : ℕ) : Prop := ∀ j < len, gs[start + j]? = some 0

/-- The first one of the longest runs of zero groups. -/
structure FirstLongest (gs : List ℕ) (start len : ℕ) : Prop where
  run : IsZeroRun gs start len
  first : ∀ start' len', IsZeroRun gs start' len' → len' < len ∨ len' = len ∧ start ≤ start'

/-- The text of groups in which `::` stands for the first longest run, if it has two groups. -/
inductive Shortened (gs : List ℕ) : List Char → Prop
  | full : (∀ start len, IsZeroRun gs start len → len < 2) → Shortened gs (joined gs)
  | collapsed {start len : ℕ} : 2 ≤ len → FirstLongest gs start len →
    Shortened gs (collapsed (gs.take start) (gs.drop (start + len)))

/-! ### Groups -/

variable {n : ℕ} {gs before after : List ℕ}

theorem hexValue_digitChar {d : ℕ} (h : d < 16) : hexValue d.digitChar = some d := by
  revert d
  decide

theorem digitChar_ne_colon {d : ℕ} (h : d < 16) : d.digitChar ≠ ':' := by
  intro heq
  have := hexValue_digitChar h
  rw [heq] at this
  cases this

theorem readHex_group (n : ℕ) : readHex (group n) = some n := by
  induction n using Digits.induction 16 (by decide) with
  | one n h =>
    rw [group, Nat.toDigits_of_lt_base h]
    simp [readHex, hexValue_digitChar h]
  | more n h ih =>
    have hd : n % 16 < 16 := Nat.mod_lt n (by decide)
    rw [readHex, group] at ih
    rw [readHex, group, Nat.toDigits_of_base_le (by decide) h, List.foldlM_append, ih]
    simp [hexValue_digitChar hd, Nat.div_add_mod]

theorem group_ne_nil (n : ℕ) : group n ≠ [] := Nat.toDigits_ne_nil

theorem colon_notMem_group (n : ℕ) : ':' ∉ group n := by
  intro h
  obtain ⟨d, hd, heq⟩ := Digits.exists_digitChar (by decide) h
  exact digitChar_ne_colon hd heq

theorem group_of_head (h : (group n).head? = some '0') : group n = ['0'] := by
  obtain rfl := Digits.eq_zero_of_head (by decide) (by decide) h
  rfl

theorem readGroup_group (h : n < 65536) : readGroup (group n) = some n := by
  have hlength : (group n).length ≤ 4 := (Nat.length_toDigits_le_iff (by decide) (by decide)).mpr h
  rw [readGroup, if_neg, readHex_group]
  rintro (hnil | hlong)
  · exact group_ne_nil n hnil
  · omega

/-! ### Groups between colons -/

@[simp] theorem joined_nil : joined [] = [] := rfl

@[simp] theorem joined_singleton (n : ℕ) : joined [n] = group n := List.intercalate_singleton

theorem joined_cons (n : ℕ) (h : gs ≠ []) : joined (n :: gs) = group n ++ ':' :: joined gs := by
  rw [joined, List.map_cons, List.intercalate_cons_of_ne_nil (by simpa using h)]
  simp [joined]

theorem joined_ne_nil (h : gs ≠ []) : joined gs ≠ [] := by
  cases gs with
  | nil => exact absurd rfl h
  | cons n gs =>
    cases gs with
    | nil =>
      rw [joined_singleton]
      exact group_ne_nil n
    | cons m gs => simp [joined_cons n]

theorem splitOn_joined (h : gs ≠ []) : (joined gs).splitOn ':' = gs.map group := by
  refine List.splitOn_intercalate ':' ?_ (by simpa using h)
  rintro l hl
  obtain ⟨n, -, rfl⟩ := List.mem_map.mp hl
  exact colon_notMem_group n

theorem pieces_joined (gs : List ℕ) : pieces (joined gs) = gs.map group := by
  by_cases h : gs = []
  · subst h
    rfl
  · rw [pieces, if_neg (joined_ne_nil h), splitOn_joined h]

theorem mapM_readGroup (h : ∀ n ∈ gs, n < 65536) : (gs.map group).mapM readGroup = some gs := by
  induction gs with
  | nil => rfl
  | cons n gs ih =>
    obtain ⟨hn, hgs⟩ := List.forall_mem_cons.mp h
    simp [readGroup_group hn, ih hgs]

theorem readGroups_map (h : ∀ n ∈ gs, n < 65536) : readGroups (gs.map group) = some gs := by
  induction gs with
  | nil => rfl
  | cons n gs ih =>
    obtain ⟨hn, hgs⟩ := List.forall_mem_cons.mp h
    cases gs with
    | nil => simp [readGroups, readLast, readGroup_group hn]
    | cons m gs =>
      rw [List.map_cons, List.map_cons, readGroups, readGroup_group hn, ← List.map_cons, ih hgs]
      · rfl
      · exact List.cons_ne_nil _ _

/-! ### Double colons -/

def Single (a b : Char) : Prop := ¬ (a = ':' ∧ b = ':')

/-- The number of places where `::` stands. -/
def doubles (s : List Char) : ℕ := s.tails.countP fun t => decide ([':', ':'] <+: t)

theorem chain_group_append (n : ℕ) {s : List Char} (h : List.IsChain Single s) :
    List.IsChain Single (':' :: group n ++ s) := by
  have hcolon : ∀ c ∈ group n, c ≠ ':' := by
    rintro c hc rfl
    exact colon_notMem_group n hc
  have hchain (l : List Char) (hl : ∀ c ∈ l, c ≠ ':') (a : Char) :
      List.IsChain Single (a :: l) := by
    induction l generalizing a with
    | nil => exact .singleton a
    | cons c l ih =>
      obtain ⟨hc, hl⟩ := List.forall_mem_cons.mp hl
      exact .cons_cons (fun hpair => hc hpair.2) (ih hl c)
  refine (hchain _ hcolon ':').append h ?_
  rintro a ha b - ⟨rfl, -⟩
  rw [List.getLast?_cons_of_ne_nil (group_ne_nil n)] at ha
  exact hcolon _ (List.mem_of_getLast? ha) rfl

theorem chain_joined (h : gs ≠ []) : List.IsChain Single (':' :: joined gs ++ [':']) := by
  induction gs with
  | nil => exact absurd rfl h
  | cons n gs ih =>
    by_cases hgs : gs = []
    · subst hgs
      rw [joined_singleton]
      exact chain_group_append n (.singleton ':')
    · have hsplit : ':' :: joined (n :: gs) ++ [':'] =
          ':' :: group n ++ (':' :: joined gs ++ [':']) := by
        simp [joined_cons n hgs]
      rw [hsplit]
      exact chain_group_append n (ih hgs)

theorem chain_front (gs : List ℕ) : List.IsChain Single (joined gs ++ [':']) := by
  by_cases h : gs = []
  · subst h
    exact .singleton ':'
  · exact (chain_joined h).tail

theorem chain_back (gs : List ℕ) : List.IsChain Single (':' :: joined gs) := by
  by_cases h : gs = []
  · subst h
    exact .singleton ':'
  · exact (chain_joined h).left_of_append

theorem not_prefix_of_single {c d : Char} {s : List Char} (h : Single c d) :
    ¬ [':', ':'] <+: c :: d :: s := by
  intro hpair
  simp only [List.cons_prefix_cons, List.nil_prefix, and_true] at hpair
  exact h ⟨hpair.1.symm, hpair.2.symm⟩

theorem not_prefix_of_chain {c : Char} {s : List Char} (h : List.IsChain Single (c :: s)) :
    ¬ [':', ':'] <+: c :: s := by
  cases s with
  | nil => simp [List.cons_prefix_cons]
  | cons d s => exact not_prefix_of_single (List.isChain_cons_cons.mp h).1

theorem splitDouble_of_chain {s : List Char} (h : List.IsChain Single s) :
    splitDouble s = none := by
  induction s with
  | nil => rfl
  | cons c s ih => rw [splitDouble, if_neg (not_prefix_of_chain h), ih h.tail, Option.map_none]

theorem doubles_cons (c : Char) (s : List Char) :
    doubles (c :: s) = doubles s + if [':', ':'] <+: c :: s then 1 else 0 := by
  rw [doubles, List.tails, List.countP_cons]
  simp [doubles]

theorem doubles_of_chain {s : List Char} (h : List.IsChain Single s) : doubles s = 0 := by
  induction s with
  | nil => rfl
  | cons c s ih => rw [doubles_cons, ih h.tail, if_neg (not_prefix_of_chain h)]

theorem not_prefix_of_front {c : Char} {s t : List Char}
    (h : List.IsChain Single (c :: s ++ [':'])) : ¬ [':', ':'] <+: c :: s ++ ':' :: t := by
  cases s with
  | nil => exact not_prefix_of_single (List.isChain_cons_cons.mp h).1
  | cons d s => exact not_prefix_of_single (List.isChain_cons_cons.mp h).1

theorem splitDouble_append {s t : List Char} (h : List.IsChain Single (s ++ [':'])) :
    splitDouble (s ++ ':' :: ':' :: t) = some (s, t) := by
  induction s with
  | nil => simp [splitDouble]
  | cons c s ih =>
    have hnot := not_prefix_of_front (t := ':' :: t) h
    rw [List.cons_append] at hnot ⊢
    rw [splitDouble, if_neg hnot, ih h.tail]
    rfl

theorem doubles_append {s t : List Char} (h : List.IsChain Single (s ++ [':'])) :
    doubles (s ++ ':' :: t) = doubles (':' :: t) := by
  induction s with
  | nil => rfl
  | cons c s ih =>
    have hnot := not_prefix_of_front (t := t) h
    rw [List.cons_append] at hnot ⊢
    rw [doubles_cons, if_neg hnot, ih h.tail, Nat.add_zero]

/-! ### Addresses -/

/-- The digits between colons have no zeros in front. -/
def NoLeadingZeros (s : List Char) : Prop :=
  ∀ piece ∈ s.splitOn ':', piece.head? = some '0' → piece = ['0']

theorem doubles_joined (gs : List ℕ) : doubles (joined gs) = 0 :=
  doubles_of_chain (chain_front gs).left_of_append

theorem doubles_collapsed (before after : List ℕ) : doubles (collapsed before after) = 1 := by
  rw [collapsed, doubles_append (chain_front before), doubles_cons,
    doubles_of_chain (chain_back after), if_pos ⟨joined after, rfl⟩]

theorem read_joined (hlength : gs.length = 8) (h : ∀ n ∈ gs, n < 65536) :
    read (joined gs) = some gs := by
  rw [read, splitDouble_of_chain (chain_front gs).left_of_append]
  simp [pieces_joined, readGroups_map h, hlength]

/-- The groups that a `::` stands for are zero. -/
theorem read_collapsed {z : ℕ} (hlength : before.length + z + after.length = 8)
    (hpos : 0 < z) (hbefore : ∀ n ∈ before, n < 65536) (hafter : ∀ n ∈ after, n < 65536) :
    read (collapsed before after) = some (before ++ List.replicate z 0 ++ after) := by
  have hzeros : 8 - (before.length + after.length) = z := by omega
  rw [read, collapsed, splitDouble_append (chain_front before)]
  simp only [pieces_joined, mapM_readGroup hbefore, readGroups_map hafter, Option.bind_some, hzeros]
  rw [if_pos (by omega)]

theorem noLeadingZeros_joined (gs : List ℕ) : NoLeadingZeros (joined gs) := by
  rintro piece hpiece hhead
  by_cases h : gs = []
  · subst h
    simp at hpiece
    rw [hpiece] at hhead
    cases hhead
  · rw [splitOn_joined h] at hpiece
    obtain ⟨n, -, rfl⟩ := List.mem_map.mp hpiece
    exact group_of_head hhead

theorem NoLeadingZeros.append {s t : List Char} (hs : NoLeadingZeros s) (ht : NoLeadingZeros t) :
    NoLeadingZeros (s ++ ':' :: t) := by
  rintro piece hpiece
  rw [List.splitOn_append_cons_self] at hpiece
  rcases List.mem_append.mp hpiece with h | h
  · exact hs piece h
  · exact ht piece h

theorem IsZeroRun.add_le {start len : ℕ} (h : IsZeroRun gs start len) (hpos : 0 < len) :
    start + len ≤ gs.length := by
  have hlast := h (len - 1) (by omega)
  have hlt := (List.getElem?_eq_some_iff.mp hlast).1
  omega

theorem IsZeroRun.split {start len : ℕ} (h : IsZeroRun gs start len) :
    gs.take start ++ List.replicate len 0 ++ gs.drop (start + len) = gs := by
  have hrun : (gs.drop start).take len = List.replicate len 0 := by
    refine List.ext_getElem? fun j => ?_
    by_cases hj : j < len
    · rw [List.getElem?_take_of_lt hj, List.getElem?_drop, h j hj]
      simp [hj]
    · simp [hj]
  rw [← hrun, List.append_assoc, ← List.drop_drop, List.take_append_drop, List.take_append_drop]

theorem noLeadingZeros_collapsed (before after : List ℕ) :
    NoLeadingZeros (collapsed before after) :=
  (noLeadingZeros_joined before).append
    (.append (s := []) (noLeadingZeros_joined []) (noLeadingZeros_joined after))

namespace Shortened

variable {s : List Char}

theorem doubles_le (h : Shortened gs s) : doubles s ≤ 1 := by
  cases h with
  | full => exact (doubles_joined gs).trans_le (Nat.zero_le 1)
  | collapsed => exact (doubles_collapsed _ _).le

theorem noLeadingZeros (h : Shortened gs s) : NoLeadingZeros s := by
  cases h with
  | full => exact noLeadingZeros_joined gs
  | collapsed => exact noLeadingZeros_collapsed _ _

theorem read_eq (h : Shortened gs s) (hlength : gs.length = 8) (hgs : ∀ n ∈ gs, n < 65536) :
    read s = some gs := by
  cases h with
  | full => exact read_joined hlength hgs
  | @collapsed start len hlen hfirst =>
    have hle := hfirst.run.add_le (by omega)
    rw [read_collapsed (z := len) _ (by omega), hfirst.run.split]
    · exact fun n hn => hgs n (List.mem_of_mem_take hn)
    · exact fun n hn => hgs n (List.mem_of_mem_drop hn)
    · rw [List.length_take, List.length_drop]
      omega

end Shortened

end AddressText
