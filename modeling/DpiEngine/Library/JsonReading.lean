import DpiEngine.Library.JsonText
import Mathlib.Data.Finset.Max

/-! # Reading printed texts

A printer that leaves strings as they are is read back only if no string needs an
escape. A string that does would have to be written with an escape in some other
string, which is longer and needs an escape too.
-/

namespace JsonText

variable {s t v w b : List UInt8}

/-! ### Literals -/

/-- A body as a scanner sees it: bytes one by one, and a backslash with the byte behind it. -/
inductive Lexed : List UInt8 → Prop
  | nil : Lexed []
  | byte {c : UInt8} {s : List UInt8} : 0x20 ≤ c.toNat → c ≠ 0x22 → Lexed s → Lexed (c :: s)
  | escape {e : UInt8} {s : List UInt8} : 0x20 ≤ e.toNat → Lexed s → Lexed (0x5C :: e :: s)

theorem Lexed.bytes {u : List UInt8} (hu : ∀ c ∈ u, 0x20 ≤ c.toNat ∧ c ≠ 0x22) (h : Lexed s) :
    Lexed (u ++ s) := by
  induction u with
  | nil => exact h
  | cons c u ih =>
    obtain ⟨hc, hu⟩ := List.forall_mem_cons.mp hu
    exact .byte hc.1 hc.2 (ih hu)

theorem Lexed.newline_notMem (h : Lexed s) : 0x0A ∉ s := by
  have hne {c : UInt8} (hc : 0x20 ≤ c.toNat) : (0x0A : UInt8) ≠ c := by
    rintro rfl
    exact absurd hc (by decide)
  induction h with
  | nil => exact List.not_mem_nil
  | byte hc _ _ ih => simp [hne hc, ih]
  | escape he _ ih => simp [hne he, ih]

theorem Lexed.quote {x y : List UInt8} (h : Lexed s) (hs : s = x ++ 0x22 :: y) :
    x.getLast? = some 0x5C := by
  induction h generalizing x with
  | nil => simp at hs
  | @byte c s _ hc _ ih =>
    cases x with
    | nil => exact absurd (List.cons.inj hs).1 hc
    | cons d x =>
      have hlast := ih (List.cons.inj hs).2
      cases x with
      | nil => cases hlast
      | cons d' x => exact hlast
  | @escape e s _ _ ih =>
    rcases x with _ | ⟨d, _ | ⟨d', x⟩⟩
    · cases (List.cons.inj hs).1
    · rw [← (List.cons.inj hs).1]
      rfl
    · have hlast := ih (List.cons.inj (List.cons.inj hs).2).2
      cases x with
      | nil => cases hlast
      | cons d'' x => exact hlast

theorem toNat_of_hexValue {c : Char} {d : ℕ} (h : AddressText.hexValue c = some d) :
    0x30 ≤ c.toNat ∧ c.toNat < 0x80 := by
  have hle {a b : Char} (hab : a ≤ b) : a.toNat ≤ b.toNat := hab
  unfold AddressText.hexValue at h
  split_ifs at h with h₁ h₂ h₃
  · exact ⟨hle h₁.1, (hle h₁.2).trans_lt (by decide)⟩
  · exact ⟨le_trans (by decide) (hle h₂.1), (hle h₂.2).trans_lt (by decide)⟩
  · exact ⟨le_trans (by decide) (hle h₃.1), (hle h₃.2).trans_lt (by decide)⟩

theorem Lexed.codeUnit {ds : List Char} {n : ℕ} (h : AddressText.readHex ds = some n)
    (hs : Lexed s) : Lexed (codeUnit ds ++ s) := by
  have hdigits (ds : List Char) (m : ℕ) (h : ds.foldlM
      (fun n c => (AddressText.hexValue c).map (16 * n + ·)) m = some n) :
      ∀ c ∈ ds, ∃ d, AddressText.hexValue c = some d := by
    induction ds generalizing m with
    | nil => exact fun _ hc => absurd hc List.not_mem_nil
    | cons c ds ih =>
      rw [List.foldlM_cons, Option.bind_eq_bind, Option.bind_eq_some_iff] at h
      obtain ⟨m', hm', hrest⟩ := h
      obtain ⟨d, hd, -⟩ := Option.map_eq_some_iff.mp hm'
      exact List.forall_mem_cons.mpr ⟨⟨d, hd⟩, ih m' hrest⟩
  refine .escape (by decide) (.bytes (fun b hb => ?_) hs)
  obtain ⟨c, hc, rfl⟩ := List.mem_map.mp hb
  obtain ⟨d, hd⟩ := hdigits ds 0 h c hc
  have hbyte := toNat_of_hexValue hd
  have htoNat : (UInt8.ofNat c.toNat).toNat = c.toNat := by
    rw [UInt8.toNat_ofNat']
    omega
  refine ⟨by omega, fun heq => ?_⟩
  rw [heq] at htoNat
  have hquote : (0x22 : UInt8).toNat = 0x22 := rfl
  omega

theorem Body.lexed (h : Body s v) : Lexed s := by
  induction h with
  | nil => exact .nil
  | @char c s v hc _ ih =>
    refine .bytes (fun b hb => ?_) ih
    rcases mem_utf8EncodeChar hb with hhigh | heq
    · exact ⟨by omega, fun hb => absurd (hb ▸ hhigh) (by decide)⟩
    · exact ⟨heq ▸ hc.1, fun hb => hc.2.1 (heq.symm.trans (congrArg UInt8.toNat hb))⟩
  | @escape e b s v he _ ih =>
    have hall : ∀ p ∈ escapes, 0x20 ≤ p.1.toNat := by simp [escapes]
    exact .escape (hall _ he) ih
  | unicode _ hn _ ih => exact ih.codeUnit hn
  | surrogates _ _ hn hn' _ _ _ _ _ _ ih =>
    rw [List.append_assoc]
    exact (ih.codeUnit hn').codeUnit hn

theorem length_utf8EncodeChar_le (c : Char) : (String.utf8EncodeChar c).length ≤ 4 := by
  rw [String.length_utf8EncodeChar]
  exact c.utf8Size_le_four

theorem Body.plain_or_escaped (h : Body s v) :
    s = v ∧ Plain v ∨ v.length < s.length ∧ 0x5C ∈ s := by
  have hunit (ds : List Char) : (codeUnit ds).length = ds.length + 2 ∧ 0x5C ∈ codeUnit ds := by
    simp [codeUnit]
  have hlength {s v : List UInt8} (h : s = v ∧ Plain v ∨ v.length < s.length ∧ 0x5C ∈ s) :
      v.length ≤ s.length := by
    rcases h with ⟨rfl, -⟩ | ⟨hlt, -⟩
    · exact le_rfl
    · exact hlt.le
  induction h with
  | nil => exact .inl ⟨rfl, [], by simp, rfl⟩
  | @char c s v hc _ ih =>
    rcases ih with ⟨rfl, cs, hcs, rfl⟩ | ⟨hlt, hmem⟩
    · exact .inl ⟨rfl, c :: cs, List.forall_mem_cons.mpr ⟨hc, hcs⟩, rfl⟩
    · refine .inr ⟨?_, List.mem_append_right _ hmem⟩
      rw [List.length_append, List.length_append]
      omega
  | @escape e b s v _ _ ih =>
    have hle := hlength ih
    refine .inr ⟨?_, List.mem_cons_self⟩
    simp only [List.length_cons]
    omega
  | @unicode ds c s v hds _ _ ih =>
    have hc := length_utf8EncodeChar_le c
    have hle := hlength ih
    refine .inr ⟨?_, List.mem_append_left _ (hunit ds).2⟩
    rw [List.length_append, List.length_append, (hunit ds).1]
    omega
  | @surrogates ds ds' n n' c s v hds hds' _ _ _ _ _ _ _ _ ih =>
    have hc := length_utf8EncodeChar_le c
    have hle := hlength ih
    refine .inr ⟨?_, List.mem_append_left _ (List.mem_append_left _ (hunit ds).2)⟩
    simp only [List.length_append, (hunit _).1]
    omega

/-! ### The strings of a document -/

mutual

theorem value_strings : (j : Json) → {s : List UInt8} → Value s j → ∀ w ∈ strings j,
    ∃ b, quoted b <:+: s ∧ Body b w
  | .null, _, _, _, hw => absurd hw List.not_mem_nil
  | .bool _, _, _, _, hw => absurd hw List.not_mem_nil
  | .number _, _, _, _, hw => absurd hw List.not_mem_nil
  | .string t, _, h, w, hw => by
    obtain rfl := List.mem_singleton.mp hw
    cases h with
    | string hlit =>
      obtain ⟨b, rfl, hb⟩ := hlit
      exact ⟨b, List.infix_rfl, hb⟩
  | .array vs, _, h, w, hw => by
    cases h with
    | emptyArray _ => exact absurd hw List.not_mem_nil
    | @array s _ hitems =>
      obtain ⟨b, hlies, hb⟩ := items_strings vs hitems w hw
      exact ⟨b, hlies.trans ⟨[0x5B], [0x5D], rfl⟩, hb⟩
  | .object ms, _, h, w, hw => by
    cases h with
    | emptyObject _ => exact absurd hw List.not_mem_nil
    | @object s _ hmembers =>
      obtain ⟨b, hlies, hb⟩ := members_strings ms hmembers w hw
      exact ⟨b, hlies.trans ⟨[0x7B], [0x7D], rfl⟩, hb⟩

theorem items_strings : (js : List Json) → {s : List UInt8} → Items s js →
    ∀ w ∈ stringsOfItems js, ∃ b, quoted b <:+: s ∧ Body b w
  | [], _, h, _, _ => nomatch h
  | j :: js, _, h, w, hw => by
    rw [stringsOfItems, List.mem_append] at hw
    cases h with
    | @last a s c _ _ hj _ =>
      rcases hw with hw | hw
      · obtain ⟨b, hlies, hb⟩ := value_strings j hj w hw
        exact ⟨b, hlies.trans ⟨a, c, rfl⟩, hb⟩
      · exact absurd hw List.not_mem_nil
    | @more a s c rest _ _ _ hj _ hrest =>
      rcases hw with hw | hw
      · obtain ⟨b, hlies, hb⟩ := value_strings j hj w hw
        exact ⟨b, hlies.trans ⟨a, c ++ 0x2C :: rest, by simp⟩, hb⟩
      · obtain ⟨b, hlies, hb⟩ := items_strings js hrest w hw
        exact ⟨b, hlies.trans ⟨a ++ s ++ c ++ [0x2C], [], by simp⟩, hb⟩

theorem members_strings : (ms : List (List UInt8 × Json)) → {s : List UInt8} → Members s ms →
    ∀ w ∈ stringsOfMembers ms, ∃ b, quoted b <:+: s ∧ Body b w
  | [], _, h, _, _ => nomatch h
  | (k, j) :: ms, _, h, w, hw => by
    rw [stringsOfMembers, List.mem_append] at hw
    cases h with
    | @last a key _ c a' s c' _ _ _ _ _ hj _ =>
      rcases hw with hw | hw
      · obtain ⟨b, hlies, hb⟩ := value_strings j hj w hw
        exact ⟨b, hlies.trans ⟨a ++ key ++ c ++ 0x3A :: a', c', by simp⟩, hb⟩
      · exact absurd hw List.not_mem_nil
    | @more a key _ c a' s c' rest _ _ _ _ _ _ hj _ hrest =>
      rcases hw with hw | hw
      · obtain ⟨b, hlies, hb⟩ := value_strings j hj w hw
        exact ⟨b, hlies.trans ⟨a ++ key ++ c ++ 0x3A :: a', c' ++ 0x2C :: rest, by simp⟩, hb⟩
      · obtain ⟨b, hlies, hb⟩ := members_strings ms hrest w hw
        exact ⟨b, hlies.trans ⟨a ++ key ++ c ++ 0x3A :: (a' ++ s ++ c' ++ [0x2C]), [], by simp⟩,
          hb⟩

end

/-! ### The strings of a printed text -/

/-- Every literal of the text that has an escape lies in one of the strings. -/
def Enclosed (t : List UInt8) (ws : List (List UInt8)) : Prop :=
  ∀ b, Lexed b → 0x5C ∈ b → quoted b <:+: t → ∃ w ∈ ws, b <:+: w

variable {ws ws' : List (List UInt8)} {p q : List UInt8}

theorem mem_quoted_of_mem {c : UInt8} (h : c ∈ b) : c ∈ quoted b :=
  List.mem_cons_of_mem _ (List.mem_append_left _ h)

theorem enclosed_of_notMem (h : 0x5C ∉ t) : Enclosed t ws :=
  fun _ _ hmem hlies => absurd (hlies.subset (mem_quoted_of_mem hmem)) h

theorem infix_of_notMem {c : UInt8} (h : b <:+: s ++ c :: t) (hc : c ∉ b) :
    b <:+: s ∨ b <:+: t := by
  rcases List.infix_append_iff_ne_nil.mp h with h | h | ⟨l₁, l₂, -, hne, rfl, -, h⟩
  · exact .inl h
  · rcases List.infix_cons_iff.mp h with h | h
    · rcases List.prefix_cons_iff.mp h with rfl | ⟨u, rfl, -⟩
      · exact .inl (List.nil_infix)
      · exact absurd List.mem_cons_self hc
    · exact .inr h
  · rcases List.prefix_cons_iff.mp h with rfl | ⟨u, rfl, -⟩
    · exact absurd rfl hne
    · exact absurd (List.mem_append_right _ List.mem_cons_self) hc

theorem Enclosed.lines (h : Enclosed s ws) (h' : Enclosed t ws') :
    Enclosed (s ++ 0x0A :: t) (ws ++ ws') := by
  intro b hb hmem hlies
  have hline : 0x0A ∉ quoted b := by simp [quoted, hb.newline_notMem]
  rcases infix_of_notMem hlies hline with hlies | hlies
  · obtain ⟨w, hw, hlies⟩ := h b hb hmem hlies
    exact ⟨w, List.mem_append_left _ hw, hlies⟩
  · obtain ⟨w, hw, hlies⟩ := h' b hb hmem hlies
    exact ⟨w, List.mem_append_right _ hw, hlies⟩

theorem infix_of_front (hb : Lexed b) (hmem : 0x5C ∈ b) (hp : 0x5C ∉ p)
    (h : quoted b <:+: p ++ 0x22 :: t) : quoted b <:+: 0x22 :: t := by
  rcases List.infix_append_iff_ne_nil.mp h with h | h | ⟨l₁, l₂, hne₁, hne₂, heq, h₁, h₂⟩
  · exact absurd (h.subset (mem_quoted_of_mem hmem)) hp
  · exact h
  exfalso
  obtain rfl | ⟨u, rfl, -⟩ := List.prefix_cons_iff.mp h₂
  · exact hne₂ rfl
  obtain ⟨c, x, rfl⟩ := List.exists_cons_of_ne_nil hne₁
  have hbody : b ++ [0x22] = x ++ 0x22 :: u := (List.cons.inj heq).2
  have hx : 0x5C ∉ x := fun hx => hp (h₁.subset (List.mem_cons_of_mem _ hx))
  rcases u.eq_nil_or_concat with rfl | ⟨u, d, rfl⟩
  · rw [List.append_cancel_right hbody] at hmem
    exact hx hmem
  · rw [List.concat_eq_append, ← List.cons_append, ← List.append_assoc] at hbody
    exact hx (List.mem_of_getLast? (hb.quote (List.append_inj' hbody rfl).1))

theorem infix_of_back (hq : 0x22 ∉ q) (h : quoted b <:+: 0x22 :: w ++ 0x22 :: q) : b <:+: w := by
  have hinner : b <:+: quoted b := ⟨[0x22], [0x22], rfl⟩
  rcases List.infix_append_iff_ne_nil.mp h with h | h | ⟨l₁, l₂, hne₁, hne₂, heq, h₁, h₂⟩
  · rcases List.infix_cons_iff.mp h with h | h
    · exact ((List.prefix_append b _).trans (List.cons_prefix_cons.mp h).2).isInfix
    · exact hinner.trans h
  · rcases List.infix_cons_iff.mp h with h | h
    · have hclose : 0x22 ∈ b ++ [0x22] := List.mem_append_right _ (List.mem_singleton_self _)
      exact absurd ((List.cons_prefix_cons.mp h).2.subset hclose) hq
    · exact absurd (h.subset List.mem_cons_self) hq
  · obtain rfl | ⟨u, rfl, hu⟩ := List.prefix_cons_iff.mp h₂
    · exact absurd rfl hne₂
    rcases u.eq_nil_or_concat with rfl | ⟨u, d, rfl⟩
    · obtain rfl : 0x22 :: b = l₁ := List.append_cancel_right heq
      rcases List.suffix_cons_iff.mp h₁ with heq | h
      · exact (List.cons.inj heq).2 ▸ List.infix_rfl
      · exact (List.suffix_cons _ b).isInfix.trans h.isInfix
    · have hend : (0x22 :: b) ++ [0x22] = (l₁ ++ 0x22 :: u) ++ [d] := by
        simpa [quoted] using heq
      obtain rfl := List.singleton_inj.mp (List.append_inj' hend rfl).2
      exact absurd (hu.subset (by simp)) hq

theorem enclosed_string (hp : 0x5C ∉ p) (hq : 0x22 ∉ q) : Enclosed (p ++ quoted w ++ q) [w] := by
  intro b hb hmem hlies
  refine ⟨w, List.mem_singleton_self w, infix_of_back hq ?_⟩
  have hsplit : p ++ quoted w ++ q = p ++ 0x22 :: (w ++ 0x22 :: q) := by simp [quoted]
  rw [hsplit] at hlies
  exact infix_of_front hb hmem hp hlies

theorem IsNumber.backslash_notMem (h : IsNumber s) : 0x5C ∉ s := by
  have hdigits {ds : List UInt8} (hds : IsDigits ds) : 0x5C ∉ ds :=
    fun hmem => absurd (hds.2 _ hmem).2 (by decide)
  obtain ⟨hminus, hint, hfrac, hexp⟩ := h
  simp only [List.mem_append, not_or]
  refine ⟨⟨⟨?_, hdigits hint.1⟩, ?_⟩, ?_⟩
  · rcases hminus with rfl | rfl <;> simp
  · rcases hfrac with rfl | ⟨ds, hds, rfl⟩
    · exact List.not_mem_nil
    · simp [hdigits hds]
  · rcases hexp with rfl | ⟨e, sign, ds, he, hsign, hds, rfl⟩
    · exact List.not_mem_nil
    · have hsign : 0x5C ∉ sign := by
        simp only [List.mem_cons, List.not_mem_nil, or_false] at hsign
        rcases hsign with rfl | rfl | rfl <;> simp
      rcases he with rfl | rfl <;> simp [hsign, hdigits hds]

theorem exists_lineEnd {α : Type} (rest : List α) :
    ∃ c, lineEnd rest = c ++ [0x0A] ∧ 0x5C ∉ c ∧ 0x22 ∉ c := by
  cases rest with
  | nil => exact ⟨[], rfl, by simp⟩
  | cons a rest => exact ⟨[0x2C], rfl, by simp⟩

theorem backslash_notMem_blanks (n : ℕ) : 0x5C ∉ blanks n := by
  simp [blanks, List.mem_replicate]

theorem Plain.backslash_notMem (h : Plain s) : 0x5C ∉ s :=
  fun hmem => (h.byte _ hmem).2.2 rfl

mutual

/-- Strings that the printer leaves as they are enclose all literals with an escape. -/
theorem enclosed_print (indent : ℕ) : (j : Json) → Shaped j → {p q : List UInt8} → 0x5C ∉ p →
    0x5C ∉ q → 0x22 ∉ q → Enclosed (p ++ print indent j ++ q) (strings j)
  | .null, _, _, _, hp, hq, _ => enclosed_of_notMem (by simp [print, hp, hq])
  | .bool true, _, _, _, hp, hq, _ => enclosed_of_notMem (by simp [print, hp, hq])
  | .bool false, _, _, _, hp, hq, _ => enclosed_of_notMem (by simp [print, hp, hq])
  | .number s, h, _, _, hp, hq, _ =>
    enclosed_of_notMem (by simp [print, hp, hq, IsNumber.backslash_notMem h])
  | .string s, _, _, _, hp, _, hq => enclosed_string hp hq
  | .array js, h, p, q, hp, hq, _ => by
    have hback : 0x5C ∉ blanks indent ++ 0x5D :: q := by simp [backslash_notMem_blanks, hq]
    have hfirst : Enclosed (p ++ [0x5B]) [] := enclosed_of_notMem (by simp [hp])
    have hlines := hfirst.lines (enclosed_items (indent + 2) js h hback)
    simpa [print, strings] using hlines
  | .object ms, h, p, q, hp, hq, _ => by
    have hback : 0x5C ∉ blanks indent ++ 0x7D :: q := by simp [backslash_notMem_blanks, hq]
    have hfirst : Enclosed (p ++ [0x7B]) [] := enclosed_of_notMem (by simp [hp])
    have hlines := hfirst.lines (enclosed_members (indent + 2) ms h hback)
    simpa [print, strings] using hlines

theorem enclosed_items (indent : ℕ) : (js : List Json) → ShapedItems js → {q : List UInt8} →
    0x5C ∉ q → Enclosed (printItems indent js ++ q) (stringsOfItems js)
  | [], _, _, hq => enclosed_of_notMem hq
  | j :: js, h, q, hq => by
    obtain ⟨c, hline, hslash, hquote⟩ := exists_lineEnd js
    have hfirst := enclosed_print indent j h.1 (backslash_notMem_blanks indent) hslash hquote
    have hlines := hfirst.lines (enclosed_items indent js h.2 hq)
    simpa [printItems, stringsOfItems, hline] using hlines

theorem enclosed_members (indent : ℕ) : (ms : List (List UInt8 × Json)) → ShapedMembers ms →
    {q : List UInt8} → 0x5C ∉ q → Enclosed (printMembers indent ms ++ q) (stringsOfMembers ms)
  | [], _, _, hq => enclosed_of_notMem hq
  | (k, j) :: ms, h, q, hq => by
    obtain ⟨c, hline, hslash, hquote⟩ := exists_lineEnd ms
    have hname : 0x5C ∉ blanks indent ++ quoted k ++ [0x3A, 0x20] := by
      simp [quoted, backslash_notMem_blanks, h.1.backslash_notMem]
    have hfirst := enclosed_print indent j h.2.1 hname hslash hquote
    have hlines := hfirst.lines (enclosed_members indent ms h.2.2 hq)
    simpa [printMembers, stringsOfMembers, hline] using hlines

end

/--
If a printed text is a document with all strings that need an escape, then there are none: a string
of most bytes would be written in a longer one that needs an escape too.
-/
theorem plain_of_document {j j' : Json} (h : Shaped j) (hdoc : Document (print 0 j ++ [0x0A]) j')
    (hread : ∀ s ∈ strings j, Plain s ∨ s ∈ strings j') : ∀ s ∈ strings j, Plain s := by
  classical
  have hlonger (s) (hs : s ∈ strings j) (hplain : ¬ Plain s) :
      ∃ w ∈ strings j, ¬ Plain w ∧ s.length < w.length := by
    obtain ⟨a, t, c, -, ht, -, htext⟩ := hdoc
    obtain ⟨b, hlies, hbody⟩ := value_strings j' ht s ((hread s hs).resolve_left hplain)
    rcases hbody.plain_or_escaped with ⟨-, hp⟩ | ⟨hlt, hmem⟩
    · exact absurd hp hplain
    have hwhole : quoted b <:+: print 0 j ++ [0x0A] := htext ▸ hlies.trans ⟨a, c, rfl⟩
    obtain ⟨w, hw, hbw⟩ := enclosed_print 0 j h List.not_mem_nil (by simp) (by simp) b hbody.lexed
      hmem hwhole
    exact ⟨w, hw, fun hp => hp.backslash_notMem (hbw.subset hmem), hlt.trans_le hbw.length_le⟩
  intro s hs
  by_contra hplain
  obtain ⟨w, hw, hmax⟩ := ((strings j).toFinset.filter (¬ Plain ·)).exists_max_image List.length
    ⟨s, by simp [hs, hplain]⟩
  simp only [Finset.mem_filter, List.mem_toFinset] at hw hmax
  obtain ⟨w', hw', hplain', hlt⟩ := hlonger w hw.1 hw.2
  exact absurd (hmax w' ⟨hw', hplain'⟩) (Nat.not_le.mpr hlt)

end JsonText
