import Mathlib.Data.List.Induction
import DpiEngine.Library.Weights

/-! # Tables that are filled by a loop

Each item is added to the entry of its key, which is made when the key comes for
the first time. So an entry is the sum of the items of its key, and the weights
of the entries are those of all items that have a key. If the order does not
matter for a sum, it does not matter for the table.
-/

namespace Grouping

variable {α β γ κ : Type*} [DecidableEq κ] {key : α → Option κ} {start : β} {add : β → α → β}
  {l l' : List α} {a : α} {k : κ}

def fill (key : α → Option κ) (start : β) (add : β → α → β) (t : AList fun _ : κ => β) (a : α) :
    AList fun _ : κ => β :=
  match key a with
  | none => t
  | some k => t.insert k (add ((t.lookup k).getD start) a)

/-- The table of all items. -/
def table (key : α → Option κ) (start : β) (add : β → α → β) (l : List α) :
    AList fun _ : κ => β :=
  l.foldl (fill key start add) ∅

def group (key : α → Option κ) (k : κ) (l : List α) : List α := l.filter fun a => key a = some k

theorem table_concat (l : List α) (a : α) :
    table key start add (l ++ [a]) = fill key start add (table key start add l) a := by
  rw [table, List.foldl_append]
  rfl

theorem group_concat_self (h : key a = some k) (l : List α) :
    group key k (l ++ [a]) = group key k l ++ [a] := by
  simp [group, List.filter_append, h]

theorem group_concat_of_ne (h : key a ≠ some k) (l : List α) :
    group key k (l ++ [a]) = group key k l := by
  simp [group, List.filter_append, h]

theorem lookup_table (l : List α) (k : κ) :
    (table key start add l).lookup k =
      if group key k l = [] then none else some ((group key k l).foldl add start) := by
  induction l using List.reverseRecOn with
  | nil => rfl
  | append_singleton l a ih =>
    rw [table_concat]
    by_cases hk : key a = some k
    · have hne : group key k l ++ [a] ≠ [] := List.append_ne_nil_of_right_ne_nil _ (by simp)
      have hfill : fill key start add (table key start add l) a = (table key start add l).insert k
          (add (((table key start add l).lookup k).getD start) a) := by
        rw [fill, hk]
      rw [group_concat_self hk, if_neg hne, hfill, AList.lookup_insert, ih, List.foldl_append]
      split_ifs with hnil
      · rw [hnil]
        rfl
      · rfl
    · rw [group_concat_of_ne hk, ← ih, fill]
      split
      · rfl
      · next k' hk' =>
        have hne : k ≠ k' := by
          rintro rfl
          exact hk hk'
        rw [AList.lookup_insert_ne hne]

variable (key start add)

/-- The order of the items does not matter for what a commutative sum shows. -/
theorem lookup_table_perm (obs : β → γ) (addObs : γ → α → γ)
    (hobs : ∀ b a, obs (add b a) = addObs (obs b) a)
    (hcomm : ∀ c a a', addObs (addObs c a) a' = addObs (addObs c a') a) (h : l.Perm l') (k : κ) :
    ((table key start add l).lookup k).map obs = ((table key start add l').lookup k).map obs := by
  have hfold (m : List α) : ∀ b, obs (m.foldl add b) = m.foldl addObs (obs b) := by
    induction m with
    | nil => exact fun b => rfl
    | cons a m ih =>
      intro b
      rw [List.foldl_cons, ih, hobs, List.foldl_cons]
  have hgroup : (group key k l).Perm (group key k l') := h.filter _
  have hnil : group key k l = [] ↔ group key k l' = [] := by
    constructor
    · intro hl
      exact (hl ▸ hgroup).symm.eq_nil
    · intro hl'
      exact (hl' ▸ hgroup).eq_nil
  rw [lookup_table, lookup_table]
  split_ifs with hl hl' hl'
  · rfl
  · exact absurd (hnil.mp hl) hl'
  · exact absurd (hnil.mpr hl') hl
  · have : RightCommutative addObs := ⟨hcomm⟩
    rw [Option.map_some, Option.map_some, hfold, hfold]
    exact congrArg some (hgroup.foldl_eq (obs start))

theorem weight_table {w : β → ℕ} {v : α → ℕ} (hstart : w start = 0)
    (hadd : ∀ b a, w (add b a) = w b + v a) (l : List α) :
    (table key start add l).weight w = ((l.filter fun a => (key a).isSome).map v).sum := by
  induction l using List.reverseRecOn with
  | nil => rfl
  | append_singleton l a ih =>
    rw [table_concat, List.filter_append, List.map_append, List.sum_append, ← ih, fill]
    cases hk : key a with
    | none => simp [hk]
    | some k =>
      have hinsert (q : κ) (hq : q ≠ k) (b : β) :
          ((table key start add l).insert k b).lookup q = (table key start add l).lookup q :=
        AList.lookup_insert_ne hq
      have hweight := AList.weight_of_lookup_ne (w := w) fun q hq =>
        hinsert q hq (add (((table key start add l).lookup k).getD start) a)
      have hnew : ((table key start add l).insert k
          (add (((table key start add l).lookup k).getD start) a)).weightAt w k =
          (table key start add l).weightAt w k + v a := by
        rw [AList.weightAt, AList.lookup_insert, Option.map_some, Option.getD_some, hadd,
          AList.weightAt]
        cases (table key start add l).lookup k with
        | none => simp [hstart]
        | some b => simp
      simp only [hk, Option.isSome_some, List.filter_cons_of_pos, List.filter_nil, List.map_cons,
        List.map_nil, List.sum_cons, List.sum_nil]
      omega

end Grouping

namespace List

variable {β γ δ κ : Type*}

theorem nodup_flatMap_of_place {ι : Type*} {l : List ι} {f : ι → List κ} (place : κ → ι)
    (hl : l.Nodup) (hf : ∀ i ∈ l, (f i).Nodup) (h : ∀ i ∈ l, ∀ k ∈ f i, place k = i) :
    (l.flatMap f).Nodup := by
  refine nodup_flatMap.mpr ⟨hf, hl.pairwise_of_forall_ne fun i hi j hj hij => ?_⟩
  exact fun k hki hkj => hij ((h i hi k hki).symm.trans (h j hj k hkj))

theorem nodup_shown {l : List (Sigma fun _ : κ => β)} (h : (l.map Sigma.fst).Nodup) (f : β → δ) :
    (l.map fun e => (e.1, f e.2)).Nodup := by
  refine Nodup.of_map Prod.fst ?_
  rw [map_map]
  exact h

/-- Two tables with the same keys that show the same at each of them. -/
theorem perm_of_shown {l : List (Sigma fun _ : κ => β)} {l' : List (Sigma fun _ : κ => γ)}
    (hl : (l.map Sigma.fst).Nodup) (hl' : (l'.map Sigma.fst).Nodup) {f : β → δ} {g : γ → δ}
    (h : ∀ k d, (∃ b, ⟨k, b⟩ ∈ l ∧ f b = d) ↔ ∃ c, ⟨k, c⟩ ∈ l' ∧ g c = d) :
    (l.map fun e => (e.1, f e.2)).Perm (l'.map fun e => (e.1, g e.2)) := by
  refine (perm_ext_iff_of_nodup (nodup_shown hl f) (nodup_shown hl' g)).mpr fun ⟨k, d⟩ => ?_
  simp only [mem_map, Prod.mk.injEq]
  constructor
  · rintro ⟨⟨k, b⟩, hb, rfl, rfl⟩
    obtain ⟨c, hc, hd⟩ := (h k (f b)).mp ⟨b, hb, rfl⟩
    exact ⟨⟨k, c⟩, hc, rfl, hd⟩
  · rintro ⟨⟨k, c⟩, hc, rfl, rfl⟩
    obtain ⟨b, hb, hd⟩ := (h k (g c)).mpr ⟨c, hc, rfl⟩
    exact ⟨⟨k, b⟩, hb, rfl, hd⟩

end List

namespace AList

variable {β γ δ κ : Type*} [DecidableEq κ] {s : AList fun _ : κ => β} {t : AList fun _ : κ => γ}
  {f : β → δ} {g : γ → δ} {k : κ} {d : δ}

theorem exists_entry_iff : (∃ b, ⟨k, b⟩ ∈ s.entries ∧ f b = d) ↔ (s.lookup k).map f = some d := by
  rw [Option.map_eq_some_iff]
  exact exists_congr fun b => and_congr_left' mem_lookup_iff.symm

theorem entries_perm_of_shown (h : ∀ k, (s.lookup k).map f = (t.lookup k).map g) :
    (s.entries.map fun e => (e.1, f e.2)).Perm (t.entries.map fun e => (e.1, g e.2)) := by
  refine List.perm_of_shown s.nodupKeys t.nodupKeys fun k d => ?_
  rw [exists_entry_iff, exists_entry_iff, h]

theorem weight_eq_of_shown {w : β → ℕ} {v : γ → ℕ}
    (h : ∀ k, (s.lookup k).map w = (t.lookup k).map v) : s.weight w = t.weight v := by
  have hsnd := (entries_perm_of_shown h).map Prod.snd
  rw [List.map_map, List.map_map] at hsnd
  exact hsnd.sum_eq

end AList
