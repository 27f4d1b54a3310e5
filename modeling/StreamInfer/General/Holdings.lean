import Mathlib

/-! Items held by keys: an association list whose values are lists of items.
Adding, replacing and erasing a key changes the held items by that key's items
alone. When no item is held twice, an item tells its holder and its place. -/

namespace StreamInfer.General

variable {κ α : Type}

/-- All items held by some key. -/
def holdings (m : AList fun _ : κ => List α) : List α := m.entries.flatMap (·.2)

@[simp] theorem holdings_empty : holdings (∅ : AList fun _ : κ => List α) = [] := rfl

variable [DecidableEq κ]

theorem holdings_insert (m : AList fun _ : κ => List α) (k : κ) (xs : List α) :
    holdings (m.insert k xs) = xs ++ holdings (m.erase k) := rfl

theorem holdings_insert_of_notMem {m : AList fun _ : κ => List α} {k : κ} (hk : k ∉ m)
    (xs : List α) : holdings (m.insert k xs) = xs ++ holdings m := by
  rw [holdings, AList.entries_insert_of_notMem hk, List.flatMap_cons]
  rfl

/-- The entry of one key apart from the others. -/
theorem entries_perm {β : κ → Type} {m : AList β} {k : κ} {b : β k} (h : m.lookup k = some b) :
    m.entries.Perm (⟨k, b⟩ :: (m.erase k).entries) := by
  have hk : k ∈ m.entries.keys := AList.mem_keys.mp (AList.lookup_isSome.mp (by rw [h]; rfl))
  obtain ⟨b', l₁, l₂, hnot, hsplit, herase⟩ := List.exists_of_kerase hk
  have hb : b' = b := by
    have hl : m.entries.dlookup k = some b := h
    rw [hsplit, List.dlookup_append, List.dlookup_eq_none.mpr hnot] at hl
    simpa using hl
  have herase' : (m.erase k).entries = l₁ ++ l₂ := herase
  rw [herase', hsplit, hb]
  exact List.perm_middle

/-- The items of one key apart from the others. -/
theorem holdings_perm {m : AList fun _ : κ => List α} {k : κ} {xs : List α}
    (h : m.lookup k = some xs) : (holdings m).Perm (xs ++ holdings (m.erase k)) :=
  (entries_perm h).flatMap_right _

theorem mem_holdings {m : AList fun _ : κ => List α} {k : κ} {xs : List α}
    (h : m.lookup k = some xs) {x : α} (hx : x ∈ xs) : x ∈ holdings m :=
  (holdings_perm h).mem_iff.mpr (List.mem_append_left _ hx)

/-- The items counted key by key, over any set of keys that has all of them. -/
theorem length_holdings (K : Finset κ) {m : AList fun _ : κ => List α} (h : ∀ k ∈ m, k ∈ K) :
    (holdings m).length = ∑ k ∈ K, ((m.lookup k).map List.length).getD 0 := by
  induction K using Finset.induction_on generalizing m with
  | empty =>
    have hempty : m.entries = [] := by
      refine List.eq_nil_iff_forall_not_mem.mpr fun e he => ?_
      exact absurd (h e.1 (AList.mem_keys.mpr (List.mem_keys_of_mem he))) (Finset.notMem_empty _)
    rw [holdings, hempty]
    rfl
  | insert k K hk ih =>
    have herase : ∀ k' ∈ m.erase k, k' ∈ K := by
      intro k' hk'
      obtain ⟨hne, hmem⟩ := AList.mem_erase.mp hk'
      exact (Finset.mem_insert.mp (h k' hmem)).resolve_left hne
    have hrest : ∑ k' ∈ K, (((m.erase k).lookup k').map List.length).getD 0 =
        ∑ k' ∈ K, ((m.lookup k').map List.length).getD 0 := by
      refine Finset.sum_congr rfl fun k' hk' => ?_
      rw [AList.lookup_erase_ne (ne_of_mem_of_not_mem hk' hk)]
    rw [Finset.sum_insert hk, ← hrest, ← ih herase]
    cases hl : m.lookup k with
    | none =>
      have hnot : k ∉ m := by rw [← AList.lookup_isSome, hl]; simp
      have : m.erase k = m := AList.ext (List.kerase_of_notMem_keys hnot)
      rw [this]
      simp
    | some xs =>
      rw [(holdings_perm hl).length_eq, List.length_append]
      rfl

/-- No item is held twice, so it has one holder and one place there. -/
theorem holder_unique {m : AList fun _ : κ => List α} (hnd : (holdings m).Nodup) {k₁ k₂ : κ}
    {xs₁ xs₂ : List α} (h₁ : m.lookup k₁ = some xs₁) (h₂ : m.lookup k₂ = some xs₂) {i j : ℕ}
    {x : α} (hi : xs₁[i]? = some x) (hj : xs₂[j]? = some x) : k₁ = k₂ ∧ i = j := by
  rw [(holdings_perm h₁).nodup_iff, List.nodup_append] at hnd
  obtain ⟨hnd₁, -, hdisj⟩ := hnd
  by_cases hk : k₁ = k₂
  · subst hk
    obtain rfl : xs₁ = xs₂ := Option.some.inj (h₁.symm.trans h₂)
    obtain ⟨hi', hxi⟩ := List.getElem?_eq_some_iff.mp hi
    obtain ⟨hj', hxj⟩ := List.getElem?_eq_some_iff.mp hj
    exact ⟨rfl, (hnd₁.getElem_inj_iff).mp (hxi.trans hxj.symm)⟩
  · have hother : (m.erase k₁).lookup k₂ = some xs₂ := by
      rw [AList.lookup_erase_ne (Ne.symm hk), h₂]
    exact absurd rfl (hdisj x (List.mem_of_getElem? hi) x
      (mem_holdings hother (List.mem_of_getElem? hj)))

end StreamInfer.General
