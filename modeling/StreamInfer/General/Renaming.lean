import StreamInfer.General.Holdings

/-! Renamings of cells. Two assignments of cells to the same owners, where a cell tells
its owner, differ by a renaming; so do two families of lists with the same keys and
lengths that hold no item twice. -/

namespace StreamInfer.General

variable {ι α β : Type*}

/-- Cells of the same owners, each of one owner, correspond one to one. -/
theorem exists_renaming [Nonempty β] {f : ι → Option α} {g : ι → Option β}
    (hdom : ∀ i, (f i).isSome = (g i).isSome)
    (hf : ∀ i j a, f i = some a → f j = some a → i = j)
    (hg : ∀ i j b, g i = some b → g j = some b → i = j) :
    ∃ ρ : α → β, Set.InjOn ρ {a | ∃ i, f i = some a} ∧ ∀ i a, f i = some a → g i = some (ρ a) := by
  classical
  have hcell : ∀ a, ∃ b, ∀ i, f i = some a → g i = some b := by
    intro a
    by_cases ha : ∃ i, f i = some a
    · obtain ⟨i, hi⟩ := ha
      obtain ⟨b, hb⟩ := Option.isSome_iff_exists.mp ((hdom i).symm.trans (by rw [hi]; rfl))
      exact ⟨b, fun j hj => hf i j a hi hj ▸ hb⟩
    · exact ⟨Classical.arbitrary β, fun i hi => absurd ⟨i, hi⟩ ha⟩
  choose ρ hρ using hcell
  refine ⟨ρ, ?_, fun i a => hρ a i⟩
  rintro a ⟨i, hi⟩ a' ⟨j, hj⟩ heq
  have hij : i = j := hg i j (ρ a) (hρ a i hi) (by rw [heq]; exact hρ a' j hj)
  subst hij
  exact Option.some.inj (hi.symm.trans hj)

/-! ### Held items -/

variable {κ : Type} [DecidableEq κ] {m m' : AList fun _ : κ => List ℕ}

/-- The item that a key holds at an index. -/
def itemAt (m : AList fun _ : κ => List ℕ) (p : κ × ℕ) : Option ℕ :=
  (m.lookup p.1).bind fun items => items[p.2]?

theorem itemAt_eq_some_iff {p : κ × ℕ} {x : ℕ} :
    itemAt m p = some x ↔ ∃ items, m.lookup p.1 = some items ∧ items[p.2]? = some x := by
  simp only [itemAt, Option.bind_eq_some_iff]

theorem itemAt_isSome (m : AList fun _ : κ => List ℕ) (p : κ × ℕ) :
    (itemAt m p).isSome = decide (p.2 < ((m.lookup p.1).map List.length).getD 0) := by
  unfold itemAt
  cases m.lookup p.1 with
  | none => simp
  | some items =>
    rw [Bool.eq_iff_iff, decide_eq_true_iff]
    simp

theorem itemAt_inj (hnd : (holdings m).Nodup) {p q : κ × ℕ} {x : ℕ} (hp : itemAt m p = some x)
    (hq : itemAt m q = some x) : p = q := by
  obtain ⟨items, hitems, hx⟩ := itemAt_eq_some_iff.mp hp
  obtain ⟨items', hitems', hx'⟩ := itemAt_eq_some_iff.mp hq
  obtain ⟨hk, hi⟩ := holder_unique hnd hitems hitems' hx hx'
  exact Prod.ext hk hi

theorem mem_holdings_iff {x : ℕ} : x ∈ holdings m ↔ ∃ p, itemAt m p = some x := by
  constructor
  · intro hx
    obtain ⟨e, he, hxe⟩ := List.mem_flatMap.mp hx
    obtain ⟨i, hi, rfl⟩ := List.mem_iff_getElem.mp hxe
    exact ⟨(e.1, i), itemAt_eq_some_iff.mpr ⟨e.2, List.mem_dlookup m.nodupKeys he,
      List.getElem?_eq_getElem hi⟩⟩
  · rintro ⟨p, hp⟩
    obtain ⟨items, hitems, hx⟩ := itemAt_eq_some_iff.mp hp
    exact mem_holdings hitems (List.mem_of_getElem? hx)

/-- Families of the same shape hold the same items up to a renaming. -/
theorem exists_renaming_of_lengths (hnd : (holdings m).Nodup) (hnd' : (holdings m').Nodup)
    (hlen : ∀ k, (m.lookup k).map List.length = (m'.lookup k).map List.length) :
    ∃ ρ : ℕ → ℕ, Set.InjOn ρ {x | x ∈ holdings m} ∧
      ∀ k items, m.lookup k = some items → m'.lookup k = some (items.map ρ) := by
  have hdom : ∀ p, (itemAt m p).isSome = (itemAt m' p).isSome := fun p => by
    rw [itemAt_isSome, itemAt_isSome, hlen]
  obtain ⟨ρ, hinj, hρ⟩ := exists_renaming hdom (fun p q x hp hq => itemAt_inj hnd hp hq)
    fun p q x hp hq => itemAt_inj hnd' hp hq
  refine ⟨ρ, fun x hx y hy heq => hinj (mem_holdings_iff.mp hx) (mem_holdings_iff.mp hy) heq,
    fun k items hk => ?_⟩
  have hk' := hlen k
  rw [hk, Option.map_some, eq_comm, Option.map_eq_some_iff] at hk'
  obtain ⟨items', hitems', hl⟩ := hk'
  rw [hitems', Option.some_inj]
  apply List.ext_getElem?
  intro i
  by_cases hi : i < items.length
  · have hcell := hρ (k, i) items[i] (itemAt_eq_some_iff.mpr ⟨items, hk, List.getElem?_eq_getElem hi⟩)
    obtain ⟨found, hfound, hx⟩ := itemAt_eq_some_iff.mp hcell
    obtain rfl : items' = found := Option.some.inj (hitems'.symm.trans hfound)
    rw [List.getElem?_map, List.getElem?_eq_getElem hi]
    exact hx
  · rw [List.getElem?_eq_none (by omega), List.getElem?_eq_none (by rw [List.length_map]; omega)]

end StreamInfer.General
