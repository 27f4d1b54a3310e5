import StreamInfer.Kv.BlockManager

/-! The block manager against the lengths of its live requests. `Tracks m len`
says that free queue and tables share out the block ids and that a live request
of length `L` has `L / block_size` blocks, rounded up. Every operation keeps it
under its own change of the lengths, and tables of live requests only grow. -/

namespace StreamInfer.Kv

open General General.Stateful Batch BlockManager

/-- The live requests with their lengths. -/
abbrev Lengths := ℤ → Option ℕ

namespace Lengths

/-- Give each listed request its length. -/
def setAll (len : Lengths) (requests : List (ℤ × ℕ)) : Lengths :=
  requests.foldl (fun len p => Function.update len p.1 (some p.2)) len

@[simp] theorem setAll_cons (len : Lengths) (p : ℤ × ℕ) (requests : List (ℤ × ℕ)) :
    len.setAll (p :: requests) = setAll (Function.update len p.1 (some p.2)) requests := rfl

theorem setAll_of_notMem (len : Lengths) {requests : List (ℤ × ℕ)} {r : ℤ}
    (h : r ∉ requests.map Prod.fst) : len.setAll requests r = len r := by
  induction requests generalizing len with
  | nil => rfl
  | cons p requests ih =>
    simp only [List.map_cons, List.mem_cons, not_or] at h
    rw [setAll_cons, ih _ h.2, Function.update_of_ne h.1]

theorem setAll_of_mem (len : Lengths) {requests : List (ℤ × ℕ)}
    (hnd : (requests.map Prod.fst).Nodup) {p : ℤ × ℕ} (hp : p ∈ requests) :
    len.setAll requests p.1 = some p.2 := by
  induction requests generalizing len with
  | nil => simp at hp
  | cons q requests ih =>
    simp only [List.map_cons, List.nodup_cons] at hnd
    rw [setAll_cons]
    rcases List.mem_cons.mp hp with rfl | hp
    · rw [setAll_of_notMem _ hnd.1, Function.update_self]
    · exact ih _ hnd.2 hp

theorem setAll_forall {P : ℕ → Prop} {len : Lengths} (h : ∀ r n, len r = some n → P n)
    {requests : List (ℤ × ℕ)} (hp : ∀ p ∈ requests, P p.2) {r : ℤ} {n : ℕ}
    (hn : len.setAll requests r = some n) : P n := by
  induction requests generalizing len with
  | nil => exact h r n hn
  | cons p requests ih =>
    rw [setAll_cons] at hn
    refine ih (fun q k hk => ?_) (fun q hq => hp q (by simp [hq])) hn
    by_cases hq : q = p.1
    · subst hq
      rw [Function.update_self, Option.some_inj] at hk
      exact hk ▸ hp p (by simp)
    · rw [Function.update_of_ne hq] at hk
      exact h q k hk

/-- Forget the listed requests. -/
def clearAll (len : Lengths) (reqIds : List ℤ) : Lengths :=
  fun r => if r ∈ reqIds then none else len r

@[simp] theorem clearAll_nil (len : Lengths) : len.clearAll [] = len := by
  funext r
  simp [clearAll]

theorem clearAll_cons (len : Lengths) (r : ℤ) (reqIds : List ℤ) :
    len.clearAll (r :: reqIds) = clearAll (Function.update len r none) reqIds := by
  funext q
  by_cases hq : q = r
  · subst hq
    simp [clearAll]
  · simp [clearAll, hq]

end Lengths

open Lengths

/-- One token more needs one block more exactly at a block boundary. -/
theorem ceilDiv_succ {b : ℕ} (hb : 0 < b) (n : ℕ) :
    (n + 1) ⌈/⌉ b = n ⌈/⌉ b + if n % b = 0 then 1 else 0 := by
  rw [Nat.ceilDiv_eq_add_pred_div, Nat.ceilDiv_eq_add_pred_div]
  have hdiv := Nat.div_add_mod n b
  have hlt := Nat.mod_lt n hb
  have hleft : (n + 1 + b - 1) / b = n / b + 1 := by
    rw [show n + 1 + b - 1 = n + b by omega, Nat.add_div_right _ hb]
  rw [hleft]
  split_ifs with hmod
  · have hpred : n + b - 1 = b - 1 + b * (n / b) := by omega
    rw [hpred, Nat.add_mul_div_left _ _ hb, Nat.div_eq_of_lt (show b - 1 < b by omega)]
    omega
  · have hpred : n + b - 1 = n % b - 1 + b * (n / b + 1) := by
      rw [Nat.mul_add]
      omega
    rw [hpred, Nat.add_mul_div_left _ _ hb, Nat.div_eq_of_lt (show n % b - 1 < b by omega)]
    omega

/-- Free queue and tables share out the block ids; tables have the blocks their
lengths need. -/
structure Tracks (m : BlockManager) (len : Lengths) : Prop where
  partition : (m.freeBlocks ++ holdings m.blockTables).Perm
    (List.range (m.numBlocks + m.reservedBlocks))
  sized : ∀ r, (m.blockTables.lookup r).map List.length = (len r).map (· ⌈/⌉ m.blockSize)

/-- The same pool, with longer tables. -/
structure Grows (m m' : BlockManager) : Prop where
  blockSize : m'.blockSize = m.blockSize
  numBlocks : m'.numBlocks = m.numBlocks
  reservedBlocks : m'.reservedBlocks = m.reservedBlocks
  tables : ∀ r t, m.blockTables.lookup r = some t →
    ∃ t', m'.blockTables.lookup r = some t' ∧ t <+: t'

theorem Grows.refl (m : BlockManager) : Grows m m :=
  ⟨rfl, rfl, rfl, fun _ t ht => ⟨t, ht, List.prefix_rfl⟩⟩

theorem Grows.trans {m m' m'' : BlockManager} (h : Grows m m') (h' : Grows m' m'') :
    Grows m m'' where
  blockSize := h'.blockSize.trans h.blockSize
  numBlocks := h'.numBlocks.trans h.numBlocks
  reservedBlocks := h'.reservedBlocks.trans h.reservedBlocks
  tables r t ht := by
    obtain ⟨t', ht', hp⟩ := h.tables r t ht
    obtain ⟨t'', ht'', hp'⟩ := h'.tables r t' ht'
    exact ⟨t'', ht'', hp.trans hp'⟩

theorem tracks_new (blockSize numBlocks reservedBlocks : ℕ) :
    Tracks (BlockManager.new blockSize numBlocks reservedBlocks) fun _ => none :=
  ⟨by simp [BlockManager.new], fun r => by simp [BlockManager.new]⟩

namespace Tracks

variable {m m' : BlockManager} {len : Lengths} {r : ℤ} {u : Unit}

theorem mem_iff (h : Tracks m len) : r ∈ m.blockTables ↔ (len r).isSome = true := by
  have hs := congrArg Option.isSome (h.sized r)
  rw [Option.isSome_map, Option.isSome_map] at hs
  rw [← hs, AList.lookup_isSome]

theorem exists_table (h : Tracks m len) {n : ℕ} (hn : len r = some n) :
    ∃ t, m.blockTables.lookup r = some t ∧ t.length = n ⌈/⌉ m.blockSize := by
  have hs := h.sized r
  rw [hn, Option.map_some, Option.map_eq_some_iff] at hs
  exact hs

theorem nodup (h : Tracks m len) : (m.freeBlocks ++ holdings m.blockTables).Nodup :=
  h.partition.nodup_iff.mpr List.nodup_range

/-! ### One request -/

theorem allocate (h : Tracks m len) (hb : 0 < m.blockSize) {n : ℕ} (hn : 1 ≤ n)
    (hok : BlockManager.allocate r n m = .ok u m') :
    Tracks m' (Function.update len r (some n)) ∧ Grows m m' ∧
      m.freeBlocks.length = m'.freeBlocks.length + n ⌈/⌉ m.blockSize := by
  obtain ⟨hnew, hroom, rfl⟩ := (allocate_ok_iff hb hn).mp hok
  refine ⟨⟨?_, fun q => ?_⟩, ⟨rfl, rfl, rfl, fun q t ht => ⟨t, ?_, List.prefix_rfl⟩⟩, ?_⟩
  · refine List.Perm.trans ?_ h.partition
    simp only [holdings_insert_of_notMem hnew]
    conv_rhs => rw [← List.take_append_drop (n ⌈/⌉ m.blockSize) m.freeBlocks]
    rw [List.append_assoc]
    exact List.perm_append_comm_assoc _ _ _
  · by_cases hq : q = r
    · subst hq
      simp only [AList.lookup_insert, Function.update_self, Option.map_some, List.length_take]
      rw [Nat.min_eq_left (by omega)]
    · rw [AList.lookup_insert_ne hq, Function.update_of_ne hq, h.sized q]
  · have hq : q ≠ r := by
      rintro rfl
      exact hnew (AList.lookup_isSome.mp (by rw [ht]; rfl))
    rw [AList.lookup_insert_ne hq, ht]
  · rw [List.length_drop]
    omega

theorem pushFreeBlock (h : Tracks m len) {n : ℕ} (hn : len r = some n) {n' : ℕ}
    (hn' : n' ⌈/⌉ m.blockSize = n ⌈/⌉ m.blockSize + 1)
    (hok : BlockManager.pushFreeBlock r m = .ok u m') :
    Tracks m' (Function.update len r (some n')) ∧ Grows m m' ∧
      m.freeBlocks.length = m'.freeBlocks.length + 1 := by
  obtain ⟨b, free, t, hfree, ht, rfl⟩ := pushFreeBlock_ok_iff.mp hok
  obtain ⟨t₁, ht₁, hlen⟩ := h.exists_table hn
  obtain rfl : t = t₁ := Option.some.inj (ht.symm.trans ht₁)
  refine ⟨⟨?_, fun q => ?_⟩, ⟨rfl, rfl, rfl, fun q t' ht' => ?_⟩, by simp [hfree]⟩
  · refine List.Perm.trans ?_ h.partition
    refine List.Perm.trans ?_ (List.Perm.append_left _ (holdings_perm ht).symm)
    rw [hfree, holdings_insert]
    have hmiddle : (free ++ t ++ b :: holdings (m.blockTables.erase r)).Perm
        (b :: (free ++ t ++ holdings (m.blockTables.erase r))) := List.perm_middle
    simpa only [List.append_assoc, List.cons_append, List.nil_append] using hmiddle
  · by_cases hq : q = r
    · subst hq
      simp [AList.lookup_insert, hlen, hn']
    · rw [AList.lookup_insert_ne hq, Function.update_of_ne hq, h.sized q]
  · by_cases hq : q = r
    · subst hq
      obtain rfl : t = t' := Option.some.inj (ht.symm.trans ht')
      exact ⟨t ++ [b], AList.lookup_insert _, List.prefix_append _ _⟩
    · exact ⟨t', by rw [AList.lookup_insert_ne hq, ht'], List.prefix_rfl⟩

/-- One token more: a new block exactly at a block boundary. -/
theorem appendTokens (h : Tracks m len) (hb : 0 < m.blockSize) {n : ℕ} (hn : 1 ≤ n)
    (hlen : len r = some n) (hok : BlockManager.appendTokens r n 1 m = .ok u m') :
    Tracks m' (Function.update len r (some (n + 1))) ∧ Grows m m' ∧
      m.freeBlocks.length = m'.freeBlocks.length + if n % m.blockSize = 0 then 1 else 0 := by
  obtain ⟨-, hstep⟩ := (appendTokens_ok_iff hb hn).mp hok
  have hceil := ceilDiv_succ hb n
  by_cases hmod : n % m.blockSize = 0
  · rw [if_pos hmod] at hstep hceil ⊢
    exact h.pushFreeBlock hlen hceil hstep.2
  · rw [if_neg hmod] at hstep hceil ⊢
    subst hstep
    refine ⟨⟨h.partition, fun q => ?_⟩, Grows.refl _, rfl⟩
    by_cases hq : q = r
    · subst hq
      rw [h.sized q, hlen, Function.update_self, Option.map_some, Option.map_some, hceil,
        Nat.add_zero]
    · rw [Function.update_of_ne hq, h.sized q]

theorem release (h : Tracks m len) (hok : BlockManager.release r m = .ok u m') :
    Tracks m' (Function.update len r none) ∧ (len r).isSome = true ∧
      m'.blockSize = m.blockSize ∧ m'.numBlocks = m.numBlocks ∧
      m'.reservedBlocks = m.reservedBlocks ∧
      ∀ q ≠ r, m'.blockTables.lookup q = m.blockTables.lookup q := by
  obtain ⟨t, ht, rfl⟩ := release_ok_iff.mp hok
  refine ⟨⟨?_, fun q => ?_⟩, ?_, rfl, rfl, rfl, fun q hq => AList.lookup_erase_ne hq⟩
  · refine List.Perm.trans ?_ h.partition
    rw [List.append_assoc]
    exact List.Perm.append_left _ (holdings_perm ht).symm
  · by_cases hq : q = r
    · subst hq
      simp
    · rw [AList.lookup_erase_ne hq, Function.update_of_ne hq, h.sized q]
  · rw [← h.mem_iff]
    exact AList.lookup_isSome.mp (by rw [ht]; rfl)

theorem batchRelease (h : Tracks m len) {reqIds : List ℤ}
    (hok : BlockManager.batchRelease reqIds m = .ok u m') :
    Tracks m' (len.clearAll reqIds) ∧ m'.blockSize = m.blockSize ∧ m'.numBlocks = m.numBlocks ∧
      m'.reservedBlocks = m.reservedBlocks ∧
      ∀ q ∉ reqIds, m'.blockTables.lookup q = m.blockTables.lookup q := by
  induction reqIds generalizing m len with
  | nil =>
    cases hok
    exact ⟨by simpa using h, rfl, rfl, rfl, fun _ _ => rfl⟩
  | cons r reqIds ih =>
    rw [BlockManager.batchRelease, List.forM_cons, bind_ok_iff] at hok
    obtain ⟨⟨⟩, m₁, hone, hrest⟩ := hok
    obtain ⟨h₁, -, hbs₁, hnb₁, hrb₁, hq₁⟩ := h.release hone
    obtain ⟨h₂, hbs₂, hnb₂, hrb₂, hq₂⟩ := ih h₁ hrest
    refine ⟨clearAll_cons len r reqIds ▸ h₂, hbs₂.trans hbs₁, hnb₂.trans hnb₁, hrb₂.trans hrb₁, ?_⟩
    intro q hq
    simp only [List.mem_cons, not_or] at hq
    rw [hq₂ q hq.2, hq₁ q hq.1]

/-! ### The requests of a batch -/

/-- Requests with lengths, as the code passes them. -/
def asInts (requests : List (ℤ × ℕ)) : List (ℤ × ℤ) := requests.map fun p => (p.1, (p.2 : ℤ))

/-- The blocks that the new requests of a batch take. -/
def prefillBlocks (blockSize : ℕ) (requests : List (ℤ × ℕ)) : ℕ :=
  (requests.map fun p => p.2 ⌈/⌉ blockSize).sum

/-- The requests of a batch whose next token starts a new block. -/
def boundaryCount (blockSize : ℕ) (requests : List (ℤ × ℕ)) : ℕ :=
  requests.countP fun p => p.2 % blockSize = 0

theorem allocateAll (h : Tracks m len) (hb : 0 < m.blockSize) {requests : List (ℤ × ℕ)}
    (hn : ∀ p ∈ requests, 1 ≤ p.2) (hok : BlockManager.allocateAll (asInts requests) m = .ok u m') :
    Tracks m' (len.setAll requests) ∧ Grows m m' ∧
      m.freeBlocks.length = m'.freeBlocks.length + prefillBlocks m.blockSize requests := by
  induction requests generalizing m len with
  | nil =>
    cases hok
    exact ⟨h, Grows.refl _, by simp [prefillBlocks]⟩
  | cons p requests ih =>
    rw [BlockManager.allocateAll, asInts, List.map_cons, List.forM_cons, bind_ok_iff] at hok
    obtain ⟨⟨⟩, m₁, hone, hrest⟩ := hok
    rw [get_bind, bind_ok_iff] at hone
    obtain ⟨_, _, hens, hone⟩ := hone
    obtain ⟨-, rfl⟩ := ensure_ok_iff.mp hens
    obtain ⟨h₁, hg₁, hf₁⟩ := h.allocate hb (hn p (by simp)) hone
    obtain ⟨h₂, hg₂, hf₂⟩ := ih h₁ (by rwa [hg₁.blockSize]) (fun q hq => hn q (by simp [hq])) hrest
    refine ⟨h₂, hg₁.trans hg₂, ?_⟩
    rw [hg₁.blockSize] at hf₂
    rw [hf₁, hf₂, prefillBlocks, prefillBlocks, List.map_cons, List.sum_cons]
    omega

theorem appendAll (h : Tracks m len) (hb : 0 < m.blockSize) {requests : List (ℤ × ℕ)}
    (hn : ∀ p ∈ requests, 1 ≤ p.2) (hnd : (requests.map Prod.fst).Nodup)
    (hlen : ∀ p ∈ requests, len p.1 = some p.2)
    (hok : BlockManager.appendAll (asInts requests) m = .ok u m') :
    Tracks m' (len.setAll (requests.map fun p => (p.1, p.2 + 1))) ∧ Grows m m' ∧
      m.freeBlocks.length = m'.freeBlocks.length + boundaryCount m.blockSize requests := by
  induction requests generalizing m len with
  | nil =>
    cases hok
    exact ⟨h, Grows.refl _, by simp [boundaryCount]⟩
  | cons p requests ih =>
    rw [BlockManager.appendAll, asInts, List.map_cons, List.forM_cons, bind_ok_iff] at hok
    obtain ⟨⟨⟩, m₁, hone, hrest⟩ := hok
    rw [get_bind, bind_ok_iff] at hone
    obtain ⟨_, _, hens, hone⟩ := hone
    obtain ⟨-, rfl⟩ := ensure_ok_iff.mp hens
    obtain ⟨hp, hnd⟩ := List.nodup_cons.mp hnd
    obtain ⟨h₁, hg₁, hf₁⟩ := h.appendTokens hb (hn p (by simp)) (hlen p (by simp)) hone
    have hlen₁ : ∀ q ∈ requests, Function.update len p.1 (some (p.2 + 1)) q.1 = some q.2 := by
      intro q hq
      have hne : q.1 ≠ p.1 := fun he => hp (he ▸ List.mem_map_of_mem hq)
      rw [Function.update_of_ne hne, hlen q (by simp [hq])]
    obtain ⟨h₂, hg₂, hf₂⟩ := ih h₁ (by rwa [hg₁.blockSize]) (fun q hq => hn q (by simp [hq]))
      hnd hlen₁ hrest
    refine ⟨h₂, hg₁.trans hg₂, ?_⟩
    rw [hg₁.blockSize] at hf₂
    rw [hf₁, hf₂, boundaryCount, boundaryCount, List.countP_cons]
    simp only [decide_eq_true_eq]
    omega

end Tracks

end StreamInfer.Kv
