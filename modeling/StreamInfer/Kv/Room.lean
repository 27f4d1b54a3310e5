import StreamInfer.Kv.CPUBlockManager

/-! When a first-layer visit finds the blocks it needs. Allocation needs as many
free blocks as the prompts take; the appended tokens need one free block more
than they take, unless they take none. Over any finite set of requests the
blocks a visit takes are the blocks its lengths gain. -/

namespace StreamInfer.Kv

open General General.Stateful Batch Lengths

namespace Lengths

/-- The blocks that the lengths of a set of requests need. -/
def blocks (blockSize : ℕ) (K : Finset ℤ) (len : Lengths) : ℕ :=
  ∑ r ∈ K, ((len r).map (· ⌈/⌉ blockSize)).getD 0

variable {blockSize : ℕ} {K : Finset ℤ}

theorem blocks_update (blockSize : ℕ) (len : Lengths) {r : ℤ} (hr : r ∈ K) (n : ℕ) :
    blocks blockSize K (Function.update len r (some n)) +
        ((len r).map (· ⌈/⌉ blockSize)).getD 0 =
      blocks blockSize K len + n ⌈/⌉ blockSize := by
  have hrest : ∑ q ∈ K.erase r,
      ((Function.update len r (some n) q).map (· ⌈/⌉ blockSize)).getD 0 =
      ∑ q ∈ K.erase r, ((len q).map (· ⌈/⌉ blockSize)).getD 0 := by
    refine Finset.sum_congr rfl fun q hq => ?_
    rw [Function.update_of_ne (Finset.ne_of_mem_erase hq)]
  have hnew := Finset.add_sum_erase K
    (fun q => ((Function.update len r (some n) q).map (· ⌈/⌉ blockSize)).getD 0) hr
  have hold := Finset.add_sum_erase K (fun q => ((len q).map (· ⌈/⌉ blockSize)).getD 0) hr
  simp only [Function.update_self, Option.map_some, Option.getD_some] at hnew
  rw [blocks, blocks, ← hnew, ← hold, hrest]
  omega

/-- New requests need their prompts' blocks. -/
theorem blocks_setAll_new {len : Lengths} {requests : List (ℤ × ℕ)}
    (hK : ∀ p ∈ requests, p.1 ∈ K) (hnd : (requests.map Prod.fst).Nodup)
    (hnew : ∀ p ∈ requests, len p.1 = none) :
    blocks blockSize K (len.setAll requests) =
      blocks blockSize K len + Tracks.prefillBlocks blockSize requests := by
  induction requests generalizing len with
  | nil => rfl
  | cons p requests ih =>
    obtain ⟨hp, hnd⟩ := List.nodup_cons.mp hnd
    have hupd := blocks_update blockSize len (hK p (by simp)) p.2
    rw [hnew p (by simp)] at hupd
    rw [setAll_cons, ih (fun q hq => hK q (by simp [hq])) hnd ?_, Tracks.prefillBlocks,
      Tracks.prefillBlocks, List.map_cons, List.sum_cons]
    · simp only [Option.map_none, Option.getD_none] at hupd
      omega
    · intro q hq
      have hne : q.1 ≠ p.1 := fun he => hp (he ▸ List.mem_map_of_mem hq)
      rw [Function.update_of_ne hne, hnew q (by simp [hq])]

/-- One token more for some requests needs a block for each boundary. -/
theorem blocks_setAll_grown (hb : 0 < blockSize) {len : Lengths} {requests : List (ℤ × ℕ)}
    (hK : ∀ p ∈ requests, p.1 ∈ K) (hnd : (requests.map Prod.fst).Nodup)
    (hlen : ∀ p ∈ requests, len p.1 = some p.2) :
    blocks blockSize K (len.setAll (CPUBlockManager.grown requests)) =
      blocks blockSize K len + Tracks.boundaryCount blockSize requests := by
  induction requests generalizing len with
  | nil => rfl
  | cons p requests ih =>
    obtain ⟨hp, hnd⟩ := List.nodup_cons.mp hnd
    have hupd := blocks_update blockSize len (hK p (by simp)) (p.2 + 1)
    rw [hlen p (by simp), Option.map_some, Option.getD_some, ceilDiv_succ hb] at hupd
    have hother : ∀ q ∈ requests, Function.update len p.1 (some (p.2 + 1)) q.1 = some q.2 := by
      intro q hq
      have hne : q.1 ≠ p.1 := fun he => hp (he ▸ List.mem_map_of_mem hq)
      rw [Function.update_of_ne hne, hlen q (by simp [hq])]
    have hih := ih (fun q hq => hK q (by simp [hq])) hnd hother
    rw [CPUBlockManager.grown, List.map_cons, setAll_cons, ← CPUBlockManager.grown, hih,
      Tracks.boundaryCount, Tracks.boundaryCount, List.countP_cons]
    simp only [decide_eq_true_eq]
    omega

end Lengths

namespace Tracks

variable {m : BlockManager} {len : Lengths}

/-- The held blocks are those the live requests need. -/
theorem length_holdings_eq (h : Tracks m len) (K : Finset ℤ) (hK : ∀ r, (len r).isSome = true → r ∈ K) :
    (holdings m.blockTables).length = blocks m.blockSize K len := by
  rw [length_holdings K fun r hr => hK r (h.mem_iff.mp hr), blocks]
  exact Finset.sum_congr rfl fun r _ => by rw [h.sized r]

theorem free_add_blocks (h : Tracks m len) (K : Finset ℤ) (hK : ∀ r, (len r).isSome = true → r ∈ K) :
    m.freeBlocks.length + blocks m.blockSize K len = m.numBlocks + m.reservedBlocks := by
  rw [← h.length_holdings_eq K hK, ← List.length_append, h.partition.length_eq, List.length_range]

/-- New requests are allocated when the free blocks cover their prompts. -/
theorem exists_allocateAll (h : Tracks m len) (hb : 0 < m.blockSize) {requests : List (ℤ × ℕ)}
    (hn : ∀ p ∈ requests, 1 ≤ p.2) (hnd : (requests.map Prod.fst).Nodup)
    (hnew : ∀ p ∈ requests, len p.1 = none)
    (hroom : prefillBlocks m.blockSize requests + m.reservedBlocks ≤ m.freeBlocks.length) :
    ∃ m', BlockManager.allocateAll (asInts requests) m = .ok ⟨⟩ m' := by
  induction requests generalizing m len with
  | nil => exact ⟨m, rfl⟩
  | cons p requests ih =>
    obtain ⟨hp, hnd⟩ := List.nodup_cons.mp hnd
    rw [prefillBlocks, List.map_cons, List.sum_cons, ← prefillBlocks] at hroom
    have hnot : p.1 ∉ m.blockTables := by
      rw [h.mem_iff, hnew p (by simp)]
      simp
    obtain ⟨m₁, hone⟩ : ∃ m₁, BlockManager.allocate p.1 p.2 m = .ok ⟨⟩ m₁ :=
      ⟨_, (BlockManager.allocate_ok_iff hb (hn p (by simp))).mpr ⟨hnot, by omega, rfl⟩⟩
    obtain ⟨h₁, hg₁, hf₁⟩ := h.allocate hb (hn p (by simp)) hone
    obtain ⟨m₂, hrest⟩ := ih h₁ (by rwa [hg₁.blockSize]) (fun q hq => hn q (by simp [hq])) hnd (by
        intro q hq
        have hne : q.1 ≠ p.1 := fun he => hp (he ▸ List.mem_map_of_mem hq)
        rw [Function.update_of_ne hne, hnew q (by simp [hq])])
      (by rw [hg₁.blockSize, hg₁.reservedBlocks]; omega)
    refine ⟨m₂, ?_⟩
    rw [BlockManager.allocateAll, asInts, List.map_cons, List.forM_cons, bind_ok_iff]
    refine ⟨⟨⟩, m₁, ?_, hrest⟩
    have hlist : m.hasSeqBlockList p.1 = false := by
      rw [Bool.eq_false_iff, Ne, BlockManager.hasSeqBlockList_iff]
      exact hnot
    rw [get_bind, ensure_bind hlist]
    exact hone

/-- Tokens are appended exactly when none starts a block or a block is left over. -/
theorem exists_appendAll_iff (h : Tracks m len) (hb : 0 < m.blockSize) {requests : List (ℤ × ℕ)}
    (hn : ∀ p ∈ requests, 1 ≤ p.2) (hnd : (requests.map Prod.fst).Nodup)
    (hlen : ∀ p ∈ requests, len p.1 = some p.2) :
    (∃ m', BlockManager.appendAll (asInts requests) m = .ok ⟨⟩ m') ↔
      boundaryCount m.blockSize requests = 0 ∨
        boundaryCount m.blockSize requests < m.freeBlocks.length := by
  induction requests generalizing m len with
  | nil => exact ⟨fun _ => .inl rfl, fun _ => ⟨m, rfl⟩⟩
  | cons p requests ih =>
    obtain ⟨hp, hnd⟩ := List.nodup_cons.mp hnd
    have hn₁ := hn p (by simp)
    have hlen₁ := hlen p (by simp)
    have hmem : p.1 ∈ m.blockTables := h.mem_iff.mpr (by rw [hlen₁]; rfl)
    have hstep : ∀ m₁, BlockManager.appendTokens p.1 p.2 1 m = .ok ⟨⟩ m₁ →
        ((∃ m', BlockManager.appendAll (asInts requests) m₁ = .ok ⟨⟩ m') ↔
          boundaryCount m.blockSize requests = 0 ∨
            boundaryCount m.blockSize requests < m₁.freeBlocks.length) ∧
        m.freeBlocks.length = m₁.freeBlocks.length + if p.2 % m.blockSize = 0 then 1 else 0 := by
      intro m₁ hone
      obtain ⟨h₁, hg₁, hf₁⟩ := h.appendTokens hb hn₁ hlen₁ hone
      have hiff := ih h₁ (by rwa [hg₁.blockSize]) (fun q hq => hn q (by simp [hq])) hnd (by
        intro q hq
        have hne : q.1 ≠ p.1 := fun he => hp (he ▸ List.mem_map_of_mem hq)
        rw [Function.update_of_ne hne, hlen q (by simp [hq])])
      rw [hg₁.blockSize] at hiff
      exact ⟨hiff, hf₁⟩
    have hcons : ∀ m', BlockManager.appendAll (asInts (p :: requests)) m = .ok ⟨⟩ m' ↔
        ∃ m₁, BlockManager.appendTokens p.1 p.2 1 m = .ok ⟨⟩ m₁ ∧
          BlockManager.appendAll (asInts requests) m₁ = .ok ⟨⟩ m' := by
      intro m'
      have hlist : m.hasSeqBlockList p.1 = true := BlockManager.hasSeqBlockList_iff.mpr hmem
      rw [BlockManager.appendAll, asInts, List.map_cons, List.forM_cons, bind_ok_iff]
      simp only [get_bind, ensure_bind hlist]
      constructor
      · rintro ⟨⟨⟩, m₁, h₁, h₂⟩
        exact ⟨m₁, h₁, h₂⟩
      · rintro ⟨m₁, h₁, h₂⟩
        exact ⟨⟨⟩, m₁, h₁, h₂⟩
    have hcount : boundaryCount m.blockSize (p :: requests) =
        boundaryCount m.blockSize requests + if p.2 % m.blockSize = 0 then 1 else 0 := by
      rw [boundaryCount, List.countP_cons, boundaryCount]
      simp only [decide_eq_true_eq]
    simp only [hcons, hcount]
    rw [exists_comm]
    simp only [exists_and_left]
    constructor
    · rintro ⟨m₁, hone, hrest⟩
      obtain ⟨hiff, hf⟩ := hstep m₁ hone
      have hgood := hiff.mp hrest
      obtain ⟨-, hif⟩ := (BlockManager.appendTokens_ok_iff hb hn₁).mp hone
      split_ifs at hif hf ⊢ with hmod <;> omega
    · intro hgood
      obtain ⟨m₁, hone⟩ : ∃ m₁, BlockManager.appendTokens p.1 p.2 1 m = .ok ⟨⟩ m₁ := by
        simp only [BlockManager.appendTokens_ok_iff hb hn₁]
        by_cases hmod : p.2 % m.blockSize = 0
        · simp only [hmod, ↓reduceIte] at hgood ⊢
          obtain ⟨t, ht, -⟩ := h.exists_table hlen₁
          obtain ⟨b, free, hfree⟩ : ∃ b free, m.freeBlocks = b :: free := by
            cases hfree : m.freeBlocks with
            | nil => simp [hfree] at hgood
            | cons b free => exact ⟨b, free, rfl⟩
          exact ⟨_, hmem, by omega, BlockManager.pushFreeBlock_ok_iff.mpr ⟨b, free, t, hfree, ht, rfl⟩⟩
        · exact ⟨m, hmem, by rw [if_neg hmod]⟩
      obtain ⟨hiff, hf⟩ := hstep m₁ hone
      refine ⟨m₁, hone, hiff.mpr ?_⟩
      by_cases hmod : p.2 % m.blockSize = 0
      · rw [if_pos hmod] at hgood hf
        omega
      · rw [if_neg hmod] at hgood hf
        omega

theorem exists_batchRelease (h : Tracks m len) {reqIds : List ℤ} (hnd : reqIds.Nodup)
    (hlive : ∀ r ∈ reqIds, (len r).isSome = true) :
    ∃ m', BlockManager.batchRelease reqIds m = .ok ⟨⟩ m' := by
  induction reqIds generalizing m len with
  | nil => exact ⟨m, rfl⟩
  | cons r reqIds ih =>
    obtain ⟨hr, hnd⟩ := List.nodup_cons.mp hnd
    obtain ⟨n, hn⟩ := Option.isSome_iff_exists.mp (hlive r (by simp))
    obtain ⟨t, ht, -⟩ := h.exists_table hn
    obtain ⟨m₁, hone⟩ : ∃ m₁, BlockManager.release r m = .ok ⟨⟩ m₁ :=
      ⟨_, BlockManager.release_ok_iff.mpr ⟨t, ht, rfl⟩⟩
    obtain ⟨h₁, -⟩ := h.release hone
    obtain ⟨m₂, hrest⟩ := ih h₁ hnd (by
      intro q hq
      rw [Function.update_of_ne (ne_of_mem_of_not_mem hq hr)]
      exact hlive q (by simp [hq]))
    refine ⟨m₂, ?_⟩
    rw [BlockManager.batchRelease, List.forM_cons, bind_of_ok hone]
    exact hrest

end Tracks

namespace CPUBlockManager

theorem exists_forM_releaseReq {s : CPUBlockManager} {reqIds : List ℤ} (hnd : reqIds.Nodup)
    (h : ∀ r ∈ reqIds, r ∈ s.decodeSeqLens) :
    ∃ s', (forM reqIds releaseReq : CpuM PUnit) s = .ok ⟨⟩ s' := by
  induction reqIds generalizing s with
  | nil => exact ⟨s, rfl⟩
  | cons r reqIds ih =>
    obtain ⟨hr, hnd⟩ := List.nodup_cons.mp hnd
    obtain ⟨l, hl⟩ := Option.isSome_iff_exists.mp (AList.lookup_isSome.mpr (h r (by simp)))
    obtain ⟨s', hrest⟩ := ih (s := { s with decodeSeqLens := s.decodeSeqLens.erase r }) hnd (by
      intro q hq
      exact AList.mem_erase.mpr ⟨ne_of_mem_of_not_mem hq hr, h q (by simp [hq])⟩)
    refine ⟨s', ?_⟩
    rw [List.forM_cons, bind_ok_iff]
    refine ⟨⟨⟩, _, ?_, hrest⟩
    simp [releaseReq, get_bind, bind_ok_iff, valueOf_ok_iff, hl]

/-- Live requests can be released. -/
theorem exists_releaseSeqs {s : CPUBlockManager} {len : Lengths} (h : Serves s len)
    {reqIds : List ℤ} (hnd : reqIds.Nodup) (hlive : ∀ r ∈ reqIds, (len r).isSome = true) :
    ∃ s', releaseSeqs reqIds s = .ok ⟨⟩ s' := by
  obtain ⟨m', htab⟩ := h.tracks.exists_batchRelease hnd hlive
  obtain ⟨s', hreq⟩ := exists_forM_releaseReq (s := { s with blockMgr := m' }) hnd (by
    intro r hr
    rw [← AList.lookup_isSome, h.recorded, Option.isSome_map]
    exact hlive r hr)
  refine ⟨s', ?_⟩
  rw [releaseSeqs, bind_ok_iff]
  exact ⟨⟨⟩, _, onPart_ok_iff.mpr ⟨m', htab, rfl⟩, hreq⟩

end CPUBlockManager

end StreamInfer.Kv
