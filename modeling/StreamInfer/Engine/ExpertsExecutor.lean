import StreamInfer.Batch.ExpertSort
import StreamInfer.General.Fallible
import StreamInfer.General.Runs

/-! The expert executor's two views of a batch: the batch sizes of the local
experts, which the grouped matrix product turns into segments of rows, and the
local id of each row's expert. On rows sorted by expert id, with local ids in
the order of the global ones, the segment of a local expert holds exactly the
rows with its id. -/

namespace StreamInfer.Engine

open General Batch BatchMetadata

inductive ExpertClass where
  | serial | cutlass | cutlassFp8 | deepGemmBf16 | deepGemmFp8
  deriving DecidableEq, Repr

namespace ExpertClass

def usesBatchSizes : ExpertClass → Bool
  | serial | cutlass | cutlassFp8 => true
  | deepGemmBf16 | deepGemmFp8 => false

def usesIndices : ExpertClass → Bool
  | deepGemmBf16 | deepGemmFp8 => true
  | serial | cutlass | cutlassFp8 => false

end ExpertClass

structure ExpertsExecutor where
  expertCls : ExpertClass
  numExperts : ℕ
  localToGlobalExpertRank : List ℕ
  globalToLocalExpertRank : List ℤ

namespace ExpertsExecutor

/-- `global_to_local[global_id] = local_idx`, id by id. -/
def assignLocalIds (table : List ℤ) (localIdx : ℕ) : List ℕ → Except Fault (List ℤ)
  | [] => .ok table
  | globalId :: ids =>
    if globalId < table.length then assignLocalIds (table.set globalId localIdx) (localIdx + 1) ids
    else .error (.outOfRange "global_to_local_expert_rank[global_id]")

/-- `build_expert_executor`: the listed experts, or the block of the rank. -/
def build (expertCls : ExpertClass) (numExperts numExpertsPerRank rankInGroup : ℕ)
    (localExpertIds : List ℕ) : Except Fault ExpertsExecutor := do
  let localToGlobal := if localExpertIds ≠ [] then localExpertIds
    else (List.range numExpertsPerRank).map fun i => numExpertsPerRank * rankInGroup + i
  let globalToLocal ← assignLocalIds (List.replicate numExperts (-1)) 0 localToGlobal
  return ⟨expertCls, numExperts, localToGlobal, globalToLocal⟩

variable {W : Type}

/-- `[batch_sizes[i] for i in ids]`. -/
def sizesOf (batchSizes ids : List ℕ) : Except Fault (List ℕ) :=
  ids.mapM fun i =>
    match batchSizes[i]? with
    | some n => .ok n
    | none => .error (.outOfRange "batch_sizes[i]")

/-- `none` is the static buffer, which the class does not read. -/
def prepareBszAndIndices (e : ExpertsExecutor) (metaC : BatchMetadata W) :
    Except Fault (Option (List ℕ) × Option (List ℤ)) := do
  let batchSizes ←
    if e.expertCls.usesBatchSizes then do
      let sizes ← metaC.getExpertBatchSizes e.numExperts
      let localSizes ← sizesOf sizes e.localToGlobalExpertRank
      pure (some localSizes)
    else pure none
  let mIndices ←
    if e.expertCls.usesIndices then do
      let indices ← metaC.getTokenExpertIndices e.globalToLocalExpertRank
      pure (some indices)
    else pure none
  return (batchSizes, mIndices)

/-- `setup_grouped_gemm_args_kernel`: first row and number of rows of each expert. -/
def setupGroupedGemmArgs (batchSizes : List ℕ) : List (ℕ × ℕ) := segments 0 batchSizes

/-! ### The tables -/

theorem assignLocalIds_ok {table table' : List ℤ} {localIdx : ℕ} {ids : List ℕ} (hn : ids.Nodup)
    (h : assignLocalIds table localIdx ids = .ok table') :
    (∀ id ∈ ids, id < table.length) ∧ table'.length = table.length ∧
      (∀ k (hk : k < ids.length), table'[ids[k]]? = some ((localIdx + k : ℕ) : ℤ)) ∧
      ∀ id, id ∉ ids → table'[id]? = table[id]? := by
  induction ids generalizing table localIdx with
  | nil =>
    obtain rfl := Except.ok.inj h
    simp
  | cons id ids ih =>
    obtain ⟨hid, hn⟩ := List.nodup_cons.mp hn
    rw [assignLocalIds] at h
    split_ifs at h with hlt
    obtain ⟨hall, hlen, hget, hother⟩ := ih hn h
    rw [List.length_set] at hall hlen
    refine ⟨List.forall_mem_cons.mpr ⟨hlt, hall⟩, hlen, fun k hk => ?_, fun id' hid' => ?_⟩
    · cases k with
      | zero => simp [hother id hid, hlt]
      | succ k =>
        have hk' : k < ids.length := by simpa using hk
        rw [List.getElem_cons_succ, hget k hk', Nat.add_assoc, Nat.add_comm 1 k]
    · obtain ⟨hne, hnot⟩ := not_or.mp (List.mem_cons.not.mp hid')
      rw [hother id' hnot, List.getElem?_set_ne (Ne.symm hne)]

/-- Local ids in the order of the global ids, all inside the table. -/
structure Ascending (e : ExpertsExecutor) : Prop where
  ascending : e.localToGlobalExpertRank.Pairwise (· < ·)
  bounded : ∀ g ∈ e.localToGlobalExpertRank, g < e.numExperts
  inverse : ∀ k (hk : k < e.localToGlobalExpertRank.length),
    e.globalToLocalExpertRank[e.localToGlobalExpertRank[k]]? = some (k : ℤ)

theorem build_ascending {expertCls : ExpertClass}
    {numExperts numExpertsPerRank rankInGroup : ℕ} {localExpertIds : List ℕ} {e : ExpertsExecutor}
    (h : build expertCls numExperts numExpertsPerRank rankInGroup localExpertIds = .ok e)
    (ha : e.localToGlobalExpertRank.Pairwise (· < ·)) : e.Ascending := by
  rw [build] at h
  cases ht : assignLocalIds (List.replicate numExperts (-1)) 0 (if localExpertIds ≠ [] then
      localExpertIds else (List.range numExpertsPerRank).map
        fun i => numExpertsPerRank * rankInGroup + i) with
  | error f => simp only [ht, bind, Except.bind, reduceCtorEq] at h
  | ok table =>
    simp only [ht, bind, Except.bind, pure, Except.pure, Except.ok.injEq] at h
    subst h
    obtain ⟨hbound, -, hget, -⟩ := assignLocalIds_ok (ha.imp fun hlt => Nat.ne_of_lt hlt) ht
    exact ⟨ha, by simpa using hbound, by simpa using hget⟩

/-! ### The views of a sorted batch -/

section Views

variable {e : ExpertsExecutor} {m : BatchMetadata W}

theorem Ascending.localSizes_ok (h : e.Ascending) (hlocal : ∀ g ∈ m.expIds, g ∈ e.localToGlobalExpertRank)
    (hpos : 0 < e.numExperts) :
    ∃ sizes, m.getExpertBatchSizes e.numExperts = .ok sizes ∧
      sizesOf sizes e.localToGlobalExpertRank =
        .ok (e.localToGlobalExpertRank.map fun g => m.expIds.count g) := by
  obtain ⟨sizes, hok, hlen, hcount⟩ := countExperts_ok m.expIds (List.replicate e.numExperts 0)
    (by simpa using fun g hg => h.bounded g (hlocal g hg))
  rw [List.length_replicate] at hlen
  refine ⟨sizes, by rw [getExpertBatchSizes, if_pos hpos, hok], ?_⟩
  rw [sizesOf, mapM_eq_ok_iff, List.forall₂_map_right_iff, List.forall₂_same]
  intro g hg
  have hg' : g < sizes.length := by rw [hlen]; exact h.bounded g hg
  have hval := hcount g
  simp only [List.getD_eq_getElem?_getD, List.getElem?_eq_getElem hg'] at hval
  rw [List.getElem?_eq_getElem hg']
  simpa [List.getElem?_replicate, h.bounded g hg, List.count] using hval

/-- Local ids of the rows. -/
theorem Ascending.getTokenExpertIndices_ok (h : e.Ascending)
    (hlocal : ∀ g ∈ m.expIds, g ∈ e.localToGlobalExpertRank) (hn : m.expIds.length = m.numTokens) :
    ∃ indices, m.getTokenExpertIndices e.globalToLocalExpertRank = .ok indices ∧
      indices.length = m.numTokens ∧ ∀ r (hr : r < m.expIds.length) k
        (_ : k < e.localToGlobalExpertRank.length),
        indices[r]? = some (k : ℤ) ↔ m.expIds[r] = e.localToGlobalExpertRank[k] := by
  have hex : ∀ g ∈ m.expIds, ∃ l : ℤ, ∃ k, ∃ hk : k < e.localToGlobalExpertRank.length,
      l = k ∧ e.localToGlobalExpertRank[k] = g := by
    intro g hg
    obtain ⟨k, hk, hg⟩ := List.getElem_of_mem (hlocal g hg)
    exact ⟨k, k, hk, rfl, hg⟩
  obtain ⟨indices, hall⟩ := exists_forall₂ hex
  have hlen := hall.length_eq
  refine ⟨indices, ?_, hlen.symm.trans hn, fun r hr k hk => ?_⟩
  · rw [getTokenExpertIndices, ← hn, hlen]
    refine mapM_range_ok fun i hi => ?_
    obtain ⟨k, hk, hl, hg⟩ := hall.get (hlen ▸ hi) hi
    simp only [List.get_eq_getElem] at hl hg
    rw [List.getElem?_eq_getElem (hlen ▸ hi)]
    simp only [← hg, h.inverse k hk, ← hl]
    rw [if_neg (by omega)]
  · obtain ⟨k', hk', hl, hg⟩ := hall.get hr (hlen ▸ hr)
    simp only [List.get_eq_getElem] at hl hg
    rw [List.getElem?_eq_getElem (hlen ▸ hr), hl, ← hg, Option.some_inj, Int.natCast_inj]
    constructor
    · rintro rfl
      rfl
    · intro heq
      exact (List.Nodup.getElem_inj_iff (h.ascending.imp fun hlt => Nat.ne_of_lt hlt)).mp heq

/-- What the executor hands to the kernels of every class. -/
structure Prepared (e : ExpertsExecutor) (m : BatchMetadata W) (sizes : List ℕ)
    (indices : List ℤ) : Prop where
  prepared : ∀ expertCls, prepareBszAndIndices { e with expertCls := expertCls } m =
    .ok (if expertCls.usesBatchSizes then some sizes else none,
      if expertCls.usesIndices then some indices else none)
  sizes_sum : sizes.sum = m.numTokens
  length_indices : indices.length = m.numTokens
  segment : ∀ k (_ : k < e.localToGlobalExpertRank.length),
    ∃ segment, (setupGroupedGemmArgs sizes)[k]? = some segment ∧ ∀ r < m.numTokens,
      (segment.1 ≤ r ∧ r < segment.1 + segment.2 ↔ indices[r]? = some (k : ℤ)) ∧
      (indices[r]? = some (k : ℤ) ↔ m.expIds[r]? = some e.localToGlobalExpertRank[k])

theorem Ascending.prepared (h : e.Ascending) (hn : m.expIds.length = m.numTokens)
    (hpos : 0 < m.numTokens) (hsorted : m.expIds.Pairwise (· ≤ ·))
    (hlocal : ∀ g ∈ m.expIds, g ∈ e.localToGlobalExpertRank) :
    ∃ sizes indices, Prepared e m sizes indices := by
  have hexperts : 0 < e.numExperts := by
    have hmem := List.getElem_mem (l := m.expIds) (n := 0) (by omega)
    exact (Nat.zero_le _).trans_lt (h.bounded _ (hlocal _ hmem))
  obtain ⟨sizes, hsizes, hlocals⟩ := h.localSizes_ok hlocal hexperts
  obtain ⟨indices, hindices, hlen, hget⟩ := h.getTokenExpertIndices_ok hlocal hn
  refine ⟨e.localToGlobalExpertRank.map fun g => m.expIds.count g, indices, fun expertCls => ?_, ?_,
    hlen, fun k hk => ?_⟩
  · cases expertCls <;>
      simp only [prepareBszAndIndices, ExpertClass.usesBatchSizes, ExpertClass.usesIndices, hsizes,
        hlocals, hindices, bind, Except.bind, pure, Except.pure, Bool.false_eq_true, ↓reduceIte]
  · rw [sum_count_eq_countP _ (h.ascending.imp fun hlt => Nat.ne_of_lt hlt), ← hn]
    exact List.countP_eq_length.mpr fun g hg => decide_eq_true (hlocal g hg)
  · have hseg : ∀ r (hr : r < m.expIds.length), ∃ segment,
        (setupGroupedGemmArgs (e.localToGlobalExpertRank.map fun g => m.expIds.count g))[k]? =
          some segment ∧ (segment.1 ≤ r ∧ r < segment.1 + segment.2 ↔
            m.expIds[r] = e.localToGlobalExpertRank[k]) :=
      fun r hr => mem_segment_iff hsorted h.ascending hlocal hk hr
    obtain ⟨segment, hk', -⟩ := hseg 0 (by omega)
    refine ⟨segment, hk', fun r hr => ?_⟩
    have hr' : r < m.expIds.length := hn ▸ hr
    obtain ⟨segment', hk'', hrow⟩ := hseg r hr'
    obtain rfl : segment = segment' := Option.some.inj (hk'.symm.trans hk'')
    rw [hrow, hget r hr' k hk, List.getElem?_eq_getElem hr', Option.some_inj]
    exact ⟨Iff.rfl, Iff.rfl⟩

end Views

end ExpertsExecutor

end StreamInfer.Engine
