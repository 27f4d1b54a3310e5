import StreamInfer.Kv.Slots

/-! Runs of an attention worker's block manager: first-layer visits and releases
in any order. Every reached state serves some lengths of its live requests, so
tables partition the block ids with the free queue, slots are read from the
requests' own tables, and a slot belongs to one position of one request for as
long as the request lives. -/

namespace StreamInfer.Kv

open General General.Stateful Batch BatchMetadata Lengths Relation

namespace CPUBlockManager

variable {W : Type}

/-- A successful visit of the first layer, or a successful release. -/
inductive Step (W : Type) (s s' : CPUBlockManager) : Prop
  | visit (metaC : BatchMetadata W) (k : ℕ) (seqLens : List ℤ) (hv : FirstVisit s metaC k)
      (hok : updateBlockTable metaC s = .ok seqLens s')
  | release (reqIds : List ℤ) (hok : releaseSeqs reqIds s = .ok ⟨⟩ s')

/-- The state serves its live requests, with the parameters it was built with. -/
structure Sound (start s : CPUBlockManager) (len : Lengths) : Prop extends Serves s len where
  blockSize : s.blockMgr.blockSize = start.blockMgr.blockSize
  numBlocks : s.blockMgr.numBlocks = start.blockMgr.numBlocks
  reservedBlocks : s.blockMgr.reservedBlocks = start.blockMgr.reservedBlocks

variable {start s s' : CPUBlockManager} {len : Lengths}

theorem Step.sound (hs : Step W s s') (hb : 0 < start.blockMgr.blockSize) (h : Sound start s len) :
    ∃ len', Sound start s' len' := by
  cases hs with
  | visit metaC k seqLens hv hok =>
    obtain ⟨hserves, hgrows, -, -⟩ :=
      updateBlockTable_serves h.toServes (by rwa [h.blockSize]) hv hok
    exact ⟨_, hserves, hgrows.blockSize.trans h.blockSize, hgrows.numBlocks.trans h.numBlocks,
      hgrows.reservedBlocks.trans h.reservedBlocks⟩
  | release reqIds hok =>
    obtain ⟨hserves, -, hbs, hnb, hrb, -⟩ := releaseSeqs_serves h.toServes hok
    exact ⟨_, hserves, hbs.trans h.blockSize, hnb.trans h.numBlocks, hrb.trans h.reservedBlocks⟩

/-- A request that stays live keeps the slots of its positions. -/
theorem Step.slotAt_eq (hs : Step W s s') (hb : 0 < s.blockMgr.blockSize) (h : Serves s len)
    {r : ℤ} (hlive : s'.blockMgr.hasSeqBlockList r = true) {q v : ℕ}
    (hv : s.blockMgr.slotAt r q = some v) : s'.blockMgr.slotAt r q = some v := by
  cases hs with
  | visit metaC k seqLens hvisit hok =>
    obtain ⟨-, hgrows, -, -⟩ := updateBlockTable_serves h hb hvisit hok
    exact hgrows.slotAt_eq hv
  | release reqIds hok =>
    obtain ⟨hserves, -, hbs, -, -, hkeep⟩ := releaseSeqs_serves h hok
    have hr : r ∉ reqIds := by
      intro hr
      rw [BlockManager.hasSeqBlockList_iff, hserves.tracks.mem_iff] at hlive
      simp [clearAll, hr] at hlive
    rw [← hv, BlockManager.slotAt, BlockManager.slotAt, hbs, hkeep r hr]

theorem exists_sound (hb : 0 < start.blockMgr.blockSize)
    (hstart : Serves start fun _ => none) (h : ReflTransGen (Step W) start s) :
    ∃ len, Sound start s len := by
  induction h with
  | refl => exact ⟨_, hstart, rfl, rfl, rfl⟩
  | tail _ hstep ih =>
    obtain ⟨len, hlen⟩ := ih
    exact hstep.sound hb hlen

/-- The lengths a call of `update_block_table` leaves in the batch are the
recorded ones. -/
theorem seqLens_recorded (hb : 0 < s.blockMgr.blockSize) (h : Serves s len)
    {metaC : BatchMetadata W} (hcall : metaC.layerId = s.firstLayerId → ∃ k, FirstVisit s metaC k)
    {seqLens : List ℤ} (hok : updateBlockTable metaC s = .ok seqLens s') :
    ∃ len', Serves s' len' ∧ s'.blockMgr.blockSize = s.blockMgr.blockSize ∧
      List.Forall₂ (BlockManager.Recorded len') metaC.reqIds seqLens := by
  by_cases hl : metaC.layerId = s.firstLayerId
  · obtain ⟨k, hv⟩ := hcall hl
    obtain ⟨hserves, hgrows, -, -⟩ := updateBlockTable_serves h hb hv hok
    obtain ⟨hknown, rfl, -⟩ := (updateBlockTable_ok_iff h hv).mp hok
    refine ⟨_, hserves, hgrows.blockSize, ?_⟩
    rw [← map_fst_visited len metaC k, grown, List.map_map,
      List.forall₂_map_left_iff, List.forall₂_map_right_iff, List.forall₂_same]
    intro p hp
    refine ⟨p.2, ?_, rfl⟩
    have hnd : ((grown (visited len metaC k)).map Prod.fst).Nodup := by
      simpa only [grown, List.map_map, Function.comp_def, map_fst_visited] using hv.nodup
    exact setAll_of_mem _ hnd (p := (p.1, p.2 + 1)) (List.mem_map_of_mem hp)
  · simp only [updateBlockTable, get_bind, hl, ↓reduceIte, getDecodeSeqLens,
      mapM_valueOf_ok_iff] at hok
    obtain ⟨hmap, rfl⟩ := hok
    refine ⟨len, h, rfl, ?_⟩
    rw [← List.forall₂_eq_eq_eq, List.forall₂_map_left_iff, List.forall₂_map_right_iff] at hmap
    refine hmap.imp fun r l hr => ?_
    rw [h.recorded r, Option.map_eq_some_iff] at hr
    obtain ⟨n, hn, rfl⟩ := hr
    have hpos := h.positive r n hn
    exact ⟨n - 1, by rw [hn]; congr 1; omega, by congr 1; omega⟩

/-! ### Slots of reached states -/

/-- A state to which a run leads during which request `r` stays live. -/
def WhileLive (W : Type) (r : ℤ) : CPUBlockManager → CPUBlockManager → Prop :=
  ReflTransGen fun a b => Step W a b ∧ b.blockMgr.hasSeqBlockList r = true

/-- The slot of the last recorded position of a request, read from the request's
own table. -/
def OwnSlot (s : CPUBlockManager) (r slot : ℤ) : Prop :=
  ∃ q v : ℕ, s.decodeSeqLens.lookup r = some ((q + 1 : ℕ) : ℤ) ∧ s.blockMgr.slotAt r q = some v ∧
    slot = (v : ℤ)

theorem WhileLive.slotAt_eq {r : ℤ} (h : WhileLive W r s s') (hb : 0 < start.blockMgr.blockSize)
    (hs : Sound start s len) {q v : ℕ} (hv : s.blockMgr.slotAt r q = some v) :
    s'.blockMgr.slotAt r q = some v ∧ ∃ len', Sound start s' len' := by
  induction h with
  | refl => exact ⟨hv, len, hs⟩
  | tail _ hstep ih =>
    obtain ⟨hv', len', hs'⟩ := ih
    exact ⟨hstep.1.slotAt_eq (by rwa [hs'.blockSize]) hs'.toServes hstep.2 hv',
      hstep.1.sound hb hs'⟩

/-- In every reached state the tables of the live requests and the free queue
share out the block ids, tables have the blocks their lengths need, batches get
their requests' own slots, and a slot has no second use while its request
lives. -/
theorem slots_valid {blockSize : ℕ} (numBlocks reservedBlocks firstLayerId : ℕ)
    (hb : 0 < blockSize)
    (h : ReflTransGen (Step W) (new blockSize numBlocks reservedBlocks firstLayerId) s) :
    (s.blockMgr.freeBlocks ++ holdings s.blockMgr.blockTables).Perm
      (List.range (numBlocks + reservedBlocks)) ∧
    (∀ r, s.blockMgr.hasSeqBlockList r = true ↔ r ∈ s.decodeSeqLens) ∧
    (∀ r L, s.decodeSeqLens.lookup r = some L → ∃ table, s.blockMgr.blockTables.lookup r = some table ∧
      table.length = L.toNat ⌈/⌉ blockSize) ∧
    (∀ (metaC : BatchMetadata W) seqLens s', metaC.reqIds.length = metaC.numTokens →
      (metaC.layerId = s.firstLayerId → ∃ k, FirstVisit s metaC k) →
      updateBlockTable metaC s = .ok seqLens s' →
      ∃ table slots width, s'.blockMgr.prepareBlockTable metaC seqLens = .ok (table ++ slots) ∧
        s'.blockMgr.prepareBlockTableGdr metaC seqLens = .ok (table, slots, width) ∧
        List.Forall₂ (OwnSlot s') metaC.reqIds slots) ∧
    ∀ r q v s', s.blockMgr.slotAt r q = some v → WhileLive W r s s' →
      s'.blockMgr.slotAt r q = some v ∧
        ∀ r' q', s'.blockMgr.slotAt r' q' = some v → r' = r ∧ q' = q := by
  obtain ⟨len, hs⟩ := exists_sound hb (serves_new _ _ _ _) h
  have hbs : s.blockMgr.blockSize = blockSize := hs.blockSize
  refine ⟨?_, fun r => ?_, fun r L hL => ?_, fun metaC seqLens s' hq hcall hok => ?_,
    fun r q v s' hv hw => ?_⟩
  · have hpart := hs.tracks.partition
    rwa [hs.numBlocks, hs.reservedBlocks] at hpart
  · rw [BlockManager.hasSeqBlockList_iff, hs.tracks.mem_iff, ← AList.lookup_isSome, hs.recorded,
      Option.isSome_map]
  · rw [hs.recorded, Option.map_eq_some_iff] at hL
    obtain ⟨n, hn, rfl⟩ := hL
    rw [Int.toNat_natCast, ← hbs]
    exact hs.tracks.exists_table hn
  · obtain ⟨len', hserves, hbs', hlens⟩ := seqLens_recorded (by rwa [hbs]) hs.toServes hcall hok
    obtain ⟨table, slots, width, hplain, hgdr, -, hslots⟩ :=
      BlockManager.prepare_ok hserves.tracks (by rwa [hbs', hbs]) hq hlens
    refine ⟨table, slots, width, hplain, hgdr, hslots.imp fun r slot hslot => ?_⟩
    obtain ⟨q, v, hlen, hv, rfl⟩ := hslot
    exact ⟨q, v, by rw [hserves.recorded, hlen]; rfl, hv, rfl⟩
  · obtain ⟨hv', len', hs'⟩ := hw.slotAt_eq hb hs hv
    refine ⟨hv', fun r' q' hr' => ?_⟩
    have hpos : 0 < s'.blockMgr.blockSize := by rw [hs'.blockSize]; exact hb
    obtain ⟨rfl, rfl⟩ := BlockManager.slotAt_inj hs'.tracks hpos hv' hr'
    exact ⟨rfl, rfl⟩

/-- A first visit of one new request with a prompt of two tokens. -/
def promptBatch : BatchMetadata ℕ where
  batchTag := .attention
  shape := (1, 1)
  dtype := "bf16"
  layerId := 0
  reqIds := [5]
  expIds := []
  topkWeights := []
  attnDpRanks := [0]
  initPrefillLens := [2]
  numPrefillSeqs := some 1
  numPrefillTokens := some 1
  numDecodeTokens := some 0

/-- The worker after that visit, with blocks of two tokens. -/
def afterPrompt : CPUBlockManager where
  blockMgr := ⟨2, 4, 0, [2, 3], (∅ : AList fun _ : ℤ => List ℕ).insert 5 [0, 1]⟩
  decodeSeqLens := (∅ : AList fun _ : ℤ => ℤ).insert 5 3
  firstLayerId := 0

/-- The next visit of that request, together with a new one. -/
def joinedBatch : BatchMetadata ℕ :=
  { promptBatch with
    shape := (2, 1)
    reqIds := [6, 5]
    attnDpRanks := [0, 0]
    initPrefillLens := [1, -1]
    numDecodeTokens := some 1 }

def afterJoined : CPUBlockManager where
  blockMgr := ⟨2, 4, 0, [3], afterPrompt.blockMgr.blockTables.insert 6 [2]⟩
  decodeSeqLens := (afterPrompt.decodeSeqLens.insert 6 2).insert 5 4
  firstLayerId := 0

/-- Both requests get their own slots, and the first one keeps those it had. -/
theorem slots_valid_joined :
    (∃ table slots width,
      afterJoined.blockMgr.prepareBlockTable joinedBatch [2, 4] = .ok (table ++ slots) ∧
      afterJoined.blockMgr.prepareBlockTableGdr joinedBatch [2, 4] = .ok (table, slots, width) ∧
      List.Forall₂ (OwnSlot afterJoined) [6, 5] slots) ∧
    afterJoined.blockMgr.slotAt 5 2 = some 2 ∧
      ∀ r q, afterJoined.blockMgr.slotAt r q = some 2 → r = 5 ∧ q = 2 := by
  have hfirst : Step ℕ (new 2 4 0 0) afterPrompt :=
    .visit promptBatch 1 [3] ⟨rfl, rfl, rfl, rfl, rfl, rfl, by decide, by decide, by decide⟩ rfl
  have hvisit : FirstVisit afterPrompt joinedBatch 1 :=
    ⟨rfl, rfl, rfl, rfl, rfl, rfl, by decide, by decide, by decide⟩
  have hok : updateBlockTable joinedBatch afterPrompt = .ok [2, 4] afterJoined := rfl
  obtain ⟨-, -, -, hslots, hlasting⟩ := slots_valid (W := ℕ) 4 0 0 Nat.two_pos (.single hfirst)
  have hlive : WhileLive ℕ 5 afterPrompt afterJoined :=
    .single ⟨.visit joinedBatch 1 [2, 4] hvisit hok, by decide⟩
  exact ⟨hslots joinedBatch [2, 4] afterJoined rfl (fun _ => ⟨1, hvisit⟩) hok,
    hlasting 5 2 2 afterJoined (by decide) hlive⟩

end CPUBlockManager

end StreamInfer.Kv
