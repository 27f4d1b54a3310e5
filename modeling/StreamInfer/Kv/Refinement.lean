import StreamInfer.General.Renaming
import StreamInfer.General.Traces
import StreamInfer.Kv.CpuPacking
import StreamInfer.Kv.GpuReleases

/-! The two block managers on one sequence of calls. Both follow the lengths of the live
requests, so after the same calls their tables have one shape and differ by a renaming
of blocks. The device manager does so in runs whose first-layer visits have new
requests only or running requests only and whose releases list the live ids first, each
once; a mixed visit gives a new request's token the row of a running one, and a release
that starts with a dead id fails after its rows are freed. -/

namespace StreamInfer.Kv

open General General.Stateful Batch BatchMetadata Lengths

variable {W : Type}

inductive Call (W : Type) where
  | update (metaC : BatchMetadata W)
  | release (reqIds : List ℤ)

/-- The lengths of the live requests after a call. -/
def Call.lengths (len : Lengths) : Call W → Lengths
  | .update metaC =>
    if metaC.layerId = 0 then
      CPUBlockManager.afterVisit len metaC (metaC.numPrefillSeqs.getD 0)
    else len
  | .release reqIds => len.clearAll reqIds

/-! ### The CPU manager -/

namespace CPUBlockManager

/-- Its releases fail on ids that are not live, so it is given the live ones. -/
inductive CallStep : Call W → CPUBlockManager → CPUBlockManager → Prop
  | update {c c' : CPUBlockManager} (metaC : BatchMetadata W) (seqLens : List ℤ)
      (hf : metaC.layerId = 0 → ∃ k, GPUBlockManager.FirstLayer metaC k)
      (hok : updateBlockTable metaC c = .ok seqLens c') : CallStep (.update metaC) c c'
  | release {c c' : CPUBlockManager} (reqIds : List ℤ)
      (hok : releaseSeqs (reqIds.filter fun r => r ∈ c.decodeSeqLens) c = .ok ⟨⟩ c') :
      CallStep (.release reqIds) c c'

/-- The state serves the lengths, at block size 1. -/
structure Follows (len : Lengths) (c : CPUBlockManager) : Prop extends Serves c len where
  blockSize : c.blockMgr.blockSize = 1
  firstLayerId : c.firstLayerId = 0

variable {c c' : CPUBlockManager} {len len' : Lengths}

theorem Serves.unique (h : Serves c len) (h' : Serves c len') : len' = len := by
  funext r
  have heq := (h'.recorded r).symm.trans (h.recorded r)
  exact Option.map_injective Nat.cast_injective heq

/-- The first-layer batches of the device manager are visits of the CPU manager. -/
theorem Follows.firstVisit (h : Follows len c) {metaC : BatchMetadata W} {k : ℕ}
    (hf : GPUBlockManager.FirstLayer metaC k) : FirstVisit c metaC k := by
  rw [FirstVisit, h.firstLayerId]
  exact hf

theorem Follows.update (h : Follows len c) {metaC : BatchMetadata W} {seqLens : List ℤ}
    (hf : metaC.layerId = 0 → ∃ k, GPUBlockManager.FirstLayer metaC k)
    (hok : updateBlockTable metaC c = .ok seqLens c') :
    Follows (Call.lengths len (.update metaC)) c' ∧
      List.Forall₂ (BlockManager.Recorded (Call.lengths len (.update metaC))) metaC.reqIds
        seqLens := by
  have hb : 0 < c.blockMgr.blockSize := by rw [h.blockSize]; exact Nat.one_pos
  obtain ⟨len₁, hserves, hbs, hlens⟩ := seqLens_recorded hb h.toServes (fun hl => by
    obtain ⟨k, hk⟩ := hf (hl.trans h.firstLayerId)
    exact ⟨k, h.firstVisit hk⟩) hok
  have hkey : Serves c' (Call.lengths len (.update metaC)) ∧ c'.firstLayerId = c.firstLayerId := by
    by_cases hl : metaC.layerId = 0
    · obtain ⟨k, hk⟩ := hf hl
      obtain ⟨hs, -, hfirst, -⟩ := updateBlockTable_serves h.toServes hb (h.firstVisit hk) hok
      rw [Call.lengths, if_pos hl, hk.seqs]
      exact ⟨hs, hfirst⟩
    · have hne : metaC.layerId ≠ c.firstLayerId := by rwa [h.firstLayerId]
      simp only [updateBlockTable, get_bind, hne, ↓reduceIte, getDecodeSeqLens,
        mapM_valueOf_ok_iff] at hok
      obtain ⟨-, rfl⟩ := hok
      rw [Call.lengths, if_neg hl]
      exact ⟨h.toServes, rfl⟩
  obtain rfl := hkey.1.unique hserves
  exact ⟨⟨hserves, hbs.trans h.blockSize, hkey.2.trans h.firstLayerId⟩, hlens⟩

theorem Follows.step (h : Follows len c) {call : Call W} (hs : CallStep call c c') :
    Follows (call.lengths len) c' := by
  cases hs with
  | update metaC seqLens hf hok => exact (h.update hf hok).1
  | release reqIds hok =>
    obtain ⟨hserves, hfirst, hbs, -, -, -⟩ := releaseSeqs_serves h.toServes hok
    have hclear : len.clearAll (reqIds.filter fun r => r ∈ c.decodeSeqLens) = len.clearAll reqIds := by
      funext r
      by_cases hr : r ∈ reqIds
      · by_cases hlive : r ∈ c.decodeSeqLens
        · simp [clearAll, hr, hlive]
        · have hnone : len r = none := by
            have hrec := h.recorded r
            rw [AList.lookup_eq_none.mpr hlive, eq_comm, Option.map_eq_none_iff] at hrec
            exact hrec
          simp [clearAll, hnone]
      · simp [clearAll, hr]
    rw [hclear] at hserves
    exact ⟨hserves, hbs.trans h.blockSize, hfirst.trans h.firstLayerId⟩

end CPUBlockManager

/-! ### The device manager -/

namespace GPUBlockManager

/-- A batch of a later layer, for live requests. -/
structure LaterLayer (g : GPUBlockManager) (metaC : BatchMetadata W) (k : ℕ) : Prop where
  layer : metaC.layerId ≠ 0
  seqs : metaC.numPrefillSeqs = some k
  tokens : metaC.numPrefillTokens = some k
  decodes : metaC.numDecodeTokens = some (metaC.numTokens - k)
  reqIds : metaC.reqIds.length = metaC.numTokens
  le : k ≤ metaC.numTokens
  live : ∀ r ∈ metaC.reqIds, r ∈ g.decodeSeqLens

/-- A prefill-first batch of `k` new requests and running ones, within capacity, or a
batch of a later layer. -/
def Accepts (g : GPUBlockManager) (metaC : BatchMetadata W) (k : ℕ) : Prop :=
  FirstLayer metaC k ∧ Servable g metaC k ∨ LaterLayer g metaC k

/-- No first-layer batch has both new and running requests. -/
def Unmixed (metaC : BatchMetadata W) (k : ℕ) : Prop :=
  metaC.layerId = 0 → k = 0 ∨ k = metaC.numTokens

inductive CallStep : Call W → GPUBlockManager → GPUBlockManager → Prop
  | update {g g' : GPUBlockManager} (metaC : BatchMetadata W) (k : ℕ) (batch : ScheduledLens)
      (ha : Accepts g metaC k) (hu : Unmixed metaC k)
      (hok : updateBlockTable metaC g = .ok batch g') : CallStep (.update metaC) g g'
  | release {g g' : GPUBlockManager} (reqIds : List ℤ) (ho : LiveFirst g reqIds)
      (hok : releaseSeqs reqIds g = .ok ⟨⟩ g') : CallStep (.release reqIds) g g'

/-- No slot has two owners, and none is held and free. -/
structure Exclusive (g : GPUBlockManager) : Prop where
  owner : ∀ r r' blocks blocks' (i j b : ℕ), g.blocksOf r = some blocks →
    g.blocksOf r' = some blocks' → blocks[i]? = some b → blocks'[j]? = some b → r = r' ∧ i = j
  free : ∀ r blocks b, g.blocksOf r = some blocks → b ∈ blocks → b ∉ g.tokenAllocator.freePages

/-- Live requests keep their blocks and may get more. -/
def Keeps (g g' : GPUBlockManager) : Prop :=
  ∀ r blocks, g.blocksOf r = some blocks → ∃ blocks', g'.blocksOf r = some blocks' ∧ blocks <+: blocks'

variable {g g' : GPUBlockManager} {tables : AList fun _ : ℤ => List ℕ} {len : Lengths}
  {metaC : BatchMetadata W} {k : ℕ}

theorem Represents.exclusive (h : Represents g tables) : Exclusive g := by
  have hnd := List.nodup_append.mp h.holds.pages_nodup
  constructor
  · intro r r' blocks blocks' i j b hr hr' hi hj
    rw [h.holds.blocksOf_eq] at hr hr'
    exact holder_unique hnd.2.1 hr hr' hi hj
  · intro r blocks b hr hb hfree
    rw [h.holds.blocksOf_eq] at hr
    exact hnd.2.2 b hfree b (mem_holdings hr hb) rfl

theorem TablesGrow.keeps {tables' : AList fun _ : ℤ => List ℕ} (h : Represents g tables)
    (h' : Represents g' tables') (hgrow : TablesGrow tables tables') : Keeps g g' := by
  intro r blocks hr
  rw [h.holds.blocksOf_eq] at hr
  obtain ⟨t', ht', hp⟩ := hgrow r blocks hr
  exact ⟨t', h'.holds.blocksOf_eq.trans ht', hp⟩

theorem Scheduled.live {reqIds : List ℤ} {batch : ScheduledLens} (h : Scheduled g reqIds batch) {r : ℤ}
    (hr : r ∈ reqIds) : r ∈ g.decodeSeqLens := by
  have hmem : g.decodeSeqLens.lookup r ∈ reqIds.map g.decodeSeqLens.lookup := List.mem_map_of_mem hr
  rw [← h.lens, h.tensor] at hmem
  obtain ⟨n, -, hn⟩ := List.mem_map.mp hmem
  exact AList.lookup_isSome.mp (by rw [← hn]; rfl)

/-- The tables have the lengths. -/
def Follows (len : Lengths) (g : GPUBlockManager) : Prop :=
  ∃ tables, Represents g tables ∧ lengths tables = len

/-- An accepted batch that is not mixed succeeds, and its tokens get what is their
own. -/
theorem Represents.update (h : Represents g tables) (ha : Accepts g metaC k) (hu : Unmixed metaC k) :
    ∃ batch g' tables' m, updateBlockTable metaC g = .ok batch g' ∧ Represents g' tables' ∧
      lengths tables' = Call.lengths (lengths tables) (.update metaC) ∧ TablesGrow tables tables' ∧
      packFlashAttnMetadata g' metaC batch = .ok m ∧
      List.Forall₂ (fun r token => ∃ blocks, tables'.lookup r = some blocks ∧ token.Own blocks)
        metaC.reqIds m.tokens := by
  rcases ha with ⟨hf, hs⟩ | hl
  · obtain ⟨batch, g', tables', hok, h', hgrow, hsched, hlens⟩ := h.firstLayer hf hs (hu hf.layer)
    obtain ⟨m, hm, hown⟩ := h'.pack_ok metaC hsched fun r hr => h'.holds.mem_iff.mp (hsched.live hr)
    refine ⟨batch, g', tables', m, hok, h', ?_, hgrow, hm, hown⟩
    rw [hlens, Call.lengths, if_pos hf.layer, hf.seqs]
    rfl
  · have hlive : ∀ r ∈ metaC.reqIds, r ∈ tables := fun r hr => h.holds.mem_iff.mp (hl.live r hr)
    obtain ⟨batch, hok, hsched⟩ := h.laterLayer hl.layer hl.decodes hl.tokens hlive
    obtain ⟨m, hm, hown⟩ := h.pack_ok metaC hsched hlive
    refine ⟨batch, g, tables, m, hok, h, ?_, fun q t ht => ⟨t, ht, List.prefix_rfl⟩, hm, hown⟩
    rw [Call.lengths, if_neg hl.layer]

theorem Follows.step (h : Follows len g) {call : Call W} (hs : CallStep call g g') :
    Follows (call.lengths len) g' := by
  obtain ⟨tables, hrep, rfl⟩ := h
  cases hs with
  | update metaC k batch ha hu hok =>
    obtain ⟨batch', g'', tables', -, hok', h', hlens, -, -, -⟩ := hrep.update ha hu
    obtain ⟨-, rfl⟩ := EStateM.Result.ok.inj (hok'.symm.trans hok)
    exact ⟨tables', h', hlens⟩
  | release reqIds ho hok =>
    obtain ⟨g'', tables', hok', h', hlens, -, -⟩ := hrep.releaseSeqs ho
    obtain ⟨-, rfl⟩ := EStateM.Result.ok.inj (hok'.symm.trans hok)
    exact ⟨tables', h', hlens⟩

end GPUBlockManager

/-! ### Both managers -/

/-- One token packed by both managers, up to a renaming of blocks. -/
structure PackedToken.Renamed (ρ : ℕ → ℕ) (token token' : PackedToken) : Prop where
  contextLen : token'.contextLen = token.contextLen
  slot : ∃ b : ℕ, token.slot = b ∧ token'.slot = ρ b
  blockTable : ∃ blocks : List ℕ, (blocks.length : ℤ) = token.contextLen + 1 ∧
    blocks.map Nat.cast <+: token.blockTable ∧ (blocks.map ρ).map Nat.cast <+: token'.blockTable

theorem PackedToken.Own.renamed {ρ : ℕ → ℕ} {token token' : PackedToken} {blocks : List ℕ}
    (h : token.Own blocks) (h' : token'.Own (blocks.map ρ)) : token.Renamed ρ token' := by
  obtain ⟨b, hlast, hslot⟩ := h.slot
  obtain ⟨b', hlast', hslot'⟩ := h'.slot
  have hb : b' = ρ b := by
    rw [List.getLast?_map, hlast, Option.map_some, Option.some_inj] at hlast'
    exact hlast'.symm
  have hcontext := h'.contextLen
  rw [List.length_map, ← h.contextLen] at hcontext
  exact ⟨by omega, ⟨b, hslot, hb ▸ hslot'⟩, blocks, h.contextLen.symm, h.blockTable, h'.blockTable⟩

namespace GPUBlockManager

/-- The device manager against a CPU manager after the same calls: the blocks in use and
the tokens of the next batch agree up to a renaming. -/
def MatchesCpu (calls : List (Call W)) (metaC : BatchMetadata W) (m : FlashAttentionMetadata) :
    Prop :=
  ∀ numBlocks c c' seqLens, RunsTo CPUBlockManager.CallStep calls (.new 1 numBlocks 0 0) c →
    CPUBlockManager.updateBlockTable metaC c = .ok seqLens c' → 0 < metaC.numTokens →
    ∃ m' ρ, CPUBlockManager.packFlashAttnMetadata c' metaC seqLens = .ok m' ∧
      Set.InjOn ρ {b | b ∈ holdings c'.blockMgr.blockTables} ∧
      List.Forall₂ (PackedToken.Renamed ρ) m'.tokens m.tokens

theorem forall₂_of_common {α β γ : Type} {R : α → β → Prop} {S : α → γ → Prop} {T : β → γ → Prop}
    (h : ∀ a b c, R a b → S a c → T b c) {as : List α} {bs : List β} {cs : List γ}
    (hR : List.Forall₂ R as bs) (hS : List.Forall₂ S as cs) : List.Forall₂ T bs cs := by
  induction hR generalizing cs with
  | nil =>
    cases hS
    exact .nil
  | cons hab _ ih =>
    cases hS with
    | cons hac hrest => exact .cons (h _ _ _ hab hac) (ih hrest)

theorem matchesCpu {calls : List (Call W)} {metaC : BatchMetadata W} {k : ℕ}
    {m : FlashAttentionMetadata} {tables' : AList fun _ : ℤ => List ℕ} {g' : GPUBlockManager}
    (h' : Represents g' tables')
    (hf : metaC.layerId = 0 → ∃ k, FirstLayer metaC k)
    (hseqs : metaC.numPrefillSeqs = some k) (htokens : metaC.numPrefillTokens = some k)
    (hdecodes : metaC.numDecodeTokens = some (metaC.numTokens - k))
    (hq : metaC.reqIds.length = metaC.numTokens) (hk : k ≤ metaC.numTokens)
    (hlens : lengths tables' =
      Call.lengths (calls.foldl (fun len call => call.lengths len) fun _ => none) (.update metaC))
    (hown : List.Forall₂ (fun r token => ∃ blocks, tables'.lookup r = some blocks ∧ token.Own blocks)
      metaC.reqIds m.tokens) : MatchesCpu calls metaC m := by
  intro numBlocks c c' seqLens hrun hok hpos
  have hc : CPUBlockManager.Follows (calls.foldl (fun len call => call.lengths len) fun _ => none) c :=
    RunsTo.follows (fun call len s s' hs => hs.step)
      ⟨CPUBlockManager.serves_new _ _ _ _, rfl, rfl⟩ hrun
  obtain ⟨hc', hrecorded⟩ := hc.update hf hok
  obtain ⟨m', hm', hown'⟩ := hc'.toServes.pack_ok hc'.blockSize hq hpos hseqs htokens hdecodes
    (by omega) hrecorded
  have hshape : ∀ r, (c'.blockMgr.blockTables.lookup r).map List.length =
      (tables'.lookup r).map List.length := by
    intro r
    have hr := congrFun hlens r
    rw [lengths] at hr
    rw [hc'.tracks.sized, hr, hc'.blockSize]
    simp
  obtain ⟨ρ, hinj, hρ⟩ := exists_renaming_of_lengths
    (List.nodup_append.mp hc'.tracks.nodup).2.1 (List.nodup_append.mp h'.holds.pages_nodup).2.1 hshape
  refine ⟨m', ρ, hm', hinj, forall₂_of_common (fun r token token' hr hr' => ?_) hown' hown⟩
  obtain ⟨blocks, hblocks, htoken⟩ := hr
  obtain ⟨blocks', hblocks', htoken'⟩ := hr'
  obtain rfl : blocks.map ρ = blocks' := Option.some.inj ((hρ r blocks hblocks).symm.trans hblocks')
  exact htoken.renamed htoken'

theorem Accepts.aligned {g : GPUBlockManager} {metaC : BatchMetadata W} {k : ℕ} (h : Accepts g metaC k) :
    (metaC.layerId = 0 → ∃ k, FirstLayer metaC k) ∧ metaC.numPrefillSeqs = some k ∧
      metaC.numPrefillTokens = some k ∧ metaC.numDecodeTokens = some (metaC.numTokens - k) ∧
      metaC.reqIds.length = metaC.numTokens ∧ k ≤ metaC.numTokens := by
  rcases h with ⟨hf, -⟩ | hl
  · exact ⟨fun _ => ⟨k, hf⟩, hf.seqs, hf.tokens, hf.decodes, hf.reqIds, hf.le⟩
  · exact ⟨fun h0 => absurd h0 hl.layer, hl.seqs, hl.tokens, hl.decodes, hl.reqIds, hl.le⟩

/-- In every run without mixed first-layer visits and with the live ids first in every
release, no slot has two owners, every accepted batch gives its tokens what is their
requests' own, as a CPU manager does up to a renaming of blocks, and every release
returns exactly the blocks of the released requests. -/
theorem refines_cpu {numGpuBlocks maxRunningReqs maxSeqLen : ℕ} {reqSeqLens : List ℤ}
    (hlen : reqSeqLens.length = maxRunningReqs) {calls : List (Call W)} {g : GPUBlockManager}
    (hrun : RunsTo CallStep calls (new numGpuBlocks maxRunningReqs maxSeqLen reqSeqLens) g) :
    Exclusive g ∧
    (∀ (metaC : BatchMetadata W) (k : ℕ), Accepts g metaC k → Unmixed metaC k →
      ∃ batch g' m, updateBlockTable metaC g = .ok batch g' ∧
        packFlashAttnMetadata g' metaC batch = .ok m ∧
        List.Forall₂ (fun r token => ∃ blocks, g'.blocksOf r = some blocks ∧ token.Own blocks)
          metaC.reqIds m.tokens ∧
        Keeps g g' ∧ MatchesCpu calls metaC m) ∧
    ∀ reqIds, LiveFirst g reqIds → ∃ g', releaseSeqs reqIds g = .ok ⟨⟩ g' ∧
      g'.tokenAllocator.freePages = g.tokenAllocator.freePages ++
        (g.liveOf reqIds).flatMap (fun r => (g.blocksOf r).getD []) ∧
      (∀ r ∈ reqIds, g'.blocksOf r = none) ∧ ∀ r ∉ reqIds, g'.blocksOf r = g.blocksOf r := by
  have hfollows : Follows (calls.foldl (fun len call => call.lengths len) fun _ => none) g :=
    RunsTo.follows (fun call len s s' hs => hs.step)
      ⟨∅, represents_new _ _ _ hlen, rfl⟩ hrun
  obtain ⟨tables, hrep, hlens⟩ := hfollows
  refine ⟨hrep.exclusive, fun metaC k ha hu => ?_, fun reqIds ho => ?_⟩
  · obtain ⟨batch, g', tables', m, hok, h', hlens', hgrow, hm, hown⟩ := hrep.update ha hu
    obtain ⟨hf, hseqs, htokens, hdecodes, hq, hk⟩ := ha.aligned
    refine ⟨batch, g', m, hok, hm, ?_, hgrow.keeps hrep h',
      matchesCpu h' hf hseqs htokens hdecodes hq hk (hlens ▸ hlens') hown⟩
    exact hown.imp fun r token hr => by rwa [h'.holds.blocksOf_eq]
  · obtain ⟨g', tables', hok, h', hlens', hpages, hkeep⟩ := hrep.releaseSeqs ho
    refine ⟨g', hok, ?_, fun r hr => ?_, fun r hr => ?_⟩
    · rw [hpages]
      simp only [hrep.holds.blocksOf_eq]
    · have hnone := congrFun hlens' r
      rw [lengths, clearAll, if_pos hr, Option.map_eq_none_iff] at hnone
      rw [h'.holds.blocksOf_eq, hnone]
    · rw [h'.holds.blocksOf_eq, hrep.holds.blocksOf_eq, hkeep r hr]

/-! ### A mixed visit and a release with a dead id -/

/-- One new request with a prompt of two tokens. -/
def onePrompt : BatchMetadata ℕ where
  batchTag := .attention
  shape := (1, 1)
  dtype := "bf16"
  layerId := 0
  reqIds := [1]
  expIds := []
  topkWeights := []
  attnDpRanks := [0]
  initPrefillLens := [2]
  numPrefillSeqs := some 1
  numPrefillTokens := some 1
  numDecodeTokens := some 0

/-- A second new request together with the running one. -/
def mixedVisit : BatchMetadata ℕ :=
  { onePrompt with
    shape := (2, 1)
    reqIds := [2, 1]
    attnDpRanks := [0, 0]
    initPrefillLens := [1, -1]
    numDecodeTokens := some 1 }

/-- The manager after the first batch. -/
def afterPrompt : GPUBlockManager where
  reqToIndice := (∅ : AList fun _ : ℤ => ℕ).insert 1 0
  decodeSeqLens := (∅ : AList fun _ : ℤ => ℤ).insert 1 3
  reqSeqLens := [3, 0, 0]
  reqToTokenPool := ⟨3, 6, [[1, 2, 3, 0, 0, 0], [0, 0, 0, 0, 0, 0], [0, 0, 0, 0, 0, 0]], [1, 2]⟩
  tokenAllocator := ⟨10, false, [4, 5, 6, 7, 8, 9, 10], [], true, []⟩

theorem onePrompt_accepted : Accepts (new 10 3 6 [0, 0, 0]) onePrompt 1 :=
  .inl ⟨⟨rfl, rfl, rfl, rfl, rfl, rfl, by decide, by decide, by decide⟩,
    ⟨by decide, by decide, by decide, by decide, by decide⟩⟩

theorem run_onePrompt :
    RunsTo CallStep [.update onePrompt] (new 10 3 6 [0, 0, 0]) afterPrompt :=
  ⟨afterPrompt, .update onePrompt 1 ⟨[some 3], [3], [0]⟩ onePrompt_accepted (fun _ => .inr rfl) rfl, rfl⟩

/-- Another new request with a prompt of one token. -/
def secondPrompt : BatchMetadata ℕ :=
  { onePrompt with
    reqIds := [2]
    initPrefillLens := [1] }

/-- Both requests go on. -/
def bothDecode : BatchMetadata ℕ :=
  { onePrompt with
    shape := (2, 1)
    reqIds := [2, 1]
    attnDpRanks := [0, 0]
    initPrefillLens := [-1, -1]
    numPrefillSeqs := some 0
    numPrefillTokens := some 0
    numDecodeTokens := some 2 }

/-- The manager after the second batch. -/
def afterPrompts : GPUBlockManager where
  reqToIndice := ((∅ : AList fun _ : ℤ => ℕ).insert 1 0).insert 2 1
  decodeSeqLens := ((∅ : AList fun _ : ℤ => ℤ).insert 1 3).insert 2 2
  reqSeqLens := [3, 2, 0]
  reqToTokenPool := ⟨3, 6, [[1, 2, 3, 0, 0, 0], [4, 5, 0, 0, 0, 0], [0, 0, 0, 0, 0, 0]], [2]⟩
  tokenAllocator := ⟨10, false, [6, 7, 8, 9, 10], [], true, []⟩

theorem run_secondPrompt : RunsTo CallStep [.update onePrompt, .update secondPrompt]
    (new 10 3 6 [0, 0, 0]) afterPrompts := by
  have haccepted : Accepts afterPrompt secondPrompt 1 :=
    .inl ⟨⟨rfl, rfl, rfl, rfl, rfl, rfl, by decide, by decide, by decide⟩,
      ⟨by decide, by decide, by decide, by decide, by decide⟩⟩
  exact ⟨afterPrompt, .update onePrompt 1 ⟨[some 3], [3], [0]⟩ onePrompt_accepted (fun _ => .inr rfl) rfl,
    afterPrompts, .update secondPrompt 1 ⟨[some 2], [2], [1]⟩ haccepted (fun _ => .inr rfl) rfl, rfl⟩

/-- Both requests go on as with a CPU manager, and a release returns the blocks of one. -/
theorem refines_cpu_twoPrompts :
    Exclusive afterPrompts ∧
    (∃ batch g' m, updateBlockTable bothDecode afterPrompts = .ok batch g' ∧
      packFlashAttnMetadata g' bothDecode batch = .ok m ∧ Keeps afterPrompts g' ∧
      MatchesCpu [.update onePrompt, .update secondPrompt] bothDecode m) ∧
    ∃ g', releaseSeqs [2, 9] afterPrompts = .ok ⟨⟩ g' ∧
      g'.tokenAllocator.freePages = [6, 7, 8, 9, 10, 4, 5] ∧ g'.blocksOf 2 = none ∧
      g'.blocksOf 1 = some [1, 2, 3] := by
  have haccepted : Accepts afterPrompts bothDecode 0 :=
    .inl ⟨⟨rfl, rfl, rfl, rfl, rfl, rfl, by decide, by decide, by decide⟩,
      ⟨by decide, by decide, by decide, by decide, by decide⟩⟩
  obtain ⟨hexclusive, hupdate, hrelease⟩ := refines_cpu (W := ℕ) rfl run_secondPrompt
  obtain ⟨batch, g', m, hok, hpack, -, hkeeps, hmatch⟩ :=
    hupdate bothDecode 0 haccepted fun _ => .inl rfl
  obtain ⟨g₂, hok₂, hpages, hdead, hlive⟩ := hrelease [2, 9] ⟨by decide, by decide⟩
  exact ⟨hexclusive, ⟨batch, g', m, hok, hpack, hkeeps, hmatch⟩, g₂, hok₂, hpages,
    hdead 2 (by decide), hlive 1 (by decide)⟩

/-- What is packed for the mixed batch. -/
def mixedPacked : FlashAttentionMetadata where
  numDecodeTokens := 2
  slotMapping := [5, 6]
  seqLens := [some 2, some 4]
  seqLensTensor := [2, 4]
  maxDecodeSeqLen := some 4
  queryStartLoc := [0, 1, 2]
  seqStartLoc := [0, 2, 6]
  contextLensTensor := [1, 3]
  blockTables := [[1, 5, 3, 0], [4, 0, 0, 6]]

/-- The new request's token gets the row of the running request, whose second block it
overwrites; a release of a dead and a live id fails and returns no block, though the
live request's row is free. -/
theorem mixed_visit_swaps_rows :
    RunsTo CallStep [.update onePrompt] (new 10 3 6 [0, 0, 0]) afterPrompt ∧
    (Accepts afterPrompt mixedVisit 1 ∧
      ∃ g', updateBlockTable mixedVisit afterPrompt =
          .ok ⟨[some 2, some 4], [2, 4], [0, 1]⟩ g' ∧
        packFlashAttnMetadata g' mixedVisit ⟨[some 2, some 4], [2, 4], [0, 1]⟩ = .ok mixedPacked ∧
        ¬ List.Forall₂ (fun r token => ∃ blocks, g'.blocksOf r = some blocks ∧ token.Own blocks)
          mixedVisit.reqIds mixedPacked.tokens) ∧
    ∃ g', releaseSeqs [9, 1] afterPrompt = .error (.outOfRange "decode_seq_lens[req_id]") g' ∧
      g'.tokenAllocator.freePages = afterPrompt.tokenAllocator.freePages ∧
      g'.reqToTokenPool.freeSlots = [1, 2, 0] := by
  have hmixed : ∃ g', updateBlockTable mixedVisit afterPrompt =
      .ok ⟨[some 2, some 4], [2, 4], [0, 1]⟩ g' ∧
        packFlashAttnMetadata g' mixedVisit ⟨[some 2, some 4], [2, 4], [0, 1]⟩ = .ok mixedPacked ∧
        g'.blocksOf 2 = some [4, 0] := exists_of_leaves (by decide +kernel)
  obtain ⟨g', hok, hpack, hblocks⟩ := hmixed
  refine ⟨run_onePrompt, ⟨?_, g', hok, hpack, fun h => ?_⟩, ?_⟩
  · exact .inl ⟨⟨rfl, rfl, rfl, rfl, rfl, rfl, by decide, by decide, by decide⟩,
      ⟨by decide, by decide, by decide, by decide, by decide⟩⟩
  · obtain ⟨token, rest, ⟨blocks, hown, htoken⟩, -, htokens⟩ := List.forall₂_cons_left_iff.mp h
    obtain rfl : blocks = [4, 0] := Option.some.inj (hown.symm.trans hblocks)
    obtain ⟨b, hlast, hslot⟩ := htoken.slot
    obtain rfl : 0 = b := Option.some.inj hlast
    rw [← (List.cons.inj htokens).1] at hslot
    exact absurd hslot (by decide)
  · exact ⟨_, rfl, rfl, rfl⟩

end GPUBlockManager

end StreamInfer.Kv
