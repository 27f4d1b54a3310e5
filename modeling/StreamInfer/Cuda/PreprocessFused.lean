import StreamInfer.Cuda.CopyAndPad
import StreamInfer.Fault

/-! The kernel that fills the static buffers of an attention graph. The last block
copies the metadata of the tokens and pads it; each other block copies the hidden
rows, eight elements at a time, and the block table rows of a few tokens. Whatever the
order of the threads, the buffers hold the batch and the padding afterwards, and
nothing else is written. -/

namespace StreamInfer.Cuda

open General

/-- An element of one of the static buffers. -/
inductive StaticAddr where
  | hidden (addr : ℕ)
  | blockTable (addr : ℕ)
  | position (i : ℕ)
  | slotMapping (i : ℕ)
  | seqLen (i : ℕ)
  | contextLen (i : ℕ)
  | seqStartLoc (i : ℕ)
  deriving DecidableEq

inductive StaticValue (α : Type) where
  | element (x : α)
  | int (n : ℤ)

/-- What a launch copies; the two-dimensional inputs are flat. -/
structure FusedInput (α : Type) where
  hidden : ℕ → α
  blockTables : ℕ → ℤ
  positions : ℕ → ℤ
  slotMapping : ℕ → ℤ
  seqLens : ℕ → ℤ
  contextLens : ℕ → ℤ
  seqStartLoc : ℕ → ℤ
  inBlockTableStride : ℕ
  outBlockTableStride : ℕ
  T : ℕ
  H : ℕ
  B : ℕ

/-- The elements of a `block_table_vec_t`. -/
def vecSizeBlockTable : ℕ := 1

variable {α : Type}

/-- The metadata of one entry. -/
def metadataWrites (inp : FusedInput α) (i : ℕ) : List (StaticAddr × StaticValue α) :=
  if i < inp.T then
    [(.position i, .int (inp.positions i)), (.slotMapping i, .int (inp.slotMapping i)),
      (.seqLen i, .int (inp.seqLens i)), (.contextLen i, .int (inp.contextLens i))]
  else [(.position i, .int 0), (.slotMapping i, .int (-1)), (.seqLen i, .int 0), (.contextLen i, .int 0)]

/-- The row of one token, as one thread copies it. -/
def hiddenWrites (inp : FusedInput α) (threadId token : ℕ) : List (StaticAddr × StaticValue α) :=
  (strided (threadId * vecSizeHidden) inp.H (numThreads * vecSizeHidden)).flatMap fun i =>
    (List.range vecSizeHidden).map fun k =>
      (.hidden (token * inp.H + (i / vecSizeHidden * vecSizeHidden + k)),
        .element (inp.hidden (token * inp.H + (i / vecSizeHidden * vecSizeHidden + k))))

/-- One entry of a block table row. -/
def blockTableWrite (inp : FusedInput α) (token i : ℕ) : StaticAddr × StaticValue α :=
  (.blockTable (token * inp.outBlockTableStride + i),
    .int (inp.blockTables (token * inp.inBlockTableStride + i)))

/-- The block table row of one token: whole vectors, then the rest. -/
def blockTableWrites (inp : FusedInput α) (threadId token : ℕ) : List (StaticAddr × StaticValue α) :=
  let vecEnd := inp.B / vecSizeBlockTable * vecSizeBlockTable
  ((strided (threadId * vecSizeBlockTable) vecEnd (numThreads * vecSizeBlockTable)).flatMap fun i =>
    (List.range vecSizeBlockTable).map fun k =>
      blockTableWrite inp token (i / vecSizeBlockTable * vecSizeBlockTable + k)) ++
    (strided (vecEnd + threadId) inp.B numThreads).map (blockTableWrite inp token)

/-- `preprocess_fused_cuda` of one thread. -/
def preprocessFusedKernel (tokensPerBlock : ℕ) (inp : FusedInput α)
    (paddedBatchSize numBlocks blockId threadId : ℕ) : List (StaticAddr × StaticValue α) :=
  if blockId = numBlocks - 1 then
    (strided threadId paddedBatchSize numThreads).flatMap (metadataWrites inp) ++
      (strided threadId (paddedBatchSize + 1) numThreads).map fun i =>
        (.seqStartLoc i, .int (if i < inp.T + 1 then inp.seqStartLoc i else 0))
  else
    -- A token past the last ends the block's loop, and so do all later ones.
    ((List.range tokensPerBlock).map (blockId * tokensPerBlock + ·)).flatMap fun token =>
      if token ≥ inp.T then [] else hiddenWrites inp threadId token ++ blockTableWrites inp threadId token

/-- `launch_preprocess_fused_cuda`: what all threads write. -/
def launchPreprocessFused (tokensPerBlock : ℕ) (inp : FusedInput α) (paddedBatchSize : ℕ) :
    List (StaticAddr × StaticValue α) :=
  let tokenCtas := (inp.T + tokensPerBlock - 1) / tokensPerBlock
  let grid := 1 + tokenCtas
  (List.range grid).flatMap fun blockId => (List.range numThreads).flatMap fun threadId =>
    preprocessFusedKernel tokensPerBlock inp paddedBatchSize grid blockId threadId

/-- `cuda_graph_preprocess_fused_dispatch`. -/
def cudaGraphPreprocessFusedDispatch (inp : FusedInput α) (paddedBatchSize tokensPerBlock : ℕ) :
    Except Fault (List (StaticAddr × StaticValue α)) :=
  match tokensPerBlock with
  | 1 => .ok (launchPreprocessFused 1 inp paddedBatchSize)
  | 2 => .ok (launchPreprocessFused 2 inp paddedBatchSize)
  | 4 => .ok (launchPreprocessFused 4 inp paddedBatchSize)
  | _ => .error (.assertion "Unsupported tokens_per_block")

/-! ### What is written -/

/-- The batch and its padding, element by element. -/
inductive Fills (inp : FusedInput α) (paddedBatchSize : ℕ) : StaticAddr → StaticValue α → Prop
  | hidden {row col : ℕ} (hrow : row < inp.T) (hcol : col < inp.H) :
    Fills inp paddedBatchSize (.hidden (row * inp.H + col)) (.element (inp.hidden (row * inp.H + col)))
  | blockTable {row col : ℕ} (hrow : row < inp.T) (hcol : col < inp.B) :
    Fills inp paddedBatchSize (.blockTable (row * inp.outBlockTableStride + col))
      (.int (inp.blockTables (row * inp.inBlockTableStride + col)))
  | position {i : ℕ} (hi : i < paddedBatchSize) :
    Fills inp paddedBatchSize (.position i) (.int (if i < inp.T then inp.positions i else 0))
  | slotMapping {i : ℕ} (hi : i < paddedBatchSize) :
    Fills inp paddedBatchSize (.slotMapping i) (.int (if i < inp.T then inp.slotMapping i else -1))
  | seqLen {i : ℕ} (hi : i < paddedBatchSize) :
    Fills inp paddedBatchSize (.seqLen i) (.int (if i < inp.T then inp.seqLens i else 0))
  | contextLen {i : ℕ} (hi : i < paddedBatchSize) :
    Fills inp paddedBatchSize (.contextLen i) (.int (if i < inp.T then inp.contextLens i else 0))
  | seqStartLoc {i : ℕ} (hi : i ≤ paddedBatchSize) :
    Fills inp paddedBatchSize (.seqStartLoc i) (.int (if i ≤ inp.T then inp.seqStartLoc i else 0))

variable {inp : FusedInput α} {paddedBatchSize tokensPerBlock : ℕ}

/-- An element is filled with one value. -/
theorem Fills.unique (hB : inp.B ≤ inp.outBlockTableStride) {a : StaticAddr} {v v' : StaticValue α}
    (h : Fills inp paddedBatchSize a v) (h' : Fills inp paddedBatchSize a v') : v = v' := by
  generalize ha : a = a' at h'
  cases h with
  | hidden hrow hcol =>
    cases h' with
    | hidden hrow' hcol' => rw [StaticAddr.hidden.inj ha]
    | _ => cases ha
  | blockTable hrow hcol =>
    cases h' with
    | blockTable hrow' hcol' =>
      obtain ⟨rfl, rfl⟩ := rowMajor_inj (hcol.trans_le hB) (hcol'.trans_le hB) (StaticAddr.blockTable.inj ha)
      rfl
    | _ => cases ha
  | position hi => cases h' <;> cases ha; rfl
  | slotMapping hi => cases h' <;> cases ha; rfl
  | seqLen hi => cases h' <;> cases ha; rfl
  | contextLen hi => cases h' <;> cases ha; rfl
  | seqStartLoc hi => cases h' <;> cases ha; rfl

/-! ### A thread writes nothing else -/

theorem metadataWrites_fills {i : ℕ} (hi : i < paddedBatchSize) {w : StaticAddr × StaticValue α}
    (hw : w ∈ metadataWrites inp i) : Fills inp paddedBatchSize w.1 w.2 := by
  have hposition : Fills inp paddedBatchSize (.position i) _ := .position hi
  have hslot : Fills inp paddedBatchSize (.slotMapping i) _ := .slotMapping hi
  have hseq : Fills inp paddedBatchSize (.seqLen i) _ := .seqLen hi
  have hcontext : Fills inp paddedBatchSize (.contextLen i) _ := .contextLen hi
  unfold metadataWrites at hw
  split_ifs at hw with hT
  · rw [if_pos hT] at hposition hslot hseq hcontext
    simp only [List.mem_cons, List.not_mem_nil, or_false] at hw
    rcases hw with rfl | rfl | rfl | rfl <;> assumption
  · rw [if_neg hT] at hposition hslot hseq hcontext
    simp only [List.mem_cons, List.not_mem_nil, or_false] at hw
    rcases hw with rfl | rfl | rfl | rfl <;> assumption

theorem hiddenWrites_fills (hH : vecSizeHidden ∣ inp.H) {threadId token : ℕ} (htoken : token < inp.T)
    {w : StaticAddr × StaticValue α} (hw : w ∈ hiddenWrites inp threadId token) :
    Fills inp paddedBatchSize w.1 w.2 := by
  obtain ⟨i, hi, hw⟩ := List.mem_flatMap.mp hw
  obtain ⟨k, hk, rfl⟩ := List.mem_map.mp hw
  have hi := ((mem_strided (by decide)).mp hi).2.1
  have hk := List.mem_range.mp hk
  obtain ⟨h, hh⟩ := hH
  refine Fills.hidden htoken ?_
  unfold vecSizeHidden at *
  omega

theorem blockTableWrites_fills {threadId token : ℕ} (htoken : token < inp.T)
    {w : StaticAddr × StaticValue α} (hw : w ∈ blockTableWrites inp threadId token) :
    Fills inp paddedBatchSize w.1 w.2 := by
  rcases List.mem_append.mp hw with hw | hw
  · obtain ⟨i, hi, hw⟩ := List.mem_flatMap.mp hw
    obtain ⟨k, hk, rfl⟩ := List.mem_map.mp hw
    have hi := ((mem_strided (by decide)).mp hi).2.1
    have hk := List.mem_range.mp hk
    refine Fills.blockTable htoken ?_
    unfold vecSizeBlockTable at *
    omega
  · obtain ⟨i, hi, rfl⟩ := List.mem_map.mp hw
    exact Fills.blockTable htoken ((mem_strided (by decide)).mp hi).2.1

theorem launch_fills (hH : vecSizeHidden ∣ inp.H) {w : StaticAddr × StaticValue α}
    (hw : w ∈ launchPreprocessFused tokensPerBlock inp paddedBatchSize) :
    Fills inp paddedBatchSize w.1 w.2 := by
  have hthreads : 0 < numThreads := by decide
  obtain ⟨blockId, -, hw⟩ := List.mem_flatMap.mp hw
  obtain ⟨threadId, -, hw⟩ := List.mem_flatMap.mp hw
  unfold preprocessFusedKernel at hw
  split_ifs at hw with hlast
  · rcases List.mem_append.mp hw with hw | hw
    · obtain ⟨i, hi, hw⟩ := List.mem_flatMap.mp hw
      exact metadataWrites_fills ((mem_strided hthreads).mp hi).2.1 hw
    · obtain ⟨i, hi, rfl⟩ := List.mem_map.mp hw
      have hi := ((mem_strided hthreads).mp hi).2.1
      have hfill : Fills inp paddedBatchSize (.seqStartLoc i) _ :=
        .seqStartLoc (Nat.lt_succ_iff.mp hi)
      simp only [← Nat.lt_succ_iff] at hfill
      exact hfill
  · obtain ⟨token, -, hw⟩ := List.mem_flatMap.mp hw
    split_ifs at hw with htoken
    · cases hw
    · rcases List.mem_append.mp hw with hw | hw
      · exact hiddenWrites_fills hH (not_le.mp htoken) hw
      · exact blockTableWrites_fills (not_le.mp htoken) hw

/-! ### Some thread writes each element -/

/-- What the last block writes for an entry. -/
theorem mem_launch_of_last {w : StaticAddr × StaticValue α} {threadId : ℕ} (hthread : threadId < numThreads)
    (hw : w ∈ (strided threadId paddedBatchSize numThreads).flatMap (metadataWrites inp) ++
      (strided threadId (paddedBatchSize + 1) numThreads).map fun i =>
        (.seqStartLoc i, .int (if i < inp.T + 1 then inp.seqStartLoc i else 0))) :
    w ∈ launchPreprocessFused tokensPerBlock inp paddedBatchSize := by
  refine List.mem_flatMap.mpr ⟨(inp.T + tokensPerBlock - 1) / tokensPerBlock,
    List.mem_range.mpr (Nat.lt_add_of_pos_left Nat.one_pos),
    List.mem_flatMap.mpr ⟨threadId, List.mem_range.mpr hthread, ?_⟩⟩
  rw [preprocessFusedKernel, if_pos (Nat.add_sub_cancel_left 1 _).symm]
  exact hw

theorem metadata_mem_launch {i : ℕ} (hi : i < paddedBatchSize) {w : StaticAddr × StaticValue α}
    (hw : w ∈ metadataWrites inp i) : w ∈ launchPreprocessFused tokensPerBlock inp paddedBatchSize := by
  have hthreads : 0 < numThreads := by decide
  refine mem_launch_of_last (Nat.mod_lt i hthreads) (List.mem_append_left _ ?_)
  exact List.mem_flatMap.mpr
    ⟨i, (mem_strided hthreads).mpr ⟨Nat.mod_le _ _, hi, Nat.dvd_sub_mod i⟩, hw⟩

/-- What the block of a token writes for it. -/
theorem mem_launch_of_token (htpb : 0 < tokensPerBlock) {w : StaticAddr × StaticValue α}
    {threadId token : ℕ} (hthread : threadId < numThreads) (htoken : token < inp.T)
    (hw : w ∈ hiddenWrites inp threadId token ++ blockTableWrites inp threadId token) :
    w ∈ launchPreprocessFused tokensPerBlock inp paddedBatchSize := by
  have hblock : token / tokensPerBlock < (inp.T + tokensPerBlock - 1) / tokensPerBlock := by
    rw [Nat.lt_iff_add_one_le, Nat.le_div_iff_mul_le htpb, Nat.add_mul, Nat.one_mul]
    have := Nat.div_mul_le_self token tokensPerBlock
    omega
  refine List.mem_flatMap.mpr ⟨token / tokensPerBlock, List.mem_range.mpr (by omega),
    List.mem_flatMap.mpr ⟨threadId, List.mem_range.mpr hthread, ?_⟩⟩
  rw [preprocessFusedKernel, if_neg (by omega)]
  refine List.mem_flatMap.mpr ⟨token, List.mem_map.mpr ⟨token % tokensPerBlock,
    List.mem_range.mpr (Nat.mod_lt _ htpb), ?_⟩, ?_⟩
  · rw [Nat.mul_comm]
    exact Nat.div_add_mod token tokensPerBlock
  · rw [if_neg (not_le.mpr htoken)]
    exact hw

theorem hidden_mem_launch (htpb : 0 < tokensPerBlock) {row col : ℕ} (hrow : row < inp.T)
    (hcol : col < inp.H) :
    (StaticAddr.hidden (row * inp.H + col), StaticValue.element (inp.hidden (row * inp.H + col))) ∈
      launchPreprocessFused tokensPerBlock inp paddedBatchSize := by
  have hthread : col / vecSizeHidden % numThreads < numThreads := Nat.mod_lt _ (by decide)
  refine mem_launch_of_token htpb hthread hrow (List.mem_append_left _ ?_)
  refine List.mem_flatMap.mpr ⟨col / vecSizeHidden * vecSizeHidden, (mem_strided (by decide)).mpr ?_,
    List.mem_map.mpr ⟨col % vecSizeHidden, List.mem_range.mpr (Nat.mod_lt _ (by decide)), ?_⟩⟩
  · refine ⟨Nat.mul_le_mul_right _ (Nat.mod_le _ _), (Nat.div_mul_le_self _ _).trans_lt hcol, ?_⟩
    rw [← Nat.mul_sub_right_distrib]
    exact Nat.mul_dvd_mul_right (Nat.dvd_sub_mod _) _
  · rw [Nat.mul_div_cancel _ (by decide), Nat.mul_comm (col / vecSizeHidden), Nat.div_add_mod]

theorem blockTable_mem_launch (htpb : 0 < tokensPerBlock) {row col : ℕ} (hrow : row < inp.T)
    (hcol : col < inp.B) :
    blockTableWrite inp row col ∈ launchPreprocessFused tokensPerBlock inp paddedBatchSize := by
  have hthread : col % numThreads < numThreads := Nat.mod_lt _ (by decide)
  refine mem_launch_of_token htpb hthread hrow
    (List.mem_append_right _ (List.mem_append_left _ ?_))
  refine List.mem_flatMap.mpr ⟨col, (mem_strided (by decide)).mpr ⟨?_, ?_, ?_⟩,
    List.mem_map.mpr ⟨0, by decide, ?_⟩⟩
  · rw [vecSizeBlockTable, Nat.mul_one]
    exact Nat.mod_le _ _
  · rw [vecSizeBlockTable, Nat.mul_one, Nat.div_one]
    exact hcol
  · rw [vecSizeBlockTable, Nat.mul_one, Nat.mul_one]
    exact Nat.dvd_sub_mod col
  · rw [vecSizeBlockTable, Nat.mul_one, Nat.div_one, Nat.add_zero]

/-- Every element to fill is written with its value. -/
theorem Fills.mem_launch (htpb : 0 < tokensPerBlock) {a : StaticAddr} {v : StaticValue α}
    (h : Fills inp paddedBatchSize a v) :
    (a, v) ∈ launchPreprocessFused tokensPerBlock inp paddedBatchSize := by
  cases h with
  | hidden hrow hcol => exact hidden_mem_launch htpb hrow hcol
  | blockTable hrow hcol => exact blockTable_mem_launch htpb hrow hcol
  | position hi => exact metadata_mem_launch hi (by unfold metadataWrites; split_ifs <;> simp)
  | slotMapping hi => exact metadata_mem_launch hi (by unfold metadataWrites; split_ifs <;> simp)
  | seqLen hi => exact metadata_mem_launch hi (by unfold metadataWrites; split_ifs <;> simp)
  | contextLen hi => exact metadata_mem_launch hi (by unfold metadataWrites; split_ifs <;> simp)
  | @seqStartLoc i hi =>
    have hthreads : 0 < numThreads := by decide
    refine mem_launch_of_last (Nat.mod_lt i hthreads) (List.mem_append_right _ ?_)
    refine List.mem_map.mpr ⟨i, (mem_strided hthreads).mpr
      ⟨Nat.mod_le _ _, Nat.lt_succ_of_le hi, Nat.dvd_sub_mod i⟩, ?_⟩
    simp only [Nat.lt_succ_iff]

/-! ### The buffers afterwards -/

/-- The elements of the padded view. -/
def InView (inp : FusedInput α) (paddedBatchSize : ℕ) : StaticAddr → Prop
  | .hidden addr => ∃ row < inp.T, ∃ col < inp.H, addr = row * inp.H + col
  | .blockTable addr => ∃ row < inp.T, ∃ col < inp.B, addr = row * inp.outBlockTableStride + col
  | .position i => i < paddedBatchSize
  | .slotMapping i => i < paddedBatchSize
  | .seqLen i => i < paddedBatchSize
  | .contextLen i => i < paddedBatchSize
  | .seqStartLoc i => i ≤ paddedBatchSize

/-- The buffers hold the batch, then its padding, and what they held before elsewhere. -/
structure Filled (inp : FusedInput α) (paddedBatchSize : ℕ) (mem mem' : StaticAddr → StaticValue α) :
    Prop where
  hidden : ∀ row < inp.T, ∀ col < inp.H,
    mem' (.hidden (row * inp.H + col)) = .element (inp.hidden (row * inp.H + col))
  blockTable : ∀ row < inp.T, ∀ col < inp.B, mem' (.blockTable (row * inp.outBlockTableStride + col)) =
    .int (inp.blockTables (row * inp.inBlockTableStride + col))
  metadata : ∀ i < inp.T, mem' (.position i) = .int (inp.positions i) ∧
    mem' (.slotMapping i) = .int (inp.slotMapping i) ∧ mem' (.seqLen i) = .int (inp.seqLens i) ∧
    mem' (.contextLen i) = .int (inp.contextLens i)
  padding : ∀ i, inp.T ≤ i → i < paddedBatchSize → mem' (.position i) = .int 0 ∧
    mem' (.slotMapping i) = .int (-1) ∧ mem' (.seqLen i) = .int 0 ∧ mem' (.contextLen i) = .int 0
  seqStartLoc : ∀ i ≤ inp.T, mem' (.seqStartLoc i) = .int (inp.seqStartLoc i)
  seqStartLocPadding : ∀ i, inp.T < i → i ≤ paddedBatchSize → mem' (.seqStartLoc i) = .int 0
  rest : ∀ a, ¬ InView inp paddedBatchSize a → mem' a = mem a

theorem Fills.inView {a : StaticAddr} {v : StaticValue α} (h : Fills inp paddedBatchSize a v) :
    InView inp paddedBatchSize a := by
  cases h with
  | hidden hrow hcol => exact ⟨_, hrow, _, hcol, rfl⟩
  | blockTable hrow hcol => exact ⟨_, hrow, _, hcol, rfl⟩
  | position hi => exact hi
  | slotMapping hi => exact hi
  | seqLen hi => exact hi
  | contextLen hi => exact hi
  | seqStartLoc hi => exact hi

/-- Buffers that hold what is filled and kept the rest hold the padded view. -/
theorem filled_of_fills (hpad : inp.T ≤ paddedBatchSize) {mem mem' : StaticAddr → StaticValue α}
    (hfills : ∀ a v, Fills inp paddedBatchSize a v → mem' a = v)
    (hrest : ∀ a, ¬ InView inp paddedBatchSize a → mem' a = mem a) :
    Filled inp paddedBatchSize mem mem' where
  hidden row hrow col hcol := hfills _ _ (.hidden hrow hcol)
  blockTable row hrow col hcol := hfills _ _ (.blockTable hrow hcol)
  metadata i hi := by
    have hlt := hi.trans_le hpad
    refine ⟨?_, ?_, ?_, ?_⟩
    · rw [hfills _ _ (.position hlt), if_pos hi]
    · rw [hfills _ _ (.slotMapping hlt), if_pos hi]
    · rw [hfills _ _ (.seqLen hlt), if_pos hi]
    · rw [hfills _ _ (.contextLen hlt), if_pos hi]
  padding i hi hlt := by
    have hnot := not_lt.mpr hi
    refine ⟨?_, ?_, ?_, ?_⟩
    · rw [hfills _ _ (.position hlt), if_neg hnot]
    · rw [hfills _ _ (.slotMapping hlt), if_neg hnot]
    · rw [hfills _ _ (.seqLen hlt), if_neg hnot]
    · rw [hfills _ _ (.contextLen hlt), if_neg hnot]
  seqStartLoc i hi := by rw [hfills _ _ (.seqStartLoc (hi.trans hpad)), if_pos hi]
  seqStartLocPadding i hi hle := by rw [hfills _ _ (.seqStartLoc hle), if_neg (not_le.mpr hi)]
  rest := hrest

/-- A launch fills the padded view, whatever the order of its threads and the contents
of the buffers before. -/
theorem dispatch_filled (htpb : tokensPerBlock ∈ [1, 2, 4]) (hpad : inp.T ≤ paddedBatchSize)
    (hH : 8 ∣ inp.H) (hB : inp.B ≤ inp.outBlockTableStride) :
    ∃ writes, cudaGraphPreprocessFusedDispatch inp paddedBatchSize tokensPerBlock = .ok writes ∧
      ∀ mem mem', StoredInSomeOrder writes mem mem' → Filled inp paddedBatchSize mem mem' := by
  refine ⟨launchPreprocessFused tokensPerBlock inp paddedBatchSize, ?_, fun mem mem' hstored => ?_⟩
  · simp only [List.mem_cons, List.not_mem_nil, or_false] at htpb
    rcases htpb with rfl | rfl | rfl <;> rfl
  · have hpos : 0 < tokensPerBlock := by
      simp only [List.mem_cons, List.not_mem_nil, or_false] at htpb
      omega
    refine filled_of_fills hpad (fun a v hfill => ?_) fun a hnone => ?_
    · refine hstored.eq_of_mem ⟨(a, v), hfill.mem_launch hpos, rfl⟩ ?_
      rintro ⟨a', v'⟩ hw rfl
      exact (launch_fills hH hw).unique hB hfill
    · refine hstored.eq_of_not_mem ?_
      rintro ⟨a', v'⟩ hw rfl
      exact hnone (launch_fills hH hw).inView

/-- Three tokens of one vector each, padded to four, in blocks of two tokens. -/
def threeTokens : FusedInput ℤ where
  hidden := fun i => i
  blockTables := fun i => 10 + i
  positions := fun i => 20 + i
  slotMapping := fun i => 30 + i
  seqLens := fun i => 40 + i
  contextLens := fun i => 50 + i
  seqStartLoc := fun i => 60 + i
  inBlockTableStride := 2
  outBlockTableStride := 3
  T := 3
  H := 8
  B := 2

theorem dispatch_filled_threeTokens :
    ∃ writes, cudaGraphPreprocessFusedDispatch threeTokens 4 2 = .ok writes ∧
      ∀ mem mem', StoredInSomeOrder writes mem mem' → Filled threeTokens 4 mem mem' :=
  dispatch_filled (by decide) (by decide) (by decide) (by decide)

end StreamInfer.Cuda
