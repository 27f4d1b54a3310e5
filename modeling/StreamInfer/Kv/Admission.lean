import StreamInfer.Kv.Reservations
import StreamInfer.Kv.Room

/-! Admission against allocation. The scheduler reserves blocks on a rank for the
whole lifetime of a request; the rank's block manager takes blocks visit by
visit. In every run the reservations cover the blocks taken, so a visit can only
fail where the allocator asks for more than it takes: `append_tokens` wants one
free block to be left over. -/

namespace StreamInfer.Kv

open General General.Stateful Batch BatchMetadata Lengths Relation

/-- How far an admitted request has come. -/
structure Progress where
  prefillLen : ℕ
  outputLen : ℕ
  visits : ℕ
  deriving DecidableEq

/-- The recorded length: none before the first visit, then one token a visit. -/
def Progress.length (p : Progress) : Option ℕ :=
  if p.visits = 0 then none else some (p.prefillLen + p.visits)

/-- The scheduler with one rank and its block manager. -/
structure Admission where
  scheduler : DPScheduler
  manager : CPUBlockManager
  /-- The call that failed. -/
  fault : Option Fault
  /-- All requests ever placed. -/
  seen : List ℤ
  /-- The rank's unfinished requests. -/
  running : ℤ → Option Progress

namespace Admission

variable {W : Type}

def start (scheduler : DPScheduler) (blockSize numBlocks firstLayerId : ℕ) : Admission where
  scheduler := scheduler
  manager := CPUBlockManager.new blockSize numBlocks 0 firstLayerId
  fault := none
  seen := []
  running := fun _ => none

/-- The lengths the rank has recorded. -/
def lengths (running : ℤ → Option Progress) : Lengths := fun r => (running r).bind Progress.length

def countVisit (running : ℤ → Option Progress) (reqIds : List ℤ) : ℤ → Option Progress := fun r =>
  if r ∈ reqIds then (running r).map fun p => { p with visits := p.visits + 1 } else running r

/-- The scheduler answered for one request. -/
def placed (s : Admission) (rank : ℕ) (r : ℤ) (P O : ℕ) (ranks : List ℤ) (scheduler : DPScheduler) :
    Admission :=
  if ranks = [-1] then { s with scheduler := scheduler }
  else
    { s with
      scheduler := scheduler
      seen := r :: s.seen
      running := if ranks = [(rank : ℤ)] then Function.update s.running r (some ⟨P, O, 0⟩)
        else s.running }

def visit (s : Admission) (metaC : BatchMetadata W) : Admission :=
  match CPUBlockManager.updateBlockTable metaC s.manager with
  | .ok _ manager =>
    { s with manager := manager, running := countVisit s.running metaC.reqIds }
  | .error e manager => { s with manager := manager, fault := some e }

def release (s : Admission) (reqIds : List ℤ) : Admission :=
  match CPUBlockManager.releaseSeqs reqIds s.manager with
  | .ok _ manager =>
    { s with manager := manager, running := fun r => if r ∈ reqIds then none else s.running r }
  | .error e manager => { s with manager := manager, fault := some e }

def delete (s : Admission) (r : ℤ) : Admission :=
  match DPScheduler.delSeq r s.scheduler with
  | .ok _ scheduler => { s with scheduler := scheduler }
  | .error e scheduler => { s with scheduler := scheduler, fault := some e }

/-- A first-layer batch of admitted unfinished requests of the rank: `k` on their
first visit, with the prompts they were admitted with, the others later. -/
structure Visit (s : Admission) (metaC : BatchMetadata W) (k : ℕ) : Prop where
  first : CPUBlockManager.FirstVisit s.manager metaC k
  new : ∀ p ∈ CPUBlockManager.newRequests metaC k, ∃ O, s.running p.1 = some ⟨p.2, O, 0⟩
  old : ∀ r ∈ metaC.reqIds.drop k, ∃ p, s.running r = some p ∧ 1 ≤ p.visits
  unfinished : ∀ r ∈ metaC.reqIds, ∀ p, s.running r = some p → p.visits < p.outputLen

/-- The steps of a run; visits obey `C`. -/
inductive Step (rank : ℕ) (C : Admission → BatchMetadata W → ℕ → Prop) (s s' : Admission) : Prop
  | place (r : ℤ) (P O : ℕ) (ranks : List ℤ) (scheduler : DPScheduler) (hf : s.fault = none)
      (hr : r ∉ s.seen) (hP : 1 ≤ P) (hO : 1 ≤ O)
      (hok : DPScheduler.schedule [(r, P, O)] s.scheduler = .ok ranks scheduler)
      (hs : s' = s.placed rank r P O ranks scheduler)
  | visit (metaC : BatchMetadata W) (k : ℕ) (hf : s.fault = none) (hv : Visit s metaC k)
      (hc : C s metaC k) (hs : s' = s.visit metaC)
  | release (reqIds : List ℤ) (hf : s.fault = none) (hnd : reqIds.Nodup)
      (hlive : ∀ r ∈ reqIds, ∃ p, s.running r = some p ∧ 1 ≤ p.visits)
      (hs : s' = s.release reqIds)
  | delete (r : ℤ) (hf : s.fault = none) (hin : r ∈ s.scheduler.seqRanks)
      (hdone : s.running r = none) (hs : s' = s.delete r)

/-! ### Reservations cover the blocks taken -/

/-- A running request within its reservation. -/
structure Within (rank : ℕ) (d : DPScheduler) (r : ℤ) (p : Progress) : Prop where
  ranked : d.seqRanks.lookup r = some rank
  lens : d.seqMaxLen.lookup r = some (p.prefillLen, p.outputLen)
  visits : p.visits ≤ p.outputLen

structure Inv (rank numBlocks blockSize : ℕ) (s : Admission) : Prop where
  reserves : ∃ K, Reserves rank numBlocks blockSize s.scheduler K
  seen : ∀ r ∈ s.scheduler.seqRanks, r ∈ s.seen
  within : ∀ r p, s.running r = some p → Within rank s.scheduler r p
  serves : CPUBlockManager.Serves s.manager (lengths s.running)
  managerSize : s.manager.blockMgr.blockSize = blockSize
  managerBlocks : s.manager.blockMgr.numBlocks = numBlocks
  managerReserved : s.manager.blockMgr.reservedBlocks = 0

/-! ### A visit within the reservations -/

section Visits

variable {rank numBlocks blockSize : ℕ} {s : Admission} {metaC : BatchMetadata W} {k : ℕ}

/-- The reserved blocks cover the lengths of the running requests. -/
theorem blocks_le {d : DPScheduler} {running : ℤ → Option Progress} (hb : 0 < d.blockSize)
    (h : ∀ r p, running r = some p → Within rank d r p) (K : Finset ℤ) :
    blocks d.blockSize K (lengths running) ≤ ∑ r ∈ K, reserved d r := by
  refine Finset.sum_le_sum fun r _ => ?_
  cases hr : running r with
  | none => simp [lengths, hr]
  | some p =>
    have hw := h r p hr
    have hreserved : reserved d r = p.prefillLen ⌈/⌉ d.blockSize + p.outputLen ⌈/⌉ d.blockSize := by
      rw [reserved, hw.lens, Option.map_some, Option.getD_some, requiredBlocks_eq]
    simp only [lengths, hr, Option.bind_some, Progress.length]
    split_ifs
    · simp
    · rw [Option.map_some, Option.getD_some, hreserved]
      exact ceilDiv_add_le hb hw.visits

theorem Visit.map_fst_newRequests (hv : Visit s metaC k) :
    (CPUBlockManager.newRequests metaC k).map Prod.fst = metaC.reqIds.take k := by
  have hq := hv.first.reqIds
  have hl := hv.first.lens
  rw [CPUBlockManager.newRequests, List.map_fst_zip]
  simp [hq, hl]

theorem Visit.nodup_newRequests (hv : Visit s metaC k) :
    ((CPUBlockManager.newRequests metaC k).map Prod.fst).Nodup := by
  rw [hv.map_fst_newRequests]
  exact (List.take_sublist _ _).nodup hv.first.nodup

/-- The length a request of the visit has before its token is appended. -/
theorem Visit.setAll_eq (hv : Visit s metaC k) {r : ℤ} (hr : r ∈ metaC.reqIds) :
    ∃ p, s.running r = some p ∧
      (lengths s.running).setAll (CPUBlockManager.newRequests metaC k) r =
        some (p.prefillLen + p.visits) := by
  by_cases hnew : r ∈ (CPUBlockManager.newRequests metaC k).map Prod.fst
  · obtain ⟨q, hq, rfl⟩ := List.mem_map.mp hnew
    obtain ⟨O, hO⟩ := hv.new q hq
    exact ⟨_, hO, setAll_of_mem _ hv.nodup_newRequests hq⟩
  · have hdrop : r ∈ metaC.reqIds.drop k := by
      rw [hv.map_fst_newRequests] at hnew
      rw [← List.take_append_drop k metaC.reqIds] at hr
      exact (List.mem_append.mp hr).resolve_left hnew
    obtain ⟨p, hp, hpos⟩ := hv.old r hdrop
    refine ⟨p, hp, ?_⟩
    rw [setAll_of_notMem _ hnew, lengths, hp, Option.bind_some, Progress.length, if_neg (by omega)]

theorem Visit.allKnown (hv : Visit s metaC k) :
    CPUBlockManager.AllKnown (lengths s.running) metaC k := by
  intro r hr
  obtain ⟨p, -, hlen⟩ := hv.setAll_eq hr
  rw [hlen]
  rfl

theorem Visit.nodup_visited (hv : Visit s metaC k) :
    ((CPUBlockManager.visited (lengths s.running) metaC k).map Prod.fst).Nodup := by
  rw [CPUBlockManager.map_fst_visited]
  exact hv.first.nodup

/-- The recorded lengths after a visit count it. -/
theorem Visit.afterVisit_eq (hv : Visit s metaC k) :
    CPUBlockManager.afterVisit (lengths s.running) metaC k =
      lengths (countVisit s.running metaC.reqIds) := by
  funext r
  have hkeys : ((CPUBlockManager.grown (CPUBlockManager.visited (lengths s.running) metaC k)).map
      Prod.fst) = metaC.reqIds := by
    rw [CPUBlockManager.grown, List.map_map, ← CPUBlockManager.map_fst_visited
      (lengths s.running) metaC k]
    rfl
  by_cases hr : r ∈ metaC.reqIds
  · obtain ⟨p, hp, hlen⟩ := hv.setAll_eq hr
    have hmem : (r, p.prefillLen + p.visits + 1) ∈
        CPUBlockManager.grown (CPUBlockManager.visited (lengths s.running) metaC k) := by
      refine List.mem_map.mpr ⟨(r, p.prefillLen + p.visits), List.mem_map.mpr ⟨r, hr, ?_⟩, rfl⟩
      rw [hlen, Option.getD_some]
    rw [CPUBlockManager.afterVisit, setAll_of_mem _ (by rw [hkeys]; exact hv.first.nodup) hmem,
      lengths, countVisit, if_pos hr, hp]
    rfl
  · have hnew : r ∉ (CPUBlockManager.newRequests metaC k).map Prod.fst := by
      rw [hv.map_fst_newRequests]
      exact fun hmem => hr (List.mem_of_mem_take hmem)
    rw [CPUBlockManager.afterVisit, setAll_of_notMem _ (by rwa [hkeys]), setAll_of_notMem _ hnew,
      lengths, lengths, countVisit, if_neg hr]

/-- The blocks a visit allocates for its prompts. -/
def promptBlocks (s : Admission) (metaC : BatchMetadata W) (k : ℕ) : ℕ :=
  Tracks.prefillBlocks s.manager.blockMgr.blockSize (CPUBlockManager.newRequests metaC k)

/-- The blocks a visit appends: the requests whose length is a block boundary. -/
def boundaryBlocks (s : Admission) (metaC : BatchMetadata W) (k : ℕ) : ℕ :=
  Tracks.boundaryCount s.manager.blockMgr.blockSize
    (CPUBlockManager.visited (lengths s.running) metaC k)

/-- A visit that appends blocks does not take all free blocks. -/
def SparesBlock (s : Admission) (metaC : BatchMetadata W) (k : ℕ) : Prop :=
  0 < boundaryBlocks s metaC k →
    promptBlocks s metaC k + boundaryBlocks s metaC k ≠ s.manager.blockMgr.freeBlocks.length

instance (s : Admission) (metaC : BatchMetadata W) (k : ℕ) : Decidable (SparesBlock s metaC k) :=
  inferInstanceAs (Decidable (_ → _))

theorem Inv.within_countVisit (hi : Inv rank numBlocks blockSize s) (hv : Visit s metaC k) {r : ℤ}
    {p : Progress} (hp : countVisit s.running metaC.reqIds r = some p) :
    Within rank s.scheduler r p := by
  unfold countVisit at hp
  split_ifs at hp with hr
  · obtain ⟨q, hq, rfl⟩ := Option.map_eq_some_iff.mp hp
    have hw := hi.within r q hq
    exact ⟨hw.ranked, hw.lens, hv.unfinished r hr q hq⟩
  · exact hi.within r p hp

/-- The free blocks cover what a visit takes. -/
theorem Inv.visit_le (hb : 0 < blockSize) (hi : Inv rank numBlocks blockSize s)
    (hv : Visit s metaC k) :
    promptBlocks s metaC k + boundaryBlocks s metaC k ≤ s.manager.blockMgr.freeBlocks.length := by
  obtain ⟨K, hK⟩ := hi.reserves
  obtain ⟨stat, -, hpos, hsum⟩ := hK.stat
  have hinK : ∀ r p, s.running r = some p → r ∈ K := fun r p hp =>
    (hK.mem_iff r).mpr (hi.within r p hp).ranked
  have hlive : ∀ r, (lengths s.running r).isSome = true → r ∈ K := by
    intro r hr
    cases hp : s.running r with
    | none => simp [lengths, hp] at hr
    | some p => exact hinK r p hp
  have hvisitK : ∀ r ∈ metaC.reqIds, r ∈ K := by
    intro r hr
    obtain ⟨p, hp, -⟩ := hv.setAll_eq hr
    exact hinK r p hp
  have hfree := hi.serves.tracks.free_add_blocks K hlive
  have hgain : blocks blockSize K (CPUBlockManager.afterVisit (lengths s.running) metaC k) =
      blocks blockSize K (lengths s.running) + promptBlocks s metaC k +
        boundaryBlocks s metaC k := by
    rw [CPUBlockManager.afterVisit, blocks_setAll_grown hb ?_ hv.nodup_visited
      (fun p hp => hv.allKnown.visited hp), blocks_setAll_new ?_ hv.nodup_newRequests ?_,
      promptBlocks, boundaryBlocks, hi.managerSize]
    · intro p hp
      refine hvisitK p.1 (List.mem_of_mem_take (i := k) ?_)
      rw [← hv.map_fst_newRequests]
      exact List.mem_map_of_mem hp
    · intro p hp
      obtain ⟨O, hO⟩ := hv.new p hp
      rw [lengths, hO]
      rfl
    · intro p hp
      refine hvisitK p.1 ?_
      rw [← CPUBlockManager.map_fst_visited (lengths s.running) metaC k]
      exact List.mem_map_of_mem hp
  have hcover := blocks_le (by rw [hK.blockSize]; exact hb)
    (fun r p hp => hi.within_countVisit hv hp) K
  rw [hK.blockSize, ← hv.afterVisit_eq, hgain] at hcover
  rw [hi.managerSize, hi.managerBlocks, hi.managerReserved] at hfree
  omega

/-- A visit succeeds exactly when it leaves a free block or appends none. -/
theorem Inv.visit_fault_iff (hb : 0 < blockSize) (hi : Inv rank numBlocks blockSize s)
    (hf : s.fault = none) (hv : Visit s metaC k) :
    (s.visit metaC).fault = none ↔ SparesBlock s metaC k := by
  have hbm : 0 < s.manager.blockMgr.blockSize := by rw [hi.managerSize]; exact hb
  have hle := hi.visit_le hb hv
  have hok : (s.visit metaC).fault = none ↔
      ∃ m', CPUBlockManager.visitTables (lengths s.running) metaC k s.manager.blockMgr =
        .ok ⟨⟩ m' := by
    constructor
    · intro hnone
      unfold visit at hnone
      cases hu : CPUBlockManager.updateBlockTable metaC s.manager with
      | ok lens m =>
        obtain ⟨-, -, m', htab, -⟩ := (CPUBlockManager.updateBlockTable_ok_iff hi.serves hv.first).mp hu
        exact ⟨m', htab⟩
      | error e m => simp [hu] at hnone
    · rintro ⟨m', htab⟩
      have hu := (CPUBlockManager.updateBlockTable_ok_iff hi.serves hv.first).mpr
        ⟨hv.allKnown, rfl, m', htab, rfl⟩
      rw [visit, hu]
      exact hf
  have hnew : ∀ p ∈ CPUBlockManager.newRequests metaC k, lengths s.running p.1 = none := by
    intro p hp
    obtain ⟨O, hO⟩ := hv.new p hp
    rw [lengths, hO]
    rfl
  obtain ⟨m₁, halloc⟩ := hi.serves.tracks.exists_allocateAll hbm hv.first.one_le_newRequests
    hv.nodup_newRequests hnew (by
      rw [hi.managerReserved, ← promptBlocks]
      omega)
  obtain ⟨h₁, hg₁, hf₁⟩ := hi.serves.tracks.allocateAll hbm hv.first.one_le_newRequests halloc
  have hpos : ∀ p ∈ CPUBlockManager.visited (lengths s.running) metaC k, 1 ≤ p.2 := fun p hp =>
    setAll_forall hi.serves.positive hv.first.one_le_newRequests (hv.allKnown.visited hp)
  have happend := h₁.exists_appendAll_iff (by rwa [hg₁.blockSize]) hpos hv.nodup_visited
    (fun p hp => hv.allKnown.visited hp)
  rw [hg₁.blockSize, ← boundaryBlocks] at happend
  rw [← promptBlocks] at hf₁
  simp only [hok, CPUBlockManager.visitTables, bind_of_ok halloc, happend, SparesBlock]
  omega

theorem Inv.visit (hb : 0 < blockSize) (hi : Inv rank numBlocks blockSize s) (hv : Visit s metaC k)
    (hnone : (s.visit metaC).fault = none) : Inv rank numBlocks blockSize (s.visit metaC) := by
  unfold Admission.visit at hnone ⊢
  cases hu : CPUBlockManager.updateBlockTable metaC s.manager with
  | error e m => simp [hu] at hnone
  | ok lens m =>
    obtain ⟨hserves, hgrows, -, -⟩ := CPUBlockManager.updateBlockTable_serves hi.serves
      (by rw [hi.managerSize]; exact hb) hv.first hu
    rw [hv.afterVisit_eq] at hserves
    exact ⟨hi.reserves, hi.seen, fun r p hp => hi.within_countVisit hv hp, hserves,
      hgrows.blockSize.trans hi.managerSize, hgrows.numBlocks.trans hi.managerBlocks,
      hgrows.reservedBlocks.trans hi.managerReserved⟩

end Visits

/-! ### Runs -/

section Runs

variable {rank numBlocks blockSize : ℕ} {s s' : Admission}
  {C : Admission → BatchMetadata W → ℕ → Prop}

/-- A request of another rank, or a rejected one, leaves the rank's requests. -/
theorem Within.insert {d d' : DPScheduler} {r q : ℤ} {P O k : ℕ} {p : Progress}
    (h : Within rank d q p) (hr : r ∉ d.seqRanks) (hranks : d'.seqRanks = d.seqRanks.insert r k)
    (hlens : d'.seqMaxLen = d.seqMaxLen.insert r (P, O)) : Within rank d' q p := by
  have hq : q ≠ r := by
    rintro rfl
    exact hr (AList.lookup_isSome.mp (by rw [h.ranked]; rfl))
  exact ⟨by rw [hranks, AList.lookup_insert_ne hq, h.ranked],
    by rw [hlens, AList.lookup_insert_ne hq, h.lens], h.visits⟩

theorem Inv.placed (hi : Inv rank numBlocks blockSize s) {r : ℤ} {P O : ℕ}
    {ranks : List ℤ} {d : DPScheduler} (hr : r ∉ s.seen)
    (hok : DPScheduler.schedule [(r, P, O)] s.scheduler = .ok ranks d) :
    Inv rank numBlocks blockSize (s.placed rank r P O ranks d) := by
  obtain ⟨K, hK⟩ := hi.reserves
  have hnew : r ∉ s.scheduler.seqRanks := fun hmem => hr (hi.seen r hmem)
  rcases DPScheduler.schedule_one_ok hK.capacityAware hok with
    ⟨rfl, c, rfl⟩ | ⟨k, stat, c, rfl, hstat, hroom, hd⟩
  · rw [Admission.placed, if_pos rfl]
    exact ⟨⟨K, hK.capacityAware, hK.blockSize, hK.mem_iff, hK.known, hK.stat⟩, hi.seen,
      fun q p hp => ⟨(hi.within q p hp).ranked, (hi.within q p hp).lens, (hi.within q p hp).visits⟩,
      hi.serves, hi.managerSize, hi.managerBlocks, hi.managerReserved⟩
  · have hne : ([(k : ℤ)] : List ℤ) ≠ [-1] := by
      simp only [ne_eq, List.cons.injEq, and_true]
      omega
    have hother : ∀ q p, s.running q = some p → Within rank d q p := fun q p hp =>
      (hi.within q p hp).insert (P := P) (O := O) (k := k) hnew (by rw [hd]) (by rw [hd])
    have hnone : s.running r = none := by
      cases hp : s.running r with
      | none => rfl
      | some p =>
        exact absurd (AList.lookup_isSome.mp (by rw [(hi.within r p hp).ranked]; rfl)) hnew
    have hseen : ∀ q ∈ d.seqRanks, q ∈ r :: s.seen := by
      intro q hq
      rw [hd] at hq
      rcases AList.mem_insert _ |>.mp hq with rfl | hq
      · simp
      · exact List.mem_cons_of_mem _ (hi.seen q hq)
    rw [Admission.placed, if_neg hne]
    refine ⟨⟨_, hK.place hnew hstat hroom hd⟩, hseen, fun q p hp => ?_, ?_, hi.managerSize,
      hi.managerBlocks, hi.managerReserved⟩
    · dsimp only at hp
      split_ifs at hp with hk
      · obtain rfl : k = rank := by simpa using hk
        by_cases hq : q = r
        · subst hq
          rw [Function.update_self, Option.some_inj] at hp
          subst hp
          exact ⟨by rw [hd]; exact AList.lookup_insert _, by rw [hd]; exact AList.lookup_insert _,
            Nat.zero_le _⟩
        · rw [Function.update_of_ne hq] at hp
          exact hother q p hp
      · exact hother q p hp
    · have hlens : lengths (if ([(k : ℤ)] : List ℤ) = [(rank : ℤ)] then
          Function.update s.running r (some ⟨P, O, 0⟩) else s.running) = lengths s.running := by
        funext q
        split_ifs
        · by_cases hq : q = r
          · subst hq
            simp [lengths, hnone, Progress.length]
          · rw [lengths, lengths, Function.update_of_ne hq]
        · rfl
      dsimp only
      rw [hlens]
      exact hi.serves

theorem Inv.release (hi : Inv rank numBlocks blockSize s) (hf : s.fault = none) {reqIds : List ℤ}
    (hnd : reqIds.Nodup) (hlive : ∀ r ∈ reqIds, ∃ p, s.running r = some p ∧ 1 ≤ p.visits) :
    Inv rank numBlocks blockSize (s.release reqIds) ∧ (s.release reqIds).fault = none := by
  obtain ⟨m, hok⟩ := CPUBlockManager.exists_releaseSeqs hi.serves hnd (by
    intro r hr
    obtain ⟨p, hp, hpos⟩ := hlive r hr
    rw [lengths, hp, Option.bind_some, Progress.length, if_neg (by omega)]
    rfl)
  obtain ⟨hserves, -, hbs, hnb, hrb, -⟩ := CPUBlockManager.releaseSeqs_serves hi.serves hok
  have hlens : (lengths s.running).clearAll reqIds =
      lengths fun r => if r ∈ reqIds then none else s.running r := by
    funext r
    by_cases hr : r ∈ reqIds <;> simp [clearAll, lengths, hr]
  rw [Admission.release, hok]
  refine ⟨⟨hi.reserves, hi.seen, fun r p hp => ?_, hlens ▸ hserves, hbs.trans hi.managerSize,
    hnb.trans hi.managerBlocks, hrb.trans hi.managerReserved⟩, hf⟩
  dsimp only at hp
  split_ifs at hp
  exact hi.within r p hp

theorem Inv.delete (hi : Inv rank numBlocks blockSize s) (hf : s.fault = none) {r : ℤ}
    (hin : r ∈ s.scheduler.seqRanks) (hdone : s.running r = none) :
    Inv rank numBlocks blockSize (s.delete r) ∧ (s.delete r).fault = none := by
  obtain ⟨K, hK⟩ := hi.reserves
  obtain ⟨k, hk⟩ := Option.isSome_iff_exists.mp (AList.lookup_isSome.mpr hin)
  obtain ⟨hlt, hlens⟩ := hK.known r k hk
  obtain ⟨⟨P, O⟩, hPO⟩ := Option.isSome_iff_exists.mp hlens
  obtain ⟨d, hok⟩ : ∃ d, DPScheduler.delSeq r s.scheduler = .ok ⟨⟩ d :=
    ⟨_, DPScheduler.delSeq_ok_iff.mpr ⟨k, P, O, _, hk, hPO, List.getElem?_eq_getElem hlt, rfl⟩⟩
  obtain ⟨k', P', O', stat, -, -, -, hd⟩ := DPScheduler.delSeq_ok_iff.mp hok
  rw [Admission.delete, hok]
  refine ⟨⟨⟨_, hK.delete hok⟩, fun q hq => ?_, fun q p hp => ?_, hi.serves, hi.managerSize,
    hi.managerBlocks, hi.managerReserved⟩, hf⟩
  · dsimp only at hq
    rw [hd] at hq
    exact hi.seen q (AList.mem_erase.mp hq).2
  · dsimp only at hp ⊢
    have hq : q ≠ r := by
      rintro rfl
      simp [hdone] at hp
    have hw := hi.within q p hp
    exact ⟨by rw [hd]; exact (AList.lookup_erase_ne hq).trans hw.ranked,
      by rw [hd]; exact (AList.lookup_erase_ne hq).trans hw.lens, hw.visits⟩

theorem Step.inv (hb : 0 < blockSize) (hstep : Step rank C s s') (hi : Inv rank numBlocks blockSize s)
    (hnone : s'.fault = none) : Inv rank numBlocks blockSize s' := by
  cases hstep with
  | place r P O ranks scheduler hf hr hP hO hok hs =>
    subst hs
    exact hi.placed hr hok
  | visit metaC k hf hv hc hs =>
    subst hs
    exact hi.visit hb hv hnone
  | release reqIds hf hnd hlive hs =>
    subst hs
    exact (hi.release hf hnd hlive).1
  | delete r hf hin hdone hs =>
    subst hs
    exact (hi.delete hf hin hdone).1

theorem Step.fault_eq (hstep : Step rank C s s') : s.fault = none := by
  cases hstep <;> assumption

theorem Inv.start {stats : List (ℕ × ℤ)} {dpSize : ℕ} {policy : Policy} {d₀ d : DPScheduler}
    (firstLayerId : ℕ) (hcap : policy.capacityAware = true)
    (hnew : DPScheduler.getDpScheduler dpSize blockSize policy = .ok d₀)
    (hinit : DPScheduler.initKvCacheStats stats d₀ = .ok ⟨⟩ d)
    (hrank : d.kvCacheStats[rank]? = some (numBlocks : ℤ)) :
    Inv rank numBlocks blockSize (start d blockSize numBlocks firstLayerId) := by
  obtain ⟨policy', rfl, hcap', -⟩ := DPScheduler.getDpScheduler_ok hnew
  obtain ⟨xs, -, rfl⟩ := DPScheduler.initKvCacheStats_ok hinit
  set d : DPScheduler := { DPScheduler.new dpSize blockSize policy' with kvCacheStats := xs }
  have hnone : ∀ r, d.seqRanks.lookup r = none := AList.lookup_empty
  refine ⟨⟨∅, hcap'.trans hcap, rfl, fun r => ?_, fun r k hk => ?_,
    numBlocks, hrank, Int.natCast_nonneg _, by simp⟩, fun r hr => ?_, fun r p hp => ?_,
    CPUBlockManager.serves_new _ _ _ _, rfl, rfl, rfl⟩
  · change r ∈ ∅ ↔ d.seqRanks.lookup r = some rank
    rw [hnone r]
    simp
  · exact absurd (hk.symm.trans (hnone r)) (by simp)
  · have := AList.lookup_isSome.mpr hr
    rw [show (Admission.start d blockSize numBlocks firstLayerId).scheduler = d from rfl,
      hnone r] at this
    simp at this
  · cases hp

/-- A run with a capacity-aware policy whose stats start at the blocks of the
rank never fails while every visit that appends blocks leaves a free one; and in
any run a visit fails as soon as one does not. -/
theorem visits_succeed {stats : List (ℕ × ℤ)} {dpSize : ℕ} {policy : Policy} {d₀ d : DPScheduler}
    (firstLayerId : ℕ) (hb : 0 < blockSize) (hcap : policy.capacityAware = true)
    (hnew : DPScheduler.getDpScheduler dpSize blockSize policy = .ok d₀)
    (hinit : DPScheduler.initKvCacheStats stats d₀ = .ok ⟨⟩ d)
    (hrank : d.kvCacheStats[rank]? = some (numBlocks : ℤ)) :
    (∀ s, ReflTransGen (Step rank (SparesBlock (W := W))) (start d blockSize numBlocks firstLayerId) s →
      s.fault = none) ∧
    ∀ s, ReflTransGen (Step rank fun _ (_ : BatchMetadata W) _ => True)
        (start d blockSize numBlocks firstLayerId) s → s.fault = none →
      ∀ (metaC : BatchMetadata W) k, Visit s metaC k →
        ((s.visit metaC).fault = none ↔ SparesBlock s metaC k) := by
  have hstart := Inv.start firstLayerId hcap hnew hinit hrank
  have hrun : ∀ (C : Admission → BatchMetadata W → ℕ → Prop) s,
      ReflTransGen (Step rank C) (start d blockSize numBlocks firstLayerId) s → s.fault = none →
      Inv rank numBlocks blockSize s := by
    intro C s h
    induction h with
    | refl => exact fun _ => hstart
    | tail _ hstep ih => exact hstep.inv hb (ih hstep.fault_eq)
  refine ⟨fun s h => ?_, fun s h hf metaC k hv => (hrun _ s h hf).visit_fault_iff hb hf hv⟩
  induction h with
  | refl => rfl
  | tail hreach hstep ih =>
    have hi := hrun _ _ hreach ih
    cases hstep with
    | place r P O ranks scheduler hf hr hP hO hok hs =>
      subst hs
      unfold Admission.placed
      split_ifs <;> exact hf
    | visit metaC k hf hv hc hs => rw [hs, hi.visit_fault_iff hb hf hv]; exact hc
    | release reqIds hf hnd hlive hs => rw [hs]; exact (hi.release hf hnd hlive).2
    | delete r hf hin hdone hs => rw [hs]; exact (hi.delete hf hin hdone).2

end Runs

/-! ### A pool taken to its last block -/

/-- The only rank has `numBlocks` blocks of one token. -/
def oneRank (numBlocks : ℕ) : DPScheduler :=
  { DPScheduler.new 1 1 .max with kvCacheStats := [(numBlocks : ℤ)] }

/-- Request `7` with a prompt of one token, to produce one, on the rank. -/
def onePlaced (numBlocks : ℕ) : DPScheduler :=
  { oneRank numBlocks with
    kvCacheStats := [(numBlocks : ℤ) - 2]
    seqRanks := (∅ : AList fun _ : ℤ => ℕ).insert 7 0
    seqMaxLen := (∅ : AList fun _ : ℤ => ℕ × ℕ).insert 7 (1, 1) }

/-- The first visit of request `7`. -/
def oneVisit : BatchMetadata ℕ where
  batchTag := .attention
  shape := (1, 1)
  dtype := "bf16"
  layerId := 0
  reqIds := [7]
  expIds := []
  topkWeights := []
  attnDpRanks := [0]
  initPrefillLens := [1]
  numPrefillSeqs := some 1
  numPrefillTokens := some 1
  numDecodeTokens := some 0

theorem oneVisit_visit (numBlocks : ℕ) :
    Visit ((start (oneRank numBlocks) 1 numBlocks 0).placed 0 7 1 1 [0] (onePlaced numBlocks))
      oneVisit 1 where
  first := ⟨rfl, rfl, rfl, rfl, rfl, rfl, by decide, by decide, by decide⟩
  new := by
    intro p hp
    obtain rfl : p = (7, 1) := by simpa [CPUBlockManager.newRequests, oneVisit] using hp
    exact ⟨1, rfl⟩
  old := by simp [oneVisit]
  unfinished := by
    intro r hr p hp
    obtain rfl : r = 7 := by simpa [oneVisit] using hr
    obtain rfl : (⟨1, 1, 0⟩ : Progress) = p := Option.some.inj hp
    exact Nat.one_pos

theorem oneVisit_step (numBlocks : ℕ) (C : Admission → BatchMetadata ℕ → ℕ → Prop)
    (hok : DPScheduler.schedule [(7, 1, 1)] (oneRank numBlocks) = .ok [0] (onePlaced numBlocks))
    (hc : C ((start (oneRank numBlocks) 1 numBlocks 0).placed 0 7 1 1 [0] (onePlaced numBlocks))
      oneVisit 1) :
    ReflTransGen (Step 0 C) (start (oneRank numBlocks) 1 numBlocks 0)
      (((start (oneRank numBlocks) 1 numBlocks 0).placed 0 7 1 1 [0] (onePlaced numBlocks)).visit
        oneVisit) :=
  .tail (.single (.place 7 1 1 [0] _ rfl (by simp [start]) le_rfl le_rfl hok rfl))
    (.visit oneVisit 1 rfl (oneVisit_visit numBlocks) hc rfl)

/-- With three blocks the request's visit leaves one free. -/
theorem visits_succeed_oneVisit :
    (((start (oneRank 3) 1 3 0).placed 0 7 1 1 [0] (onePlaced 3)).visit oneVisit).fault = none := by
  have hnew : DPScheduler.getDpScheduler 1 1 .max = .ok (DPScheduler.new 1 1 .max) := rfl
  have hinit : DPScheduler.initKvCacheStats [(0, 3)] (DPScheduler.new 1 1 .max) =
      .ok ⟨⟩ (oneRank 3) := rfl
  exact (visits_succeed 0 Nat.one_pos rfl hnew hinit rfl).1 _ (oneVisit_step 3 _ rfl (by decide))

/-- With the two blocks the scheduler asks for, its first token already fails. -/
theorem not_visits_succeed :
    DPScheduler.getDpScheduler 1 1 .max = .ok (DPScheduler.new 1 1 .max) ∧
    DPScheduler.initKvCacheStats [(0, 2)] (DPScheduler.new 1 1 .max) = .ok ⟨⟩ (oneRank 2) ∧
    ∃ s, ReflTransGen (Step 0 fun _ (_ : BatchMetadata ℕ) _ => True) (start (oneRank 2) 1 2 0) s ∧
      s.fault = some (.assertion "num_free_blocks() > blocks_to_add") :=
  ⟨rfl, rfl, _, oneVisit_step 2 _ rfl trivial, rfl⟩

end Admission

end StreamInfer.Kv
