import StreamInfer.Batch.Rows
import StreamInfer.General.Runs

/-! The dispatcher of a device. A finished batch is cut at the runs of its
destinations, the channel of the expert for attention batches and the rank for
expert batches, and each piece goes to the channel of its first token. A piece
holds consecutive tokens of the batch, all with one destination. -/

namespace StreamInfer.Engine

open General Batch BatchMetadata

variable {W R : Type}

structure UnifiedDispatcher where
  /-- `-1` where an expert has no rank. -/
  expertToRank : List ℤ
  /-- `-1` where a rank has no channel. -/
  rankToChannel : List ℤ

namespace UnifiedDispatcher

def attnGetChannelId (d : UnifiedDispatcher) (dpRank : ℕ) : Except Fault ℤ :=
  match d.rankToChannel[dpRank]? with
  | some channel => .ok channel
  | none => .error (.outOfRange "rank_to_channel[dp_rank]")

def expertGetChannelId (d : UnifiedDispatcher) (expertId : ℕ) : Except Fault ℤ :=
  match d.expertToRank[expertId]? with
  | none => .error (.outOfRange "expert_to_rank[expert_id]")
  | some rank =>
    if rank < 0 then .error (.outOfRange "rank_to_channel[rank]")
    else match d.rankToChannel[rank.toNat]? with
      | some channel => .ok channel
      | none => .error (.outOfRange "rank_to_channel[rank]")

/-- A piece with the channel of its first entry in a column. -/
def addressed (getChannelId : ℕ → Except Fault ℤ) (access : String)
    (column : BatchMetadata W → List ℕ) (batch : TokenBatch W R) :
    Except Fault (ℤ × TokenBatch W R) :=
  match column batch.metadata with
  | [] => .error (.outOfRange access)
  | first :: _ => do return (← getChannelId first, batch)

/-- Pieces in sending order, with their channels. -/
def sendToExpertOnce (d : UnifiedDispatcher) (batch : TokenBatch W R) :
    Except Fault (List (ℤ × TokenBatch W R)) := do
  let channels ← batch.metadata.expIds.mapM d.expertGetChannelId
  let batches ← batch.splitWithSizes (runLengths channels)
  batches.mapM (addressed d.expertGetChannelId "exp_ids[0]" (·.expIds))

def sendToAttnOnce (d : UnifiedDispatcher) (batch : TokenBatch W R) :
    Except Fault (List (ℤ × TokenBatch W R)) := do
  let batches ← batch.splitWithSizes (runLengths batch.metadata.attnDpRanks)
  batches.mapM (addressed d.attnGetChannelId "attn_dp_ranks[0]" (·.attnDpRanks))

/-- Batches of other tags are dropped. -/
def sendOnce (d : UnifiedDispatcher) (batch : TokenBatch W R) :
    Except Fault (List (ℤ × TokenBatch W R)) :=
  if batch.metadata.isAttention then d.sendToExpertOnce batch
  else if batch.metadata.isExpert then d.sendToAttnOnce batch
  else .ok []

/-! ### Pieces -/

/-- A piece of a batch: some of its tokens in order, all of one destination. -/
structure PieceOf {κ : Type} (v : View) (key : TokenMetadata W × R → κ) (b : TokenBatch W R)
    (xs : List (TokenMetadata W × R)) (p : TokenBatch W R) (ys : List (TokenMetadata W × R)) :
    Prop where
  carries : Carries v p ys
  sublist : ys.Sublist xs
  nonempty : ys ≠ []
  oneKey : ∃ k, ∀ y ∈ ys, key y = k
  tag : p.metadata.batchTag = b.metadata.batchTag
  layer : p.metadata.layerId = b.metadata.layerId

/-- Cutting at the runs of a key gives pieces, which are the batch in order. -/
theorem splitWithSizes_pieces {κ : Type} [DecidableEq κ] {v : View} {b : TokenBatch W R}
    {xs : List (TokenMetadata W × R)} (h : Carries v b xs) (key : TokenMetadata W × R → κ)
    {bs : List (TokenBatch W R)} (hok : b.splitWithSizes (runLengths (xs.map key)) = .ok bs) :
    ∃ yss, List.Forall₂ (PieceOf v key b xs) bs yss ∧ yss.flatten = xs := by
  have hsum : (runLengths (xs.map key)).sum = xs.length := by simp
  obtain ⟨bs', hok', hmeta, hall⟩ := h.splitWithSizes hsum
  obtain rfl := Except.ok.inj (hok.symm.trans hok')
  refine ⟨(runLengths (xs.map key)).splitLengths xs, ?_, List.flatten_splitLengths _ _ hsum.ge⟩
  rw [List.forall₂_iff_get]
  refine ⟨hall.length_eq, fun i hi hi' => ?_⟩
  have hmem := List.getElem_mem hi'
  obtain ⟨hne, hkey⟩ := runLengths_pieces key xs _ hmem
  obtain ⟨htag, hlayer⟩ := splitWithSizes_header b.metadata (runLengths (xs.map key))
    (hmeta ▸ List.mem_map_of_mem (List.getElem_mem hi))
  exact ⟨hall.get hi hi', sublist_of_mem_splitLengths hmem, hne, hkey, htag, hlayer⟩

theorem splitWithSizes_runs {κ : Type} [DecidableEq κ] {v : View} {b : TokenBatch W R}
    {xs : List (TokenMetadata W × R)} (h : Carries v b xs) (key : TokenMetadata W × R → κ)
    {bs : List (TokenBatch W R)} (hok : b.splitWithSizes (runLengths (xs.map key)) = .ok bs) :
    ∀ p ∈ bs, ∃ ys, PieceOf v key b xs p ys := by
  obtain ⟨yss, hall, -⟩ := splitWithSizes_pieces h key hok
  exact forall_mem_of_forall₂ hall fun p ys hp => ⟨ys, hp⟩

theorem addressed_eq {getChannelId : ℕ → Except Fault ℤ} {access : String}
    {column : BatchMetadata W → List ℕ} {b : TokenBatch W R} {p : ℤ × TokenBatch W R}
    (h : addressed getChannelId access column b = .ok p) :
    p.2 = b ∧ ∃ first, (column b.metadata).head? = some first ∧ getChannelId first = .ok p.1 := by
  unfold addressed at h
  split at h
  · cases h
  · next first rest hcol =>
    cases hch : getChannelId first with
    | error e => simp [hch, bind, Except.bind] at h
    | ok channel =>
      simp only [hch, bind, Except.bind, pure, Except.pure, Except.ok.injEq] at h
      subst h
      exact ⟨rfl, first, by simp [hcol], hch⟩

theorem mem_of_mapM_addressed {getChannelId : ℕ → Except Fault ℤ} {access : String}
    {column : BatchMetadata W → List ℕ} {bs : List (TokenBatch W R)}
    {sent : List (ℤ × TokenBatch W R)}
    (h : bs.mapM (addressed getChannelId access column) = .ok sent) {p : ℤ × TokenBatch W R}
    (hp : p ∈ sent) : p.2 ∈ bs := by
  rw [mapM_eq_ok_iff] at h
  obtain ⟨i, hi, rfl⟩ := List.getElem_of_mem hp
  have hi' : i < bs.length := h.length_eq ▸ hi
  have hget : sent[i].2 = bs[i] := (addressed_eq (h.get hi' hi)).1
  rw [hget]
  exact List.getElem_mem hi'

/-- Expert batches are cut at the runs of their ranks. -/
theorem sendToAttnOnce_ok {d : UnifiedDispatcher} {v : View} {b : TokenBatch W R}
    {xs : List (TokenMetadata W × R)} (hc : Carries v b xs) (hv : v.ranked = true)
    {sent : List (ℤ × TokenBatch W R)} (h : d.sendToAttnOnce b = .ok sent) :
    ∃ bs, b.splitWithSizes (runLengths (xs.map fun x => x.1.attnDpRank)) = .ok bs ∧
      bs.mapM (addressed d.attnGetChannelId "attn_dp_ranks[0]" (·.attnDpRanks)) = .ok sent := by
  have hranks : b.metadata.attnDpRanks = xs.map fun x => x.1.attnDpRank := by
    rw [hc.lists.attnDpRanks hv, List.map_map]
    rfl
  rw [sendToAttnOnce, hranks] at h
  exact bind_eq_ok_iff.mp h

/-- Expert batches are cut by rank. -/
theorem sendToAttnOnce_pieces {d : UnifiedDispatcher} {v : View} {b : TokenBatch W R}
    {xs : List (TokenMetadata W × R)} (hc : Carries v b xs) (hv : v.ranked = true)
    {sent : List (ℤ × TokenBatch W R)} (h : d.sendToAttnOnce b = .ok sent)
    {p : ℤ × TokenBatch W R} (hp : p ∈ sent) :
    ∃ ys, PieceOf v (fun x => x.1.attnDpRank) b xs p.2 ys := by
  obtain ⟨bs, hs, h⟩ := sendToAttnOnce_ok hc hv h
  exact splitWithSizes_runs hc _ hs _ (mem_of_mapM_addressed h hp)

/-- The channel of an expert that has one. -/
def channelOf (d : UnifiedDispatcher) (expertId : ℕ) : ℤ :=
  (d.expertGetChannelId expertId).toOption.getD 0

/-- Attention batches are cut at the runs of their experts' channels, which all exist. -/
theorem sendToExpertOnce_ok {d : UnifiedDispatcher} {v : View} {b : TokenBatch W R}
    {xs : List (TokenMetadata W × R)} (hc : Carries v b xs) (hv : v.routed = true)
    {sent : List (ℤ × TokenBatch W R)} (h : d.sendToExpertOnce b = .ok sent) :
    ∃ bs, (∀ x ∈ xs, d.expertGetChannelId x.1.expId = .ok (d.channelOf x.1.expId)) ∧
      b.splitWithSizes (runLengths (xs.map fun x => d.channelOf x.1.expId)) = .ok bs ∧
      bs.mapM (addressed d.expertGetChannelId "exp_ids[0]" (·.expIds)) = .ok sent := by
  obtain ⟨channels, hm, hcut⟩ := bind_eq_ok_iff.mp h
  obtain ⟨bs, hs, hsent⟩ := bind_eq_ok_iff.mp hcut
  rw [hc.lists.expIds hv, List.map_map, mapM_eq_ok_iff, List.forall₂_map_left_iff] at hm
  have hchannel : ∀ x channel, d.expertGetChannelId x = .ok channel → channel = d.channelOf x := by
    intro x channel hx
    simp [channelOf, hx, Except.toOption]
  obtain rfl := eq_map_of_forall₂ (f := fun x : TokenMetadata W × R => d.channelOf x.1.expId)
    (fun x channel hx => hchannel _ _ hx) hm
  rw [List.forall₂_map_right_iff, List.forall₂_same] at hm
  exact ⟨bs, hm, hs, hsent⟩

/-- Attention batches are cut by the channels of their experts. -/
theorem sendToExpertOnce_pieces {d : UnifiedDispatcher} {v : View} {b : TokenBatch W R}
    {xs : List (TokenMetadata W × R)} (hc : Carries v b xs) (hv : v.routed = true)
    {sent : List (ℤ × TokenBatch W R)} (h : d.sendToExpertOnce b = .ok sent)
    {p : ℤ × TokenBatch W R} (hp : p ∈ sent) :
    ∃ ys, PieceOf v (fun x => d.channelOf x.1.expId) b xs p.2 ys := by
  obtain ⟨bs, -, hs, h⟩ := sendToExpertOnce_ok hc hv h
  exact splitWithSizes_runs hc _ hs _ (mem_of_mapM_addressed h hp)

end UnifiedDispatcher

end StreamInfer.Engine
