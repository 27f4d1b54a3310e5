import StreamInfer.Colocated.Census

/-! What the engine makes of the batches that it executes, and what the dispatcher makes of
those. An attention result has `top_k` copies of each request of the batch; an expert result
has the copies of the batch; the messages have the copies of the result, each under its
receiver. -/

namespace StreamInfer.Colocated

open General Batch BatchMetadata Pool Engine UnifiedDispatcher Placement ColocatePlacement

variable {W R : Type} [Zero W]

/-! ### Results -/

/-- Routed columns determine their records. -/
theorem lists_routing_inj {m : BatchMetadata W} {ts ts' : List (TokenMetadata W)}
    (h : m.Lists .routing ts) (h' : m.Lists .routing ts') : ts = ts' := by
  have hlen : ts.length = ts'.length := h.numTokens.symm.trans h'.numTokens
  refine List.ext_getElem hlen fun i hi hi' => ?_
  have heq := (h.entry_eq hi).symm.trans (h'.entry_eq hi')
  simpa only [TokenMetadata.mask_routing] using heq

variable {cfg : Config} {b out : TokenBatch W R}

/-- An attention result. -/
theorem attention_result (hk : 1 ≤ cfg.topK) (hb : Carries .attention b (b.entries .attention))
    (htag : b.metadata.batchTag = .attention) (hl : b.metadata.layerId < cfg.model.numLayers)
    {hiddens : List R} (hrows : hiddens.length = b.metadata.numTokens) {expertIds : List (List ℕ)}
    {expertWeights : List (List W)} (hgate : Gated cfg b.metadata.numTokens expertIds expertWeights)
    {rank : ℕ} (hout : postprocessBatchAttn cfg.topK rank b.metadata hiddens expertIds expertWeights =
      .ok out) :
    Sendable cfg.model.numLayers out ∧ out.metadata.batchTag = .attention ∧
      out.metadata.layerId = b.metadata.layerId ∧
      (∀ x ∈ out.entries .routing, x.1.attnDpRank = rank ∧ x.1.expId < cfg.model.numExperts) ∧
      ((out.entries .routing).map fun x => x.1.reqId : List ℤ) =
        cfg.topK • (b.metadata.reqIds : Multiset ℤ) := by
  have hpos : 0 < b.metadata.numTokens := by
    rw [← hrows]
    by_contra hnot
    have hnil : hiddens.length = 0 := by omega
    obtain ⟨sorted, hsort, hrest⟩ := bind_eq_ok_iff.mp hout
    obtain ⟨rows, hpermute, -⟩ := bind_eq_ok_iff.mp hrest
    rw [permuteTokens, if_pos hnil] at hpermute
    cases hpermute
  have hgated : GatedBatch cfg.topK b.metadata expertIds expertWeights :=
    ⟨hk, hpos, hb.lists.aligned.reqIds, hb.lists.aligned.initPrefillLens, hgate.idRows, hgate.idRow,
      hgate.weightRows, hgate.weightRow⟩
  have hid := lt_of_postprocessBatchAttn hout
  obtain ⟨ts, xs, hts, hxs, hcarries, htag', hlayer⟩ := postprocessBatchAttn_placed hgated hrows hout
  have hids : expertIds.flatten = ts.map (·.expId) := hts.expIds rfl
  have hentries : out.entries .routing = xs := hcarries.entries_of_masked (masked_routing xs)
  have hmem : ∀ x ∈ xs, x.1.attnDpRank = rank ∧ x.1.expId ∈ expertIds.flatten := by
    intro x hx
    have hx' : x.1 ∈ xs.map Prod.fst := List.mem_map_of_mem hx
    rw [hxs] at hx'
    obtain ⟨t, ht, hx'⟩ := List.mem_map.mp hx'
    rw [← hx', hids]
    exact ⟨rfl, List.mem_map.mpr ⟨t, (mem_buckets.mp ht).1, rfl⟩⟩
  rw [hentries]
  refine ⟨.routed (htag'.trans htag) (hlayer ▸ hl) (by rwa [hentries]) ?_, htag'.trans htag, hlayer,
    fun x hx => ⟨(hmem x hx).1, hgate.experts _ (hmem x hx).2⟩, ?_⟩
  · rw [hentries]
    exact fun x hx => hid _ (hmem x hx).2
  · have hperm : (buckets maxNumExperts (·.expId) ts).Perm ts := by
      refine buckets_perm fun t ht => hid _ ?_
      rw [hids]
      exact List.mem_map_of_mem ht
    have hreq : xs.map (fun x => x.1.reqId) = (buckets maxNumExperts (·.expId) ts).map (·.reqId) := by
      have hfst := congrArg (List.map fun t : TokenMetadata W => t.reqId) hxs
      rwa [List.map_map, List.map_map] at hfst
    have hdup : ts.map (·.reqId) = duplicateVector b.metadata.reqIds cfg.topK :=
      hts.reqIds.symm.trans (duplicateTopk_columns _ _).1
    rw [hreq, Multiset.coe_eq_coe.mpr (hperm.map _), hdup, duplicateVector, coe_flatten_replicate]

/-- An expert result: the copies of the batch. -/
theorem expert_result (hb : Carries .routing b (b.entries .routing))
    (htag : b.metadata.batchTag = .expert) (hl : b.metadata.layerId < cfg.model.numLayers)
    {hiddens : List R} (hrows : hiddens.length = b.metadata.numTokens) {useGdrcopyOptimization : Bool}
    {S : ComparatorSort} {scale : W → R → R}
    (hout : executeBatchExpert useGdrcopyOptimization S scale b.metadata hiddens = .ok out) (d : ℕ) :
    Sendable cfg.model.numLayers out ∧
      dispatcherTokens d out = ((b.entries .routing).map
        (copyToken b.metadata.layerId fun rank _ => .returned d rank) : List Token) := by
  obtain ⟨ts, xs, hts, hxs, hcarries, htag', hlayer⟩ :=
    executeBatchExpert_gathered hb.lists.aligned hrows hout
  obtain rfl := lists_routing_inj hts hb.lists
  refine ⟨.returned (htag'.trans htag) (by omega) (by omega) hcarries.carries_entries, ?_⟩
  have hperm : (xs.map Prod.fst).Perm ((b.entries .routing).map Prod.fst) := by
    rw [hxs]
    exact gather_perm default (attentionRank_positions S hb.lists)
  have hplace : ∀ zs : List (TokenMetadata W × R),
      zs.map (copyToken b.metadata.layerId fun rank _ => .returned d rank) =
        (zs.map Prod.fst).map fun t : TokenMetadata W =>
          ⟨t.reqId, .experts b.metadata.layerId, .returned d t.attnDpRank⟩ := by
    intro zs
    rw [List.map_map]
    rfl
  rw [dispatcherTokens, sentTokens_expert _ _ (htag'.trans htag), hlayer,
    Nat.add_sub_cancel, hcarries.entries_eq, List.map_map]
  change ((xs.map (copyToken b.metadata.layerId fun rank _ => .returned d rank) : List Token) :
    Multiset Token) = _
  rw [hplace, hplace]
  exact Multiset.coe_eq_coe.mpr (hperm.map _)

/-! ### Messages -/

section Messages

variable {κ : Type} {v : View} {xs : List (TokenMetadata W × R)} {p : ModelPlacement} {d : ℕ}
  {disp : UnifiedDispatcher} {sent : List (ℤ × TokenBatch W R)} {messages : List (ℕ × TokenBatch W R)}

omit [Zero W] in
/-- Every message has a piece, and its receiver is the one of all of its entries. -/
theorem messages_pieces {key : TokenMetadata W × R → κ} {getChannelId : ℕ → Except Fault ℤ}
    {access : String} (column : BatchMetadata W → List ℕ) (entry receiver : TokenMetadata W × R → ℕ)
    {bs : List (TokenBatch W R)} {yss : List (List (TokenMetadata W × R))}
    (hpieces : List.Forall₂ (PieceOf v key b xs) bs yss)
    (hcol : ∀ (piece : TokenBatch W R) ys, Carries v piece ys → column piece.metadata = ys.map entry)
    (hsent : bs.mapM (addressed getChannelId access column) = .ok sent)
    (hmsg : addressees p d sent = .ok messages)
    (hrec : ∀ x ∈ xs, ∀ channel, getChannelId (entry x) = .ok channel →
      peer p d channel = some (receiver x))
    (hkey : ∀ x ∈ xs, ∀ y ∈ xs, key x = key y → receiver x = receiver y) :
    List.Forall₂ (fun m ys => PieceOf v key b xs m.2 ys ∧ ∀ y ∈ ys, m.1 = receiver y) messages yss := by
  rw [mapM_eq_ok_iff] at hsent
  rw [addressees, mapM_eq_ok_iff] at hmsg
  induction hpieces generalizing sent messages with
  | nil =>
    obtain rfl := List.forall₂_nil_left_iff.mp hsent
    obtain rfl := List.forall₂_nil_left_iff.mp hmsg
    exact .nil
  | @cons piece ys bs yss hpiece _ ih =>
    obtain ⟨s, sent', hs, hsent', rfl⟩ := List.forall₂_cons_left_iff.mp hsent
    obtain ⟨m, messages', hm, hmsg', rfl⟩ := List.forall₂_cons_left_iff.mp hmsg
    refine .cons ?_ (ih hsent' hmsg')
    obtain ⟨heq, first, hfirst, hchannel⟩ := addressed_eq hs
    rw [hcol _ _ hpiece.carries] at hfirst
    obtain ⟨y, hy, rfl⟩ := List.mem_map.mp (List.mem_of_head? hfirst)
    have hy' := hpiece.sublist.subset hy
    simp only [hrec y hy' _ hchannel] at hm
    obtain rfl := Except.ok.inj hm
    refine ⟨heq ▸ hpiece, fun z hz => ?_⟩
    obtain ⟨k, hk⟩ := hpiece.oneKey
    exact hkey y hy' z (hpiece.sublist.subset hz) ((hk y hy).trans (hk z hz).symm)

theorem sum_messageTokens {f : TokenMetadata W × R → Token} {yss : List (List (TokenMetadata W × R))}
    (h : List.Forall₂ (fun m ys => messageTokens m = ((ys.map f : List Token) : Multiset Token))
      messages yss) :
    (messages.map messageTokens).sum = (yss.flatten.map f : List Token) := by
  induction h with
  | nil => rfl
  | cons hm _ ih =>
    rw [List.map_cons, List.sum_cons, hm, ih, List.flatten_cons, List.map_append, Multiset.coe_add]

/-- The channel of an expert leads to its host. -/
theorem expert_peer (hc : Configured cfg.model cfg.numDevices cfg.expertAllocation)
    (hp : Solved cfg.model cfg.numDevices cfg.expertAllocation p) (hd : d < cfg.numDevices)
    (hdisp : p.dispatcherAt cfg.model d = .ok disp) {e : ℕ} (he : e < cfg.model.numExperts) {channel : ℤ}
    (hchannel : disp.expertGetChannelId e = .ok channel) :
    peer p d channel = some (hostIn cfg.model cfg.expertAllocation e) := by
  obtain ⟨disp', hok, hranks, hchannels⟩ := hc.dispatcherAt_ok hp d
  obtain rfl := Except.ok.inj (hdisp.symm.trans hok)
  have hout : hostIn cfg.model cfg.expertAllocation e ∈ p.outDeviceIds d :=
    (hp.mem_out _ _).mpr (.inl ⟨hd, e, he, rfl⟩)
  obtain ⟨i, htable, hi⟩ := exists_channel hchannels hout
  have hget : disp.expertGetChannelId e = .ok (i : ℤ) := by
    have hpos : ¬ ((hostIn cfg.model cfg.expertAllocation e : ℤ) < 0) := not_lt.mpr (Int.natCast_nonneg _)
    rw [UnifiedDispatcher.expertGetChannelId, hranks e he hout]
    simp only [if_neg hpos, Int.toNat_natCast, htable]
  obtain rfl := Except.ok.inj (hchannel.symm.trans hget)
  rw [peer, if_neg (by omega), Int.toNat_natCast, hi]

/-- On a host, the channel of a rank leads to its device. -/
theorem rank_peer (hc : Configured cfg.model cfg.numDevices cfg.expertAllocation)
    (hp : Solved cfg.model cfg.numDevices cfg.expertAllocation p)
    (hhost : Hosts cfg.model cfg.expertAllocation d) (hdisp : p.dispatcherAt cfg.model d = .ok disp)
    {rank : ℕ} (hr : rank < cfg.numDevices) {channel : ℤ}
    (hchannel : disp.attnGetChannelId rank = .ok channel) : peer p d channel = some rank := by
  obtain ⟨disp', hok, -, hchannels⟩ := hc.dispatcherAt_ok hp d
  obtain rfl := Except.ok.inj (hdisp.symm.trans hok)
  obtain ⟨i, htable, hi⟩ := exists_channel hchannels ((hp.mem_out d rank).mpr (.inr ⟨hhost, hr⟩))
  rw [UnifiedDispatcher.attnGetChannelId, htable] at hchannel
  obtain rfl := Except.ok.inj hchannel
  rw [peer, if_neg (by omega), Int.toNat_natCast, hi]

/-- Copies of an attention result go to the hosts of their experts. -/
theorem routed_messages (hc : Configured cfg.model cfg.numDevices cfg.expertAllocation)
    (hp : Solved cfg.model cfg.numDevices cfg.expertAllocation p) (hd : d < cfg.numDevices)
    (hdisp : p.dispatcherAt cfg.model d = .ok disp) (htag : b.metadata.batchTag = .attention)
    (hl : b.metadata.layerId < cfg.model.numLayers) (hb : Carries .routing b (b.entries .routing))
    (hid : ∀ x ∈ b.entries .routing, x.1.expId < maxNumExperts)
    (hexp : ∀ x ∈ b.entries .routing, x.1.expId < cfg.model.numExperts)
    (hsent : disp.sendOnce b = .ok sent) (hmsg : addressees p d sent = .ok messages) :
    (∀ m ∈ messages, m.1 < cfg.numDevices ∧ Sendable cfg.model.numLayers m.2) ∧
      (messages.map messageTokens).sum = ((b.entries .routing).map (copyToken b.metadata.layerId
        fun rank e => .toExpert (hostIn cfg.model cfg.expertAllocation e) rank e) : List Token) := by
  rw [sendOnce, if_pos (by simp [isAttention, htag])] at hsent
  obtain ⟨bs, hchannels, hcut, hsent⟩ := sendToExpertOnce_ok hb rfl hsent
  obtain ⟨yss, hpieces, hflat⟩ := splitWithSizes_pieces hb _ hcut
  have hrec : ∀ x ∈ b.entries .routing, ∀ channel, disp.expertGetChannelId x.1.expId = .ok channel →
      peer p d channel = some (hostIn cfg.model cfg.expertAllocation x.1.expId) :=
    fun x hx channel hchannel => expert_peer hc hp hd hdisp (hexp x hx) hchannel
  have hall := messages_pieces (·.expIds) (fun x => x.1.expId)
    (fun x => hostIn cfg.model cfg.expertAllocation x.1.expId) hpieces
    (fun piece ys hys => by rw [hys.lists.expIds rfl, List.map_map]; rfl) hsent hmsg hrec
    fun x hx y hy hkey => by
      have hx' := hrec x hx _ (hchannels x hx)
      rw [hkey, hrec y hy _ (hchannels y hy)] at hx'
      exact (Option.some.inj hx').symm
  refine ⟨forall_mem_of_forall₂ hall fun m ys hm => ?_, ?_⟩
  · obtain ⟨hpiece, hreceiver⟩ := hm
    have hys : m.2.entries .routing = ys := hpiece.carries.entries_of_masked (masked_routing ys)
    obtain ⟨y, hy⟩ := List.exists_mem_of_ne_nil ys hpiece.nonempty
    refine ⟨?_, .routed (hpiece.tag.trans htag) (hpiece.layer ▸ hl) (by rw [hys]; exact hpiece.carries) ?_⟩
    · rw [hreceiver y hy]
      exact hc.hostIn_lt (hexp y (hpiece.sublist.subset hy))
    · rw [hys]
      exact fun x hx => hid x (hpiece.sublist.subset hx)
  · rw [← hflat]
    refine sum_messageTokens (hall.imp fun m ys hm => ?_)
    obtain ⟨hpiece, hreceiver⟩ := hm
    have hys : m.2.entries .routing = ys := hpiece.carries.entries_of_masked (masked_routing ys)
    rw [messageTokens, sentTokens_attention _ _ (hpiece.tag.trans htag), hys, hpiece.layer]
    congr 1
    refine List.map_congr_left fun y hy => ?_
    rw [copyToken, copyToken, hreceiver y hy]

/-- Copies of an expert result go back to their ranks. -/
theorem returned_messages (hc : Configured cfg.model cfg.numDevices cfg.expertAllocation)
    (hp : Solved cfg.model cfg.numDevices cfg.expertAllocation p)
    (hdisp : p.dispatcherAt cfg.model d = .ok disp) (htag : b.metadata.batchTag = .expert)
    (hpos : 1 ≤ b.metadata.layerId) (hl : b.metadata.layerId ≤ cfg.model.numLayers)
    (hb : Carries .returning b (b.entries .returning))
    (hranks : ∀ x ∈ b.entries .returning, Hosts cfg.model cfg.expertAllocation d ∧
      x.1.attnDpRank < cfg.numDevices)
    (hsent : disp.sendOnce b = .ok sent) (hmsg : addressees p d sent = .ok messages) :
    (∀ m ∈ messages, m.1 < cfg.numDevices ∧ Sendable cfg.model.numLayers m.2) ∧
      (messages.map messageTokens).sum = ((b.entries .returning).map (copyToken (b.metadata.layerId - 1)
        fun rank _ => .toAttention rank rank) : List Token) := by
  rw [sendOnce, if_neg (by simp [isAttention, htag]), if_pos (by simp [isExpert, htag])] at hsent
  obtain ⟨bs, hcut, hsent⟩ := sendToAttnOnce_ok hb rfl hsent
  obtain ⟨yss, hpieces, hflat⟩ := splitWithSizes_pieces hb _ hcut
  have hall := messages_pieces (·.attnDpRanks) (fun x => x.1.attnDpRank) (fun x => x.1.attnDpRank)
    hpieces
    (fun piece ys hys => by rw [hys.lists.attnDpRanks rfl, List.map_map]; rfl) hsent hmsg
    (fun x hx channel hchannel => rank_peer hc hp (hranks x hx).1 hdisp (hranks x hx).2 hchannel)
    fun x _ y _ hkey => hkey
  refine ⟨forall_mem_of_forall₂ hall fun m ys hm => ?_, ?_⟩
  · obtain ⟨hpiece, hreceiver⟩ := hm
    obtain ⟨y, hy⟩ := List.exists_mem_of_ne_nil ys hpiece.nonempty
    refine ⟨?_, .returned (hpiece.tag.trans htag) (hpiece.layer ▸ hpos) (hpiece.layer ▸ hl)
      hpiece.carries.carries_entries⟩
    rw [hreceiver y hy]
    exact (hranks y (hpiece.sublist.subset hy)).2
  · rw [← hflat]
    refine sum_messageTokens (hall.imp fun m ys hm => ?_)
    obtain ⟨hpiece, hreceiver⟩ := hm
    rw [messageTokens, sentTokens_expert _ _ (hpiece.tag.trans htag), hpiece.carries.entries_eq,
      hpiece.layer, List.map_map]
    congr 1
    refine List.map_congr_left fun y hy => ?_
    change (⟨y.1.reqId, _, .toAttention m.1 y.1.attnDpRank⟩ : Token) = _
    rw [copyToken, hreceiver y hy]

end Messages

/-! ### Samples -/

section Samples

open General.Stateful Frontend

omit [Zero W] in
theorem length_of_mapM_ok {α β σ : Type} {f : α → EStateM Fault σ β} {as : List α} {bs : List β}
    {s s' : σ} (h : as.mapM f s = .ok bs s') : bs.length = as.length := by
  induction as generalizing bs s s' with
  | nil =>
    obtain ⟨rfl, -⟩ := pure_ok_iff.mp h
    rfl
  | cons a as ih =>
    rw [List.mapM_cons, bind_ok_iff] at h
    obtain ⟨b, s₁, -, h⟩ := h
    rw [bind_ok_iff] at h
    obtain ⟨bs', s₂, hbs, h⟩ := h
    obtain ⟨rfl, -⟩ := pure_ok_iff.mp h
    rw [List.length_cons, List.length_cons, ih hbs]

omit [Zero W] in
/-- Every request either goes on, at its position, or ends. -/
theorem sampleFrom_partition {i : ℕ} {reqIds finishReqIds : List ℤ} {continueIds : List ℕ}
    {s s' : DummySampler} (h : DummySampler.sampleFrom i reqIds s = .ok (continueIds, finishReqIds) s') :
    ∃ ks : List ℤ, (ks ++ finishReqIds).Perm reqIds ∧
      List.Forall₂ (fun j k => i ≤ j ∧ reqIds[j - i]? = some k) continueIds ks := by
  induction reqIds generalizing i s s' continueIds finishReqIds with
  | nil =>
    obtain ⟨heq, -⟩ := pure_ok_iff.mp h
    obtain ⟨rfl, rfl⟩ := Prod.mk.inj heq
    exact ⟨[], .refl _, .nil⟩
  | cons r reqIds ih =>
    rw [DummySampler.sampleFrom, bind_ok_iff] at h
    obtain ⟨ended, s₁, -, h⟩ := h
    rw [bind_ok_iff] at h
    obtain ⟨⟨later, finished⟩, s₂, hlater, h⟩ := h
    obtain ⟨ks, hperm, hks⟩ := ih hlater
    have hks' : List.Forall₂ (fun j k => i ≤ j ∧ (r :: reqIds)[j - i]? = some k) later ks := by
      refine hks.imp fun j k hjk => ⟨by omega, ?_⟩
      rw [show j - i = j - (i + 1) + 1 by omega, List.getElem?_cons_succ]
      exact hjk.2
    obtain ⟨heq, -⟩ := pure_ok_iff.mp h
    cases ended with
    | true =>
      obtain ⟨rfl, rfl⟩ := Prod.mk.inj heq
      exact ⟨ks, List.perm_middle.trans (hperm.cons r), hks'⟩
    | false =>
      obtain ⟨rfl, rfl⟩ := Prod.mk.inj heq
      exact ⟨r :: ks, hperm.cons r, .cons ⟨le_rfl, by simp⟩ hks'⟩

/-- The requests of a sampled batch go on at the first layer or end. -/
theorem sample_result {rank : ℕ} {continued : TokenBatch W R} {finishReqIds : List ℤ}
    {result : BatchDecodeResult} {s s' : DummySampler}
    (hok : sampleResults rank ⟨b.metadata.reqIds, b.data, b.metadata⟩ s =
      .ok (continued, finishReqIds, result) s') :
    Carries .attention continued (continued.entries .attention) ∧ continued.metadata.layerId = 0 ∧
      (continued.metadata.reqIds ++ finishReqIds).Perm b.metadata.reqIds := by
  rw [sampleResults, bind_ok_iff] at hok
  obtain ⟨⟨continueIds, finished⟩, s₁, hsample, hok⟩ := hok
  rw [bind_ok_iff] at hok
  obtain ⟨data, s₂, hdata, hok⟩ := hok
  obtain ⟨heq, -⟩ := pure_ok_iff.mp hok
  obtain ⟨rfl, hrest⟩ := Prod.mk.inj heq
  obtain ⟨rfl, -⟩ := Prod.mk.inj hrest
  obtain ⟨ks, hperm, hks⟩ := sampleFrom_partition hsample
  have hids : indexSelectVector b.metadata.reqIds continueIds = ks := by
    cases hreq : b.metadata.reqIds with
    | nil =>
      rw [hreq] at hperm
      obtain ⟨hnil, -⟩ := List.append_eq_nil_iff.mp hperm.eq_nil
      rw [hnil] at hks
      rw [List.forall₂_nil_right_iff.mp hks, hnil]
      rfl
    | cons r reqIds =>
      rw [hreq] at hks
      refine (eq_map_of_forall₂ (fun j k hjk => ?_) hks).symm
      rw [List.getD_eq_getElem?_getD, show j = j - 0 from rfl, hjk.2, Option.getD_some]
  refine ⟨carries_entries_of_aligned ⟨?_, ?_, by simp [View.attention], by simp [View.attention],
    by simp [View.attention]⟩ ?_, rfl, ?_⟩
  · change (indexSelectVector b.metadata.reqIds continueIds).length = continueIds.length
    rw [hids, hks.length_eq]
  · exact List.length_replicate
  · exact length_of_mapM_ok hdata
  · change (indexSelectVector b.metadata.reqIds continueIds ++ _).Perm b.metadata.reqIds
    rwa [hids]

end Samples

end StreamInfer.Colocated
