import StreamInfer.Batch.Rows
import StreamInfer.General.Groups
import StreamInfer.General.Holdings
import StreamInfer.General.Reach
import StreamInfer.Pool.TokenTopKPool

/-! Runs of the pool that collects the expert outputs. With the copies put so far
and the tokens fetched so far beside the pool, the copies of each request, cut
into groups of `top_k`, are its emitted tokens in order and then the token that
still waits. -/

namespace StreamInfer.Pool

open General General.Stateful Batch

variable {W R : Type}

namespace TokenTopKPool

/-- The token of the copies of a group: the columns of the first and all the rows. -/
def ofCopies : List (TokenCopy R) → Option (TokenTopKInfo R)
  | [] => none
  | c :: cs => some ⟨c.reqId, c.initPrefillLen, c.attnDpRank, (c :: cs).map (·.row)⟩

/-- The rows of a token under its id. -/
def labelled (t : TokenTopKInfo R) : List (ℤ × R) := t.topkTensors.map fun row => (t.seqId, row)

/-- The pool, the copies that were put and the tokens that were fetched. -/
structure Aggregating (R : Type) where
  pool : TokenTopKPool R
  arrived : List (TokenCopy R)
  fetched : List (TokenTopKInfo R)

namespace Aggregating

def start (topK : ℕ) : Aggregating R := ⟨new topK, [], []⟩

/-- The copies of one request, in the order of arrival. -/
def arrivedOf (s : Aggregating R) (r : ℤ) : List (TokenCopy R) :=
  s.arrived.filter fun c => c.reqId = r

/-- Tokens that left the pool's map, in order: fetched, then ready. -/
def emitted (s : Aggregating R) : List (TokenTopKInfo R) := s.fetched ++ s.pool.readyTokens

/-- All tokens: emitted, then pooled. -/
def tokens (s : Aggregating R) : List (TokenTopKInfo R) :=
  s.emitted ++ s.pool.pool.entries.map (·.2)

/-- One call. -/
inductive Step (W : Type) [Row R] : Aggregating R → Aggregating R → Prop
  | putBatch {s : Aggregating R} {p : TokenTopKPool R} (batch : TokenBatch W R)
      (h : putBatch batch s.pool = .ok ⟨⟩ p) :
      Step W s { s with pool := p, arrived := s.arrived ++ copies batch }
  | fetchReadyTokens {s : Aggregating R} {p : TokenTopKPool R} {ts : List (TokenTopKInfo R)}
      (h : fetchReadyTokens s.pool = .ok ts p) :
      Step W s { s with pool := p, fetched := s.fetched ++ ts }

/-! ### Groups -/

/-- The pool and the emitted tokens are the arrivals in groups of `k`. -/
structure Grouped (k : ℕ) (s : Aggregating R) : Prop where
  topK : s.pool.topK = k
  pooled : ∀ r, s.pool.pool.lookup r = ofCopies (leftover k (s.arrivedOf r))
  emitted : ∀ r, (s.emitted.filter fun t => t.seqId = r).map some =
    (groups k (s.arrivedOf r)).map ofCopies
  placed : (s.tokens.flatMap labelled).Perm (s.arrived.map fun c => (c.reqId, c.row))

end Aggregating

theorem ofCopies_concat (cs : List (TokenCopy R)) (c : TokenCopy R) :
    ofCopies (cs ++ [c]) = some ((ofCopies cs).elim c.token fun t => t.appendTensor c.row) := by
  cases cs with
  | nil => rfl
  | cons d ds => simp [ofCopies, TokenTopKInfo.appendTensor]

theorem count_of_ofCopies {cs : List (TokenCopy R)} {t : TokenTopKInfo R}
    (h : ofCopies cs = some t) : t.count = cs.length := by
  cases cs with
  | nil => cases h
  | cons d ds =>
    cases h
    simp [TokenTopKInfo.count]

theorem eq_nil_of_ofCopies {cs : List (TokenCopy R)} (h : ofCopies cs = none) : cs = [] := by
  cases cs with
  | nil => rfl
  | cons d ds => cases h

theorem labelled_appendTensor (t : TokenTopKInfo R) (row : R) :
    labelled (t.appendTensor row) = labelled t ++ [(t.seqId, row)] := by
  simp [labelled, TokenTopKInfo.appendTensor]

namespace Aggregating

variable {k : ℕ} {s s' : Aggregating R}

/-- One copy put into the pool. -/
def put (s : Aggregating R) (c : TokenCopy R) : Aggregating R :=
  { s with pool := s.pool.putToken c, arrived := s.arrived ++ [c] }

theorem arrivedOf_put_self (s : Aggregating R) (c : TokenCopy R) :
    (s.put c).arrivedOf c.reqId = s.arrivedOf c.reqId ++ [c] := by
  simp [put, arrivedOf, List.filter_append]

theorem arrivedOf_put_of_ne (s : Aggregating R) {c : TokenCopy R} {r : ℤ} (hr : r ≠ c.reqId) :
    (s.put c).arrivedOf r = s.arrivedOf r := by
  simp [put, arrivedOf, List.filter_append, hr.symm]

/-- What a copy changes for its own request decides what it changes at all. -/
theorem Grouped.put_of_own (h : Grouped k s) {c : TokenCopy R}
    (hother : ∀ r ≠ c.reqId, (s.pool.putToken c).pool.lookup r = s.pool.pool.lookup r ∧
      ((s.put c).emitted.filter fun t => t.seqId = r) = s.emitted.filter fun t => t.seqId = r)
    (hpooled : (s.pool.putToken c).pool.lookup c.reqId =
      ofCopies (leftover k (s.arrivedOf c.reqId ++ [c])))
    (hemitted : ((s.put c).emitted.filter fun t => t.seqId = c.reqId).map some =
      (groups k (s.arrivedOf c.reqId ++ [c])).map ofCopies)
    (hplaced : ((s.put c).tokens.flatMap labelled).Perm
      (s.tokens.flatMap labelled ++ [(c.reqId, c.row)])) : Grouped k (s.put c) where
  topK := (topK_putToken s.pool c).trans h.topK
  pooled r := by
    by_cases hr : r = c.reqId
    · subst hr
      rw [arrivedOf_put_self]
      exact hpooled
    · rw [arrivedOf_put_of_ne s hr, ← h.pooled r]
      exact (hother r hr).1
  emitted r := by
    by_cases hr : r = c.reqId
    · subst hr
      rw [arrivedOf_put_self]
      exact hemitted
    · rw [arrivedOf_put_of_ne s hr, ← h.emitted r, (hother r hr).2]
  placed := by
    refine hplaced.trans ?_
    simp only [put, List.map_append, List.map_singleton]
    exact h.placed.append_right _

/-- A waiting token has its own id. -/
theorem Grouped.seqId_eq (h : Grouped k s) {r : ℤ} {t : TokenTopKInfo R}
    (ht : s.pool.pool.lookup r = some t) : t.seqId = r := by
  rw [h.pooled] at ht
  cases hl : leftover k (s.arrivedOf r) with
  | nil => rw [hl] at ht; cases ht
  | cons c cs =>
    have hc : c ∈ s.arrivedOf r := by
      rw [← groups_append_leftover k (s.arrivedOf r), hl]
      simp
    rw [hl] at ht
    cases ht
    simpa using (List.mem_filter.mp hc).2

/-- A copy that fills no group gives its token a new or a longer entry. -/
theorem Grouped.put_short (h : Grouped k s) {c : TokenCopy R} {t : TokenTopKInfo R}
    (hput : s.pool.putToken c = { s.pool with pool := s.pool.pool.insert c.reqId t })
    (hshort : (leftover k (s.arrivedOf c.reqId)).length + 1 < k)
    (ht : ofCopies (leftover k (s.arrivedOf c.reqId) ++ [c]) = some t)
    (hrows : (labelled t ++ ((s.pool.pool.erase c.reqId).entries.map (·.2)).flatMap labelled).Perm
      ((s.pool.pool.entries.map (·.2)).flatMap labelled ++ [(c.reqId, c.row)])) :
    Grouped k (s.put c) := by
  obtain ⟨hgroups, hrest⟩ := groups_concat_of_short (x := c) hshort
  have hemitted : (s.put c).emitted = s.emitted := by
    rw [Aggregating.emitted, Aggregating.put, hput, Aggregating.emitted]
  refine h.put_of_own (fun r hr => ⟨?_, by rw [hemitted]⟩) ?_ ?_ ?_
  · rw [hput, AList.lookup_insert_ne hr]
  · rw [hput, AList.lookup_insert, hrest, ht]
  · rw [hemitted, hgroups]
    exact h.emitted c.reqId
  · have htokens : (s.put c).tokens =
        s.emitted ++ t :: ((s.pool.pool.erase c.reqId).entries.map (·.2)) := by
      rw [tokens, hemitted, Aggregating.put, hput]
      rfl
    rw [htokens, tokens, List.flatMap_append, List.flatMap_append, List.flatMap_cons,
      List.append_assoc]
    exact List.Perm.append_left _ hrows

/-- The copy that fills a group makes its token ready. -/
theorem Grouped.put_full (h : Grouped k s) {c : TokenCopy R} {t : TokenTopKInfo R}
    (hput : s.pool.putToken c = { s.pool with
      readyTokens := s.pool.readyTokens ++ [t], pool := s.pool.pool.erase c.reqId })
    (hid : t.seqId = c.reqId) (hfull : (leftover k (s.arrivedOf c.reqId)).length + 1 = k)
    (ht : ofCopies (leftover k (s.arrivedOf c.reqId) ++ [c]) = some t)
    (hrows : (labelled t ++ ((s.pool.pool.erase c.reqId).entries.map (·.2)).flatMap labelled).Perm
      ((s.pool.pool.entries.map (·.2)).flatMap labelled ++ [(c.reqId, c.row)])) :
    Grouped k (s.put c) := by
  obtain ⟨hgroups, hrest⟩ := groups_concat_of_full (x := c) hfull
  have hemitted : (s.put c).emitted = s.emitted ++ [t] := by
    rw [Aggregating.emitted, Aggregating.put, hput, Aggregating.emitted, List.append_assoc]
  refine h.put_of_own (fun r hr => ⟨?_, ?_⟩) ?_ ?_ ?_
  · rw [hput, AList.lookup_erase_ne hr]
  · rw [hemitted, List.filter_append, List.filter_singleton]
    simp [hid, hr.symm]
  · rw [hput, hrest]
    exact AList.lookup_erase _ _
  · rw [hemitted, hgroups, List.filter_append, List.map_append, List.map_append, h.emitted,
      List.map_singleton, ht, List.filter_singleton]
    simp [hid]
  · have htokens : (s.put c).tokens =
        s.emitted ++ ([t] ++ (s.pool.pool.erase c.reqId).entries.map (·.2)) := by
      rw [tokens, hemitted, Aggregating.put, hput, List.append_assoc]
    rw [htokens, tokens, List.flatMap_append, List.flatMap_append, List.flatMap_append,
      List.flatMap_singleton, List.append_assoc]
    exact List.Perm.append_left _ hrows

/-- One copy keeps the groups. -/
theorem Grouped.put (hk : 2 ≤ k) (h : Grouped k s) (c : TokenCopy R) : Grouped k (s.put c) := by
  have hpool := h.pooled c.reqId
  cases hl : s.pool.pool.lookup c.reqId with
  | none =>
    have hnil : leftover k (s.arrivedOf c.reqId) = [] := eq_nil_of_ofCopies (hpool ▸ hl)
    have herase : s.pool.pool.erase c.reqId = s.pool.pool := by
      refine AList.ext (List.kerase_of_notMem_keys fun hmem => ?_)
      have := AList.lookup_isSome.mpr (AList.mem_keys.mpr hmem)
      rw [hl] at this
      cases this
    refine h.put_short (t := c.token) (by simp [putToken, hl]) (by rw [hnil]; exact hk)
      (by rw [hnil]; rfl) ?_
    rw [herase]
    exact List.perm_append_comm
  | some token =>
    have hid := h.seqId_eq hl
    have hcount := count_appendTensor token c.row
    have hlen := count_of_ofCopies (hpool ▸ hl)
    have hlt := length_leftover_lt (k := k) (by omega) (s.arrivedOf c.reqId)
    have htop := h.topK
    have hmore : ofCopies (leftover k (s.arrivedOf c.reqId) ++ [c]) =
        some (token.appendTensor c.row) := by
      rw [ofCopies_concat, ← hpool, hl]
      rfl
    have hrows : (labelled (token.appendTensor c.row) ++
        ((s.pool.pool.erase c.reqId).entries.map (·.2)).flatMap labelled).Perm
        ((s.pool.pool.entries.map (·.2)).flatMap labelled ++ [(c.reqId, c.row)]) := by
      have hentries := ((entries_perm hl).map (·.2)).flatMap_right labelled
      refine List.Perm.trans ?_ (hentries.symm.append_right _)
      rw [labelled_appendTensor, hid, List.map_cons, List.flatMap_cons, List.append_assoc,
        List.append_assoc]
      exact List.Perm.append_left _ List.perm_append_comm
    by_cases hfull : (token.appendTensor c.row).count = s.pool.topK
    · exact h.put_full (t := token.appendTensor c.row) (by simp [putToken, hl, hfull]) hid
        (by omega) hmore hrows
    · exact h.put_short (by simp [putToken, hl, hfull]) (by omega) hmore hrows

theorem Grouped.foldl_put (hk : 2 ≤ k) (h : Grouped k s) (cs : List (TokenCopy R)) :
    Grouped k { s with pool := cs.foldl putToken s.pool, arrived := s.arrived ++ cs } := by
  induction cs generalizing s with
  | nil => simpa using h
  | cons c cs ih =>
    have hrun := ih (h.put hk c)
    rwa [Aggregating.put, List.append_assoc] at hrun

/-- Fetching moves the ready tokens. -/
theorem Grouped.fetch (h : Grouped k s) :
    Grouped k { s with pool := { s.pool with readyTokens := [] }
                       fetched := s.fetched ++ s.pool.readyTokens } where
  topK := h.topK
  pooled := h.pooled
  emitted r := by
    rw [Aggregating.emitted, List.append_nil]
    exact h.emitted r
  placed := by
    rw [tokens, Aggregating.emitted, List.append_nil]
    exact h.placed

/-- What one call keeps. -/
theorem Grouped.step [Row R] (hk : 2 ≤ k) (h : Grouped k s) (hs : Step W s s') : Grouped k s' := by
  cases hs with
  | putBatch batch hput =>
    obtain ⟨-, rfl⟩ := putBatch_ok_iff.mp hput
    exact h.foldl_put hk (copies batch)
  | fetchReadyTokens hfetch =>
    obtain ⟨rfl, rfl⟩ := fetchReadyTokens_ok_iff.mp hfetch
    exact h.fetch

end Aggregating

open Aggregating

end TokenTopKPool

end StreamInfer.Pool
