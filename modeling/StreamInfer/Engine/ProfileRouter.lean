import StreamInfer.Fault
import StreamInfer.General.RaggedGrid
import StreamInfer.General.Buckets
import StreamInfer.General.Fallible

/-! `ProfileDrivenRouter`. Loading sorts the rows of a profile by layer, request and
token, and keeps for each request its number of tokens and the sum of those
before it; routing looks a token up at the position these give, with request and
token reduced to the profile's. The profile is the parsed table: request ids, token
indices and layers are not negative, an expert id may be. -/

namespace StreamInfer.Engine

open General

structure ProfileRow where
  rid : ℕ
  tokenIndex : ℕ
  layer : ℕ
  /-- The `expert_logical_k` columns. -/
  experts : List ℤ
  deriving DecidableEq, Repr

structure Profile where
  expertColumns : ℕ
  rows : List ProfileRow

structure ProfileDrivenRouter where
  numExperts : ℕ
  topK : ℕ
  layerId : Option ℕ
  numProfiledRequests : ℕ
  numLayers : ℕ
  tokensPerRequest : List ℕ
  tokenPrefixSum : List ℕ
  totalTokensPerLayer : ℕ
  routingData : List (List ℤ)
  uniformWeight : ℚ

namespace ProfileDrivenRouter

/-! ### Loading -/

/-- `sort_values(["layer", "rid", "token_index"])`. -/
def rowBefore (a b : ProfileRow) : Bool :=
  a.layer < b.layer || (a.layer == b.layer &&
    (a.rid < b.rid || (a.rid == b.rid && a.tokenIndex < b.tokenIndex)))

/-- The unique expert ids of the profile that are not negative. -/
def uniqueExperts (p : Profile) : List ℤ :=
  ((p.rows.flatMap ProfileRow.experts).dedup).filter (0 ≤ ·)

/-- `project_group_size`. -/
def projectGroupSize (p : Profile) (numExperts : ℕ) : Except Fault (Option ℕ) :=
  let numUnique := (uniqueExperts p).length
  if numUnique = numExperts then .ok none
  else if numExperts < numUnique then
    if numExperts = 0 then .error (.assertion "integer division or modulo by zero")
    else if numUnique % numExperts = 0 then .ok (some (numUnique / numExperts))
    else .error (.assertion "Profile contains unique experts, but system expects another number")
  else .error (.assertion "Profile contains unique experts, but system expects another number")

def projectRow (groupSize : Option ℕ) (row : ProfileRow) : List ℤ :=
  match groupSize with
  | none => row.experts
  | some g => row.experts.map fun e => if 0 ≤ e then e / g else e

/-- The rows of the router's layer, or all of them. -/
def keptRows (p : Profile) (layerId : Option ℕ) : List ProfileRow :=
  match layerId with
  | some l => p.rows.filter (·.layer = l)
  | none => p.rows

/-- `nunique` of the token indices of a request. -/
def tokenCount (rows : List ProfileRow) (rid : ℕ) : ℕ :=
  ((rows.filter (·.rid = rid)).map ProfileRow.tokenIndex).dedup.length

/-- The unique request ids. -/
def uniqueRids (rows : List ProfileRow) : List ℕ := (rows.map ProfileRow.rid).dedup

def tokensPerRequestOf (rows : List ProfileRow) : Except Fault (List ℕ) :=
  match writeAll (List.replicate (uniqueRids rows).length 0)
      ((uniqueRids rows).map fun rid => (rid, tokenCount rows rid)) with
  | some counts => .ok counts
  | none => .error (.outOfRange "tokens_per_req_np[int(rid)]")

/-- `token_prefix_sum[1:] = cumsum`. -/
def prefixSum (before : ℕ) : List ℕ → List ℕ
  | [] => [before]
  | n :: ns => before :: prefixSum (before + n) ns

def numLayersOf (rows : List ProfileRow) (layerId : Option ℕ) : Except Fault ℕ :=
  match layerId, (rows.map ProfileRow.layer).max? with
  | some _, _ => .ok 1
  | none, some last => .ok (last + 1)
  | none, none => .error (.assertion "zero-size array to reduction operation maximum")

/-- `routing_outcomes[sorted_indices]`: the rows are sorted with their indices. -/
def routingSorted (S : ComparatorSort) (rows : List ProfileRow) (outcomes : List (List ℤ)) :
    List (List ℤ) :=
  ((S.sort (fun a b => rowBefore a.1 b.1) rows.zipIdx).map Prod.snd).map fun i => outcomes.getD i []

/-- `__init__` on a parsed profile. -/
def load (S : ComparatorSort) (p : Profile) (numExperts topK : ℕ) (layerId : Option ℕ) :
    Except Fault ProfileDrivenRouter := do
  if p.expertColumns = 0 then throw (.assertion "No expert columns found in profile")
  if p.expertColumns ≠ topK then
    throw (.assertion "Number of expert columns in the profile does not match system's K")
  let groupSize ← projectGroupSize p numExperts
  let rows := keptRows p layerId
  let outcomes := rows.map (projectRow groupSize)
  let numLayers ← numLayersOf rows layerId
  let tokensPerRequest ← tokensPerRequestOf rows
  let tokenPrefixSum := prefixSum 0 tokensPerRequest
  return {
    numExperts := numExperts
    topK := topK
    layerId := layerId
    numProfiledRequests := (uniqueRids rows).length
    numLayers := numLayers
    tokensPerRequest := tokensPerRequest
    tokenPrefixSum := tokenPrefixSum
    totalTokensPerLayer := tokenPrefixSum.getLastD 0
    routingData := routingSorted S rows outcomes
    uniformWeight := if topK > 1 then 1 / topK else 1 }

/-! ### Routing -/

/-- `%` of a tensor, whose result has the sign of the divisor. -/
def remainder (a : ℤ) (n : ℕ) : Except Fault ℕ :=
  if n = 0 then .error (.assertion "integer division or modulo by zero") else .ok (a % n).toNat

def tensorAt {α : Type} (access : String) (xs : List α) (i : ℕ) : Except Fault α :=
  match xs[i]? with
  | some x => .ok x
  | none => .error (.outOfRange access)

/-- The row of one request id and token index. -/
def lookup (r : ProfileDrivenRouter) (layerId : ℕ) (query : ℤ × ℤ) : Except Fault (List ℤ) := do
  let rid ← remainder query.1 r.numProfiledRequests
  let tokens ← tensorAt "tokens_per_request[mapped_rid]" r.tokensPerRequest rid
  let token ← remainder query.2 tokens
  let start ← tensorAt "token_prefix_sum[mapped_rid]" r.tokenPrefixSum rid
  let flatIdx := if r.layerId.isSome then start + token
    else layerId * r.totalTokensPerLayer + start + token
  tensorAt "routing_data[flat_idx]" r.routingData flatIdx

/-- The weights and the expert ids of a batch of request ids and token indices. -/
def route (r : ProfileDrivenRouter) (queries : List (ℤ × ℤ)) (layerId topK : ℕ) :
    Except Fault (List (List ℚ) × List (List ℤ)) := do
  if topK ≠ r.topK then
    throw (.assertion "Requested top_k does not match ProfileDrivenRouter's top_k")
  let topkIds ← queries.mapM (r.lookup layerId)
  return (List.replicate topkIds.length (List.replicate topK r.uniformWeight), topkIds)

/-! ### Profiles -/

def keyOf (row : ProfileRow) : GridKey := gridKey row.layer row.rid row.tokenIndex

/-- Rows that have each layer, request and token once. -/
structure CompleteRows (rows : List ProfileRow) (ls : List ℕ) (R : ℕ) (tokens : ℕ → ℕ) : Prop where
  mem : ∀ row ∈ rows, keyOf row ∈ grid ls R tokens
  once : ∀ k ∈ grid ls R tokens, (rows.map keyOf).count k = 1

/-- A profile of `R` requests and `L` layers with each layer, request and token once, and
`g` times the experts of the system. -/
structure Complete (p : Profile) (numExperts g R L : ℕ) (tokens : ℕ → ℕ) : Prop where
  requests_pos : 0 < R
  layers_pos : 0 < L
  tokens_pos : ∀ rid < R, 0 < tokens rid
  rows : CompleteRows p.rows (List.range L) R tokens
  columns_pos : 0 < p.expertColumns
  numExperts_pos : 0 < numExperts
  groups_pos : 0 < g
  experts : (uniqueExperts p).length = g * numExperts

/-- An expert of the profile as one of the system's. -/
def projected (g : ℕ) (e : ℤ) : ℤ := if 0 ≤ e then e / g else e

variable {p : Profile} {rows : List ProfileRow} {ls : List ℕ} {numExperts g R L : ℕ} {tokens : ℕ → ℕ}

/-! ### Experts -/

theorem Complete.projectGroupSize_ok (h : Complete p numExperts g R L tokens) :
    ∃ groupSize, projectGroupSize p numExperts = .ok groupSize ∧
      ∀ row, projectRow groupSize row = row.experts.map (projected g) := by
  have hE := h.numExperts_pos
  unfold projectGroupSize
  dsimp only
  rw [h.experts]
  by_cases hg : g = 1
  · refine ⟨none, if_pos (by rw [hg, Nat.one_mul]), fun row => ?_⟩
    have hid : projected g = id := by
      funext e
      rw [projected, hg, Nat.cast_one, Int.ediv_one, ite_self]
      rfl
    rw [hid, List.map_id]
    rfl
  · have hlt : numExperts < g * numExperts := by
      have hg' := h.groups_pos
      exact (Nat.lt_mul_iff_one_lt_left hE).mpr (by omega)
    refine ⟨some g, ?_, fun row => rfl⟩
    rw [if_neg hlt.ne', if_pos hlt, if_neg hE.ne', Nat.mul_mod_left, if_pos rfl,
      Nat.mul_div_cancel _ hE]

/-! ### Tokens -/

theorem CompleteRows.exists_row (h : CompleteRows rows ls R tokens) {l rid t : ℕ} (hl : l ∈ ls)
    (hrid : rid < R) (ht : t < tokens rid) :
    ∃ row ∈ rows, row.layer = l ∧ row.rid = rid ∧ row.tokenIndex = t := by
  have hone := h.once (gridKey l rid t) (mem_grid.mpr ⟨l, hl, rid, hrid, t, ht, rfl⟩)
  have hmem : gridKey l rid t ∈ rows.map keyOf := List.count_pos_iff.mp (by omega)
  obtain ⟨row, hrow, hkey⟩ := List.mem_map.mp hmem
  exact ⟨row, hrow, gridKey_inj.mp hkey⟩

theorem CompleteRows.bounds (h : CompleteRows rows ls R tokens) {row : ProfileRow} (hrow : row ∈ rows) :
    row.layer ∈ ls ∧ row.rid < R ∧ row.tokenIndex < tokens row.rid := by
  obtain ⟨l, hl, rid, hrid, t, ht, hkey⟩ := mem_grid.mp (h.mem row hrow)
  obtain ⟨rfl, rfl, rfl⟩ := gridKey_inj.mp hkey
  exact ⟨hl, hrid, ht⟩

/-- The unique values of a list are as many as the numbers they are below. -/
theorem length_dedup_eq {xs : List ℕ} {n : ℕ} (h : ∀ x, x ∈ xs ↔ x < n) : xs.dedup.length = n := by
  have hperm : xs.dedup.Perm (List.range n) := by
    rw [List.perm_ext_iff_of_nodup (List.nodup_dedup xs) List.nodup_range]
    intro x
    rw [List.mem_dedup, h, List.mem_range]
  rw [hperm.length_eq, List.length_range]

theorem CompleteRows.mem_rids (h : CompleteRows rows ls R tokens) (hls : ls ≠ [])
    (htokens : ∀ rid < R, 0 < tokens rid) (rid : ℕ) : rid ∈ rows.map ProfileRow.rid ↔ rid < R := by
  constructor
  · intro hmem
    obtain ⟨row, hrow, rfl⟩ := List.mem_map.mp hmem
    exact (h.bounds hrow).2.1
  · intro hrid
    obtain ⟨l, hl⟩ := List.exists_mem_of_ne_nil ls hls
    obtain ⟨row, hrow, -, hrid', -⟩ := h.exists_row hl hrid (htokens rid hrid)
    exact List.mem_map.mpr ⟨row, hrow, hrid'⟩

theorem CompleteRows.tokenCount_eq (h : CompleteRows rows ls R tokens) (hls : ls ≠ []) {rid : ℕ}
    (hrid : rid < R) : tokenCount rows rid = tokens rid := by
  refine length_dedup_eq fun t => ?_
  simp only [List.mem_map, List.mem_filter, decide_eq_true_eq]
  constructor
  · rintro ⟨row, ⟨hrow, rfl⟩, rfl⟩
    exact (h.bounds hrow).2.2
  · intro ht
    obtain ⟨l, hl⟩ := List.exists_mem_of_ne_nil ls hls
    obtain ⟨row, hrow, -, hrid', htoken⟩ := h.exists_row hl hrid ht
    exact ⟨row, ⟨hrow, hrid'⟩, htoken⟩

theorem CompleteRows.tokensPerRequestOf_ok (h : CompleteRows rows ls R tokens) (hls : ls ≠ [])
    (htokens : ∀ rid < R, 0 < tokens rid) :
    (uniqueRids rows).length = R ∧ tokensPerRequestOf rows = .ok ((List.range R).map tokens) := by
  have hlen : (uniqueRids rows).length = R := length_dedup_eq (h.mem_rids hls htokens)
  have hmem : ∀ rid, rid ∈ uniqueRids rows ↔ rid < R := fun rid => by
    rw [uniqueRids, List.mem_dedup, h.mem_rids hls htokens]
  have hkeys : ∀ q ∈ (uniqueRids rows).map (fun rid => (rid, tokenCount rows rid)),
      q.1 < (List.replicate (uniqueRids rows).length 0).length := by
    rintro q hq
    obtain ⟨rid, hrid, rfl⟩ := List.mem_map.mp hq
    rw [List.length_replicate, hlen]
    exact (hmem rid).mp hrid
  obtain ⟨table, hok, htable, hat⟩ := writeAll_ok hkeys
  rw [List.length_replicate, hlen] at htable
  refine ⟨hlen, ?_⟩
  have heq : table = (List.range R).map tokens := by
    refine List.ext_getElem? fun rid => ?_
    by_cases hrid : rid < R
    · rw [List.getElem?_map, List.getElem?_range hrid, Option.map_some]
      refine hat rid (tokens rid) ?_ (.inr ?_)
      · rintro n hn
        obtain ⟨rid', -, heq⟩ := List.mem_map.mp hn
        obtain ⟨rfl, rfl⟩ := Prod.mk.inj heq
        exact h.tokenCount_eq hls hrid
      · exact List.mem_map.mpr ⟨rid, (hmem rid).mpr hrid, by rw [h.tokenCount_eq hls hrid]⟩
    · rw [List.getElem?_eq_none (by omega), List.getElem?_eq_none (by simpa using hrid)]
  rw [tokensPerRequestOf, hok, heq]

theorem getElem?_prefixSum (before : ℕ) (ns : List ℕ) {i : ℕ} (hi : i ≤ ns.length) :
    (prefixSum before ns)[i]? = some (before + (ns.take i).sum) := by
  induction ns generalizing before i with
  | nil =>
    obtain rfl : i = 0 := Nat.le_zero.mp hi
    rfl
  | cons n ns ih =>
    cases i with
    | zero => rfl
    | succ i =>
      rw [prefixSum, List.getElem?_cons_succ, ih _ (by simpa using hi), List.take_succ_cons,
        List.sum_cons, Nat.add_assoc]

theorem getLastD_prefixSum (before : ℕ) (ns : List ℕ) :
    (prefixSum before ns).getLastD 0 = before + ns.sum := by
  induction ns generalizing before with
  | nil => rfl
  | cons n ns ih =>
    have hne : prefixSum (before + n) ns ≠ [] := by cases ns <;> simp [prefixSum]
    obtain ⟨m, ms, hcons⟩ := List.exists_cons_of_ne_nil hne
    have hlast := ih (before + n)
    rw [prefixSum, List.sum_cons, ← Nat.add_assoc, ← hlast, hcons]
    rfl

theorem sum_map_range (R : ℕ) : ((List.range R).map tokens).sum = ∑ i ∈ Finset.range R, tokens i := by
  induction R with
  | zero => rfl
  | succ R ih =>
    rw [List.range_succ, List.map_append, List.sum_append, ih, Finset.sum_range_succ, List.map_singleton,
      List.sum_singleton]

/-- The tokens of the requests before one. -/
theorem getElem?_prefixSum_range {rid : ℕ} (hrid : rid < R) :
    (prefixSum 0 ((List.range R).map tokens))[rid]? = some (∑ i ∈ Finset.range rid, tokens i) := by
  rw [getElem?_prefixSum 0 _ (by simp; omega), Nat.zero_add, ← List.map_take, List.take_range,
    Nat.min_eq_left hrid.le, sum_map_range]

/-! ### The sorted rows -/

theorem rowBefore_iff (a b : ProfileRow) : rowBefore a b = true ↔ keyOf a < keyOf b := by
  rw [keyOf, keyOf, gridKey_lt, rowBefore]
  simp

/-- The outcome at the position of a key is that of the row with the key. -/
theorem CompleteRows.getElem?_routingSorted (h : CompleteRows rows ls R tokens) (S : ComparatorSort)
    (hls : ls.Pairwise (· < ·)) (f : ProfileRow → List ℤ) {pos l rid t : ℕ} (hl : ls[pos]? = some l)
    (hrid : rid < R) (ht : t < tokens rid) :
    ∃ row ∈ rows, row.layer = l ∧ row.rid = rid ∧ row.tokenIndex = t ∧
      (routingSorted S rows (rows.map f))[pos * (∑ i ∈ Finset.range R, tokens i) +
        ((∑ i ∈ Finset.range rid, tokens i) + t)]? = some (f row) := by
  have hfst : rows.zipIdx.map (fun x => keyOf x.1) = rows.map keyOf := by
    show rows.zipIdx.map (keyOf ∘ Prod.fst) = _
    rw [← List.map_map, List.zipIdx_map_fst]
  have hsorted : (S.sort (fun a b => rowBefore a.1 b.1) rows.zipIdx).map (fun x => keyOf x.1) =
      grid ls R tokens := by
    refine sort_eq_grid S (fun a b => rowBefore_iff a.1 b.1) hls (fun x hx => ?_) ?_
    · have hrow := List.mem_map_of_mem (f := Prod.fst) hx
      rw [List.zipIdx_map_fst] at hrow
      exact h.mem x.1 hrow
    · rw [hfst]
      exact h.once
  have hkey : (grid ls R tokens)[_]? = some (gridKey l rid t) := getElem?_grid hl hrid ht
  rw [← hsorted, List.getElem?_map, Option.map_eq_some_iff] at hkey
  obtain ⟨⟨row, i⟩, hat, hkey⟩ := hkey
  have hmem : (row, i) ∈ rows.zipIdx := (S.mem_sort _ _).mp (List.mem_of_getElem? hat)
  have hi : rows[i]? = some row := List.mem_zipIdx_iff_getElem?.mp hmem
  obtain ⟨hlayer, hrow, htoken⟩ := gridKey_inj.mp hkey
  refine ⟨row, List.mem_of_getElem? hi, hlayer, hrow, htoken, ?_⟩
  rw [routingSorted, List.getElem?_map, List.getElem?_map, hat, Option.map_some, Option.map_some,
    List.getD_eq_getElem?_getD, List.getElem?_map, hi]
  rfl

/-! ### Loading a complete profile -/

/-- The layers a router keeps. -/
def keptLayers (layerId : Option ℕ) (L : ℕ) : List ℕ :=
  match layerId with
  | some l => [l]
  | none => List.range L

theorem Complete.completeRows (h : Complete p numExperts g R L tokens) {layerId : Option ℕ}
    (hlayer : ∀ l, layerId = some l → l < L) :
    CompleteRows (keptRows p layerId) (keptLayers layerId L) R tokens := by
  cases layerId with
  | none => exact h.rows
  | some l =>
    have hl := hlayer l rfl
    refine ⟨fun row hrow => ?_, fun k hk => ?_⟩
    · obtain ⟨hrow, hlayer⟩ := List.mem_filter.mp hrow
      obtain ⟨-, hrid, htoken⟩ := h.rows.bounds hrow
      exact mem_grid.mpr ⟨row.layer, by simpa [keptLayers] using hlayer, _, hrid, _, htoken, rfl⟩
    · obtain ⟨l', hl', rid, hrid, t, ht, rfl⟩ := mem_grid.mp hk
      obtain rfl : l' = l := List.mem_singleton.mp hl'
      rw [← h.rows.once _ (mem_grid.mpr ⟨l', List.mem_range.mpr hl, rid, hrid, t, ht, rfl⟩),
        List.count_eq_countP, List.count_eq_countP, List.countP_map, List.countP_map,
        keptRows, List.countP_filter]
      refine List.countP_congr fun row _ => ?_
      -- a row with the key is a row of the layer
      simp only [Function.comp_apply, beq_iff_eq, Bool.and_eq_true, decide_eq_true_eq,
        and_iff_left_iff_imp]
      exact fun hkey => (gridKey_inj.mp hkey).1

theorem keptLayers_pairwise (layerId : Option ℕ) (L : ℕ) :
    (keptLayers layerId L).Pairwise (· < ·) := by
  cases layerId with
  | none => exact List.pairwise_lt_range
  | some l => exact List.pairwise_singleton _ l

theorem keptLayers_ne_nil (layerId : Option ℕ) (hL : 0 < L) : keptLayers layerId L ≠ [] := by
  cases layerId with
  | none => simpa [keptLayers] using hL.ne'
  | some l => simp [keptLayers]

theorem CompleteRows.numLayersOf_ok (h : CompleteRows rows ls R tokens) (hls : ls ≠ [])
    (hR : 0 < R) (htokens : ∀ rid < R, 0 < tokens rid) (layerId : Option ℕ) :
    ∃ n, numLayersOf rows layerId = .ok n := by
  obtain ⟨l, hl⟩ := List.exists_mem_of_ne_nil ls hls
  obtain ⟨row, hrow, -⟩ := h.exists_row hl hR (htokens 0 hR)
  cases layerId with
  | some l => exact ⟨1, rfl⟩
  | none =>
    cases hmax : (rows.map ProfileRow.layer).max? with
    | some last =>
      refine ⟨last + 1, ?_⟩
      simp only [numLayersOf, hmax]
    | none =>
      rw [List.max?_eq_none_iff, List.map_eq_nil_iff] at hmax
      rw [hmax] at hrow
      cases hrow

/-- What a router holds of a complete profile. -/
structure Holds (S : ComparatorSort) (p : Profile) (layerId : Option ℕ) (g R : ℕ) (tokens : ℕ → ℕ)
    (r : ProfileDrivenRouter) : Prop where
  topK : r.topK = p.expertColumns
  layerId_eq : r.layerId = layerId
  numProfiledRequests : r.numProfiledRequests = R
  tokensPerRequest : r.tokensPerRequest = (List.range R).map tokens
  tokenPrefixSum : r.tokenPrefixSum = prefixSum 0 ((List.range R).map tokens)
  totalTokensPerLayer : r.totalTokensPerLayer = ∑ i ∈ Finset.range R, tokens i
  routingData : r.routingData = routingSorted S (keptRows p layerId)
    ((keptRows p layerId).map fun row => row.experts.map (projected g))

theorem Complete.load_ok (h : Complete p numExperts g R L tokens) (S : ComparatorSort)
    {layerId : Option ℕ} (hlayer : ∀ l, layerId = some l → l < L) :
    ∃ r, load S p numExperts p.expertColumns layerId = .ok r ∧ Holds S p layerId g R tokens r := by
  have hkept := h.completeRows hlayer
  have hls := keptLayers_ne_nil layerId h.layers_pos
  obtain ⟨groupSize, hgroup, hproject⟩ := h.projectGroupSize_ok
  obtain ⟨n, hn⟩ := hkept.numLayersOf_ok hls h.requests_pos h.tokens_pos layerId
  obtain ⟨hrids, htokens⟩ := hkept.tokensPerRequestOf_ok hls h.tokens_pos
  refine ⟨{
    numExperts := numExperts
    topK := p.expertColumns
    layerId := layerId
    numProfiledRequests := (uniqueRids (keptRows p layerId)).length
    numLayers := n
    tokensPerRequest := (List.range R).map tokens
    tokenPrefixSum := prefixSum 0 ((List.range R).map tokens)
    totalTokensPerLayer := (prefixSum 0 ((List.range R).map tokens)).getLastD 0
    routingData := routingSorted S (keptRows p layerId)
      ((keptRows p layerId).map (projectRow groupSize))
    uniformWeight := if p.expertColumns > 1 then 1 / p.expertColumns else 1 }, ?_, ?_⟩
  · simp only [load, if_neg h.columns_pos.ne', hgroup, ne_eq, not_true_eq_false, ↓reduceIte, bind,
      Except.bind, pure, Except.pure, hn, htokens]
  · exact
      { topK := rfl
        layerId_eq := rfl
        numProfiledRequests := hrids
        tokensPerRequest := rfl
        tokenPrefixSum := rfl
        totalTokensPerLayer := by rw [getLastD_prefixSum, Nat.zero_add, sum_map_range]
        routingData := by
          rw [show projectRow groupSize = fun row => row.experts.map (projected g) from funext hproject] }

/-! ### Looking a row up -/

theorem remainder_eq (a : ℤ) {n : ℕ} (hn : 0 < n) :
    ∃ m : ℕ, remainder a n = .ok m ∧ m < n ∧ (m : ℤ) = a % n := by
  have hpos : 0 ≤ a % n := Int.emod_nonneg a (by omega)
  have hlt : a % n < n := Int.emod_lt_of_pos a (by omega)
  exact ⟨(a % n).toNat, if_neg hn.ne', by omega, Int.toNat_of_nonneg hpos⟩

theorem tensorAt_eq {α : Type} {access : String} {xs : List α} {i : ℕ} {x : α} (h : xs[i]? = some x) :
    tensorAt access xs i = .ok x := by rw [tensorAt, h]

/-- The row of a request, a token and a layer, with its experts as the system's. -/
def RowFor (p : Profile) (g R : ℕ) (tokens : ℕ → ℕ) (layer : ℕ) (query : ℤ × ℤ) (ids : List ℤ) :
    Prop :=
  ∃ row ∈ p.rows, (row.rid : ℤ) = query.1 % R ∧ (row.tokenIndex : ℤ) = query.2 % tokens row.rid ∧
    row.layer = layer ∧ ids = row.experts.map (projected g)

theorem mem_of_mem_keptRows {layerId : Option ℕ} {row : ProfileRow}
    (h : row ∈ keptRows p layerId) : row ∈ p.rows := by
  cases layerId with
  | none => exact h
  | some l => exact (List.mem_filter.mp h).1

theorem Complete.lookup_ok (h : Complete p numExperts g R L tokens) {S : ComparatorSort}
    {layerId : Option ℕ} (hlayer : ∀ l, layerId = some l → l < L) {r : ProfileDrivenRouter}
    (hr : Holds S p layerId g R tokens r) {layer : ℕ} (hlt : layerId.getD layer < L)
    (query : ℤ × ℤ) :
    ∃ ids, r.lookup layer query = .ok ids ∧ RowFor p g R tokens (layerId.getD layer) query ids := by
  obtain ⟨rid, hrid, hridlt, hridmod⟩ := remainder_eq query.1 h.requests_pos
  have htokens : ((List.range R).map tokens)[rid]? = some (tokens rid) := by
    rw [List.getElem?_map, List.getElem?_range hridlt, Option.map_some]
  obtain ⟨token, htoken, htokenlt, htokenmod⟩ := remainder_eq query.2 (h.tokens_pos rid hridlt)
  obtain ⟨pos, hpos, hflat⟩ : ∃ pos, (keptLayers layerId L)[pos]? = some (layerId.getD layer) ∧
      pos * (∑ i ∈ Finset.range R, tokens i) + ((∑ i ∈ Finset.range rid, tokens i) + token) =
        if layerId.isSome then (∑ i ∈ Finset.range rid, tokens i) + token
        else layer * (∑ i ∈ Finset.range R, tokens i) + (∑ i ∈ Finset.range rid, tokens i) + token := by
    cases layerId with
    | none => exact ⟨layer, List.getElem?_range hlt, (Nat.add_assoc _ _ _).symm⟩
    | some l => exact ⟨0, rfl, by rw [Nat.zero_mul, Nat.zero_add]; rfl⟩
  obtain ⟨row, hrow, hrowLayer, hrowRid, hrowToken, hat⟩ :=
    (h.completeRows hlayer).getElem?_routingSorted S (keptLayers_pairwise layerId L)
      (fun row => row.experts.map (projected g)) hpos hridlt htokenlt
  rw [hflat] at hat
  refine ⟨_, ?_, row, mem_of_mem_keptRows hrow, ?_, ?_, hrowLayer, rfl⟩
  · simp only [lookup, hr.numProfiledRequests, hrid, hr.tokensPerRequest, tensorAt_eq htokens, htoken,
      hr.tokenPrefixSum, tensorAt_eq (getElem?_prefixSum_range hridlt), hr.layerId_eq,
      hr.totalTokensPerLayer, hr.routingData, bind, Except.bind]
    exact tensorAt_eq hat
  · rw [hrowRid, hridmod]
  · rw [hrowToken, htokenmod, hrowRid]

/-- Routing a batch returns for each element the row of its request and token, of the
router's layer if it has one and of the layer asked for otherwise. -/
theorem route_rows (S : ComparatorSort) (h : Complete p numExperts g R L tokens)
    {layerId : Option ℕ} (hlayer : ∀ l, layerId = some l → l < L) :
    ∃ r, load S p numExperts p.expertColumns layerId = .ok r ∧
      ∀ (queries : List (ℤ × ℤ)) (layer : ℕ), layerId.getD layer < L →
        ∃ weights ids, r.route queries layer p.expertColumns = .ok (weights, ids) ∧
          List.Forall₂ (RowFor p g R tokens (layerId.getD layer)) queries ids := by
  obtain ⟨r, hload, hr⟩ := h.load_ok S hlayer
  refine ⟨r, hload, fun queries layer hlt => ?_⟩
  obtain ⟨ids, hids⟩ : ∃ ids, List.Forall₂ (fun q ids => r.lookup layer q = .ok ids ∧
      RowFor p g R tokens (layerId.getD layer) q ids) queries ids :=
    exists_forall₂ fun q _ => h.lookup_ok hlayer hr hlt q
  refine ⟨List.replicate ids.length (List.replicate p.expertColumns r.uniformWeight), ids, ?_,
    hids.imp fun _ _ h => h.2⟩
  rw [route, if_neg (by rw [hr.topK]; exact fun hne => hne rfl),
    mapM_eq_ok_iff.mpr (hids.imp fun _ _ h => h.1)]
  rfl

/-- One request of one token in two layers, whose rows differ. -/
def twoLayers : Profile where
  expertColumns := 1
  rows := [⟨0, 0, 1, [1]⟩, ⟨0, 0, 0, [0]⟩]

/-- Two requests of two and one tokens, in one layer, with twice the experts. -/
def twoGroups : Profile where
  expertColumns := 2
  rows := [⟨1, 0, 0, [3, 0]⟩, ⟨0, 1, 0, [2, 1]⟩, ⟨0, 0, 0, [1, 3]⟩]

theorem twoLayers_complete : Complete twoLayers 2 1 1 2 fun _ => 1 :=
  ⟨by decide, by decide, by decide, ⟨by decide, by decide⟩, by decide, by decide, by decide, by decide⟩

theorem twoGroups_complete : Complete twoGroups 2 2 2 1 fun rid => 2 - rid :=
  ⟨by decide, by decide, by decide, ⟨by decide, by decide⟩, by decide, by decide, by decide, by decide⟩

theorem route_rows_twoGroups :
    ∃ r, load .insertion twoGroups 2 2 none = .ok r ∧
      ∀ (queries : List (ℤ × ℤ)) (layer : ℕ), layer < 1 →
        ∃ weights ids, r.route queries layer 2 = .ok (weights, ids) ∧
          List.Forall₂ (RowFor twoGroups 2 2 (fun rid => 2 - rid) layer) queries ids :=
  route_rows .insertion twoGroups_complete fun _ h => by cases h

/-- A router of layer 0 returns the row of layer 0 when asked for layer 1. -/
theorem filtered_route_not_layer :
    Complete twoLayers 2 1 1 2 (fun _ => 1) ∧
      ∃ r, load .insertion twoLayers 2 1 (some 0) = .ok r ∧
        ∃ weights, r.route [(0, 0)] 1 1 = .ok (weights, [[0]]) ∧
          ¬ RowFor twoLayers 1 1 (fun _ => 1) 1 (0, 0) [0] := by
  refine ⟨twoLayers_complete, _, rfl, _, rfl, ?_⟩
  rintro ⟨row, hrow, -, -, hlayer, hids⟩
  simp only [twoLayers, List.mem_cons, List.not_mem_nil, or_false] at hrow
  rcases hrow with rfl | rfl
  · simp [projected] at hids
  · cases hlayer

end ProfileDrivenRouter

end StreamInfer.Engine
