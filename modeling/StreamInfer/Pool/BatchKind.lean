import StreamInfer.Batch.Rows
import StreamInfer.General.Runs

/-! What a queue knows of its batches. A kind says which tokens a batch holds, and
that splits cut the tokens and merges arrange them; the queue operations are
proved for every kind. Attention batches arrange first tokens in front, expert
batches sort by expert, and a kind may be restricted to lists of tokens with a
property that cuts and arrangements keep. -/

namespace StreamInfer.Pool

open General Batch BatchMetadata

variable {W R : Type}

structure BatchKind (W R : Type) [Zero W] where
  /-- The batch holds these tokens. -/
  Good : TokenBatch W R → List (TokenMetadata W × R) → Prop
  /-- The tokens of merged batches. -/
  arrange : List (List (TokenMetadata W × R)) → List (TokenMetadata W × R)
  numTokens : ∀ {b xs}, Good b xs → b.metadata.numTokens = xs.length
  splits : ∀ {b xs sizes}, Good b xs → sizes.sum = xs.length →
    ∃ bs, b.splitWithSizes sizes = .ok bs ∧ List.Forall₂ Good bs (sizes.splitLengths xs)
  merges : ∀ {bs xss}, bs ≠ [] → List.Forall₂ Good bs xss →
    ∃ b, TokenBatch.merge bs = .ok (some b) ∧ Good b (arrange xss)
  arrange_perm : ∀ {bs xss}, List.Forall₂ Good bs xss → (arrange xss).Perm xss.flatten

namespace BatchKind

/-- One batch stays as it is. -/
def arrangeWith (f : List (List (TokenMetadata W × R)) → List (TokenMetadata W × R)) :
    List (List (TokenMetadata W × R)) → List (TokenMetadata W × R)
  | [xs] => xs
  | xss => f xss

theorem arrangeWith_perm {f : List (List (TokenMetadata W × R)) → List (TokenMetadata W × R)}
    {xss : List (List (TokenMetadata W × R))} (h : (f xss).Perm xss.flatten) :
    (arrangeWith f xss).Perm xss.flatten := by
  unfold arrangeWith
  split
  · simp
  · exact h

/-! ### Attention batches -/

/-- An attention batch of a layer and its counts. -/
structure AttentionBatch (layerId : ℕ) (b : TokenBatch W R) (xs : List (TokenMetadata W × R)) : Prop
    extends CarriesAttention b xs where
  tag : b.metadata.batchTag = .attention
  layer : b.metadata.layerId = layerId

theorem AttentionBatch.splits {layerId : ℕ} {b : TokenBatch W R} {xs : List (TokenMetadata W × R)}
    (h : AttentionBatch layerId b xs) {sizes : List ℕ} (hs : sizes.sum = xs.length) :
    ∃ bs, b.splitWithSizes sizes = .ok bs ∧
      List.Forall₂ (AttentionBatch layerId) bs (sizes.splitLengths xs) := by
  obtain ⟨bs, hok, hmeta, hall⟩ := h.toCarriesAttention.splitWithSizes
    (by simp [isAttention, h.tag]) hs
  refine ⟨bs, hok, ?_⟩
  rw [List.forall₂_iff_zip] at hall ⊢
  refine ⟨hall.1, fun {p ys} hp => ?_⟩
  have hmem : p.metadata ∈ b.metadata.splitWithSizes sizes := by
    rw [← hmeta]
    exact List.mem_map_of_mem (List.of_mem_zip hp).1
  obtain ⟨htag, hlayer⟩ := splitWithSizes_header _ _ hmem
  exact ⟨hall.2 hp, htag.trans h.tag, hlayer.trans h.layer⟩

theorem AttentionBatch.merges [Zero W] {layerId : ℕ} {bs : List (TokenBatch W R)}
    {xss : List (List (TokenMetadata W × R))} (hne : bs ≠ [])
    (h : List.Forall₂ (AttentionBatch layerId) bs xss) :
    ∃ b, TokenBatch.merge bs = .ok (some b) ∧
      AttentionBatch layerId b (arrangeWith (frontMerge isFirstEntry) xss) := by
  match bs, xss, h with
  | [b], [xs], .cons hb .nil => exact ⟨b, rfl, hb⟩
  | b :: b' :: bs, xs :: xs' :: xss, .cons hb h =>
    obtain ⟨c, hok, htag, hlayer, hc⟩ := mergeByAttention_carries
      (List.Forall₂.imp (fun _ _ hb => hb.toCarriesAttention) (.cons hb h)) rfl
    refine ⟨c, ?_, hc, htag, hlayer.trans hb.layer⟩
    simp only [TokenBatch.merge, isExpert, isAttention, hb.tag, hok]
    rfl

def attention [Zero W] (layerId : ℕ) : BatchKind W R where
  Good := AttentionBatch layerId
  arrange := arrangeWith (frontMerge isFirstEntry)
  numTokens h := h.numTokens
  splits h hs := h.splits hs
  merges hne h := AttentionBatch.merges hne h
  arrange_perm _ := arrangeWith_perm (frontMerge_perm _ _)

/-! ### Expert batches -/

/-- An expert batch of a layer with ids inside the count array. -/
structure ExpertBatch (layerId : ℕ) (b : TokenBatch W R) (xs : List (TokenMetadata W × R)) : Prop
    extends Carries .routing b xs where
  tag : b.metadata.batchTag = .expert
  layer : b.metadata.layerId = layerId
  bounded : ∀ x ∈ xs, x.1.expId < maxNumExperts

theorem ExpertBatch.splits {layerId : ℕ} {b : TokenBatch W R} {xs : List (TokenMetadata W × R)}
    (h : ExpertBatch layerId b xs) {sizes : List ℕ} (hs : sizes.sum = xs.length) :
    ∃ bs, b.splitWithSizes sizes = .ok bs ∧
      List.Forall₂ (ExpertBatch layerId) bs (sizes.splitLengths xs) := by
  obtain ⟨bs, hok, hmeta, hall⟩ := h.toCarries.splitWithSizes hs
  refine ⟨bs, hok, ?_⟩
  rw [List.forall₂_iff_zip] at hall ⊢
  refine ⟨hall.1, fun {p ys} hp => ?_⟩
  have hmem : p.metadata ∈ b.metadata.splitWithSizes sizes := by
    rw [← hmeta]
    exact List.mem_map_of_mem (List.of_mem_zip hp).1
  obtain ⟨htag, hlayer⟩ := splitWithSizes_header _ _ hmem
  exact ⟨hall.2 hp, htag.trans h.tag, hlayer.trans h.layer,
    fun x hx => h.bounded x ((sublist_of_mem_splitLengths (List.of_mem_zip hp).2).subset hx)⟩

theorem forall_flatten_of_forall₂ {α β : Type} {R : α → List β → Prop} {P : β → Prop} {as : List α}
    {bss : List (List β)} (h : List.Forall₂ R as bss) (hp : ∀ a bs, R a bs → ∀ b ∈ bs, P b) :
    ∀ b ∈ bss.flatten, P b := by
  induction h with
  | nil => simp
  | cons hab _ ih =>
    intro b hb
    rw [List.flatten_cons, List.mem_append] at hb
    exact hb.elim (hp _ _ hab b) (ih b)

theorem ExpertBatch.merges [Zero W] {layerId : ℕ} {bs : List (TokenBatch W R)}
    {xss : List (List (TokenMetadata W × R))} (hne : bs ≠ [])
    (h : List.Forall₂ (ExpertBatch layerId) bs xss) :
    ∃ b, TokenBatch.merge bs = .ok (some b) ∧ ExpertBatch layerId b
      (arrangeWith (fun xss => buckets maxNumExperts (·.1.expId) xss.flatten) xss) := by
  match bs, xss, h with
  | [b], [xs], .cons hb .nil => exact ⟨b, rfl, hb⟩
  | b :: b' :: bs, xs :: xs' :: xss, .cons hb h =>
    have hid := forall_flatten_of_forall₂ (List.Forall₂.cons hb h) fun _ _ hb => hb.bounded
    obtain ⟨c, hok, htag, hlayer, hc⟩ := mergeByExpert_carries
      (List.Forall₂.imp (fun _ _ hb => hb.toCarries) (.cons hb h)) rfl hid
    refine ⟨c, ?_, hc, htag, hlayer.trans hb.layer, fun x hx => (mem_buckets.mp hx).2⟩
    simp only [TokenBatch.merge, isExpert, hb.tag, hok]
    rfl

def expert [Zero W] (layerId : ℕ) : BatchKind W R where
  Good := ExpertBatch layerId
  arrange := arrangeWith fun xss => buckets maxNumExperts (·.1.expId) xss.flatten
  numTokens h := h.numTokens
  splits h hs := h.splits hs
  merges hne h := ExpertBatch.merges hne h
  arrange_perm h := arrangeWith_perm
    (buckets_perm (forall_flatten_of_forall₂ h fun _ _ hb => hb.bounded))

/-! ### Restriction -/

theorem forall_mem_splitLengths {α : Type} {P : List α → Prop}
    (hcut : ∀ xs n, P xs → P (xs.take n) ∧ P (xs.drop n)) {sizes : List ℕ} {xs : List α} (h : P xs) :
    ∀ ys ∈ sizes.splitLengths xs, P ys := by
  induction sizes generalizing xs with
  | nil => simp
  | cons n sizes ih =>
    rw [List.splitLengths_cons, List.forall_mem_cons]
    exact ⟨(hcut xs n h).1, ih (hcut xs n h).2⟩

/-- The batches of a kind whose tokens have a property. -/
def restrict [Zero W] (K : BatchKind W R) (P : List (TokenMetadata W × R) → Prop)
    (hcut : ∀ xs n, P xs → P (xs.take n) ∧ P (xs.drop n))
    (harrange : ∀ xss, (∀ xs ∈ xss, P xs) → P (K.arrange xss)) : BatchKind W R where
  Good b xs := K.Good b xs ∧ P xs
  arrange := K.arrange
  numTokens h := K.numTokens h.1
  splits h hs := by
    obtain ⟨bs, hok, hall⟩ := K.splits h.1 hs
    refine ⟨bs, hok, ?_⟩
    rw [List.forall₂_iff_zip] at hall ⊢
    exact ⟨hall.1, fun {p ys} hp =>
      ⟨hall.2 hp, forall_mem_splitLengths hcut h.2 ys (List.of_mem_zip hp).2⟩⟩
  merges hne h := by
    obtain ⟨b, hok, hb⟩ := K.merges hne (h.imp fun _ _ hb => hb.1)
    refine ⟨b, hok, hb, harrange _ fun xs hxs => ?_⟩
    obtain ⟨i, hi, rfl⟩ := List.mem_iff_getElem.mp hxs
    exact (h.get (by rw [h.length_eq]; exact hi) hi).2
  arrange_perm h := K.arrange_perm (h.imp fun _ _ hb => hb.1)

end BatchKind

end StreamInfer.Pool
