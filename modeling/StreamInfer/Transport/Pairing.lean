import StreamInfer.General.Reach
import StreamInfer.Transport.Links

/-! What ties a payload to its metadata: message `k` of a peer, receive `k` of its
channel and payload `k` belong to call `k`. Every batch the pool processes carries the
data of its own call, is processed once, and after its receive completed. -/

namespace StreamInfer.Transport

open General

variable {M D : Type*}

/-! ### Dispatchers -/

namespace Sender

/-- Messages and payloads are those of the calls, in order. -/
structure Sound (x : Sender M D) : Prop where
  messages : x.messages = x.calls.map Prod.fst
  payloads : x.payloads ++ x.sending.toList = x.calls.map Prod.snd

/-- Calls are only added. -/
structure Extends (x x' : Sender M D) : Prop where
  calls : ∀ (k : ℕ) (c : M × D), x.calls[k]? = some c → x'.calls[k]? = some c
  messages : x.messages.length ≤ x'.messages.length
  payloads : x.payloads.length ≤ x'.payloads.length

variable {x x' : Sender M D} {maxPending : ℕ}

theorem sound_new : (new : Sender M D).Sound := ⟨rfl, rfl⟩

theorem Step.sound (h : x.Step maxPending x') (hx : x.Sound) : x'.Sound := by
  obtain ⟨hmessages, hpayloads⟩ := hx
  cases h with
  | message metadata data h hroom =>
    rw [h, Option.toList_none, List.append_nil] at hpayloads
    exact ⟨by simp [sendMessage, hmessages], by simp [sendMessage, hpayloads]⟩
  | payload h =>
    rw [h] at hpayloads
    exact ⟨hmessages, by simpa [sendPayload] using hpayloads⟩
  | clean h => exact ⟨hmessages, hpayloads⟩

theorem Step.extends (h : x.Step maxPending x') : x.Extends x' := by
  cases h with
  | message metadata data h hroom =>
    refine ⟨fun k c hk => ?_, by simp [sendMessage], Nat.le_refl _⟩
    rw [sendMessage, List.getElem?_append_left (List.getElem?_eq_some_iff.mp hk).1]
    exact hk
  | payload h => exact ⟨fun _ _ hk => hk, Nat.le_refl _, by simp [sendPayload]⟩
  | clean h => exact ⟨fun _ _ hk => hk, Nat.le_refl _, Nat.le_refl _⟩

/-- Message `k` is the metadata of call `k`. -/
theorem Sound.call_of_message (h : x.Sound) {k : ℕ} {metadata : M}
    (hk : x.messages[k]? = some metadata) : ∃ data, x.calls[k]? = some (metadata, data) := by
  rw [h.messages, List.getElem?_map, Option.map_eq_some_iff] at hk
  obtain ⟨⟨m, data⟩, hcall, rfl⟩ := hk
  exact ⟨data, hcall⟩

/-- Payload `k` is the data of call `k`. -/
theorem Sound.call_of_payload (h : x.Sound) {k : ℕ} {data : D} (hk : x.payloads[k]? = some data) :
    ∃ metadata, x.calls[k]? = some (metadata, data) := by
  have hall : (x.payloads ++ x.sending.toList)[k]? = some data := by
    rw [List.getElem?_append_left (List.getElem?_eq_some_iff.mp hk).1]
    exact hk
  rw [h.payloads, List.getElem?_map, Option.map_eq_some_iff] at hall
  obtain ⟨⟨metadata, d⟩, hcall, rfl⟩ := hall
  exact ⟨metadata, hcall⟩

end Sender

/-! ### The pool -/

namespace PendingRecv

/-- The peer and the number of the call. -/
def key (e : PendingRecv M) : ℕ × ℕ := (e.peerId, e.index)

end PendingRecv

/-- The message whose payload the thread waits for. -/
def Thread.held : Thread M → List (PendingRecv M)
  | .receiving entry _ => [entry]
  | _ => []

namespace Pool

variable {isLocal : ℕ → Bool} {maxPending : ℕ} {s s' : Pool M D}

/-- The calls whose message was taken: processed, pending or being received. -/
def keys (s : Pool M D) : List (ℕ × ℕ) :=
  s.processed.map (·.1.key) ++ s.pendingRecvs.map (·.key) ++ s.thread.held.map (·.key)

/-- Call `key` of its peer. -/
def callAt (s : Pool M D) (peer k : ℕ) : Option (M × D) := (s.sender peer).calls[k]?

/-- Receive `k` of a peer is for its message `k` and gets its payload `k`. -/
structure Paired (isLocal : ℕ → Bool) (s : Pool M D) : Prop where
  sound : ∀ peer, (s.sender peer).Sound
  popped_le : ∀ peer, (s.inbox peer).popped ≤ (s.sender peer).messages.length
  moved_le : ∀ peer, (s.inbox peer).moved ≤ (s.inbox peer).popped
  recvs : ∀ peer, isLocal peer = false → (s.inbox peer).recvs.length = (s.inbox peer).popped
  noRecvs : ∀ peer, isLocal peer = true → (s.inbox peer).recvs = []
  moved : ∀ peer, isLocal peer = true → (∀ e ∈ s.thread.held, e.peerId ≠ peer) →
    (s.inbox peer).moved = (s.inbox peer).popped
  known : ∀ peer, ∀ a ∈ (s.inbox peer).recvs, a < s.numTensors
  distinct : ∀ p k q l a : ℕ, (s.inbox p).recvs[k]? = some a → (s.inbox q).recvs[l]? = some a →
    p = q ∧ k = l
  filled : ∀ peer k a : ℕ, (s.inbox peer).recvs[k]? = some a → k < (s.inbox peer).moved →
    ∃ c, s.callAt peer k = some c ∧ s.tensors a = some c.2
  empty : ∀ peer k a : ℕ, (s.inbox peer).recvs[k]? = some a → (s.inbox peer).moved ≤ k →
    s.tensors a = none
  unused : ∀ a, s.numTensors ≤ a → s.tensors a = none
  completed : ∀ a, s.completed a = true → s.tensors a ≠ none
  pending : ∀ e ∈ s.pendingRecvs, isLocal e.peerId = false ∧
    (s.inbox e.peerId).recvs[e.index]? = some e.tensor ∧
    ∃ data, s.callAt e.peerId e.index = some (e.metadata, data)
  held : ∀ e ∈ s.thread.held, isLocal e.peerId = true ∧ e.tensor < s.numTensors ∧
    (∀ peer, e.tensor ∉ (s.inbox peer).recvs) ∧ e.index = (s.inbox e.peerId).moved ∧
    e.index + 1 = (s.inbox e.peerId).popped ∧
    ∃ data, s.callAt e.peerId e.index = some (e.metadata, data)
  processed : ∀ x ∈ s.processed, s.completed x.1.tensor = true ∧
    ∃ data, s.callAt x.1.peerId x.1.index = some (x.1.metadata, data) ∧ x.2 = some data
  mem_keys : ∀ peer k, (peer, k) ∈ s.keys ↔ k < (s.inbox peer).popped
  nodup : s.keys.Nodup

theorem paired_new : Paired isLocal (new : Pool M D) where
  sound _ := Sender.sound_new
  popped_le _ := Nat.le_refl _
  moved_le _ := Nat.le_refl _
  recvs _ _ := rfl
  noRecvs _ _ := rfl
  moved _ _ _ := rfl
  known := by simp [new]
  distinct := by simp [new]
  filled := by simp [new]
  empty := by simp [new]
  unused _ _ := rfl
  completed := by simp [new]
  pending := by simp [new]
  held := by simp [new, Thread.held]
  processed := by simp [new]
  mem_keys := by simp [new, keys, Thread.held]
  nodup := List.nodup_nil

theorem Paired.send (h : Paired isLocal s) {peer : ℕ} {x : Sender M D}
    (hx : (s.sender peer).Step maxPending x) :
    Paired isLocal { s with sender := Function.update s.sender peer x } := by
  have hcalls : ∀ q k c, s.callAt q k = some c →
      callAt { s with sender := Function.update s.sender peer x } q k = some c := by
    intro q k c hc
    by_cases hq : q = peer
    · subst hq
      simpa only [callAt, Function.update_self] using hx.extends.calls k c hc
    · simpa only [callAt, Function.update_of_ne hq] using hc
  exact
    { sound := fun q => by
        by_cases hq : q = peer
        · subst hq
          simpa only [Function.update_self] using hx.sound (h.sound q)
        · simpa only [Function.update_of_ne hq] using h.sound q
      popped_le := fun q => by
        by_cases hq : q = peer
        · subst hq
          simpa only [Function.update_self] using
            Nat.le_trans (h.popped_le q) hx.extends.messages
        · simpa only [Function.update_of_ne hq] using h.popped_le q
      moved_le := h.moved_le
      recvs := h.recvs
      noRecvs := h.noRecvs
      moved := h.moved
      known := h.known
      distinct := h.distinct
      filled := fun q k a ha hk => by
        obtain ⟨c, hc, hd⟩ := h.filled q k a ha hk
        exact ⟨c, hcalls q k c hc, hd⟩
      empty := h.empty
      unused := h.unused
      completed := h.completed
      pending := fun e he => by
        obtain ⟨hremote, hrecv, data, hc⟩ := h.pending e he
        exact ⟨hremote, hrecv, data, hcalls _ _ _ hc⟩
      held := fun e he => by
        obtain ⟨hlocal, hlt, hnot, hidx, hpop, data, hc⟩ := h.held e he
        exact ⟨hlocal, hlt, hnot, hidx, hpop, data, hcalls _ _ _ hc⟩
      processed := fun y hy => by
        obtain ⟨hdone, data, hc, hd⟩ := h.processed y hy
        exact ⟨hdone, data, hcalls _ _ _ hc, hd⟩
      mem_keys := h.mem_keys
      nodup := h.nodup }

/-- The thread moves without a message in its hands. -/
theorem Paired.move (h : Paired isLocal s) {t : Thread M} (hheld : t.held = s.thread.held) :
    Paired isLocal { s with thread := t } where
  sound := h.sound
  popped_le := h.popped_le
  moved_le := h.moved_le
  recvs := h.recvs
  noRecvs := h.noRecvs
  moved peer hlocal hnone := h.moved peer hlocal (hheld ▸ hnone)
  known := h.known
  distinct := h.distinct
  filled := h.filled
  empty := h.empty
  unused := h.unused
  completed := h.completed
  pending := h.pending
  held e he := h.held e (hheld ▸ he)
  processed := h.processed
  mem_keys := by
    simp only [keys, hheld]
    exact h.mem_keys
  nodup := by
    simp only [keys, hheld]
    exact h.nodup

theorem Paired.complete (h : Paired isLocal s) {tensor : ℕ} {data : D}
    (ht : s.tensors tensor = some data) : Paired isLocal (s.complete tensor) where
  sound := h.sound
  popped_le := h.popped_le
  moved_le := h.moved_le
  recvs := h.recvs
  noRecvs := h.noRecvs
  moved := h.moved
  known := h.known
  distinct := h.distinct
  filled := h.filled
  empty := h.empty
  unused := h.unused
  completed a ha := by
    by_cases hat : a = tensor
    · rw [hat]
      exact ht ▸ Option.some_ne_none data
    · rw [complete_completed, Function.update_of_ne hat] at ha
      exact h.completed a ha
  pending := h.pending
  held := h.held
  processed x hx := by
    obtain ⟨hdone, hrest⟩ := h.processed x hx
    refine ⟨?_, hrest⟩
    by_cases hat : x.1.tensor = tensor
    · rw [hat, complete_completed, Function.update_self]
    · rw [complete_completed, Function.update_of_ne hat]
      exact hdone
  mem_keys := h.mem_keys
  nodup := h.nodup

/-- The payload that leaves an NCCL channel is the one its receive was posted for. -/
theorem Paired.transfer (h : Paired isLocal s) {peer tensor : ℕ} {data : D}
    (hremote : isLocal peer = false)
    (htensor : (s.inbox peer).recvs[(s.inbox peer).moved]? = some tensor)
    (hdata : (s.sender peer).payloads[(s.inbox peer).moved]? = some data) :
    Paired isLocal (s.transfer peer tensor data) := by
  obtain ⟨metadata, hcall⟩ := (h.sound peer).call_of_payload hdata
  have hlt : (s.inbox peer).moved < (s.inbox peer).popped := by
    rw [← h.recvs peer hremote]
    exact (List.getElem?_eq_some_iff.mp htensor).1
  have hknown := h.known peer tensor (List.mem_of_getElem? htensor)
  have hheld : ∀ e ∈ s.thread.held, e.peerId ≠ peer := by
    intro e he heq
    have hlocal := (h.held e he).1
    rw [heq, hremote] at hlocal
    cases hlocal
  exact
    { sound := h.sound
      popped_le := fun q => by
        rw [transfer_popped]
        exact h.popped_le q
      moved_le := fun q => by
        rw [transfer_popped, transfer_moved]
        split_ifs with hq
        · rw [hq]
          exact hlt
        · exact h.moved_le q
      recvs := fun q hq => by
        rw [transfer_popped, transfer_recvs]
        exact h.recvs q hq
      noRecvs := fun q hq => by
        rw [transfer_recvs]
        exact h.noRecvs q hq
      moved := fun q hq hnone => by
        have hne : q ≠ peer := by
          rintro rfl
          rw [hremote] at hq
          cases hq
        rw [transfer_popped, transfer_moved, if_neg hne]
        exact h.moved q hq hnone
      known := fun q => by
        rw [transfer_recvs]
        exact h.known q
      distinct := fun p k q l a hp hq => by
        rw [transfer_recvs] at hp hq
        exact h.distinct p k q l a hp hq
      filled := fun q k a ha hk => by
        rw [transfer_recvs] at ha
        rw [transfer_moved] at hk
        by_cases hat : a = tensor
        · subst hat
          obtain ⟨rfl, rfl⟩ := h.distinct q k peer _ a ha htensor
          exact ⟨(metadata, data), hcall, Function.update_self _ _ _⟩
        · have hold : k < (s.inbox q).moved := by
            split_ifs at hk with hq
            · subst hq
              rcases Nat.lt_or_eq_of_le (Nat.le_of_lt_succ hk) with hk | rfl
              · exact hk
              · exact absurd (Option.some.inj (ha.symm.trans htensor)) hat
            · exact hk
          obtain ⟨c, hc, hd⟩ := h.filled q k a ha hold
          refine ⟨c, hc, ?_⟩
          rw [transfer_tensors, Function.update_of_ne hat]
          exact hd
      empty := fun q k a ha hk => by
        rw [transfer_recvs] at ha
        rw [transfer_moved] at hk
        have hat : a ≠ tensor := by
          rintro rfl
          obtain ⟨rfl, rfl⟩ := h.distinct q k peer _ a ha htensor
          rw [if_pos rfl] at hk
          omega
        rw [transfer_tensors, Function.update_of_ne hat]
        refine h.empty q k a ha (Nat.le_trans ?_ hk)
        split_ifs <;> omega
      unused := fun a ha => by
        have hat : a ≠ tensor := Nat.ne_of_gt (Nat.lt_of_lt_of_le hknown ha)
        rw [transfer_tensors, Function.update_of_ne hat]
        exact h.unused a ha
      completed := fun a ha => by
        rw [transfer_tensors]
        by_cases hat : a = tensor
        · rw [hat, Function.update_self]
          exact Option.some_ne_none _
        · rw [Function.update_of_ne hat]
          exact h.completed a ha
      pending := fun e he => by
        rw [transfer_recvs]
        exact h.pending e he
      held := fun e he => by
        obtain ⟨hlocal, hlt, hnot, hidx, hpop, hc⟩ := h.held e he
        refine ⟨hlocal, hlt, fun q => ?_, ?_, ?_, hc⟩
        · rw [transfer_recvs]
          exact hnot q
        · rw [transfer_moved, if_neg (hheld e he)]
          exact hidx
        · rw [transfer_popped]
          exact hpop
      processed := h.processed
      mem_keys := fun q k => by
        rw [transfer_popped]
        exact h.mem_keys q k
      nodup := h.nodup }

/-- The next message of a peer is taken. -/
theorem Paired.keys_take (h : Paired isLocal s) {peer : ℕ} {ks : List (ℕ × ℕ)}
    (hperm : ks.Perm ((peer, (s.inbox peer).popped) :: s.keys)) :
    (∀ q k, (q, k) ∈ ks ↔
      k < if q = peer then (s.inbox q).popped + 1 else (s.inbox q).popped) ∧ ks.Nodup := by
  refine ⟨fun q k => ?_, ?_⟩
  · rw [hperm.mem_iff, List.mem_cons, h.mem_keys, Prod.mk.injEq]
    split_ifs with hq
    · subst hq
      omega
    · exact ⟨fun hk => hk.resolve_left fun heq => hq heq.1, .inr⟩
  · rw [hperm.nodup_iff, List.nodup_cons, h.mem_keys]
    exact ⟨Nat.lt_irrefl _, h.nodup⟩

theorem Paired.recvRemote (h : Paired isLocal s) {peer drainCount : ℕ} {metadata : M}
    (hthread : s.thread = .draining drainCount)
    (hmessage : (s.sender peer).messages[(s.inbox peer).popped]? = some metadata)
    (hremote : isLocal peer = false) : Paired isLocal (s.recvRemote peer metadata drainCount) := by
  have hlt := (List.getElem?_eq_some_iff.mp hmessage).1
  have hlen := h.recvs peer hremote
  have hlast : ((s.inbox peer).recvs ++ [s.numTensors])[(s.inbox peer).popped]? =
      some s.numTensors := by
    rw [← hlen, List.getElem?_concat_length]
  -- a receive of the new state is an old one or the one just posted
  have hold : ∀ q k a : ℕ, ((s.recvRemote peer metadata drainCount).inbox q).recvs[k]? = some a →
      (s.inbox q).recvs[k]? = some a ∨
        q = peer ∧ k = (s.inbox peer).popped ∧ a = s.numTensors := by
    intro q k a ha
    rw [recvRemote_recvs] at ha
    split_ifs at ha with hq
    · subst hq
      rcases Nat.lt_or_ge k (s.inbox q).recvs.length with hk | hk
      · rw [List.getElem?_append_left hk] at ha
        exact .inl ha
      · rw [List.getElem?_append_right hk, List.getElem?_singleton] at ha
        split_ifs at ha with hz
        exact .inr ⟨rfl, by omega, (Option.some.inj ha).symm⟩
    · exact .inl ha
  have hkeep : ∀ q k a : ℕ, (s.inbox q).recvs[k]? = some a →
      ((s.recvRemote peer metadata drainCount).inbox q).recvs[k]? = some a := by
    intro q k a ha
    rw [recvRemote_recvs]
    split_ifs
    · rw [List.getElem?_append_left (List.getElem?_eq_some_iff.mp ha).1]
      exact ha
    · exact ha
  have hnew : ∀ q k a : ℕ, (s.inbox q).recvs[k]? = some a → a ≠ s.numTensors := by
    intro q k a ha
    exact Nat.ne_of_lt (h.known q a (List.mem_of_getElem? ha))
  have hheld : s.thread.held = [] := by rw [hthread]; rfl
  have hkeys : (s.recvRemote peer metadata drainCount).keys.Perm
      ((peer, (s.inbox peer).popped) :: s.keys) := by
    rw [keys, keys, hheld]
    simp only [Pool.recvRemote, entryOf, Thread.held, List.map_append, List.map_cons, List.map_nil,
      List.append_nil, PendingRecv.key]
    rw [← List.append_assoc]
    exact List.perm_append_singleton _ _
  obtain ⟨hmem, hnodup⟩ := h.keys_take hkeys
  exact
    { sound := h.sound
      popped_le := fun q => by
        rw [recvRemote_popped]
        split_ifs with hq
        · rw [hq]
          exact hlt
        · exact h.popped_le q
      moved_le := fun q => by
        rw [recvRemote_popped, recvRemote_moved]
        have hle := h.moved_le q
        split_ifs <;> omega
      recvs := fun q hq => by
        rw [recvRemote_popped, recvRemote_recvs]
        have hlen' := h.recvs q hq
        split_ifs
        · rw [List.length_append, hlen', List.length_singleton]
        · exact hlen'
      noRecvs := fun q hq => by
        have hne : q ≠ peer := by
          rintro rfl
          rw [hremote] at hq
          cases hq
        rw [recvRemote_recvs, if_neg hne]
        exact h.noRecvs q hq
      moved := fun q hq _ => by
        have hne : q ≠ peer := by
          rintro rfl
          rw [hremote] at hq
          cases hq
        rw [recvRemote_popped, recvRemote_moved, if_neg hne]
        exact h.moved q hq (by simp [hheld])
      known := fun q a ha => by
        obtain ⟨k, hk⟩ := List.mem_iff_getElem?.mp ha
        rcases hold q k a hk with hk | ⟨-, -, rfl⟩
        · exact Nat.lt_succ_of_lt (h.known q a (List.mem_of_getElem? hk))
        · exact Nat.lt_succ_self _
      distinct := fun p k q l a hp hq => by
        rcases hold p k a hp with hp' | ⟨hpp, hk, ha⟩ <;>
          rcases hold q l a hq with hq' | ⟨hqp, hl, ha'⟩
        · exact h.distinct p k q l a hp' hq'
        · exact absurd ha' (hnew p k a hp')
        · exact absurd ha (hnew q l a hq')
        · exact ⟨hpp.trans hqp.symm, hk.trans hl.symm⟩
      filled := fun q k a ha hk => by
        rw [recvRemote_moved] at hk
        rcases hold q k a ha with ha | ⟨rfl, rfl, -⟩
        · exact h.filled q k a ha hk
        · exact absurd (h.moved_le q) (Nat.not_le_of_lt hk)
      empty := fun q k a ha hk => by
        rw [recvRemote_moved] at hk
        rcases hold q k a ha with ha | ⟨-, -, rfl⟩
        · exact h.empty q k a ha hk
        · exact h.unused _ (Nat.le_refl _)
      unused := fun a ha => h.unused a (Nat.le_of_succ_le ha)
      completed := h.completed
      pending := fun e he => by
        rcases List.mem_append.mp he with he | he
        · obtain ⟨hr, hrecv, hc⟩ := h.pending e he
          exact ⟨hr, hkeep _ _ _ hrecv, hc⟩
        · obtain rfl := List.mem_singleton.mp he
          refine ⟨hremote, ?_, (h.sound peer).call_of_message hmessage⟩
          have hself : (s.entryOf peer metadata).peerId = peer := rfl
          rw [recvRemote_recvs, if_pos hself]
          exact hlast
      held := by simp [Pool.recvRemote, Thread.held]
      processed := h.processed
      mem_keys := fun q k => by
        rw [recvRemote_popped]
        exact hmem q k
      nodup := hnodup }

theorem Paired.recvLocal (h : Paired isLocal s) {peer drainCount : ℕ} {metadata : M}
    (hthread : s.thread = .draining drainCount)
    (hmessage : (s.sender peer).messages[(s.inbox peer).popped]? = some metadata)
    (hlocal : isLocal peer = true) : Paired isLocal (s.recvLocal peer metadata drainCount) := by
  have hlt := (List.getElem?_eq_some_iff.mp hmessage).1
  have hheld : s.thread.held = [] := by rw [hthread]; rfl
  have hkeys : (s.recvLocal peer metadata drainCount).keys.Perm
      ((peer, (s.inbox peer).popped) :: s.keys) := by
    rw [keys, keys, hheld]
    simp only [Pool.recvLocal, entryOf, Thread.held, List.map_cons, List.map_nil, List.append_nil,
      PendingRecv.key]
    exact List.perm_append_singleton _ _
  obtain ⟨hmem, hnodup⟩ := h.keys_take hkeys
  exact
    { sound := h.sound
      popped_le := fun q => by
        rw [recvLocal_popped]
        split_ifs with hq
        · rw [hq]
          exact hlt
        · exact h.popped_le q
      moved_le := fun q => by
        rw [recvLocal_popped, recvLocal_moved]
        have hle := h.moved_le q
        split_ifs <;> omega
      recvs := fun q hq => by
        have hne : q ≠ peer := by
          rintro rfl
          rw [hlocal] at hq
          cases hq
        rw [recvLocal_popped, recvLocal_recvs, if_neg hne]
        exact h.recvs q hq
      noRecvs := fun q hq => by
        rw [recvLocal_recvs]
        exact h.noRecvs q hq
      moved := fun q hq hnone => by
        have hne : q ≠ peer := Ne.symm (hnone _ (List.mem_singleton.mpr rfl))
        rw [recvLocal_popped, recvLocal_moved, if_neg hne]
        exact h.moved q hq (by simp [hheld])
      known := fun q a ha => by
        rw [recvLocal_recvs] at ha
        exact Nat.lt_succ_of_lt (h.known q a ha)
      distinct := fun p k q l a hp hq => by
        rw [recvLocal_recvs] at hp hq
        exact h.distinct p k q l a hp hq
      filled := fun q k a ha hk => by
        rw [recvLocal_recvs] at ha
        rw [recvLocal_moved] at hk
        exact h.filled q k a ha hk
      empty := fun q k a ha hk => by
        rw [recvLocal_recvs] at ha
        rw [recvLocal_moved] at hk
        exact h.empty q k a ha hk
      unused := fun a ha => h.unused a (Nat.le_of_succ_le ha)
      completed := h.completed
      pending := fun e he => by
        rw [recvLocal_recvs]
        exact h.pending e he
      held := fun e he => by
        obtain rfl := List.mem_singleton.mp he
        refine ⟨hlocal, Nat.lt_succ_self _, fun q hq => ?_, ?_, ?_,
          (h.sound peer).call_of_message hmessage⟩
        · rw [recvLocal_recvs] at hq
          exact absurd (h.known q _ hq) (Nat.lt_irrefl _)
        · rw [recvLocal_moved]
          exact (h.moved peer hlocal (by simp [hheld])).symm
        · have hself : (s.entryOf peer metadata).peerId = peer := rfl
          rw [recvLocal_popped, if_pos hself]
          rfl
      processed := h.processed
      mem_keys := fun q k => by
        rw [recvLocal_popped]
        exact hmem q k
      nodup := hnodup }

/-- The payload that a local receive waits for is its own. -/
theorem Paired.copyLocal (h : Paired isLocal s) {entry : PendingRecv M} {drainCount : ℕ} {data : D}
    (hthread : s.thread = .receiving entry drainCount)
    (hdata : (s.sender entry.peerId).payloads[(s.inbox entry.peerId).moved]? = some data) :
    Paired isLocal (s.copyLocal entry drainCount data) := by
  have hheld : s.thread.held = [entry] := by rw [hthread]; rfl
  obtain ⟨hlocal, hlt, hnot, hidx, hpop, data', hcall⟩ := h.held entry (by simp [hheld])
  obtain ⟨metadata, hcall'⟩ := (h.sound entry.peerId).call_of_payload hdata
  have hown : data' = data := by
    rw [callAt, hidx, hcall'] at hcall
    exact (Prod.mk.inj (Option.some.inj hcall)).2.symm
  subst hown
  have hne : ∀ q k a : ℕ, (s.inbox q).recvs[k]? = some a → a ≠ entry.tensor := by
    rintro q k a ha rfl
    exact hnot q (List.mem_of_getElem? ha)
  have hkeys : (s.copyLocal entry drainCount data').keys.Perm s.keys := by
    rw [keys, keys, hheld]
    simp only [Pool.copyLocal, Thread.held, List.map_append, List.map_cons, List.map_nil,
      List.append_nil, List.append_assoc]
    exact List.Perm.append_left _ List.perm_append_comm
  exact
    { sound := h.sound
      popped_le := fun q => by
        rw [copyLocal_inbox, transfer_popped]
        exact h.popped_le q
      moved_le := fun q => by
        rw [copyLocal_inbox, transfer_popped, transfer_moved]
        split_ifs with hq
        · rw [hq]
          omega
        · exact h.moved_le q
      recvs := fun q hq => by
        rw [copyLocal_inbox, transfer_popped, transfer_recvs]
        exact h.recvs q hq
      noRecvs := fun q hq => by
        rw [copyLocal_inbox, transfer_recvs]
        exact h.noRecvs q hq
      moved := fun q hq _ => by
        rw [copyLocal_inbox, transfer_popped, transfer_moved]
        split_ifs with hqe
        · rw [hqe]
          omega
        · refine h.moved q hq ?_
          simpa [hheld] using Ne.symm hqe
      known := fun q => by
        rw [copyLocal_inbox, transfer_recvs]
        exact h.known q
      distinct := fun p k q l a hp hq => by
        rw [copyLocal_inbox, transfer_recvs] at hp hq
        exact h.distinct p k q l a hp hq
      filled := fun q k a ha hk => by
        rw [copyLocal_inbox, transfer_recvs] at ha
        rw [copyLocal_inbox, transfer_moved] at hk
        have hqe : q ≠ entry.peerId := by
          rintro rfl
          rw [h.noRecvs _ hlocal] at ha
          cases ha
        rw [if_neg hqe] at hk
        rw [copyLocal_tensors, Function.update_of_ne (hne q k a ha)]
        exact h.filled q k a ha hk
      empty := fun q k a ha hk => by
        rw [copyLocal_inbox, transfer_recvs] at ha
        rw [copyLocal_inbox, transfer_moved] at hk
        rw [copyLocal_tensors, Function.update_of_ne (hne q k a ha)]
        refine h.empty q k a ha (Nat.le_trans ?_ hk)
        split_ifs <;> omega
      unused := fun a ha => by
        have hat : a ≠ entry.tensor := Nat.ne_of_gt (Nat.lt_of_lt_of_le hlt ha)
        rw [copyLocal_tensors, Function.update_of_ne hat]
        exact h.unused a ha
      completed := fun a ha => by
        rw [copyLocal_completed] at ha
        rw [copyLocal_tensors]
        by_cases hat : a = entry.tensor
        · rw [hat, Function.update_self]
          exact Option.some_ne_none _
        · rw [Function.update_of_ne hat] at ha ⊢
          exact h.completed a ha
      pending := fun e he => by
        rw [copyLocal_inbox, transfer_recvs]
        exact h.pending e he
      held := by simp [Pool.copyLocal, Thread.held]
      processed := fun x hx => by
        rw [copyLocal_completed]
        rcases List.mem_append.mp hx with hx | hx
        · obtain ⟨hdone, hrest⟩ := h.processed x hx
          refine ⟨?_, hrest⟩
          by_cases hat : x.1.tensor = entry.tensor
          · rw [hat, Function.update_self]
          · rw [Function.update_of_ne hat]
            exact hdone
        · obtain rfl := List.mem_singleton.mp hx
          exact ⟨Function.update_self _ _ _, data', hcall, rfl⟩
      mem_keys := fun q k => by
        rw [copyLocal_inbox, transfer_popped, hkeys.mem_iff]
        exact h.mem_keys q k
      nodup := hkeys.nodup_iff.mpr h.nodup }

/-- A pending receive that completed holds the data of its call. -/
theorem Paired.data_of_completed (h : Paired isLocal s) {e : PendingRecv M}
    (he : e ∈ s.pendingRecvs) (hdone : s.completed e.tensor = true) :
    ∃ data, s.callAt e.peerId e.index = some (e.metadata, data) ∧ s.tensors e.tensor = some data := by
  obtain ⟨-, hrecv, data, hcall⟩ := h.pending e he
  have hwritten := h.completed _ hdone
  have hmoved : e.index < (s.inbox e.peerId).moved := by
    by_contra hle
    exact hwritten (h.empty _ _ _ hrecv (Nat.le_of_not_lt hle))
  obtain ⟨c, hc, htensor⟩ := h.filled _ _ _ hrecv hmoved
  obtain rfl := Option.some.inj (hcall.symm.trans hc)
  exact ⟨data, hcall, htensor⟩

theorem Paired.process (h : Paired isLocal s) {it : ℕ} {entry : PendingRecv M}
    (hentry : s.pendingRecvs[it]? = some entry) (hdone : s.completed entry.tensor = true) :
    Paired isLocal (s.process it entry) := by
  obtain ⟨hlt, hget⟩ := List.getElem?_eq_some_iff.mp hentry
  have hperm : (entry :: s.pendingRecvs.eraseIdx it).Perm s.pendingRecvs := by
    rw [← hget]
    exact List.getElem_cons_eraseIdx_perm hlt
  have hkeys : (s.process it entry).keys.Perm s.keys := by
    rw [keys, keys]
    refine List.Perm.append_right _ ?_
    simp only [Pool.process, List.map_append, List.map_cons, List.map_nil, List.append_assoc]
    exact List.Perm.append_left _ (hperm.map _)
  exact
    { sound := h.sound
      popped_le := h.popped_le
      moved_le := h.moved_le
      recvs := h.recvs
      noRecvs := h.noRecvs
      moved := h.moved
      known := h.known
      distinct := h.distinct
      filled := h.filled
      empty := h.empty
      unused := h.unused
      completed := h.completed
      pending := fun e he => h.pending e (List.mem_of_mem_eraseIdx he)
      held := h.held
      processed := fun x hx => by
        rcases List.mem_append.mp hx with hx | hx
        · exact h.processed x hx
        · obtain rfl := List.mem_singleton.mp hx
          exact ⟨hdone, h.data_of_completed (List.mem_of_getElem? hentry) hdone⟩
      mem_keys := fun q k => by
        rw [hkeys.mem_iff]
        exact h.mem_keys q k
      nodup := hkeys.nodup_iff.mpr h.nodup }

theorem Paired.step (h : Paired isLocal s) (hs : Step isLocal maxPending s s') :
    Paired isLocal s' := by
  cases hs with
  | send hx => exact h.send hx
  | transfer hremote htensor hdata => exact h.transfer hremote htensor hdata
  | complete ht => exact h.complete ht
  | recvRemote hthread hlimit hmessage hremote => exact h.recvRemote hthread hmessage hremote
  | recvLocal hthread hlimit hmessage hlocal => exact h.recvLocal hthread hmessage hlocal
  | copyLocal hthread hdata => exact h.copyLocal hthread hdata
  | stop hthread _ => exact h.move (by rw [hthread]; rfl)
  | process hthread hentry hdone => exact h.process hentry hdone
  | skip hthread hentry hwait => exact h.move (by rw [hthread]; rfl)
  | restart hthread hend => exact h.move (by rw [hthread]; rfl)

theorem paired_of_reach (h : Reach (· = new) (Step isLocal maxPending) s) : Paired isLocal s :=
  h.invariant (by rintro _ rfl; exact paired_new) fun _ _ hI hs => hI.step hs

/-! ### Every run -/

/-- The message of call `k` of a peer is in the queue. -/
def Queued (s : Pool M D) (peer k : ℕ) : Prop :=
  (s.inbox peer).popped ≤ k ∧ k < (s.sender peer).messages.length

/-- In every state of every run, `process_batch` was called with the payload of the call
that sent the metadata, after that receive completed, and at most once for each
call. A call it was not called for is in the queue or in `pending_recvs`, unless the
thread is just waiting for its local payload. -/
theorem pairs_exactly_once (h : Reach (· = new) (Step isLocal maxPending) s) :
    (∀ x ∈ s.processed, s.completed x.1.tensor = true ∧
      ∃ data, s.callAt x.1.peerId x.1.index = some (x.1.metadata, data) ∧ x.2 = some data) ∧
    (s.processed.map (·.1.key)).Nodup ∧
    ∀ peer k c, s.callAt peer k = some c → (peer, k) ∉ s.processed.map (·.1.key) →
      s.Queued peer k ∨ (∃ e ∈ s.pendingRecvs, e.key = (peer, k)) ∨
        ∃ e drainCount, s.thread = .receiving e drainCount ∧ e.key = (peer, k) := by
  have hp := paired_of_reach h
  have hnodup := hp.nodup
  rw [keys, List.append_assoc, List.nodup_append] at hnodup
  refine ⟨hp.processed, hnodup.1, fun peer k c hc hnot => ?_⟩
  rcases Nat.lt_or_ge k (s.inbox peer).popped with hk | hk
  · have hmem := (hp.mem_keys peer k).mpr hk
    rw [keys, List.mem_append, List.mem_append] at hmem
    rcases hmem with (hmem | hmem) | hmem
    · exact absurd hmem hnot
    · exact .inr (.inl (List.mem_map.mp hmem))
    · refine .inr (.inr ?_)
      cases hthread : s.thread with
      | receiving e n =>
        rw [hthread] at hmem
        exact ⟨e, n, rfl, (List.mem_singleton.mp hmem).symm⟩
      | draining n =>
        rw [hthread] at hmem
        cases hmem
      | polling it =>
        rw [hthread] at hmem
        cases hmem
  · refine .inl ⟨hk, ?_⟩
    rw [(hp.sound peer).messages, List.length_map]
    exact (List.getElem?_eq_some_iff.mp hc).1

/-! ### A run with two peers -/

/-- A call of `send_batch_nonblocking` from start to end. -/
def sent (s : Pool M D) (peer : ℕ) (metadata : M) (data : D) : Pool M D :=
  { s with
    sender := Function.update s.sender peer
      (((s.sender peer).sendMessage metadata data).sendPayload data) }

theorem reach_sent (h : Reach (· = new) (Step isLocal maxPending) s) {peer : ℕ} (metadata : M)
    (data : D) (hidle : (s.sender peer).sending = none)
    (hroom : (s.sender peer).pendingSends.length < maxPending) :
    Reach (· = new) (Step isLocal maxPending) (s.sent peer metadata data) := by
  have hmessage := h.next (.send (.message metadata data hidle hroom))
  have hpayload := hmessage.next (@Step.send _ _ _ _ _ peer
    (((s.sender peer).sendMessage metadata data).sendPayload data)
    (by simpa only [Function.update_self] using .payload rfl))
  rwa [Function.update_idem] at hpayload

/-- Peers 0 and 1 sent a batch each, and the pool posted a receive for both. -/
def bothPosted : Pool ℕ ℕ :=
  (((new.sent 0 5 7).sent 1 6 8).recvRemote 0 5 0).recvRemote 1 6 1

theorem reach_bothPosted : Reach (· = new) (Step (fun _ => false) 16) bothPosted :=
  have hsent := reach_sent (reach_sent (.start rfl) 5 7 rfl (by decide)) 6 8 rfl (by decide)
  (hsent.next (.recvRemote rfl (by decide) rfl rfl)).next (.recvRemote rfl (by decide) rfl rfl)

/-- The receive of peer 1 completed first, and the pool has processed it. -/
def secondProcessed : Pool ℕ ℕ :=
  { ((bothPosted.transfer 1 1 8).complete 1) with thread := .polling 1 }.process 1 ⟨1, 6, 1, 0⟩

theorem reach_secondProcessed : Reach (· = new) (Step (fun _ => false) 16) secondProcessed := by
  have hcompleted : Reach (· = new) (Step (fun _ => false) 16)
      ((bothPosted.transfer 1 1 8).complete 1) :=
    (reach_bothPosted.next (@Step.transfer _ _ _ _ _ 1 1 8 rfl rfl rfl)).next
      (@Step.complete _ _ _ _ _ 1 8 rfl)
  have hpolling := (hcompleted.next (.stop rfl (.inl (by decide)))).next (.skip rfl rfl rfl)
  exact hpolling.next (.process rfl rfl rfl)

/-- The receive of peer 0 completed after it. -/
theorem pairs_exactly_once_outOfOrder : ∃ s : Pool ℕ ℕ,
    Reach (· = new) (Step (fun _ => false) 16) s ∧
      s.processed.map (·.1.key) = [(1, 0), (0, 0)] ∧
      ∀ x ∈ s.processed, s.completed x.1.tensor = true ∧
        ∃ data, s.callAt x.1.peerId x.1.index = some (x.1.metadata, data) ∧ x.2 = some data := by
  have hcompleted : Reach (· = new) (Step (fun _ => false) 16)
      ((secondProcessed.transfer 0 0 7).complete 0) :=
    (reach_secondProcessed.next (@Step.transfer _ _ _ _ _ 0 0 7 rfl rfl rfl)).next
      (@Step.complete _ _ _ _ _ 0 7 rfl)
  have hpolling := (hcompleted.next (.restart rfl (by decide))).next (.stop rfl (.inr (by decide)))
  have hprocessed := hpolling.next (@Step.process _ _ _ _ _ 0 ⟨0, 5, 0, 0⟩ rfl rfl rfl)
  exact ⟨_, hprocessed, rfl, (pairs_exactly_once hprocessed).1⟩

end Pool

end StreamInfer.Transport
