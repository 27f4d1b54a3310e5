import StreamInfer.Ucxq.Framing

/-! The two transports behind one interface. A message is a first frame, which names
the peer or the batch, and a data frame. The UCX adapter sends the first frame through
a C string, so what arrives ends at the first NUL byte and includes it. -/

namespace StreamInfer.Ucxq

open General

namespace ZmqSocketAdapter

/-- ZeroMQ hands over the frames of a message as they were sent. -/
def sendMultipart (frame0 data : Bytes) : List Bytes := [frame0, data]

def recvMultipart : List Bytes → Option (Bytes × Bytes)
  | f0 :: f1 :: _ => some (f0, f1)
  | _ => none

end ZmqSocketAdapter

/-- The bytes of `str_buffer(frame0.c_str())`: up to the first NUL byte and that byte. -/
def strBuffer (frame0 : Bytes) : Bytes := frame0.takeWhile (· ≠ 0) ++ [0]

namespace UcxqSocketAdapter

def sendMultipart (frame0 data : Bytes) (sock : PushSocket) : PushSocket × Option Bytes :=
  let (sock, _) := sock.send (strBuffer frame0) .sndmore
  sock.send data .none

/-- The receive fails unless the payload has two frames. -/
def recvMultipart (payload : Bytes) : Option (Bytes × Bytes) :=
  match Ucxq.recvMultipart payload with
  | [f0, f1] => some (f0, f1)
  | _ => none

end UcxqSocketAdapter

/-- What the other end of each transport returns for one message. -/
def zmqReceives (frame0 data : Bytes) : Option (Bytes × Bytes) :=
  ZmqSocketAdapter.recvMultipart (ZmqSocketAdapter.sendMultipart frame0 data)

def ucxqReceives (frame0 data : Bytes) : Option (Bytes × Bytes) :=
  (UcxqSocketAdapter.sendMultipart frame0 data .new).2.bind UcxqSocketAdapter.recvMultipart

/-- Both transports return the message as it was sent. -/
def SameContract (frame0 data : Bytes) : Prop :=
  zmqReceives frame0 data = some (frame0, data) ∧ ucxqReceives frame0 data = some (frame0, data)

instance (frame0 data : Bytes) : Decidable (SameContract frame0 data) := by
  unfold SameContract
  infer_instance

/-! ### The UCX path -/

/-- A payload is complete after the data frame, and the socket is as before. -/
theorem sendMultipart_new (frame0 data : Bytes) :
    UcxqSocketAdapter.sendMultipart frame0 data .new =
      (.new, some (framed 2 (frameBytes [strBuffer frame0, data]))) := by
  have hfirst : PushSocket.new.send (strBuffer frame0) .sndmore =
      (PushSocket.staged [strBuffer frame0], none) :=
    congrArg (fun s => (s, none)) (PushSocket.appendFrame_staged (strBuffer frame0) [])
  have hlast : (PushSocket.staged [strBuffer frame0]).send data .none =
      (.new, some (PushSocket.staged [strBuffer frame0, data]).multipartStaging) := by
    show (PushSocket.new, some (PushSocket.appendFrame data _).multipartStaging) = _
    rw [PushSocket.appendFrame_staged]
    rfl
  unfold UcxqSocketAdapter.sendMultipart
  simp only [hfirst, hlast]
  rfl

theorem ucxqReceives_eq (frame0 data : Bytes) :
    ucxqReceives frame0 data = match readFrames 2 (frameBytes [strBuffer frame0, data]) with
      | [f0, f1] => some (f0, f1)
      | _ => none := by
  unfold ucxqReceives
  rw [sendMultipart_new, Option.bind_some, UcxqSocketAdapter.recvMultipart, recvMultipart_framed]
  rfl

/-- Frames whose lengths fit a word arrive as they were staged. -/
theorem ucxqReceives_of_lt {frame0 data : Bytes} (hframe : (strBuffer frame0).length < 2 ^ 32)
    (hdata : data.length < 2 ^ 32) : ucxqReceives frame0 data = some (strBuffer frame0, data) := by
  have hlen : ∀ f ∈ [strBuffer frame0, data], f.length < 2 ^ 32 := by
    intro f hf
    rw [List.mem_pair] at hf
    rcases hf with rfl | rfl
    · exact hframe
    · exact hdata
  rw [ucxqReceives_eq, readFrames_frameBytes hlen]
  rfl

/-- The first frame that arrives is as long as the length word of the staged one says,
and so is the second when the first is whole. -/
theorem ucxqReceives_lengths {frame0 data f0 f1 : Bytes}
    (h : ucxqReceives frame0 data = some (f0, f1)) :
    f0.length = (strBuffer frame0).length % 2 ^ 32 ∧
      ((strBuffer frame0).length < 2 ^ 32 → f1.length = data.length % 2 ^ 32) := by
  have hbytes : frameBytes [strBuffer frame0, data] = Word32.toBytes (strBuffer frame0).length ++
      (strBuffer frame0 ++ (Word32.toBytes data.length ++ (data ++ []))) := by
    simp [frameBytes]
  have hmod := Nat.mod_le (strBuffer frame0).length (2 ^ 32)
  rw [ucxqReceives_eq, hbytes, readFrames_frame] at h
  constructor
  · split at h
    · rename_i g0 g1 hread
      rw [Option.some.injEq, Prod.mk.injEq] at h
      rw [← h.1, ← (List.cons.inj hread).1, List.length_take, List.length_append]
      omega
    · exact absurd h (by simp)
  · intro hlt
    rw [Nat.mod_eq_of_lt hlt, List.drop_left, readFrames_frame] at h
    split at h
    · rename_i g0 g1 hread
      rw [Option.some.injEq, Prod.mk.injEq] at h
      have hmod := Nat.mod_le data.length (2 ^ 32)
      rw [← h.2, ← (List.cons.inj (List.cons.inj hread).2).1, List.append_nil, List.length_take]
      omega
    · exact absurd h (by simp)

/-! ### The contract -/

/-- A byte string whose only NUL byte is its last byte. -/
def EndsAtNul (frame0 : Bytes) : Prop := ∃ s : Bytes, 0 ∉ s ∧ frame0 = s ++ [0]

theorem strBuffer_eq_self (frame0 : Bytes) : strBuffer frame0 = frame0 ↔ EndsAtNul frame0 := by
  constructor
  · intro h
    refine ⟨frame0.takeWhile (· ≠ 0), ?_, h.symm⟩
    intro hmem
    have hne := List.mem_takeWhile_imp hmem
    simp at hne
  · rintro ⟨s, hs, rfl⟩
    have hall : ∀ b ∈ s, (decide (b ≠ 0)) = true := by
      intro b hb
      exact decide_eq_true fun h => hs (h ▸ hb)
    rw [strBuffer, List.takeWhile_append_of_pos hall]
    simp

theorem length_strBuffer_le (frame0 : Bytes) : (strBuffer frame0).length ≤ frame0.length + 1 := by
  rw [strBuffer, List.length_append, List.length_singleton]
  exact Nat.succ_le_succ (List.takeWhile_prefix _).length_le

theorem zmqReceives_eq (frame0 data : Bytes) : zmqReceives frame0 data = some (frame0, data) := rfl

/-- The transports agree on a message exactly when its first frame already ends at its
only NUL byte and both lengths fit a word. -/
theorem sameContract_iff (frame0 data : Bytes) :
    SameContract frame0 data ↔
      EndsAtNul frame0 ∧ frame0.length < 2 ^ 32 ∧ data.length < 2 ^ 32 := by
  constructor
  · rintro ⟨-, hucx⟩
    obtain ⟨hfirst, hsecond⟩ := ucxqReceives_lengths hucx
    have hle := length_strBuffer_le frame0
    have hword := Nat.mod_lt (strBuffer frame0).length (show 0 < 2 ^ 32 by decide)
    have hlt : (strBuffer frame0).length < 2 ^ 32 := by omega
    have hdata : data.length < 2 ^ 32 := by
      have hword := Nat.mod_lt data.length (show 0 < 2 ^ 32 by decide)
      have hlen := hsecond hlt
      omega
    rw [ucxqReceives_of_lt hlt hdata, Option.some.injEq, Prod.mk.injEq, strBuffer_eq_self] at hucx
    exact ⟨hucx.1, by omega, hdata⟩
  · rintro ⟨hends, hframe, hdata⟩
    have hself := (strBuffer_eq_self frame0).mpr hends
    refine ⟨zmqReceives_eq frame0 data, ?_⟩
    rw [ucxqReceives_of_lt (hself.symm ▸ hframe) hdata, hself]

/-- A printable first frame arrives with a NUL byte behind it. -/
theorem printable_frame_grows : ¬ SameContract [0x61] [1] := by
  decide

end StreamInfer.Ucxq
