import StreamInfer.General.Word32

/-! Messages of several frames over a transport of single payloads. Frames sent with
`sndmore` are staged behind a magic number and a frame count that every frame
patches; a payload that starts with the magic number is taken apart again. A frame
sent alone is not wrapped, so one that starts with the magic number is taken apart
as well. -/

namespace StreamInfer.Ucxq

open General

abbrev Bytes := List UInt8

def kMultipartMagic : ℕ := 0x55435851

inductive SendFlags where
  | none | sndmore
  deriving DecidableEq, Repr

/-- The staging state of a push socket. The frame count is a 32-bit word. -/
structure PushSocket where
  multipartStaging : Bytes
  multipartOpen : Bool
  multipartFrameCount : ℕ
  deriving DecidableEq

namespace PushSocket

def new : PushSocket := ⟨[], false, 0⟩

/-- `store_u32`: overwrite four bytes. -/
def storeU32 (v : Bytes) (offset value : ℕ) : Bytes :=
  v.take offset ++ Word32.toBytes value ++ v.drop (offset + 4)

def appendFrame (frame : Bytes) (s : PushSocket) : PushSocket :=
  let staging := s.multipartStaging ++ Word32.toBytes frame.length ++ frame
  let count := (s.multipartFrameCount + 1) % 2 ^ 32
  { s with multipartStaging := storeU32 staging 4 count, multipartFrameCount := count }

/-- The payload that is handed to the transport, if this call completes one. -/
def send (buf : Bytes) (flags : SendFlags) (s : PushSocket) : PushSocket × Option Bytes :=
  if flags = .sndmore then
    let opened := if s.multipartOpen then s else
      { multipartStaging := Word32.toBytes kMultipartMagic ++ Word32.toBytes 0
        multipartOpen := true
        multipartFrameCount := 0 }
    (appendFrame buf opened, none)
  else if s.multipartOpen then
    (new, some (appendFrame buf s).multipartStaging)
  else (s, some buf)

/-- A message: `sndmore` on all frames but the last. -/
def sendMessage : List Bytes → PushSocket → PushSocket × List Bytes
  | [], s => (s, [])
  | [frame], s =>
    let (s, payload) := s.send frame .none
    (s, payload.toList)
  | frame :: frames, s =>
    let (s, payload) := s.send frame .sndmore
    let (s, payloads) := sendMessage frames s
    (s, payload.toList ++ payloads)

def sendMessages : List (List Bytes) → PushSocket → PushSocket × List Bytes
  | [], s => (s, [])
  | frames :: messages, s =>
    let (s, payloads) := sendMessage frames s
    let (s, rest) := sendMessages messages s
    (s, payloads ++ rest)

end PushSocket

/-- The loop of `recv_multipart` over the announced frames. -/
def readFrames : ℕ → Bytes → List Bytes
  | 0, _ => []
  | numFrames + 1, p =>
    if p.length < 4 then []
    else
      let len := Word32.ofBytes p
      let p := p.drop 4
      if p.length < len then []
      else p.take len :: readFrames numFrames (p.drop len)

/-- What `recv_multipart` makes of a payload. -/
def recvMultipart (payload : Bytes) : List Bytes :=
  if payload.length < 8 then [payload]
  else if Word32.ofBytes payload ≠ kMultipartMagic then [payload]
  else readFrames (Word32.ofBytes (payload.drop 4)) (payload.drop 8)

/-! ### What is staged -/

/-- The frames of a message, each behind its length. -/
def frameBytes (frames : List Bytes) : Bytes :=
  frames.flatMap fun frame => Word32.toBytes frame.length ++ frame

/-- A wrapped message. -/
def framed (count : ℕ) (body : Bytes) : Bytes :=
  Word32.toBytes kMultipartMagic ++ (Word32.toBytes count ++ body)

namespace PushSocket

/-- The staging of a message under way holds the frames so far. -/
def staged (frames : List Bytes) : PushSocket where
  multipartStaging := framed (frames.length % 2 ^ 32) (frameBytes frames)
  multipartOpen := true
  multipartFrameCount := frames.length % 2 ^ 32

theorem storeU32_framed (count count' : ℕ) (body : Bytes) :
    storeU32 (framed count body) 4 count' = framed count' body := by
  simp [storeU32, framed, Word32.toBytes]

theorem appendFrame_staged (frame : Bytes) (frames : List Bytes) :
    appendFrame frame (staged frames) = staged (frames ++ [frame]) := by
  have hstaging : (staged frames).multipartStaging ++ Word32.toBytes frame.length ++ frame =
      framed (frames.length % 2 ^ 32) (frameBytes (frames ++ [frame])) := by
    simp [staged, framed, frameBytes]
  have hcount : (frames.length % 2 ^ 32 + 1) % 2 ^ 32 = (frames ++ [frame]).length % 2 ^ 32 := by
    rw [List.length_append, List.length_singleton]
    omega
  simp only [appendFrame, hstaging, storeU32_framed]
  simp only [staged, hcount]

/-- The rest of a message whose first frames are staged. -/
theorem sendMessage_staged {frames : List Bytes} (hne : frames ≠ []) (before : List Bytes) :
    sendMessage frames (staged before) = (new, [(staged (before ++ frames)).multipartStaging]) := by
  induction frames generalizing before with
  | nil => exact absurd rfl hne
  | cons frame frames ih =>
    cases frames with
    | nil =>
      simp only [sendMessage, send, appendFrame_staged]
      rfl
    | cons next frames =>
      have hsend : send frame .sndmore (staged before) = (staged (before ++ [frame]), none) := by
        show (appendFrame frame (staged before), none) = _
        rw [appendFrame_staged]
      rw [sendMessage, hsend]
      · simp only [ih (by simp) (before ++ [frame]), List.append_assoc]
        rfl
      · simp

/-- What a fresh socket sends for a message. -/
theorem sendMessage_new {frames : List Bytes} (hne : frames ≠ []) :
    sendMessage frames new = (new, [if frames.length = 1 then frames.flatten
      else framed (frames.length % 2 ^ 32) (frameBytes frames)]) := by
  match frames with
  | [frame] => simp [sendMessage, send, new]
  | frame :: next :: frames =>
    have hsend : send frame .sndmore new = (staged [frame], none) := by
      have hopened := appendFrame_staged frame []
      simp only [send, new]
      exact congrArg (fun s => (s, none)) hopened
    rw [sendMessage, hsend]
    · have hlen : (frame :: next :: frames).length ≠ 1 := by simp
      rw [if_neg hlen]
      simp only [sendMessage_staged (List.cons_ne_nil next frames) [frame]]
      rfl
    · simp

theorem sendMessages_new {messages : List (List Bytes)} (hne : ∀ m ∈ messages, m ≠ []) :
    sendMessages messages new = (new, messages.map fun frames => if frames.length = 1 then
      frames.flatten else framed (frames.length % 2 ^ 32) (frameBytes frames)) := by
  induction messages with
  | nil => rfl
  | cons frames messages ih =>
    rw [sendMessages, sendMessage_new (hne frames List.mem_cons_self)]
    simp only [ih fun m hm => hne m (List.mem_cons_of_mem frames hm)]
    rfl

end PushSocket

/-! ### What is read back -/

/-- One frame is cut where its length, as a word, says. -/
theorem readFrames_frame (numFrames : ℕ) (frame rest : Bytes) :
    readFrames (numFrames + 1) (Word32.toBytes frame.length ++ (frame ++ rest)) =
      (frame ++ rest).take (frame.length % 2 ^ 32) ::
        readFrames numFrames ((frame ++ rest).drop (frame.length % 2 ^ 32)) := by
  have hlen : ¬ (Word32.toBytes frame.length ++ (frame ++ rest)).length < 4 := by
    rw [List.length_append, Word32.length_toBytes]
    omega
  have hdrop : (Word32.toBytes frame.length ++ (frame ++ rest)).drop 4 = frame ++ rest := rfl
  have hroom : ¬ (frame ++ rest).length < frame.length % 2 ^ 32 := by
    have hmod := Nat.mod_le frame.length (2 ^ 32)
    rw [List.length_append]
    omega
  rw [readFrames, if_neg hlen]
  simp only [hdrop, Word32.ofBytes_toBytes, if_neg hroom]

/-- Frames shorter than `2 ^ 32` are read back, as many as are announced. -/
theorem readFrames_frameBytes {frames : List Bytes} (h : ∀ f ∈ frames, f.length < 2 ^ 32) (n : ℕ) :
    readFrames n (frameBytes frames) = frames.take n := by
  induction n generalizing frames with
  | zero => rfl
  | succ n ih =>
    cases frames with
    | nil => rfl
    | cons frame frames =>
      obtain ⟨hframe, hframes⟩ := List.forall_mem_cons.mp h
      have hbytes : frameBytes (frame :: frames) =
          Word32.toBytes frame.length ++ (frame ++ frameBytes frames) := by
        simp [frameBytes]
      rw [hbytes, readFrames_frame, Nat.mod_eq_of_lt hframe, List.take_left, List.drop_left,
        ih hframes, List.take_succ_cons]

/-- A frame that is read is shorter than what it is read from. -/
theorem length_of_mem_readFrames {n : ℕ} {p frame : Bytes} (h : frame ∈ readFrames n p) :
    frame.length + 4 ≤ p.length := by
  induction n generalizing p with
  | zero => simp [readFrames] at h
  | succ n ih =>
    unfold readFrames at h
    dsimp only at h
    split_ifs at h with hshort hlen
    · simp at h
    · simp at h
    · rw [List.mem_cons] at h
      rcases h with rfl | h
      · rw [List.length_take, List.length_drop] at *
        omega
      · have hrec := ih h
        rw [List.length_drop, List.length_drop] at hrec
        omega

theorem recvMultipart_framed (count : ℕ) (body : Bytes) :
    recvMultipart (framed count body) = readFrames (count % 2 ^ 32) body := by
  have hlen : ¬ (framed count body).length < 8 := by
    simp only [framed, List.length_append, Word32.length_toBytes]
    omega
  have hmagic : Word32.ofBytes (framed count body) = kMultipartMagic := by
    rw [framed, Word32.ofBytes_toBytes]
    decide
  have hcount : Word32.ofBytes ((framed count body).drop 4) = count % 2 ^ 32 :=
    Word32.ofBytes_toBytes count body
  rw [recvMultipart, if_neg hlen, if_neg (not_not_intro hmagic), hcount]
  rfl

/-- The bytes of a payload that is taken apart. -/
def LooksFramed (payload : Bytes) : Prop :=
  8 ≤ payload.length ∧ Word32.ofBytes payload = kMultipartMagic

instance (payload : Bytes) : Decidable (LooksFramed payload) := by
  unfold LooksFramed
  infer_instance

/-- A frame sent alone comes back unless it looks like a wrapped message. -/
theorem recvMultipart_single (frame : Bytes) :
    recvMultipart frame = [frame] ↔ ¬ LooksFramed frame := by
  unfold recvMultipart LooksFramed
  split_ifs with hlen hmagic
  · simp
    omega
  · simp
    exact fun _ => hmagic
  · have hne : readFrames (Word32.ofBytes (frame.drop 4)) (frame.drop 8) ≠ [frame] := by
      intro heq
      have hmem : frame ∈ readFrames (Word32.ofBytes (frame.drop 4)) (frame.drop 8) := by
        rw [heq]
        exact List.mem_singleton_self frame
      have hshort := length_of_mem_readFrames hmem
      rw [List.length_drop] at hshort
      omega
    rw [ne_eq, not_not] at hmagic
    simp only [hne, hmagic, and_true, false_iff, not_not]
    omega

/-! ### Round trips -/

/-- Successive receives return the messages that were sent. -/
def RoundTrips (messages : List (List Bytes)) : Prop :=
  (PushSocket.sendMessages messages .new).2.map recvMultipart = messages

instance (messages : List (List Bytes)) : Decidable (RoundTrips messages) := by
  unfold RoundTrips
  infer_instance

/-- The messages that are told apart from the others by their bytes and whose frames
can be counted. -/
def Framable (frames : List Bytes) : Prop :=
  (frames.length = 1 → ∀ frame ∈ frames, ¬ LooksFramed frame) ∧ frames.length < 2 ^ 32

theorem recv_message_iff {frames : List Bytes} (hne : frames ≠ [])
    (hlen : ∀ f ∈ frames, f.length < 2 ^ 32) :
    recvMultipart (if frames.length = 1 then frames.flatten
      else framed (frames.length % 2 ^ 32) (frameBytes frames)) = frames ↔ Framable frames := by
  unfold Framable
  by_cases hone : frames.length = 1
  · obtain ⟨frame, rfl⟩ := List.length_eq_one_iff.mp hone
    simp [recvMultipart_single]
  · have hpos : 0 < frames.length := List.length_pos_iff.mpr hne
    rw [if_neg hone, recvMultipart_framed, Nat.mod_mod, readFrames_frameBytes hlen,
      List.take_eq_self_iff]
    have hmod := Nat.mod_lt frames.length (show 0 < 2 ^ 32 by decide)
    constructor
    · exact fun h => ⟨fun h => absurd h hone, lt_of_le_of_lt h hmod⟩
    · exact fun h => (Nat.mod_eq_of_lt h.2).ge

/-- Messages round trip exactly when none of them is a lone frame that looks like a
wrapped message, and none has `2 ^ 32` frames. -/
theorem roundTrips_iff (messages : List (List Bytes)) (hne : ∀ frames ∈ messages, frames ≠ [])
    (hlen : ∀ frames ∈ messages, ∀ frame ∈ frames, frame.length < 2 ^ 32) :
    RoundTrips messages ↔ ∀ frames ∈ messages, Framable frames := by
  rw [RoundTrips, PushSocket.sendMessages_new hne, List.map_map]
  induction messages with
  | nil => simp
  | cons frames messages ih =>
    obtain ⟨hf, hms⟩ := List.forall_mem_cons.mp hne
    obtain ⟨hlf, hlms⟩ := List.forall_mem_cons.mp hlen
    rw [List.map_cons, List.cons.injEq, ih hms hlms, List.forall_mem_cons]
    exact and_congr_left fun _ => recv_message_iff hf hlf

/-- Two messages, one of two frames. -/
theorem roundTrips_two :
    RoundTrips [[[1], []], [[0x55]]] ↔ ∀ frames ∈ [[[1], []], [[(0x55 : UInt8)]]], Framable frames :=
  roundTrips_iff [[[1], []], [[0x55]]] (by decide) (by decide)

/-- A lone frame that starts with the magic number comes back as no frame at all. -/
theorem magic_frame_lost : ¬ RoundTrips [[[0x55, 0x43, 0x58, 0x51, 0, 0, 0, 0]]] := by
  decide

end StreamInfer.Ucxq
