import StreamInfer.General.Word32
import StreamInfer.Nixl.PeerState

/-! Polling for notifs, after `nixl_context.cpp`. A poll reads its notifs one by one,
keeps the arrivals and the credits in variables of its own, and publishes both after
the last notif. The metadata are decoded by a library, which may throw. -/

namespace StreamInfer.Nixl

open General

variable {M : Type}

/-! ### Reading a notif -/

structure NixlNotifHeader where
  type : UInt8
  seq : ℕ
  slotId : ℕ
  metaLen : ℕ
  deriving DecidableEq

namespace NixlNotifHeader

/-- A field of 32 bits, the least significant byte first. -/
def field (data : List UInt8) (offset : ℕ) : ℕ :=
  Word32.ofBytes ((data.drop offset).take 4).reverse

def ofBytes (data : List UInt8) : NixlNotifHeader :=
  ⟨data.headD 0, field data 4, field data 8, field data 12⟩

end NixlNotifHeader

/-- `NIXL_NOTIF_DATA`, a letter D. -/
def nixlNotifData : UInt8 := 68

/-- `NIXL_NOTIF_CREDIT`, a letter C. -/
def nixlNotifCredit : UInt8 := 67

/-- What the checks of the header leave of a notif. A slot that is negative as an int is
kept as the unsigned number, which is out of range as well. -/
inductive Notif where
  | ignored
  | credit (slotId : ℕ) (seq : ℤ)
  | data (slotId : ℕ) (seq : ℤ) (blob : List UInt8)
  deriving DecidableEq

def Notif.ofBytes (data : List UInt8) : Notif :=
  if data.length < 16 then .ignored
  else
    let hdr := NixlNotifHeader.ofBytes data
    if hdr.type = nixlNotifCredit then .credit hdr.slotId (toInt hdr.seq)
    else if hdr.type = nixlNotifData then
      if data.length < 16 + hdr.metaLen then .ignored
      else .data hdr.slotId (toInt hdr.seq) ((data.drop 16).take hdr.metaLen)
    else .ignored

/-- `std::stoi`, without a value where it throws. -/
def stoi (s : List Char) : Option ℤ :=
  let s := s.dropWhile fun c => c = ' ' ∨ 9 ≤ c.toNat ∧ c.toNat ≤ 13
  let unsigned := if s.head? = some '-' ∨ s.head? = some '+' then s.tail else s
  let digits := unsigned.takeWhile Char.isDigit
  let magnitude : ℕ := digits.foldl (fun n c => n * 10 + (c.toNat - 48)) 0
  let value : ℤ := if s.head? = some '-' then -magnitude else magnitude
  if digits = [] ∨ value < -2147483648 ∨ 2147483647 < value then none else some value

def parseAgentRank (agentName : String) : ℤ :=
  if "rank_".toList.isPrefixOf agentName.toList then (stoi (agentName.toList.drop 5)).getD (-1)
  else -1

/-! ### A poll -/

/-- An arrival; its `meta` is absent where the notif carries none. -/
structure NixlMetaArrival (M : Type) where
  peerId : ℤ
  seq : ℤ
  slotId : ℕ
  metadata : Option M
  deriving DecidableEq

structure NixlContext (M : Type) where
  peers : ℤ → Option PeerState
  pendingArrivals : List (NixlMetaArrival M)
  arrivalCount : ℕ

namespace NixlContext

def setPeer (peerId : ℤ) (p : PeerState) (c : NixlContext M) : NixlContext M :=
  { c with peers := Function.update c.peers peerId (some p) }

def peerState (peerId : ℤ) : EStateM Fault (NixlContext M) PeerState := do
  match (← get).peers peerId with
  | some p => pure p
  | none => throw (.assertion "Unknown NIXL peer id")

def acceptDataNotif (peerId : ℤ) (slotId : ℕ) (seq : ℤ) : EStateM Fault (NixlContext M) Bool := do
  let p ← peerState peerId
  modify (setPeer peerId (p.acceptDataNotif slotId seq).2)
  return (p.acceptDataNotif slotId seq).1

def onRecvCredit (peerId : ℤ) (slotId : ℕ) (seq : ℤ) : EStateM Fault (NixlContext M) PUnit := do
  let p ← peerState peerId
  modify (setPeer peerId (p.onRecvCredit slotId seq))

end NixlContext

/-- The variables `new_arrivals` and `credit_returns` of a poll. -/
structure Poll (M : Type) where
  newArrivals : List (NixlMetaArrival M) := []
  creditReturns : List (ℤ × ℕ × ℤ) := []

section

variable (decode : List UInt8 → Option M)

/-- The metadata of a blob that is not empty. -/
def decerealize (blob : List UInt8) : EStateM Fault (NixlContext M) (Option M) :=
  if blob = [] then pure none
  else
    match decode blob with
    | some metadata => pure (some metadata)
    | none => throw (.assertion "decerealize_")

/-- A pass of the inner loop. -/
def pollNotif (senderId : ℤ) (v : Poll M) (data : List UInt8) :
    EStateM Fault (NixlContext M) (Poll M) :=
  match Notif.ofBytes data with
  | .ignored => pure v
  | .credit slotId seq =>
    pure { v with creditReturns := v.creditReturns ++ [(senderId, slotId, seq)] }
  | .data slotId seq blob => do
    if ← NixlContext.acceptDataNotif senderId slotId seq then
      let metadata ← decerealize decode blob
      pure { v with newArrivals := v.newArrivals ++ [⟨senderId, seq, slotId, metadata⟩] }
    else pure v

/-- The end of a poll, after the notif map is destroyed. -/
def publish (v : Poll M) : EStateM Fault (NixlContext M) PUnit := do
  modify fun c => { c with
    pendingArrivals := c.pendingArrivals ++ v.newArrivals
    arrivalCount := c.arrivalCount + v.newArrivals.length }
  forM v.creditReturns fun cr => NixlContext.onRecvCredit cr.1 cr.2.1 cr.2.2

/-- A poll that fetches the notifs of some agents. -/
def pollNotifs (agents : List (String × List (List UInt8))) :
    EStateM Fault (NixlContext M) PUnit := do
  let v ← agents.foldlM (fun v agent =>
    let senderId := parseAgentRank agent.1
    if senderId < 0 then pure v else agent.2.foldlM (pollNotif decode senderId) v) {}
  publish v

end

/-! ### Each notif by itself -/

/-- The notifs of a poll whose senders are ranks, each with its sender. -/
def received (agents : List (String × List (List UInt8))) : List (ℤ × List UInt8) :=
  agents.flatMap fun agent =>
    if parseAgentRank agent.1 < 0 then [] else agent.2.map (parseAgentRank agent.1, ·)

/-- What a notif says. A malformed one is too short, truncated, of an unknown type, for a
slot out of range, or has a blob that does not decode. -/
inductive Reading (M : Type) where
  | malformed
  | credit (slotId : ℕ) (seq : ℤ)
  | arrival (slotId : ℕ) (seq : ℤ) (metadata : Option M)

def Reading.ofBytes (decode : List UInt8 → Option M) (data : List UInt8) : Reading M :=
  match Notif.ofBytes data with
  | .ignored => .malformed
  | .credit slotId seq => if slotId < recvRingSize then .credit slotId seq else .malformed
  | .data slotId seq blob =>
    if slotId < recvRingSize then
      if blob = [] then .arrival slotId seq none
      else
        match decode blob with
        | some metadata => .arrival slotId seq (some metadata)
        | none => .malformed
    else .malformed

namespace NixlContext

/-- Apply a credit. -/
def credited (peerId : ℤ) (slotId : ℕ) (seq : ℤ) (c : NixlContext M) : NixlContext M :=
  match c.peers peerId with
  | some p => c.setPeer peerId (p.onRecvCredit slotId seq)
  | none => c

/-- Take in a data notif, once where it arrives for the first time. -/
def arrived (peerId : ℤ) (slotId : ℕ) (seq : ℤ) (metadata : Option M) (c : NixlContext M) :
    NixlContext M :=
  match c.peers peerId with
  | some p =>
    if (p.acceptDataNotif slotId seq).1 then
      { peers := Function.update c.peers peerId (some (p.acceptDataNotif slotId seq).2)
        pendingArrivals := c.pendingArrivals ++ [⟨peerId, seq, slotId, metadata⟩]
        arrivalCount := c.arrivalCount + 1 }
    else c
  | none => c

/-- A notif by itself. -/
def handle (decode : List UInt8 → Option M) (c : NixlContext M) (notif : ℤ × List UInt8) :
    NixlContext M :=
  match Reading.ofBytes decode notif.2 with
  | .malformed => c
  | .credit slotId seq => c.credited notif.1 slotId seq
  | .arrival slotId seq metadata => c.arrived notif.1 slotId seq metadata

end NixlContext

/-- The numbers that the data notifs of a list name for a slot of a peer. -/
def named (peerId : ℤ) (slotId : ℕ) (notifs : List (ℤ × List UInt8)) : List ℤ :=
  notifs.filterMap fun notif =>
    match Notif.ofBytes notif.2 with
    | .data slot seq _ => if notif.1 = peerId ∧ slot = slotId then some seq else none
    | _ => none

/-- The number in flight for a slot after it was named some numbers: the last of them
that is not completed. -/
def SlotState.latest (st : SlotState) (numbers : List ℤ) : ℤ :=
  (numbers.filter (st.completedRecvSeq < ·)).getLast?.getD st.inflightRecvSeq

/-- A blob that does not decode arrives for the first time, after some notifs of the poll. -/
def Rejected (decode : List UInt8 → Option M) (c : NixlContext M)
    (earlier : List (ℤ × List UInt8)) (notif : ℤ × List UInt8) : Prop :=
  ∃ slotId seq blob p st, Notif.ofBytes notif.2 = .data slotId seq blob ∧ blob ≠ [] ∧
    decode blob = none ∧ slotId < recvRingSize ∧ c.peers notif.1 = some p ∧
    p.slotState[slotId]? = some st ∧ st.completedRecvSeq < seq ∧
    st.latest (named notif.1 slotId earlier) ≠ seq

end StreamInfer.Nixl
