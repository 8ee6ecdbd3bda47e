import Damen.Model.Fec
import Damen.Model.Peer

/-!
# Reassembly of fragmented messages

`tight/src/reassembler.cpp`.  `handleData` tracks the packet's sequence number, files the fragment
under its message and tries to assemble the message, with erasure decoding when data fragments are
missing.

Vector accesses that the source does not check are checked here, and a violation is a `Fault`:
an index past the end, an empty `optional` that is dereferenced, or the subtraction
`m_total_count - data_count` wrapping around.  Log lines are left out.
-/

namespace Damen

open Std

/-- An access of `try_assemble` that has no defined result. -/
inductive Fault
  /-- `m_fragments[i]` past the end. -/
  | fragmentIndex
  /-- `m_sizes[i]` past the end. -/
  | sizeIndex
  /-- `*m_fragments[i]` without a value. -/
  | emptyFragment
  /-- `m_total_count - data_count` below zero. -/
  | countUnderflow
  deriving DecidableEq

namespace IncomingMessage

/-- `m_fragments[i]`. -/
def fragmentAt (slot : IncomingMessage) (i : ℕ) : Except Fault (Option Bytes) :=
  if i < slot.fragments.length then .ok (slot.fragments.getD i none) else .error .fragmentIndex

/-- The part of fragment `i` that belongs to the stream:
`min(m_sizes[i], m_fragments[i]->size())` bytes of it. -/
def piece (slot : IncomingMessage) (i : ℕ) : Except Fault Bytes :=
  if i < slot.sizes.length then
    match slot.fragmentAt i with
    | .error e => .error e
    | .ok none => .error .emptyFragment
    | .ok (some f) => .ok (f.take (min (slot.sizes.getD i 0).toNat f.length))
  else .error .sizeIndex

end IncomingMessage

namespace Reassembler

/-! ## Sequence tracking -/

/-- Records every sequence from `next` up to `seq` that has not arrived as missing. -/
def noteGaps (missing : ExtTreeMap UInt32 TimePoint) (recv : ExtTreeSet UInt32) (next seq : UInt32)
    (now : TimePoint) : ExtTreeMap UInt32 TimePoint :=
  (List.range' next.toNat (seq.toNat - next.toNat)).foldl
    (fun m g => if UInt32.ofNat g ∈ recv then m else m.insertIfNew (UInt32.ofNat g) now) missing

/-- The gap tracking of `handle_data`; sequence `0` marks an unnumbered packet. -/
def trackSequence (peer : Peer) (seq : UInt32) (now : TimePoint) : Peer :=
  if seq = 0 then peer
  else if ¬ peer.seqInitialized then
    { peer with nextExpectedSeq := seq + 1, seqInitialized := true }
  else if peer.nextExpectedSeq ≤ seq then
    let missing := noteGaps peer.missingSeqs peer.recvSeqs peer.nextExpectedSeq seq now
    let (recv, next) := advance (peer.recvSeqs.insert seq) peer.nextExpectedSeq
    { peer with missingSeqs := missing, recvSeqs := recv, nextExpectedSeq := next }
  else
    let (recv, next) := advance peer.recvSeqs peer.nextExpectedSeq
    { peer with missingSeqs := peer.missingSeqs.erase seq, recvSeqs := recv
                nextExpectedSeq := next }

/-- The late-packet accounting of `handle_data`. -/
def accountTransit (peer : Peer) (transitUs : Int) (rttUs : UInt32) (lateMultiplier : Float) :
    Peer :=
  if transitUs < 0 then peer
  else
    let thresholdUs :=
      (lateMultiplier * (if 0 < rttUs then rttUs else 10000).toFloat).toUInt64
    { peer with
      transitSamples := peer.transitSamples + 1
      lateSamples := if thresholdUs < UInt64.ofNat transitUs.toNat then peer.lateSamples + 1
        else peer.lateSamples }

/-! ## Building the message -/

/-- Copies up to `need` leading bytes of the stream into the length prefix. -/
def readPrefix : List Bytes → ℕ → Bytes
  | [], _ => []
  | p :: ps, need =>
      if need = 0 then []
      else
        let take := min p.length need
        p.take take ++ readPrefix ps (need - take)

/-- Copies up to `room` bytes of the stream behind the first `skip` ones. -/
def copyBody : List Bytes → (skip room : ℕ) → Bytes
  | [], _, _ => []
  | p :: ps, skip, room =>
      if room = 0 then []
      else if p.length ≤ skip then copyBody ps (skip - p.length) room
      else
        let n := min (p.length - skip) room
        (p.drop skip).take n ++ copyBody ps 0 (room - n)

/-- `build_msg` on the pieces of the data fragments. -/
def messageOf (pieces : List Bytes) (maxMessageBytes : ℕ) : Bytes :=
  let streamLen := (pieces.map List.length).sum
  if streamLen < 4 then []
  else
    let total := (get32 (readPrefix pieces 4) 0).toNat
    if maxMessageBytes < total then []
    else
      let total := if streamLen - 4 < total then streamLen - 4 else total
      let body := copyBody pieces 4 total
      body ++ List.replicate (total - body.length) 0

def buildMsg (slot : IncomingMessage) (dataCount maxMessageBytes : ℕ) : Except Fault Bytes :=
  match (List.range dataCount).mapM slot.piece with
  | .error e => .error e
  | .ok pieces => .ok (messageOf pieces maxMessageBytes)

/-! ## Assembling -/

/-- `if (f.has_value()) width = std::max(width, f->size());`. -/
def widen (width : ℕ) : Option Bytes → ℕ
  | some f => max width f.length
  | none => width

/-- The largest fragment received. -/
def fragmentWidth (fragments : List (Option Bytes)) : ℕ := fragments.foldl widen 0

/-- The parity fragments received, each with its number. -/
def receivedParities (fragments : List (Option Bytes)) (dataCount parityCount : ℕ) :
    List (ℕ × Bytes) :=
  (List.range parityCount).filterMap fun p =>
    (fragments.getD (dataCount + p) none).map fun b => (p, b)

/-- Puts the recovered data fragments into the slot, at full width. -/
def restore (slot : IncomingMessage) (dataFrags : List (Option Bytes)) (dataCount width : ℕ) :
    IncomingMessage :=
  let recovered (i : ℕ) (f : Option Bytes) : Bool :=
    decide (i < dataCount) && f.isNone && (dataFrags.getD i none).isSome
  { slot with
    fragments := slot.fragments.mapIdx fun i f =>
      if recovered i f then dataFrags.getD i none else f
    sizes := slot.sizes.mapIdx fun i n =>
      if recovered i (slot.fragments.getD i none) then UInt16.ofNat width else n }

/-- The branch of `try_assemble` with data fragments missing. -/
def recover (slot : IncomingMessage) (dataFrags : List (Option Bytes))
    (dataCount parityCount maxMessageBytes : ℕ) : Except Fault (Option Bytes) :=
  let multi := (dataFrags.filter Option.isNone).length
  let width := fragmentWidth slot.fragments
  let parities := receivedParities slot.fragments dataCount parityCount
  if parityCount < multi then .ok none
  else if multi = 0 then .ok none
  else if width = 0 then .ok none
  else if parities.length < multi then .ok none
  else
    match ReedSolomon.decode dataFrags parities width with
    | none => .ok none
    | some dataFrags' =>
        (buildMsg (restore slot dataFrags' dataCount width) dataCount maxMessageBytes).map some

/-- The number of data fragments a slot expects; a sender that declares none has one parity. -/
def effectiveDataCount (slot : IncomingMessage) : ℕ :=
  if 0 < slot.dataCount then slot.dataCount.toNat else slot.totalCount.toNat - 1

/-- `try_assemble`: the message handed to `deliver`, or `none` when it returns `false`. -/
def tryAssemble (slot : IncomingMessage) (maxMessageBytes : ℕ) : Except Fault (Option Bytes) :=
  if slot.totalCount < 2 then .ok none
  else
    let dataCount := effectiveDataCount slot
    if slot.totalCount.toNat < dataCount then .error .countUnderflow
    else
      let parityCount := slot.totalCount.toNat - dataCount
      match (List.range dataCount).mapM slot.fragmentAt with
      | .error e => .error e
      | .ok dataFrags =>
          if (dataFrags.filter Option.isSome).length = dataCount then
            (buildMsg slot dataCount maxMessageBytes).map some
          else recover slot dataFrags dataCount parityCount maxMessageBytes

/-! ## Receiving a fragment -/

/-- The slot a first fragment opens. -/
def openSlot (header : PacketHeader) (now : TimePoint) : IncomingMessage where
  messageId := header.messageId
  totalCount := header.fragmentCount
  dataCount := header.flags
  fragments := List.replicate header.fragmentCount.toNat none
  sizes := List.replicate header.fragmentCount.toNat 0
  firstSeen := now

/-- `m_incoming[message_id]`, initialised when its `m_message_id` is still `0`. -/
def slotFor (peer : Peer) (header : PacketHeader) (now : TimePoint) : IncomingMessage :=
  let slot := peer.incoming.getD header.messageId {}
  if slot.messageId = 0 then openSlot header now else slot

/-- Files the fragment unless its place is taken. -/
def storeFragment (slot : IncomingMessage) (header : PacketHeader) (payload : Bytes) :
    IncomingMessage :=
  let idx := header.fragmentIndex.toNat
  if (slot.fragments.getD idx none).isSome then slot
  else { slot with
    fragments := slot.fragments.set idx (some payload)
    sizes := slot.sizes.set idx header.reserved }

/-- The checks a fragment passes before a slot is touched. -/
def Admitted (peer : Peer) (header : PacketHeader) (maxMessageBytes : ℕ) : Prop :=
  header.fragmentCount ≠ 0 ∧ header.messageId ∉ peer.completed ∧
    header.fragmentIndex < header.fragmentCount ∧
    header.fragmentCount.toNat ≤ maxMessageBytes / 64 + 8

instance (peer : Peer) (header : PacketHeader) (maxMessageBytes : ℕ) :
    Decidable (Admitted peer header maxMessageBytes) :=
  inferInstanceAs (Decidable (_ ∧ _ ∧ _ ∧ _))

/-- The fragment part of `handle_data`. -/
def collect (peer : Peer) (header : PacketHeader) (payload : Bytes) (maxMessageBytes : ℕ)
    (now : TimePoint) : Except Fault (Peer × Option Bytes) :=
  if ¬ Admitted peer header maxMessageBytes then .ok (peer, none)
  else
    let slot := slotFor peer header now
    if slot.totalCount ≠ header.fragmentCount ∨
        slot.fragments.length ≤ header.fragmentIndex.toNat then
      .ok ({ peer with incoming := peer.incoming.insert header.messageId slot }, none)
    else
      let slot := storeFragment slot header payload
      match tryAssemble slot maxMessageBytes with
      | .error e => .error e
      | .ok none =>
          .ok ({ peer with incoming := peer.incoming.insert header.messageId slot }, none)
      | .ok (some message) =>
          .ok ({ peer with
            completed := peer.completed.insert header.messageId now
            incoming := peer.incoming.erase header.messageId }, some message)

/-- One call of `handle_data`, as far as it changes from call to call. -/
structure Arrival where
  header : PacketHeader
  payload : Bytes
  rttUs : UInt32 := 0
  clock : Clock := ⟨0, 0⟩

/-- `Reassembler::handle_data`; the output is the message passed to `deliver`, if any. -/
def handleData (peer : Peer) (header : PacketHeader) (payload : Bytes) (rttUs : UInt32)
    (lateMultiplier : Float) (maxMessageBytes : ℕ) (clock : Clock) :
    Except Fault (Peer × Option Bytes) :=
  let transitUs := transitTimeUs peer header.tick clock.unixMillis
  let peer := accountTransit peer transitUs rttUs lateMultiplier
  let peer := trackSequence peer header.sequence clock.now
  collect peer header payload maxMessageBytes clock.now

/-- `handleData` as a step on the peer. -/
def receive (lateMultiplier : Float) (maxMessageBytes : ℕ) (peer : Peer) (a : Arrival) :
    Except Fault (Peer × Option Bytes) :=
  handleData peer a.header a.payload a.rttUs lateMultiplier maxMessageBytes a.clock

end Reassembler

end Damen
