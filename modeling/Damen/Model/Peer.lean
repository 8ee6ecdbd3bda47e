import Damen.Framework.Drain
import Damen.Model.Wire

/-!
# The state kept for a peer

`tight/src/peer.hpp`: the record the reassembler, the report builder, the command channel and the
transport share for one remote end, with the two helpers defined beside it.

`std::map` and `std::set` are the ordered `Std.ExtTreeMap` and `Std.ExtTreeSet`.  A
`steady_clock::time_point` is a number of nanoseconds, and a clock reading is an argument of the
functions that take one.  The fields that only rate-limit or switch log lines are left out.
-/

namespace Damen

open Std

/-- A `steady_clock::time_point`, in nanoseconds. -/
abbrev TimePoint := Int

/-- What the clocks show while a function runs. -/
structure Clock where
  /-- `steady_clock::now()`. -/
  now : TimePoint
  /-- `unix_millis()`. -/
  unixMillis : UInt64

/-- `duration_cast<microseconds>`, which rounds towards zero. -/
def toMicros (d : Int) : Int := d.tdiv 1000

inductive LinkRole
  | node
  | leaf
  deriving DecidableEq

inductive LinkState
  | closed
  | handshake
  | established
  | online
  deriving DecidableEq

structure PendingSend where
  header : PacketHeader := {}
  payload : Bytes := []
  lastSend : TimePoint := 0
  bytes : ℕ := 0
  retries : UInt32 := 0

/-- The fragments of a message that is still being collected. -/
structure IncomingMessage where
  messageId : UInt32 := 0
  totalCount : UInt16 := 0
  dataCount : UInt16 := 0
  fragments : List (Option Bytes) := []
  sizes : List UInt16 := []
  firstSeen : TimePoint := 0

/-- `AddrKey`: the address and port a datagram came from. -/
structure AddrKey where
  addr : UInt32
  port : UInt16
  deriving DecidableEq

structure Peer where
  id : Bytes := []
  addr : AddrKey := ⟨0, 0⟩
  addrSet : Bool := false
  role : LinkRole := .leaf
  state : LinkState := .closed
  peerClientId : UInt32 := 0
  peerSessionId : UInt64 := 0
  lastRecv : TimePoint := 0
  lastHeartbeatSent : TimePoint := 0
  lastHandshakeSent : TimePoint := 0
  lastReportSent : TimePoint := 0
  sequenceOut : UInt32 := 1
  msgIdOut : UInt32 := 1
  pending : ExtTreeMap UInt32 PendingSend := ∅
  incoming : ExtTreeMap UInt32 IncomingMessage := ∅
  completed : ExtTreeMap UInt32 TimePoint := ∅
  missingSeqs : ExtTreeMap UInt32 TimePoint := ∅
  recvSeqs : ExtTreeSet UInt32 := ∅
  nextExpectedSeq : UInt32 := 0
  seqInitialized : Bool := false
  senderRttUs : UInt32 := 0
  reconnect : Bool := false
  clockOffsetUs : Int := 0
  clockSynced : Bool := false
  clockPending : Bool := false
  hsTick : UInt32 := 0
  hsArrivalMs : UInt64 := 0
  transitSamples : UInt64 := 0
  lateSamples : UInt64 := 0
  peerLateRatio : Float := 0.0
  probeFirst : TimePoint := 0
  probeLast : TimePoint := 0
  probeBytes : UInt64 := 0
  probeCount : UInt32 := 0
  probeBwBps : UInt64 := 0
  cmdSeqOut : UInt32 := 1
  cmdNextExpected : UInt32 := 0
  cmdInitialized : Bool := false
  cmdHeld : ExtTreeMap UInt32 Bytes := ∅
  cmdGapSince : TimePoint := 0
  cryptoReady : Bool := false
  cryptoKey : Bytes := List.replicate 32 0
  retransmit : Bool := true
  peerRetransmit : Bool := true

/-- `kProbeTrainGap`, 20 ms. -/
def kProbeTrainGap : Int := 20 * 1000000

/-- Closes the current probe train once no probe arrived for `kProbeTrainGap`. -/
def finalizeProbeTrain (peer : Peer) (now : TimePoint) : Peer :=
  if peer.probeCount = 0 then peer
  else if now - peer.probeLast ≤ kProbeTrainGap then peer
  else
    let spanUs := toMicros (peer.probeLast - peer.probeFirst)
    let bw := if 2 ≤ peer.probeCount ∧ 0 < spanUs then
        (peer.probeBytes.toFloat * 1000000.0 / Float.ofInt spanUs).toUInt64
      else peer.probeBwBps
    { peer with probeBwBps := bw, probeCount := 0, probeBytes := 0 }

/-- The one-way transit time of a packet in microseconds, `-1` while the clocks are not synced. -/
def transitTimeUs (peer : Peer) (tick : UInt32) (arrivalMs : UInt64) : Int :=
  if ¬ peer.clockSynced ∨ tick = 0 then -1
  else
    let t := (arrivalMs.toUInt32 - tick).toInt32.toInt * 1000 + peer.clockOffsetUs
    if 0 ≤ t then t else 0

/-- `while (recv.count(next)) { recv.erase(next); ++next; }`. -/
def advance (recv : ExtTreeSet UInt32) (next : UInt32) : ExtTreeSet UInt32 × UInt32 :=
  Drain.drain (· + 1) recv.size recv next

end Damen
