import Damen.Model.Peer

/-!
# Loss reports

`tight/src/report.cpp`.  `buildPayload` goes over the sequences that are missing, lists the ones
that are late, lets the cursor skip them and encodes the report; `handle` parses a report, drops
what it acknowledges from the retransmission buffer and resends what it lists.

Wire layout of a report: the ack cursor (4 bytes), the late ratio (2), the number of lost sequences
(2), four reserved bytes, the lost sequences (4 each) and the measured bandwidth (4).
-/

namespace Damen

open Std (ExtTreeMap ExtTreeSet)

namespace Report

def kMaxRetries : UInt32 := 10

/-! ## Building a report -/

/-- The age in microseconds from which a missing sequence is reported; the product wraps. -/
def lossThreshold (peer : Peer) : UInt32 :=
  let rttThreshold := if 0 < peer.senderRttUs then peer.senderRttUs else 10000
  if rttThreshold < 10000 then 100000 else rttThreshold * 7 / 2

/-- The age in microseconds from which a missing sequence is given up.  The report interval is in
milliseconds. -/
def giveUpUs (reportInterval : Int) : Int := reportInterval * (kMaxRetries.toNat + 2) * 1000

/-- `skip_gap`: moves the cursor over `g` and over what was received behind it. -/
def skipGap (peer : Peer) (g : UInt32) : Peer :=
  if peer.seqInitialized ∧ g = peer.nextExpectedSeq then
    let (recv, next) := advance peer.recvSeqs (peer.nextExpectedSeq + 1)
    { peer with recvSeqs := recv, nextExpectedSeq := next }
  else peer

/-- One round of the loop over the missing sequences: the peer and the sequences to list. -/
def scanEntry (reportInterval : Int) (now : TimePoint) (s : Peer × List UInt32)
    (entry : UInt32 × TimePoint) : Peer × List UInt32 :=
  let (peer, lost) := s
  let elapsedUs := toMicros (now - entry.2)
  if ¬ peer.retransmit ∨ ¬ peer.peerRetransmit then
    ({ skipGap peer entry.1 with missingSeqs := peer.missingSeqs.erase entry.1 }, lost)
  else if giveUpUs reportInterval < elapsedUs then
    ({ peer with missingSeqs := peer.missingSeqs.erase entry.1 }, lost)
  else if ((lossThreshold peer).toNat : Int) < elapsedUs then
    (skipGap peer entry.1, lost ++ [entry.1])
  else (peer, lost)

/-- The loop over the missing sequences, in increasing order. -/
def scanMissing (reportInterval : Int) (now : TimePoint) (peer : Peer) : Peer × List UInt32 :=
  peer.missingSeqs.toList.foldl (scanEntry reportInterval now) (peer, [])

/-- Drops the smallest missing sequences down to 4096. -/
def capMissing (missing : ExtTreeMap UInt32 TimePoint) : ExtTreeMap UInt32 TimePoint :=
  (missing.toList.take (missing.size - 4096)).foldl (fun m e => m.erase e.1) missing

/-- The late ratio of the interval in hundredths of a percent. -/
def ratioVal (peer : Peer) : UInt16 :=
  let lateRatio := if 0 < peer.transitSamples then
      peer.lateSamples.toFloat / peer.transitSamples.toFloat
    else 0.0
  (lateRatio * 10000.0).toUInt16

/-- The sequence the cursor acknowledges. -/
def ackSeq (peer : Peer) : UInt32 :=
  if peer.seqInitialized then
    if 0 < peer.nextExpectedSeq then peer.nextExpectedSeq - 1 else 0
  else 0

/-- The number of lost sequences that are encoded; the count is cut to 16 bits before the cap. -/
def lostCount (lost : List UInt32) : UInt16 :=
  let count := UInt16.ofNat lost.length
  if 256 < count then 256 else count

/-- The bytes of a report. -/
def encodePayload (ack : UInt32) (ratio : UInt16) (lost : List UInt32) (probeBw : UInt64) : Bytes :=
  put32 ack ++ put16 ratio ++ put16 (lostCount lost) ++ storeLe32 0
    ++ ((lost.take (lostCount lost).toNat).map put32).flatten ++ put32 probeBw.toUInt32

/-- `Report::build_payload`. -/
def buildPayload (peer : Peer) (reportInterval : Int) (now : TimePoint) : Peer × Bytes :=
  let (peer, lost) := scanMissing reportInterval now peer
  let peer := { peer with missingSeqs := capMissing peer.missingSeqs }
  let ratio := ratioVal peer
  let ack := ackSeq peer
  let peer := finalizeProbeTrain { peer with transitSamples := 0, lateSamples := 0 } now
  ({ peer with probeBwBps := 0 }, encodePayload ack ratio lost peer.probeBwBps)

/-! ## Handling a report -/

/-- The `lost_count` sequences behind the fixed part of a report. -/
def parseLost (payload : Bytes) (count : ℕ) : List UInt32 :=
  (List.range count).map fun i => get32 payload (12 + i * 4)

/-- The lost sequences a report lists, when it is long enough for the number it gives. -/
def listedLost (payload : Bytes) : List UInt32 :=
  if payload.length < 12 then []
  else if payload.length < 12 + (get16 payload 6).toNat * 4 then []
  else parseLost payload (get16 payload 6).toNat

/-- The pending packets to send again. -/
def resendable (pending : ExtTreeMap UInt32 PendingSend) (lost : List UInt32) :
    List (UInt32 × PendingSend) :=
  pending.toList.filter fun e => decide (e.1 ∈ lost ∧ e.2.retries < kMaxRetries)

/-- Drops acknowledged packets and packets that were resent often enough. -/
def prunePending (pending : ExtTreeMap UInt32 PendingSend) (ack : UInt32) (lost : List UInt32) :
    ExtTreeMap UInt32 PendingSend :=
  pending.toList.foldl (fun m e =>
    if (e.1 ≤ ack ∧ e.1 ∉ lost) ∨ kMaxRetries ≤ e.2.retries then m.erase e.1 else m) pending

/-- Notes that a packet was sent again. -/
def noteResent (now : TimePoint) (pending : ExtTreeMap UInt32 PendingSend)
    (e : UInt32 × PendingSend) : ExtTreeMap UInt32 PendingSend :=
  match pending[e.1]? with
  | some ps =>
      if ps.retries < kMaxRetries then
        pending.insert e.1 { ps with lastSend := now, retries := ps.retries + 1 }
      else pending
  | none => pending

/-- `Report::handle`: the peer, the bandwidth measured by the other end and the packets that are
resent. -/
def handle (peer : Peer) (payload : Bytes) (now : TimePoint) :
    Peer × UInt64 × List (PacketHeader × Bytes) :=
  if payload.length < 12 then (peer, 0, [])
  else
    let ack := get32 payload 0
    let lateRatioRaw := get16 payload 4
    let count := (get16 payload 6).toNat
    let expected := 12 + count * 4
    if payload.length < expected then (peer, 0, [])
    else
      let probeBw := if expected + 4 ≤ payload.length then (get32 payload expected).toUInt64 else 0
      let p := lateRatioRaw.toFloat / 10000.0
      let p := if p < 0.0 then 0.0 else p
      let p := if 1.0 < p then 1.0 else p
      let lost := parseLost payload count
      let snapshot := resendable peer.pending lost
      let pending := snapshot.foldl (noteResent now) (prunePending peer.pending ack lost)
      ({ peer with peerLateRatio := p, pending }, probeBw,
        snapshot.map fun e => (e.2.header, e.2.payload))

end Report

end Damen
