import Damen.Model.Peer

/-!
# The command channel

`tight/src/command.cpp`: ordered delivery of single-datagram commands.  A command that arrives
early is held for at most three round trips; then the gap is skipped and what is held behind it is
delivered.
-/

namespace Damen

open Std (ExtTreeMap)

namespace CommandChannel

def kMaxWaitRtt : UInt32 := 3

/-- Takes the commands that follow the cursor out of the held ones.  Every round removes one, so
the number of held commands bounds the rounds. -/
def drainHeld : ℕ → ExtTreeMap UInt32 Bytes → UInt32 →
    ExtTreeMap UInt32 Bytes × UInt32 × List Bytes
  | 0, held, next => (held, next, [])
  | fuel + 1, held, next =>
      match held[next]? with
      | none => (held, next, [])
      | some payload =>
          let (held, next, out) := drainHeld fuel (held.erase next) (next + 1)
          (held, next, payload :: out)

def drainLocked (peer : Peer) : Peer × List Bytes :=
  let (held, next, out) := drainHeld peer.cmdHeld.size peer.cmdHeld peer.cmdNextExpected
  ({ peer with cmdHeld := held, cmdNextExpected := next }, out)

/-- The time a gap may stay open, in nanoseconds. -/
def maxWait (rttUs : UInt32) : Int :=
  (kMaxWaitRtt.toNat : Int) * (if 0 < rttUs then rttUs else 10000).toNat * 1000

/-- Skips the gap in front of the held commands once it has been open for three round trips. -/
def expireLocked (peer : Peer) (rttUs : UInt32) (now : TimePoint) : Peer × List Bytes :=
  match peer.cmdHeld.minKey? with
  | none => (peer, [])
  | some first =>
      if now - peer.cmdGapSince < maxWait rttUs then (peer, [])
      else
        let (peer, out) := drainLocked { peer with cmdNextExpected := first }
        (if peer.cmdHeld.isEmpty then peer else { peer with cmdGapSince := now }, out)

/-- `CommandChannel::handle`: the commands that are ready. -/
def handle (peer : Peer) (header : PacketHeader) (payload : Bytes) (rttUs : UInt32)
    (now : TimePoint) : Peer × List Bytes :=
  let seq := header.sequence
  if seq = 0 then (peer, [])
  else
    let peer := if peer.cmdInitialized then peer
      else { peer with cmdNextExpected := seq, cmdInitialized := true }
    if seq < peer.cmdNextExpected then (peer, [])
    else if seq = peer.cmdNextExpected then
      let (peer, out) := drainLocked { peer with cmdNextExpected := peer.cmdNextExpected + 1 }
      (peer, payload :: out)
    else
      let peer := if peer.cmdHeld.isEmpty then { peer with cmdGapSince := now } else peer
      expireLocked { peer with cmdHeld := peer.cmdHeld.insertIfNew seq payload } rttUs now

def flushExpired (peer : Peer) (rttUs : UInt32) (now : TimePoint) : Peer × List Bytes :=
  expireLocked peer rttUs now

/-- `CommandChannel::reset`: both directions start over. -/
def reset (peer : Peer) : Peer :=
  { peer with
    cmdSeqOut := 1
    cmdNextExpected := 0
    cmdInitialized := false
    cmdHeld := ∅
    cmdGapSince := 0 }

end CommandChannel

end Damen
