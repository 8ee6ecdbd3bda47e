import Damen.Model.Outbound
import Mathlib.Algebra.Order.Field.Rat

/-!
# Pacing

The token bucket of `tight/src/transport.cpp`: `refill_token_bucket`, and the two places that wait
for tokens before they send a packet.  `sender_loop` sleeps and refills until there are enough;
`drain_sender` refills once and leaves the packet in its slot for the next tick.

The source counts tokens in a `double`; here they are exact.  The pacing rate and the clock at each
refill are arguments.
-/

namespace Damen
namespace Transport

/-- The rate and the time that `refill_token_bucket` reads. -/
structure Refill where
  bytesPerSecond : UInt64
  now : TimePoint

/-- `m_token_bucket` and `m_token_bucket_time`. -/
structure Pacer where
  tokens : ℚ := 0
  time : TimePoint

namespace Pacer

/-- `refill_token_bucket`: at most `4 * mtu` tokens. -/
def refill (p : Pacer) (mtu : ℕ) (r : Refill) : Pacer :=
  let elapsedUs := toMicros (r.now - p.time)
  if elapsedUs ≤ 0 then p
  else
    let tokens := p.tokens + (r.bytesPerSecond.toNat : ℚ) * elapsedUs / 1000000
    let cap : ℚ := mtu * 4
    { tokens := if cap < tokens then cap else tokens, time := r.now }

def spend (p : Pacer) (cost : ℕ) : Pacer := { p with tokens := p.tokens - cost }

/-- The waiting of `sender_loop` before a packet of `cost` bytes: a refill before the loop and one
in each round of it.  `none` if the loop is not left yet. -/
def senderWait (mtu cost : ℕ) : Pacer → List Refill → Option Pacer
  | _, [] => none
  | p, r :: rs =>
      let p := p.refill mtu r
      if p.tokens < cost then senderWait mtu cost p rs else some (p.spend cost)

/-- What `drain_sender` does with the packet in its slot, in one tick. -/
def drainSlot {α : Type} (mtu : ℕ) (size : α → ℕ) (ready : α → Bool) (s : Pacer × Outbound α)
    (r : Refill) : Pacer × Outbound α :=
  match s.2.litePending with
  | none => s
  | some packet =>
      if ¬ ready packet then (s.1, s.2.flush ready false)
      else
        let p := s.1.refill mtu r
        if p.tokens < size packet then (p, s.2.flush ready false)
        else (p.spend (size packet), s.2.flush ready true)

end Pacer

end Transport
end Damen
