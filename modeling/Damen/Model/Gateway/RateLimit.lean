import Damen.Model.Gateway.Server
import Mathlib.Data.Rat.Floor

/-!
# The rate limiter

`gateway/gateway_ratelimit.hpp`.  Every device has a bucket of tokens for each configured dimension;
a check refills the bucket for the time that has passed and takes its cost out if there is enough.

The source computes with `double`; here tokens and times, in seconds, are exact rationals.  A time
point of zero marks a bucket that was just created.  `m_window` is not read by any function and is
left out.
-/

namespace Damen
namespace Gateway

open Std (ExtTreeMap)

structure BucketConfig where
  rate : ℚ
  capacity : ℚ
  deriving DecidableEq

structure TokenBucket where
  tokens : ℚ := 0
  lastRefill : ℚ := 0
  deriving DecidableEq

/-- The class `RateLimiter`. -/
structure TokenLimiter where
  buckets : ExtTreeMap Bytes BucketConfig := ∅
  tokens : ExtTreeMap Bytes TokenBucket := ∅

/-- `RateLimitResult`, with the fields that the listeners do not read. -/
structure CheckResult extends RateLimitResult where
  dimension : Bytes := []
  remaining : UInt64 := 0

namespace TokenLimiter

/-- `device_id + ":" + dimension`. -/
def bucketKey (deviceId dimension : Bytes) : Bytes := deviceId ++ text ":" ++ dimension

def configure (r : TokenLimiter) (dimension : Bytes) (config : BucketConfig) : TokenLimiter :=
  { r with buckets := r.buckets.insert dimension config }

/-- The constructor. -/
def create : TokenLimiter :=
  (((({} : TokenLimiter).configure (text "connection") ⟨1 / 10, 1⟩).configure
    (text "bandwidth") ⟨32 * 1024, 32 * 1024⟩).configure
    (text "audio_day") ⟨60 / 86400, 60⟩).configure
    (text "tokens_day") ⟨100000 / 86400, 100000⟩

/-- `static_cast<std::uint64_t>` of a number of tokens. -/
def truncated (tokens : ℚ) : UInt64 := UInt64.ofNat ⌊tokens⌋.toNat

/-- The bucket of a key, filled if it was just created. -/
def bucketAt (r : TokenLimiter) (key : Bytes) (config : BucketConfig) (now : ℚ) : TokenBucket :=
  let tb := r.tokens.getD key {}
  if tb.lastRefill = 0 then { tokens := config.capacity, lastRefill := now } else tb

/-- The tokens after the refill. -/
def refilled (config : BucketConfig) (now : ℚ) (tb : TokenBucket) : ℚ :=
  let tokens := tb.tokens + (now - tb.lastRefill) * config.rate
  if config.capacity < tokens then config.capacity else tokens

def check (r : TokenLimiter) (now : ℚ) (deviceId dimension : Bytes) (cost : UInt64) :
    TokenLimiter × CheckResult :=
  match r.buckets[dimension]? with
  | none => (r, { dimension })
  | some config =>
      let key := bucketKey deviceId dimension
      let tokens := refilled config now (r.bucketAt key config now)
      if tokens < cost.toNat then
        ({ r with tokens := r.tokens.insert key { tokens, lastRefill := now } },
          { allowed := false, errorCode := text "RATE_LIMITED", dimension,
            remaining := truncated tokens })
      else
        ({ r with
          tokens := r.tokens.insert key { tokens := tokens - cost.toNat, lastRefill := now } },
          { dimension, remaining := truncated (tokens - cost.toNat) })

end TokenLimiter

/-- The limiter as the server calls it, with the steady clock in nanoseconds. -/
def RateLimiter.ofTokens : RateLimiter TokenLimiter where
  check r now deviceId dimension cost :=
    let (r, result) := r.check (now / 1000000000) deviceId dimension cost
    (r, result.toRateLimitResult)

/-- A server as it is constructed. -/
def GatewayServer.create : GatewayServer TokenLimiter := { ratelimiter := .create }

end Gateway
end Damen
