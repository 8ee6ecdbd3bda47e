import Damen.Framework.OrderedMap
import Damen.Framework.RefillingBucket
import Damen.Model.Gateway.RateLimit

/-!
# The bound of the rate limiter

What a device may use of a dimension in any stretch of time is bounded by the capacity of its bucket
and what flows in meanwhile (`token_bucket_bound`).  Between two checks the bucket of a device is a
`RefillingBucket` (`check_eq`): the lazy refill is its `level`, and the time point of zero that
marks a new bucket does not come up again, since times are positive.

A dimension without a colon can be read back from a key (`bucketKey_inj`), so no two pairs of a
device and a dimension share a bucket, and a check leaves the other buckets alone.
-/

namespace Damen
namespace Gateway
namespace TokenLimiter

open RefillingBucket
open Std (ExtTreeMap)

/-- The byte of a colon. -/
def colon : UInt8 := 58

lemma text_colon : text ":" = [colon] := rfl

variable {deviceId deviceId' dimension dimension' : Bytes} {r : TokenLimiter}

lemma bucketKey_inj (h : colon ∉ dimension) (h' : colon ∉ dimension')
    (hkey : bucketKey deviceId dimension = bucketKey deviceId' dimension') :
    deviceId = deviceId' ∧ dimension = dimension' := by
  simp only [bucketKey, text_colon, List.append_assoc, List.singleton_append] at hkey
  -- what one device id has more than the other would put the colon into a dimension
  rcases List.append_eq_append_iff.mp hkey with ⟨more, rfl, heq⟩ | ⟨more, rfl, heq⟩
  · cases more with
    | nil => exact ⟨(List.append_nil _).symm, (List.cons.inj heq).2⟩
    | cons b more =>
        obtain ⟨-, rfl⟩ := List.cons.inj heq
        exact absurd (List.mem_append_right more List.mem_cons_self) h
  · cases more with
    | nil => exact ⟨List.append_nil _, (List.cons.inj heq).2.symm⟩
    | cons b more =>
        obtain ⟨-, rfl⟩ := List.cons.inj heq
        exact absurd (List.mem_append_right more List.mem_cons_self) h'

/-! ## One check -/

/-- A bucket as a refilling one. -/
def bucket (r : TokenLimiter) (key : Bytes) : Option (ℚ × ℚ) :=
  r.tokens[key]?.map fun tb => (tb.tokens, tb.lastRefill)

/-- What a bucket holds. -/
def levelAt (r : TokenLimiter) (config : BucketConfig) (key : Bytes) (now : ℚ) : ℚ :=
  level config.rate config.capacity (r.bucket key) now

/-- No bucket bears the mark of a new one. -/
def Marked (r : TokenLimiter) : Prop :=
  ∀ (key : Bytes) (tb : TokenBucket), r.tokens[key]? = some tb → tb.lastRefill ≠ 0

lemma refilled_bucketAt (h : r.Marked) (config : BucketConfig) (key : Bytes) (now : ℚ) :
    refilled config now (r.bucketAt key config now) = r.levelAt config key now := by
  have hmin : ∀ x : ℚ, (if config.capacity < x then config.capacity else x) =
      min config.capacity x := by
    intro x
    split
    · next hlt => rw [min_eq_left hlt.le]
    · next hle => rw [min_eq_right (not_lt.mp hle)]
  unfold refilled bucketAt levelAt bucket
  rw [ExtTreeMap.getD_eq_getD_getElem?, hmin]
  cases hkey : r.tokens[key]? with
  | none => simp [level]
  | some tb =>
      simp only [Option.getD_some, if_neg (h key tb hkey), Option.map_some, level]
      rw [mul_comm]

/-- The bucket of a key is replaced. -/
def setBucket (r : TokenLimiter) (key : Bytes) (tokens now : ℚ) : TokenLimiter :=
  { r with tokens := r.tokens.insert key { tokens, lastRefill := now } }

/-- The answer of a check, by what the bucket holds. -/
def answer (dimension : Bytes) (held : ℚ) (cost : UInt64) : CheckResult :=
  if held < cost.toNat then
    { allowed := false, errorCode := text "RATE_LIMITED", dimension, remaining := truncated held }
  else { dimension, remaining := truncated (held - cost.toNat) }

/-- What is left in the bucket. -/
def leftOf (held : ℚ) (cost : UInt64) : ℚ := if held < cost.toNat then held else held - cost.toNat

lemma check_eq (h : r.Marked) {config : BucketConfig}
    (hconfig : r.buckets[dimension]? = some config) (now : ℚ) (deviceId : Bytes) (cost : UInt64) :
    r.check now deviceId dimension cost =
      let held := r.levelAt config (bucketKey deviceId dimension) now
      (r.setBucket (bucketKey deviceId dimension) (leftOf held cost) now,
        answer dimension held cost) := by
  unfold check leftOf answer setBucket
  simp only [hconfig, refilled_bucketAt h]
  split <;> rfl

lemma check_unconfigured (hconfig : r.buckets[dimension]? = none) (now : ℚ) (deviceId : Bytes)
    (cost : UInt64) : r.check now deviceId dimension cost = (r, { dimension }) := by
  simp only [check, hconfig]

/-! ## What a check leaves -/

lemma bucket_setBucket (r : TokenLimiter) (key x : Bytes) (tokens now : ℚ) :
    (r.setBucket key tokens now).bucket x = if x = key then some (tokens, now) else r.bucket x := by
  unfold bucket setBucket
  rw [OrderedMap.getElem?_insert]
  split <;> rfl

lemma Marked.setBucket (h : r.Marked) {now : ℚ} (hnow : 0 < now) (key : Bytes) (tokens : ℚ) :
    (r.setBucket key tokens now).Marked := by
  intro x tb htb
  rw [TokenLimiter.setBucket, OrderedMap.getElem?_insert] at htb
  split at htb
  · obtain rfl := Option.some.inj htb
    exact hnow.ne'
  · exact h x tb htb

/-- A check keeps the configuration. -/
lemma check_buckets (r : TokenLimiter) (now : ℚ) (deviceId dimension : Bytes) (cost : UInt64) :
    (r.check now deviceId dimension cost).1.buckets = r.buckets := by
  unfold check
  split
  · rfl
  · dsimp only
    split <;> rfl

lemma Marked.check (h : r.Marked) {now : ℚ} (hnow : 0 < now) (deviceId dimension : Bytes)
    (cost : UInt64) : (r.check now deviceId dimension cost).1.Marked := by
  cases hconfig : r.buckets[dimension]? with
  | none =>
      rw [check_unconfigured hconfig]
      exact h
  | some config =>
      rw [check_eq h hconfig]
      exact h.setBucket hnow _ _

/-- Dimension names are without a colon. -/
def PlainNames (buckets : ExtTreeMap Bytes BucketConfig) : Prop :=
  ∀ dimension ∈ buckets, colon ∉ dimension

/-- A check of another device or dimension leaves a bucket alone. -/
lemma bucket_check_other (h : r.Marked) (hnames : PlainNames r.buckets)
    (hdimension : dimension ∈ r.buckets)
    (hother : ¬ (deviceId' = deviceId ∧ dimension' = dimension)) (now : ℚ) (cost : UInt64) :
    (r.check now deviceId' dimension' cost).1.bucket (bucketKey deviceId dimension) =
      r.bucket (bucketKey deviceId dimension) := by
  cases hconfig : r.buckets[dimension']? with
  | none => rw [check_unconfigured hconfig]
  | some config =>
      rw [check_eq h hconfig]
      dsimp only
      rw [bucket_setBucket, if_neg]
      intro hkey
      obtain ⟨hdevice, hdim⟩ := bucketKey_inj (hnames _ hdimension)
        (hnames _ (of_getElem?_eq_some hconfig)) hkey
      exact hother ⟨hdevice.symm, hdim.symm⟩

/-! ## Runs -/

structure CheckCall where
  now : ℚ
  deviceId : Bytes
  dimension : Bytes
  cost : UInt64
  deriving DecidableEq

/-- One check. -/
def checkCall (r : TokenLimiter) (call : CheckCall) : TokenLimiter × CheckResult :=
  r.check call.now call.deviceId call.dimension call.cost

/-- The checks of a run, with their answers. -/
def checkAll (r : TokenLimiter) : List CheckCall → TokenLimiter × List (CheckCall × CheckResult)
  | [] => (r, [])
  | call :: calls =>
      let (r, result) := r.checkCall call
      let (r, log) := checkAll r calls
      (r, (call, result) :: log)

lemma checkAll_append (r : TokenLimiter) (calls calls' : List CheckCall) :
    r.checkAll (calls ++ calls') =
      (((r.checkAll calls).1.checkAll calls').1,
        (r.checkAll calls).2 ++ ((r.checkAll calls).1.checkAll calls').2) := by
  induction calls generalizing r with
  | nil => rfl
  | cons call calls ih => simp only [List.cons_append, checkAll, ih]

/-- The call was for this device and dimension, and was allowed. -/
def Granted (deviceId dimension : Bytes) (e : CheckCall × CheckResult) : Prop :=
  e.1.deviceId = deviceId ∧ e.1.dimension = dimension ∧ e.2.allowed = true

instance (deviceId dimension : Bytes) (e : CheckCall × CheckResult) :
    Decidable (Granted deviceId dimension e) :=
  inferInstanceAs (Decidable (_ ∧ _))

/-- The total cost of what was granted from time `s` to time `t`. -/
def grantedBetween (deviceId dimension : Bytes) (s t : ℚ) (log : List (CheckCall × CheckResult)) :
    ℚ :=
  ((log.filter fun e => Granted deviceId dimension e ∧ s ≤ e.1.now ∧ e.1.now ≤ t).map
    fun e => (e.1.cost.toNat : ℚ)).sum

/-- What was taken out of the bucket. -/
def takings (deviceId dimension : Bytes) (log : List (CheckCall × CheckResult)) : List (ℚ × ℚ) :=
  (log.filter fun e => Granted deviceId dimension e).map fun e => (e.1.now, (e.1.cost.toNat : ℚ))

/-- Up to the end of the log, the two come to the same. -/
lemma grantedBetween_eq {s t : ℚ} {log : List (CheckCall × CheckResult)}
    (h : ∀ e ∈ log, e.1.now ≤ t) :
    grantedBetween deviceId dimension s t log = takenSince s (takings deviceId dimension log) := by
  rw [grantedBetween, takenSince, takings, List.filter_map, List.filter_filter, List.map_map]
  congr 2
  refine List.filter_congr fun e he => ?_
  simp [h e he, and_comm]

/-- The state of a limiter after the checks in `log`, seen from one bucket, at time `now`. -/
structure Accounts (buckets : ExtTreeMap Bytes BucketConfig) (deviceId dimension : Bytes)
    (config : BucketConfig) (r : TokenLimiter) (log : List (CheckCall × CheckResult)) (now : ℚ) :
    Prop where
  buckets : r.buckets = buckets
  marked : r.Marked
  past : ∀ e ∈ log, e.1.now ≤ now
  valid : Valid config.capacity (r.bucket (bucketKey deviceId dimension)) now
  bounded : Bounded config.rate config.capacity (r.bucket (bucketKey deviceId dimension))
    (takings deviceId dimension log) now

section

variable {buckets : ExtTreeMap Bytes BucketConfig} {deviceId dimension : Bytes}
  {config : BucketConfig} {r : TokenLimiter} {log : List (CheckCall × CheckResult)} {now : ℚ}

lemma Accounts.later (h : Accounts buckets deviceId dimension config r log now)
    (hrate : 0 ≤ config.rate)
    {later : ℚ} (hle : now ≤ later) : Accounts buckets deviceId dimension config r log later where
  buckets := h.buckets
  marked := h.marked
  past := fun e he => le_trans (h.past e he) hle
  valid := h.valid.later hle
  bounded := h.bounded.later hrate hle

/-- A check of the bucket's own device and dimension. -/
lemma Accounts.bucket_check (h : Accounts buckets deviceId dimension config r log now)
    (hconfig : buckets[dimension]? = some config) (cost : UInt64) :
    (r.check now deviceId dimension cost).1.bucket (bucketKey deviceId dimension) =
        some (leftOf (r.levelAt config (bucketKey deviceId dimension) now) cost, now) ∧
      (r.check now deviceId dimension cost).2 =
        answer dimension (r.levelAt config (bucketKey deviceId dimension) now) cost := by
  rw [check_eq h.marked (h.buckets.symm ▸ hconfig)]
  exact ⟨by rw [bucket_setBucket, if_pos rfl], rfl⟩

/-- What a check of a bucket leaves in it is valid, and bounded with the cost if it was granted. -/
lemma Accounts.leftOf (h : Accounts buckets deviceId dimension config r log now)
    (hrate : 0 ≤ config.rate)
    (hcapacity : 0 ≤ config.capacity) (cost : UInt64) {held : ℚ}
    (hheld : held = r.levelAt config (bucketKey deviceId dimension) now) :
    Valid config.capacity (some (leftOf held cost, now)) now ∧
      Bounded config.rate config.capacity (some (leftOf held cost, now))
        (takings deviceId dimension log ++
          if (answer dimension held cost).allowed = true then [(now, (cost.toNat : ℚ))]
          else []) now := by
  have hcost : (0 : ℚ) ≤ cost.toNat := Nat.cast_nonneg _
  subst hheld
  unfold TokenLimiter.leftOf answer
  by_cases hless : r.levelAt config (bucketKey deviceId dimension) now < cost.toNat
  · simp only [if_pos hless, Bool.false_eq_true, if_false, List.append_nil]
    have hvalid := valid_take (le_refl (0 : ℚ)) (h.valid.level_nonneg hrate hcapacity)
    rw [sub_zero] at hvalid
    exact ⟨hvalid, h.bounded.look⟩
  · simp only [if_neg hless, if_true]
    exact ⟨valid_take hcost (not_lt.mp hless), h.bounded.take hcost⟩

lemma takings_concat (deviceId dimension : Bytes) (log : List (CheckCall × CheckResult))
    (e : CheckCall × CheckResult) :
    takings deviceId dimension (log ++ [e]) = takings deviceId dimension log ++
      if Granted deviceId dimension e then [(e.1.now, (e.1.cost.toNat : ℚ))] else [] := by
  rw [takings, List.filter_append, List.map_append]
  by_cases hg : Granted deviceId dimension e
  · simp [takings, hg]
  · simp [takings, hg]

lemma Accounts.check (h : Accounts buckets deviceId dimension config r log now)
    (hnames : PlainNames buckets) (hconfig : buckets[dimension]? = some config)
    (hrate : 0 ≤ config.rate)
    (hcapacity : 0 ≤ config.capacity) {call : CheckCall} (hpos : 0 < call.now)
    (hle : now ≤ call.now) :
    Accounts buckets deviceId dimension config (r.checkCall call).1
      (log ++ [(call, (r.checkCall call).2)])
      call.now := by
  have h := h.later hrate hle
  have hpast : ∀ e ∈ log ++ [(call, (r.checkCall call).2)], e.1.now ≤ call.now := by
    intro e he
    rcases List.mem_append.mp he with he | he
    · exact h.past e he
    · rw [List.mem_singleton.mp he]
  have hbuckets : (r.checkCall call).1.buckets = buckets :=
    (check_buckets r _ _ _ _).trans h.buckets
  have hmarked : (r.checkCall call).1.Marked := h.marked.check hpos _ _ _
  obtain ⟨now', deviceId', dimension', cost⟩ := call
  by_cases hsame : deviceId' = deviceId ∧ dimension' = dimension
  · obtain ⟨rfl, rfl⟩ := hsame
    obtain ⟨hbucket, hresult⟩ := h.bucket_check hconfig cost
    obtain ⟨hvalid, hbounded⟩ := h.leftOf hrate hcapacity cost rfl
    refine ⟨hbuckets, hmarked, hpast, ?_, ?_⟩
    · rw [checkCall, hbucket]
      exact hvalid
    · rw [takings_concat, checkCall, hbucket, hresult]
      simpa only [Granted, true_and] using hbounded
  · have hother := bucket_check_other h.marked (h.buckets ▸ hnames)
      (h.buckets ▸ of_getElem?_eq_some hconfig) hsame now' cost
    refine ⟨hbuckets, hmarked, hpast, ?_, ?_⟩
    · rw [checkCall, hother]
      exact h.valid
    · rw [takings_concat, if_neg fun hg => hsame ⟨hg.1, hg.2.1⟩, List.append_nil, checkCall, hother]
      exact h.bounded

lemma Accounts.checkAll (h : Accounts buckets deviceId dimension config r log now)
    (hnames : PlainNames buckets) (hconfig : buckets[dimension]? = some config)
    (hrate : 0 ≤ config.rate)
    (hcapacity : 0 ≤ config.capacity) {calls : List CheckCall} (hpos : ∀ call ∈ calls, 0 < call.now)
    (hmono : calls.Pairwise (·.now ≤ ·.now)) (hafter : ∀ call ∈ calls, now ≤ call.now) {t : ℚ}
    (hnow : now ≤ t) (hbefore : ∀ call ∈ calls, call.now ≤ t) :
    Accounts buckets deviceId dimension config (r.checkAll calls).1
      (log ++ (r.checkAll calls).2) t := by
  induction calls generalizing r log now with
  | nil =>
      rw [TokenLimiter.checkAll, List.append_nil]
      exact h.later hrate hnow
  | cons call calls ih =>
      rw [List.forall_mem_cons] at hpos hafter hbefore
      rw [List.pairwise_cons] at hmono
      have hnext :=
        ih (h.check hnames hconfig hrate hcapacity hpos.1 hafter.1) hpos.2 hmono.2 hmono.1
        hbefore.1 hbefore.2
      rwa [List.append_assoc] at hnext

end

/-! ## A denied check -/

/-- From `now` on, the two limiters hold the same. -/
structure Alike (deviceId dimension : Bytes) (config : BucketConfig) (r r' : TokenLimiter)
    (now : ℚ) : Prop where
  buckets : r.buckets = r'.buckets
  marked : r.Marked
  marked' : r'.Marked
  level : ∀ t, now ≤ t →
    r.levelAt config (bucketKey deviceId dimension) t =
      r'.levelAt config (bucketKey deviceId dimension) t
  others : ∀ key, key ≠ bucketKey deviceId dimension → r.bucket key = r'.bucket key

lemma levelAt_congr {r' : TokenLimiter} {key : Bytes} (h : r.bucket key = r'.bucket key)
    (config : BucketConfig) (now : ℚ) : r.levelAt config key now = r'.levelAt config key now := by
  rw [levelAt, levelAt, h]

section

variable {deviceId dimension : Bytes} {config : BucketConfig} {r r' : TokenLimiter} {now : ℚ}

lemma Alike.setBucket (h : Alike deviceId dimension config r r' now) {now' : ℚ} (hpos : 0 < now')
    (hle : now ≤ now') (key : Bytes) (tokens : ℚ) :
    Alike deviceId dimension config (r.setBucket key tokens now')
      (r'.setBucket key tokens now') now' where
  buckets := h.buckets
  marked := h.marked.setBucket hpos _ _
  marked' := h.marked'.setBucket hpos _ _
  level := by
    intro t ht
    by_cases hkey : bucketKey deviceId dimension = key
    · refine levelAt_congr ?_ _ _
      rw [bucket_setBucket, bucket_setBucket, if_pos hkey, if_pos hkey]
    · have hlevel := h.level t (le_trans hle ht)
      simp only [levelAt, bucket_setBucket, if_neg hkey]
      exact hlevel
  others := by
    intro x hx
    rw [bucket_setBucket, bucket_setBucket, h.others x hx]

/-- Alike limiters answer alike, and stay alike. -/
lemma Alike.check (h : Alike deviceId dimension config r r' now) (hnames : PlainNames r.buckets)
    (hconfig : r.buckets[dimension]? = some config) {call : CheckCall} (hpos : 0 < call.now)
    (hle : now ≤ call.now) :
    (r.checkCall call).2 = (r'.checkCall call).2 ∧
      Alike deviceId dimension config (r.checkCall call).1 (r'.checkCall call).1 call.now := by
  obtain ⟨now', deviceId', dimension', cost⟩ := call
  cases hconfig' : r.buckets[dimension']? with
  | none =>
      rw [checkCall, checkCall, check_unconfigured hconfig',
        check_unconfigured (h.buckets ▸ hconfig')]
      exact ⟨rfl, h.buckets, h.marked, h.marked', fun t ht => h.level t (le_trans hle ht), h.others⟩
  | some config' =>
      have hlevel : r.levelAt config' (bucketKey deviceId' dimension') now' =
          r'.levelAt config' (bucketKey deviceId' dimension') now' := by
        by_cases hkey : bucketKey deviceId' dimension' = bucketKey deviceId dimension
        · obtain ⟨rfl, rfl⟩ := bucketKey_inj (hnames _ (of_getElem?_eq_some hconfig'))
            (hnames _ (of_getElem?_eq_some hconfig)) hkey
          obtain rfl := Option.some.inj (hconfig'.symm.trans hconfig)
          exact h.level now' hle
        · exact levelAt_congr (h.others _ hkey) _ _
      rw [checkCall, checkCall, check_eq h.marked hconfig',
        check_eq h.marked' (h.buckets ▸ hconfig')]
      dsimp only
      rw [hlevel]
      exact ⟨rfl, h.setBucket hpos hle _ _⟩

lemma Alike.checkAll (h : Alike deviceId dimension config r r' now) (hnames : PlainNames r.buckets)
    (hconfig : r.buckets[dimension]? = some config) {calls : List CheckCall}
    (hpos : ∀ call ∈ calls, 0 < call.now) (hmono : calls.Pairwise (·.now ≤ ·.now))
    (hafter : ∀ call ∈ calls, now ≤ call.now) : (r.checkAll calls).2 = (r'.checkAll calls).2 := by
  induction calls generalizing r r' now with
  | nil => rfl
  | cons call calls ih =>
      rw [List.forall_mem_cons] at hpos hafter
      rw [List.pairwise_cons] at hmono
      obtain ⟨hresult, hnext⟩ := h.check hnames hconfig hpos.1 hafter.1
      have hbuckets : (r.checkCall call).1.buckets = r.buckets := check_buckets r _ _ _ _
      have hrest := ih hnext (hbuckets ▸ hnames) (hbuckets ▸ hconfig) hpos.2 hmono.2 hmono.1
      simp only [TokenLimiter.checkAll, hresult, hrest]

/-- A denied check only looks at its bucket. -/
lemma alike_of_denied (h : r.Marked) (hconfig : r.buckets[dimension]? = some config)
    (hrate : 0 ≤ config.rate) (hpos : 0 < now) {cost : UInt64}
    (hdenied : (r.check now deviceId dimension cost).2.allowed = false) :
    Alike deviceId dimension config (r.check now deviceId dimension cost).1 r now := by
  have hmarked := h.check hpos deviceId dimension cost
  rw [check_eq h hconfig] at hdenied hmarked ⊢
  have hless : r.levelAt config (bucketKey deviceId dimension) now < cost.toNat := by
    by_contra hnot
    simp [answer, if_neg hnot] at hdenied
  simp only [leftOf, if_pos hless] at hmarked ⊢
  refine ⟨rfl, hmarked, h, ?_, ?_⟩
  · intro t ht
    rw [levelAt, bucket_setBucket, if_pos rfl]
    exact level_look hrate ht
  · intro key hkey
    rw [bucket_setBucket, if_neg hkey]

end

/-! ## The bound -/

section

variable {buckets : ExtTreeMap Bytes BucketConfig} {deviceId dimension : Bytes}
  {config : BucketConfig} {calls : List CheckCall}

/-- A limiter that has answered no check yet. -/
def unused (buckets : ExtTreeMap Bytes BucketConfig) : TokenLimiter := { buckets }

lemma bucket_unused (key : Bytes) : (unused buckets).bucket key = none := by
  simp [bucket, unused]

lemma accounts_unused (hrate : 0 ≤ config.rate) (now : ℚ) :
    Accounts buckets deviceId dimension config (unused buckets) [] now where
  buckets := rfl
  marked := by
    intro key tb htb
    simp [unused] at htb
  past := by simp
  valid := by
    intro b hb
    rw [bucket_unused] at hb
    cases hb
  bounded := by
    rw [bucket_unused]
    exact bounded_nil now hrate

lemma accounts_checkAll (hnames : PlainNames buckets) (hconfig : buckets[dimension]? = some config)
    (hrate : 0 ≤ config.rate) (hcapacity : 0 ≤ config.capacity)
    (hpos : ∀ call ∈ calls, 0 < call.now)
    (hmono : calls.Pairwise (·.now ≤ ·.now)) {t : ℚ} (hbefore : ∀ call ∈ calls, call.now ≤ t) :
    Accounts buckets deviceId dimension config ((unused buckets).checkAll calls).1
      ((unused buckets).checkAll calls).2 t := by
  have hstart : Accounts buckets deviceId dimension config (unused buckets) [] (min 0 t) :=
    accounts_unused hrate _
  exact hstart.checkAll hnames hconfig hrate hcapacity hpos hmono
    (fun call hcall => le_trans (min_le_left _ _) (hpos call hcall).le) (min_le_right _ _) hbefore

/-- The times of a run are bounded. -/
lemma exists_bound (calls : List CheckCall) : ∃ t : ℚ, ∀ call ∈ calls, call.now ≤ t := by
  induction calls with
  | nil => exact ⟨0, by simp⟩
  | cons call calls ih =>
      obtain ⟨t, ht⟩ := ih
      refine ⟨max call.now t, List.forall_mem_cons.mpr ⟨le_max_left _ _, ?_⟩⟩
      exact fun call' hcall' => le_trans (ht call' hcall') (le_max_right _ _)

lemma granted_le (hnames : PlainNames buckets) (hconfig : buckets[dimension]? = some config)
    (hrate : 0 ≤ config.rate) (hcapacity : 0 ≤ config.capacity)
    (hpos : ∀ call ∈ calls, 0 < call.now)
    (hmono : calls.Pairwise (·.now ≤ ·.now)) {s t : ℚ} (hst : s ≤ t) :
    grantedBetween deviceId dimension s t ((unused buckets).checkAll calls).2 ≤
      config.capacity + config.rate * (t - s) := by
  induction calls using List.reverseRecOn with
  | nil =>
      have hflow : 0 ≤ config.rate * (t - s) := mul_nonneg hrate (sub_nonneg.mpr hst)
      simpa [grantedBetween, checkAll] using add_nonneg hcapacity hflow
  | append_singleton calls call ih =>
      by_cases hlast : call.now ≤ t
      · -- every check is before `t`, and the bucket bounds what was granted since `s`
        have hbefore : ∀ call' ∈ calls ++ [call], call'.now ≤ t := by
          intro call' hcall'
          rcases List.mem_append.mp hcall' with hmem | hmem
          · exact le_trans ((List.pairwise_append.mp hmono).2.2 _ hmem
              _ (List.mem_singleton_self _)) hlast
          · rwa [List.mem_singleton.mp hmem]
        have haccounts : Accounts buckets deviceId dimension config _ _ t :=
          accounts_checkAll hnames hconfig hrate hcapacity hpos hmono hbefore
        rw [grantedBetween_eq haccounts.past]
        exact haccounts.bounded.taken_le hrate hcapacity haccounts.valid hst (le_refl t)
      · -- the last check is after `t`
        have hprev := ih (fun call' hcall' => hpos call' (List.mem_append_left _ hcall'))
          (List.pairwise_append.mp hmono).1
        rw [checkAll_append]
        simpa [grantedBetween, checkAll, List.filter_append, hlast] using hprev

end

/-- **The bound of the token bucket.**  Dimension names are without a colon, and the checks come at
positive times in order, for any devices and dimensions and with any costs.  For a device and a
dimension of non-negative rate and capacity: the cost granted from any time to any other is at most
the capacity and what flows in between; a denied check makes no difference to the answers after it;
and the stored tokens are within the capacity. -/
theorem token_bucket_bound (buckets : ExtTreeMap Bytes BucketConfig) (hnames : PlainNames buckets)
    (deviceId dimension : Bytes) (config : BucketConfig)
    (hconfig : buckets[dimension]? = some config) (hrate : 0 ≤ config.rate)
    (hcapacity : 0 ≤ config.capacity) (calls : List CheckCall) (hpos : ∀ call ∈ calls, 0 < call.now)
    (hmono : calls.Pairwise (·.now ≤ ·.now)) :
    (∀ s t, s ≤ t → grantedBetween deviceId dimension s t ((unused buckets).checkAll calls).2 ≤
      config.capacity + config.rate * (t - s)) ∧
    (∀ before after call, calls = before ++ call :: after → call.deviceId = deviceId →
      call.dimension = dimension →
      let r := ((unused buckets).checkAll before).1
      (r.checkCall call).2.allowed = false →
        ((r.checkCall call).1.checkAll after).2 = (r.checkAll after).2) ∧
    ∀ tb, ((unused buckets).checkAll calls).1.tokens[bucketKey deviceId dimension]? = some tb →
      0 ≤ tb.tokens ∧ tb.tokens ≤ config.capacity := by
  refine ⟨fun s t hst => granted_le hnames hconfig hrate hcapacity hpos hmono hst, ?_, ?_⟩
  · rintro before after call rfl rfl rfl r hdenied
    rw [List.forall_mem_append, List.forall_mem_cons] at hpos
    obtain ⟨hbefore, hcall, hafter⟩ := hpos
    obtain ⟨hmono, hmono', -⟩ := List.pairwise_append.mp hmono
    obtain ⟨hlater, hmono'⟩ := List.pairwise_cons.mp hmono'
    obtain ⟨t, ht⟩ := exists_bound before
    have haccounts : Accounts buckets call.deviceId call.dimension config _ _ t :=
      accounts_checkAll hnames hconfig hrate hcapacity hbefore hmono ht
    have hconfig' := haccounts.buckets.symm ▸ hconfig
    have hbuckets := (check_buckets ((unused buckets).checkAll before).1 call.now call.deviceId
      call.dimension call.cost).trans haccounts.buckets
    exact (alike_of_denied haccounts.marked hconfig' hrate hcall hdenied).checkAll
      (hbuckets.symm ▸ hnames) (hbuckets.symm ▸ hconfig) hafter hmono' hlater
  · intro tb htb
    obtain ⟨t, ht⟩ := exists_bound calls
    have haccounts : Accounts buckets deviceId dimension config _ _ t :=
      accounts_checkAll hnames hconfig hrate hcapacity hpos hmono ht
    obtain ⟨hnonneg, hle, -⟩ :=
      haccounts.valid (tb.tokens, tb.lastRefill) (by rw [bucket, htb]; rfl)
    exact ⟨hnonneg, hle⟩

lemma PlainNames.configure (h : PlainNames r.buckets) (hdimension : colon ∉ dimension)
    (config : BucketConfig) : PlainNames (r.configure dimension config).buckets := by
  intro x hx
  rw [TokenLimiter.configure, ExtTreeMap.mem_insert, Std.LawfulEqCmp.compare_eq_iff_eq] at hx
  rcases hx with rfl | hx
  · exact hdimension
  · exact h x hx

/-- The dimensions of the constructor. -/
lemma plainNames_create : PlainNames create.buckets := by
  have hempty : PlainNames ({} : TokenLimiter).buckets := by simp [PlainNames]
  exact (((hempty.configure (by decide) _).configure (by decide) _).configure
    (by decide) _).configure
    (by decide) _

/-- A device connects, is refused four seconds later, and connects again. -/
def connecting : List CheckCall :=
  [⟨1, text "a", text "connection", 1⟩, ⟨5, text "a", text "connection", 1⟩,
    ⟨20, text "a", text "connection", 1⟩]

theorem token_bucket_bound_connecting :
    (((unused create.buckets).checkAll connecting).2.map fun e => e.2.allowed) =
      [true, false, true] ∧
      grantedBetween (text "a") (text "connection") 1 20
        ((unused create.buckets).checkAll connecting).2 ≤
        1 + 1 / 10 * (20 - 1) :=
  ⟨by decide +kernel,
    (token_bucket_bound create.buckets plainNames_create (text "a") (text "connection") ⟨1 / 10, 1⟩
      (by decide +kernel) (by decide +kernel) (by decide +kernel) connecting (by decide +kernel)
      (by decide +kernel)).1 1 20 (by decide +kernel)⟩

end TokenLimiter
end Gateway
end Damen
