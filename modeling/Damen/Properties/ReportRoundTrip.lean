import Damen.Properties.ReportHandling
import Damen.Properties.ReportScan

/-!
# A report there and back

`Report::handle` reads four things off a payload before it acts on them: the ack cursor, the late
ratio, the lost sequences and the measured bandwidth (`parse`, `handle_eq_process`).
`Report::build_payload` means four things when it encodes them (`meant`).

Two of them do not fit their fields.  The bandwidth is cut to 32 bits, and the number of lost
sequences to 16 bits before it is capped, so a list of 65536 sequences is encoded as an empty one.
`report_round_trip_iff` says that nothing else is lost.
-/

namespace Damen
namespace Report

/-- What a report says. -/
structure Contents where
  ack : UInt32
  ratio : UInt16
  lost : List UInt32
  bandwidth : UInt64
  deriving DecidableEq

/-- What `handle` reads off a payload; `none` for one that is too short. -/
def parse (payload : Bytes) : Option Contents :=
  if payload.length < 12 then none
  else
    let expected := 12 + (get16 payload 6).toNat * 4
    if payload.length < expected then none
    else some {
      ack := get32 payload 0
      ratio := get16 payload 4
      lost := parseLost payload (get16 payload 6).toNat
      bandwidth := if expected + 4 ≤ payload.length then (get32 payload expected).toUInt64 else 0 }

/-- What `handle` does with it. -/
def process (peer : Peer) (c : Contents) (now : TimePoint) :
    Peer × UInt64 × List (PacketHeader × Bytes) :=
  let p := c.ratio.toFloat / 10000.0
  let p := if p < 0.0 then 0.0 else p
  let p := if 1.0 < p then 1.0 else p
  let snapshot := resendable peer.pending c.lost
  let pending := snapshot.foldl (noteResent now) (prunePending peer.pending c.ack c.lost)
  ({ peer with peerLateRatio := p, pending }, c.bandwidth,
    snapshot.map fun e => (e.2.header, e.2.payload))

lemma handle_eq_process {payload : Bytes} {c : Contents} (h : parse payload = some c) (peer : Peer)
    (now : TimePoint) : handle peer payload now = process peer c now := by
  unfold parse at h
  unfold handle
  by_cases hshort : payload.length < 12
  · rw [if_pos hshort] at h
    exact absurd h (by simp)
  · by_cases hlist : payload.length < 12 + (get16 payload 6).toNat * 4
    · simp only [if_neg hshort, if_pos hlist] at h
      exact absurd h (by simp)
    · simp only [if_neg hshort, if_neg hlist] at h ⊢
      rw [← Option.some.inj h]
      rfl

/-- What `build_payload` means to say: the ack cursor and the late ratio, the first 256 of the
sequences it has collected, and the bandwidth of the last probe train. -/
def meant (peer : Peer) (reportInterval : Int) (now : TimePoint) : Contents :=
  let (peer, lost) := scanMissing reportInterval now peer
  { ack := ackSeq peer
    ratio := ratioVal peer
    lost := lost.take 256
    bandwidth := (finalizeProbeTrain peer now).probeBwBps }

/-! ## What arrives -/

lemma parse_encodePayload (ack : UInt32) (ratio : UInt16) (lost : List UInt32) (probeBw : UInt64) :
    parse (encodePayload ack ratio lost probeBw) = some {
      ack, ratio
      lost := lost.take (lostCount lost).toNat
      bandwidth := probeBw.toUInt32.toUInt64 } := by
  have hack : get32 (encodePayload ack ratio lost probeBw) 0 = ack := by
    simp only [encodePayload, List.append_assoc]
    exact get32_put32 [] _ ack
  have hratio : get16 (encodePayload ack ratio lost probeBw) 4 = ratio := by
    simp only [encodePayload, List.append_assoc]
    exact get16_put16 (put32 ack) _ ratio
  have hbw : get32 (encodePayload ack ratio lost probeBw) (12 + (lostCount lost).toNat * 4) =
      probeBw.toUInt32 := by
    have h := get32_put32 (put32 ack ++ put16 ratio ++ put16 (lostCount lost) ++ storeLe32 0
      ++ ((lost.take (lostCount lost).toNat).map put32).flatten) [] probeBw.toUInt32
    rw [List.length_append, length_flatten_put32, length_take_lostCount, List.append_nil,
      show (put32 ack ++ put16 ratio ++ put16 (lostCount lost) ++ storeLe32 0).length = 12 from rfl,
      Nat.mul_comm 4] at h
    exact h
  unfold parse
  simp only [get16_encodePayload_count, length_encodePayload, hack, hratio, hbw,
    parseLost_encodePayload]
  rw [if_neg (by omega), if_neg (by omega), if_pos le_rfl]

/-- The payload says what was meant, as far as it fits. -/
lemma parse_buildPayload (peer : Peer) (reportInterval : Int) (now : TimePoint) :
    parse (buildPayload peer reportInterval now).2 = some { meant peer reportInterval now with
      lost := (scanMissing reportInterval now peer).2.take
        (lostCount (scanMissing reportInterval now peer).2).toNat
      bandwidth := (meant peer reportInterval now).bandwidth.toUInt32.toUInt64 } := by
  have hprobe : ∀ (p : Peer) missing, (finalizeProbeTrain { p with
      missingSeqs := missing, transitSamples := 0, lateSamples := 0 } now).probeBwBps =
        (finalizeProbeTrain p now).probeBwBps := by
    intro p missing
    unfold finalizeProbeTrain
    simp only
    split_ifs <;> rfl
  have hack : ∀ (p : Peer) missing, ackSeq { p with missingSeqs := missing } = ackSeq p :=
    fun _ _ => rfl
  have hratio : ∀ (p : Peer) missing, ratioVal { p with missingSeqs := missing } = ratioVal p :=
    fun _ _ => rfl
  unfold buildPayload meant
  simp only [parse_encodePayload, hack, hratio, hprobe]

/-! ## When it fits -/

lemma take_lostCount_iff (lost : List UInt32) :
    lost.take (lostCount lost).toNat = lost.take 256 ↔
      lost.length < 65536 ∨ 256 ≤ lost.length % 65536 := by
  rw [lostCount_toNat, List.take_eq_take_iff]
  omega

lemma toUInt64_toUInt32_iff (v : UInt64) : v.toUInt32.toUInt64 = v ↔ v.toNat < 2 ^ 32 := by
  rw [← UInt64.toNat_inj, UInt32.toNat_toUInt64, UInt64.toNat_toUInt32]
  omega

/-- The receiver of a report reads what the sender of it meant exactly if the bandwidth fits into 32
bits and the number of lost sequences is not cut below 256 by its 16 bits. -/
theorem report_round_trip_iff (peer : Peer) (reportInterval : Int) (now : TimePoint) :
    ∃ c, parse (buildPayload peer reportInterval now).2 = some c ∧
      (∀ sender arrival, handle sender (buildPayload peer reportInterval now).2 arrival =
        process sender c arrival) ∧
      (c = meant peer reportInterval now ↔
        (meant peer reportInterval now).bandwidth.toNat < 2 ^ 32 ∧
          ((scanMissing reportInterval now peer).2.length < 65536 ∨
            256 ≤ (scanMissing reportInterval now peer).2.length % 65536)) := by
  have hparse := parse_buildPayload peer reportInterval now
  refine ⟨_, hparse, fun sender arrival => handle_eq_process hparse sender arrival, ?_⟩
  rw [← toUInt64_toUInt32_iff, ← take_lostCount_iff]
  constructor
  · intro h
    exact ⟨congrArg Contents.bandwidth h, congrArg Contents.lost h⟩
  · rintro ⟨hbandwidth, hlost⟩
    rw [hbandwidth, hlost]
    rfl

/-- A measured bandwidth of 2 ^ 32 bytes per second arrives as none. -/
theorem bandwidth_cut_to_zero :
    (meant { probeBwBps := 4294967296 } 1000 0).bandwidth = 4294967296 ∧
      (handle {} (buildPayload { probeBwBps := 4294967296 } 1000 0).2 0).2.1 = 0 := by
  have hparse := parse_buildPayload { probeBwBps := 4294967296 } 1000 0
  refine ⟨rfl, ?_⟩
  rw [handle_eq_process hparse]
  rfl

end Report
end Damen
