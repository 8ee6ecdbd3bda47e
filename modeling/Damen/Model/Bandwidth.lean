import Mathlib.Data.List.Basic

/-!
# The bandwidth estimator

`tight/src/bandwidth.cpp`: a windowed maximum of delivery rates, a smoothed round-trip time and a
gain.  The transport reads the round-trip time from it.  Durations are in microseconds.
-/

namespace Damen

def kWindowSize : ℕ := 10
def kGainUp : Float := 1.25
def kGainDown : Float := 0.75
def kQueueHigh : Float := 1.5
def kQueueLow : Float := 1.2
def kQueueTight : Float := 1.1
def kLateHigh : Float := 0.10
def kLateLow : Float := 0.02

structure BandwidthEstimator where
  window : List UInt64 := List.replicate kWindowSize 0
  windowPos : ℕ := 0
  windowCount : ℕ := 0
  btlBw : UInt64 := 1
  floor : UInt64 := 1
  gain : Float := 1.0
  lastLateRatio : Float := 0.0
  haveLate : Bool := false
  lateRising : Bool := false
  rtt : Int := 0
  rtProp : Int := 0
  prevRtt : Int := 0
  havePrevRtt : Bool := false

namespace BandwidthEstimator

/-- The constructor. -/
def create (initialBytesPerSecond : UInt64) : BandwidthEstimator :=
  let bw := if initialBytesPerSecond = 0 then 1 else initialBytesPerSecond
  { btlBw := bw, floor := bw }

def recomputeGain (b : BandwidthEstimator) : BandwidthEstimator :=
  let primary :=
    if 0 < b.rtProp ∧ 0 < b.rtt then
      let queueRatio := Float.ofInt b.rtt / Float.ofInt b.rtProp
      let rising := b.havePrevRtt && decide (b.prevRtt * 105 < b.rtt * 100)
      if kQueueHigh ≤ queueRatio ∨ (rising ∧ kQueueLow ≤ queueRatio) then kGainDown
      else if queueRatio ≤ kQueueTight ∧ ¬ rising then kGainUp
      else 1.0
    else 1.0
  let gain :=
    if b.haveLate then
      if kLateHigh ≤ b.lastLateRatio ∨ (b.lateRising ∧ kLateLow ≤ b.lastLateRatio) then
        if kGainDown < primary then kGainDown else primary
      else if kLateLow < b.lastLateRatio then
        if 1.0 < primary then 1.0 else primary
      else primary
    else primary
  { b with gain }

/-- The round-trip part of `on_ack`, for a positive sample. -/
def feedRtt (b : BandwidthEstimator) (rtt : Int) : BandwidthEstimator :=
  let b := if b.rtProp = 0 ∨ rtt < b.rtProp then { b with rtProp := rtt } else b
  if b.rtt = 0 then { b with rtt }
  else { b with prevRtt := b.rtt, havePrevRtt := true, rtt := (b.rtt * 7 + rtt).tdiv 8 }

/-- The delivery-rate part of `on_ack`, for a positive byte count. -/
def feedRate (b : BandwidthEstimator) (bytes : ℕ) (rtt : Int) : BandwidthEstimator :=
  let sample := UInt64.ofNat bytes * 1000000 / UInt64.ofNat rtt.toNat
  let sample := if sample = 0 then 1 else sample
  let window := b.window.set b.windowPos sample
  let windowCount := if b.windowCount < kWindowSize then b.windowCount + 1 else b.windowCount
  let best := (window.take windowCount).foldl max 0
  { b with
    window
    windowPos := (b.windowPos + 1) % kWindowSize
    windowCount
    btlBw := if 0 < best then best else b.btlBw }

def onAck (b : BandwidthEstimator) (bytes : ℕ) (rtt : Int) : BandwidthEstimator :=
  if rtt ≤ 0 then b
  else
    let b := recomputeGain (feedRtt b rtt)
    if bytes = 0 then b else feedRate b bytes rtt

def onLateRatio (b : BandwidthEstimator) (lateRatio : Float) : BandwidthEstimator :=
  let r := if lateRatio < 0.0 then 0.0 else lateRatio
  let r := if 1.0 < r then 1.0 else r
  recomputeGain { b with
    lateRising := b.haveLate && decide (b.lastLateRatio + 0.001 < r)
    lastLateRatio := r
    haveLate := true }

def seedBandwidth (b : BandwidthEstimator) (bytesPerSecond : UInt64) : BandwidthEstimator :=
  if bytesPerSecond = 0 then b else { b with btlBw := bytesPerSecond, floor := bytesPerSecond }

/-- The pacing rate. -/
def bytesPerSecond (b : BandwidthEstimator) : UInt64 :=
  max b.floor (b.btlBw.toFloat * b.gain).toUInt64

end BandwidthEstimator

end Damen
