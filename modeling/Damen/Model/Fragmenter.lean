import Damen.Model.Fec
import Damen.Model.Peer

/-!
# Splitting a message into fragments

`tight/src/fragmenter.cpp`, and the packet `send_data_packet` of `tight/src/transport.cpp` makes of
each fragment.  `fragmentsOf` is the part of `fragment_and_send` behind the choice of the message
id and of the number of parity fragments; the buffers the parity fragments are written to are
reused from one message to the next and are an argument.
-/

namespace Damen
namespace Fragmenter

/-- `kFecSafetyCoefficient`. -/
def kFecSafetyCoefficient : Float := 1.2

/-- `compute_parity_count_for`: the redundancy follows the binary entropy of the late ratio. -/
def computeParityCountFor (lateRatio : Float) (dataCount : ℕ) : UInt16 :=
  if lateRatio ≤ 0.0001 ∨ 0.9999 ≤ lateRatio then 1
  else
    let h := -lateRatio * lateRatio.log2 - (1.0 - lateRatio) * (1.0 - lateRatio).log2
    let redundancy := h * kFecSafetyCoefficient
    let p := (Float.ofNat dataCount * redundancy).ceil.toUInt16
    let p := if p < 1 then 1 else p
    if 3 < p then 3 else p

/-- Whatever the reported ratio is, between one and three parity fragments are sent. -/
lemma computeParityCountFor_bounds (lateRatio : Float) (dataCount : ℕ) :
    1 ≤ (computeParityCountFor lateRatio dataCount).toNat ∧
      (computeParityCountFor lateRatio dataCount).toNat ≤ 3 := by
  unfold computeParityCountFor
  split
  · decide
  · simp only
    generalize (Float.ofNat dataCount * _).ceil.toUInt16 = p
    by_cases hlow : p < 1
    · rw [if_pos hlow]
      decide
    · rw [if_neg hlow]
      by_cases hhigh : 3 < p
      · rw [if_pos hhigh]
        decide
      · rw [if_neg hhigh]
        have hge : 1 ≤ p.toNat := not_lt.mp hlow
        have hle : p.toNat ≤ 3 := not_lt.mp hhigh
        exact ⟨hge, hle⟩

/-- The arguments of one call of `send_fragment`. -/
structure Fragment where
  msgId : UInt32
  idx : UInt16
  cnt : UInt16
  dataCnt : UInt16
  realSize : UInt16
  data : Bytes
  width : ℕ

/-- Payload bytes of a fragment. -/
def fragPayload (mtu : ℕ) : ℕ :=
  let frag := if kHeaderSize < mtu then mtu - kHeaderSize else 64
  if frag ≤ 4 then 64 else frag

/-- The next message id: 31 bits and never zero. -/
def nextMsgId (msgIdOut : UInt32) : UInt32 × UInt32 :=
  if msgIdOut &&& 0x7FFFFFFF = 0 then ((msgIdOut + 1) &&& 0x7FFFFFFF, msgIdOut + 2)
  else (msgIdOut &&& 0x7FFFFFFF, msgIdOut + 1)

/-- The message behind its length prefix of four bytes. -/
def fullStream (payload : Bytes) : Bytes := put32 (UInt32.ofNat payload.length) ++ payload

/-- The number of data fragments of a message. -/
def dataCountOf (payload : Bytes) (width : ℕ) : ℕ :=
  let dataCount := ((fullStream payload).length + width - 1) / width
  if dataCount = 0 then 1 else dataCount

/-- The ranges of the stream the data fragments refer to. -/
def spans (payload : Bytes) (width : ℕ) : List Bytes :=
  (List.range (dataCountOf payload width)).map fun i =>
    ((fullStream payload).drop (i * width)).take width

/-- The fragments of a message, data first, and the parity buffers as they are left. -/
def fragmentsOf (msgId : UInt32) (payload : Bytes) (mtu : ℕ) (parityCount : UInt16)
    (buffers : List Bytes) : List Fragment × List Bytes :=
  let width := fragPayload mtu
  let dataCount := dataCountOf payload width
  let parities := ReedSolomon.encodeInto (spans payload width) parityCount.toNat width buffers
  let cnt := UInt16.ofNat (dataCount + parityCount.toNat)
  let dCnt := UInt16.ofNat dataCount
  let data := (spans payload width).mapIdx fun i span =>
    { msgId, idx := UInt16.ofNat i, cnt, dataCnt := dCnt, realSize := UInt16.ofNat span.length
      data := span, width : Fragment }
  let parity := (List.range parityCount.toNat).map fun p =>
    { msgId, idx := UInt16.ofNat (dataCount + p), cnt, dataCnt := dCnt
      realSize := UInt16.ofNat width, data := (parities.getD p []).take width, width : Fragment }
  (data ++ parity, parities)

/-- `fragment_and_send`: the calls of `send_fragment`, in order. -/
def fragmentAndSend (peer : Peer) (payload : Bytes) (mtu : ℕ) (buffers : List Bytes) :
    Peer × List Fragment × List Bytes :=
  let (msgId, msgIdOut) := nextMsgId peer.msgIdOut
  let parityCount := computeParityCountFor peer.peerLateRatio
    (dataCountOf payload (fragPayload mtu))
  ({ peer with msgIdOut }, fragmentsOf msgId payload mtu parityCount buffers)

/-- The header fields and the payload that `send_data_packet` derives from a fragment.  The
identities, the sequence number and the tick of the sender are arguments. -/
def dataPacket (clientId : UInt32) (sessionId : UInt64) (sequence tick : UInt32)
    (frag : Fragment) : PacketHeader × Bytes :=
  let payload := ReedSolomon.resize frag.data frag.width
  let type := if frag.idx.toNat + 1 = frag.cnt.toNat then PacketType.parity else PacketType.data
  ({ magic := kMagic, version := kVersion, type, flags := frag.dataCnt, clientId, sessionId
     sequence := if type = .data then sequence else 0
     messageId := frag.msgId, fragmentIndex := frag.idx, fragmentCount := frag.cnt
     payloadSize := UInt16.ofNat payload.length, reserved := frag.realSize, tick }, payload)

end Fragmenter
end Damen
