import Damen.Properties.WireFormat
import Mathlib.Tactic.IntervalCases

/-!
# The codec round trip

`PacketCodec::decode` undoes `encode` on every header with the right magic, version and payload
size, and `encode` undoes `decode` on every datagram that is accepted, up to the bytes behind the
payload (`codec_round_trip`).  The checksum is the exception in the first direction: `encode`
computes it.

The encoder runs the CRC over the buffer with the checksum field cleared, the decoder over three
pieces; `crc32Update_append` makes them one.
-/

namespace Damen

@[simp]
lemma PacketType.ofByte_toByte (type : PacketType) : PacketType.ofByte type.toByte = type := by
  cases type with
  | unknown code h => exact dif_pos h
  | _ => rfl

@[simp]
lemma PacketType.toByte_ofByte (b : UInt8) : (PacketType.ofByte b).toByte = b := by
  by_cases h : 10 < b
  · rw [ofByte, dif_pos h, toByte]
  · rw [ofByte, dif_neg h]
    have hle : b.toNat ≤ 10 := UInt8.le_iff_toNat_le.mp (UInt8.not_lt.mp h)
    have hval : UInt8.ofNat b.toNat = b := UInt8.ofNat_toNat
    generalize b.toNat = n at hle hval
    subst hval
    interval_cases n <;> rfl

lemma crc32Update_append (crc : UInt32) (p q : Bytes) :
    crc32Update crc (p ++ q) = crc32Update (crc32Update crc p) q :=
  List.foldl_append

namespace PacketCodec

/-- The checksum `encode` writes for these header fields and this payload. -/
def checksumOf (front payload : Bytes) : UInt32 :=
  crc32Update 0xFFFFFFFF (front ++ List.replicate 4 0 ++ payload) ^^^ 0xFFFFFFFF

/-- The header bytes in front of the checksum. -/
def frontOf (header : PacketHeader) : Bytes :=
  put32 header.magic ++ [header.version, header.type.toByte] ++ put16 header.flags
    ++ put32 header.clientId ++ put64 header.sessionId ++ put32 header.sequence
    ++ put32 header.acknowledgment ++ put32 header.messageId ++ put16 header.fragmentIndex
    ++ put16 header.fragmentCount ++ put16 header.payloadSize ++ put16 header.reserved
    ++ put32 header.tick

lemma encodeHeaderTo_eq (header : PacketHeader) :
    encodeHeaderTo header = frontOf header ++ put32 0 := rfl

lemma length_frontOf (header : PacketHeader) : (frontOf header).length = 44 := by
  simp only [frontOf, List.length_append, length_put32, length_put16, length_put64,
    List.length_cons, List.length_nil]

variable {payload a q : Bytes} {header : PacketHeader}

lemma finalizeCrc_eq {front : Bytes} (hfront : front.length = 44) (checksum : UInt32) :
    finalizeCrc (front ++ put32 checksum ++ payload) =
      front ++ put32 (checksumOf front payload) ++ payload := by
  have hlen : (front ++ put32 checksum).length = kHeaderSize := by
    rw [List.length_append, hfront, length_put32, kHeaderSize]
  have htake : (front ++ put32 checksum ++ payload).take 44 = front := by
    rw [List.append_assoc]
    exact List.take_left' hfront
  rw [finalizeCrc, if_neg (by rw [List.length_append, hlen]; omega)]
  simp only [htake, List.drop_left' hlen]
  rfl

lemma encode_eq (header : PacketHeader) (payload : Bytes) :
    encode header payload =
      frontOf header ++ put32 (checksumOf (frontOf header) payload) ++ payload := by
  rw [encode, encodeHeaderTo_eq, finalizeCrc_eq (length_frontOf header)]

/-- The header that `decode` reads from the first 48 bytes. -/
def headerOf (p : Bytes) : PacketHeader where
  magic := get32 p 0
  version := p.getD 4 0
  type := .ofByte (p.getD 5 0)
  flags := get16 p 6
  clientId := get32 p 8
  sessionId := get64 p 12
  sequence := get32 p 20
  acknowledgment := get32 p 24
  messageId := get32 p 28
  fragmentIndex := get16 p 32
  fragmentCount := get16 p 34
  payloadSize := get16 p 36
  reserved := get16 p 38
  tick := get32 p 40
  checksum := get32 p 44

/-- What `decode` accepts. -/
lemma decode_eq_some_iff {p : Bytes} :
    decode p = some (header, payload) ↔
      header = headerOf p ∧ payload = (p.drop kHeaderSize).take header.payloadSize.toNat ∧
        header.magic = kMagic ∧ header.version = kVersion ∧
        kHeaderSize + header.payloadSize.toNat ≤ p.length ∧
        checksumOf (p.take 44) payload = header.checksum := by
  have hcrc : ∀ q, crc32Update (crc32Update (crc32Update 0xFFFFFFFF (p.take 44))
      (List.replicate 4 0)) q ^^^ 0xFFFFFFFF = checksumOf (p.take 44) q := fun q => by
    rw [← crc32Update_append, ← crc32Update_append, ← List.append_assoc]
    rfl
  unfold decode
  simp only [hcrc]
  constructor
  · intro h
    split_ifs at h with hlen hmagic hversion hsize hsum
    obtain ⟨rfl, rfl⟩ := Prod.mk.inj (Option.some.inj h)
    exact ⟨rfl, rfl, not_not.mp hmagic, not_not.mp hversion, not_lt.mp hsize, not_not.mp hsum⟩
  · rintro ⟨rfl, rfl, hmagic, hversion, hsize, hsum⟩
    have hlen : ¬ p.length < kHeaderSize := by omega
    refine (if_neg hlen).trans ((if_neg (not_not.mpr hmagic)).trans
      ((if_neg (not_not.mpr hversion)).trans ((if_neg (not_lt.mpr hsize)).trans
        (if_neg (not_not.mpr hsum)))))

lemma get32_skip {n : ℕ} (h : a.length ≤ n) : get32 (a ++ q) n = get32 q (n - a.length) := by
  obtain ⟨k, rfl⟩ := Nat.exists_eq_add_of_le h
  simp only [get32, loadLe32, add_assoc, getD_append_length, Nat.add_sub_cancel_left]

lemma get16_skip {n : ℕ} (h : a.length ≤ n) : get16 (a ++ q) n = get16 q (n - a.length) := by
  obtain ⟨k, rfl⟩ := Nat.exists_eq_add_of_le h
  simp only [get16, loadLe16, add_assoc, getD_append_length, Nat.add_sub_cancel_left]

lemma get64_skip {n : ℕ} (h : a.length ≤ n) : get64 (a ++ q) n = get64 q (n - a.length) := by
  rw [get64, get64, get32_skip h, get32_skip (by omega), Nat.sub_add_comm h]

/-- The fields of a header read back. -/
lemma headerOf_append (header : PacketHeader) (checksum : UInt32) (rest : Bytes) :
    headerOf (frontOf header ++ put32 checksum ++ rest) = { header with checksum } := by
  have hread32 : ∀ v q, get32 (put32 v ++ q) 0 = v := fun v q => get32_put32 [] q v
  have hread16 : ∀ v q, get16 (put16 v ++ q) 0 = v := fun v q => get16_put16 [] q v
  have hread64 : ∀ v q, get64 (put64 v ++ q) 0 = v := fun v q => get64_put64 [] q v
  have hversion : (frontOf header ++ put32 checksum ++ rest).getD 4 0 = header.version := by
    simp only [frontOf, List.append_assoc]
    exact getD_append_length (put32 header.magic) _ 0
  have htype : (frontOf header ++ put32 checksum ++ rest).getD 5 0 = header.type.toByte := by
    simp only [frontOf, List.append_assoc]
    exact getD_append_length (put32 header.magic) _ 1
  rw [headerOf, hversion, htype, PacketType.ofByte_toByte]
  -- each offset is the length of what stands in front of the field
  simp (disch := exact of_decide_eq_true rfl) only [frontOf, List.append_assoc,
    get32_skip, get16_skip, get64_skip, length_put32, length_put16, length_put64, List.length_cons,
    List.length_nil, Nat.reduceAdd, Nat.reduceSub, hread32, hread16, hread64]

/-- The bytes in front of the checksum are written back as they were read. -/
lemma frontOf_headerOf {p : Bytes} (h : kHeaderSize ≤ p.length) :
    frontOf (headerOf p) = p.take 44 := by
  have hpair : [p.getD 4 0, p.getD 5 0] = (p.drop 4).take 2 := by
    rw [kHeaderSize] at h
    rw [take_drop_succ p (by omega), take_drop_succ p (by omega), List.take_zero]
  rw [kHeaderSize] at h
  simp (disch := omega) only [frontOf, headerOf, PacketType.toByte_ofByte, hpair, put32_get32,
    put16_get16, put64_get64]
  rw [List.drop_zero]
  simp only [← List.take_add, Nat.reduceAdd]

lemma length_encode (header : PacketHeader) (payload : Bytes) :
    (encode header payload).length = kHeaderSize + payload.length := by
  rw [encode_eq, List.length_append, List.length_append, length_frontOf, length_put32, kHeaderSize]

lemma decode_encode (header : PacketHeader) (payload : Bytes) (hmagic : header.magic = kMagic)
    (hversion : header.version = kVersion) (hsize : header.payloadSize.toNat = payload.length) :
    ∃ checksum, decode (encode header payload) = some ({ header with checksum }, payload) := by
  refine ⟨checksumOf (frontOf header) payload, decode_eq_some_iff.mpr ?_⟩
  have htake : (encode header payload).take 44 = frontOf header := by
    rw [encode_eq, List.append_assoc]
    exact List.take_left' (length_frontOf header)
  refine ⟨?_, ?_, hmagic, hversion, ?_, ?_⟩
  · rw [encode_eq, headerOf_append]
  · rw [drop_encode, hsize, List.take_length]
  · rw [hsize, length_encode]
  · rw [htake]

lemma encode_decode {datagram : Bytes} (h : decode datagram = some (header, payload)) :
    encode header payload = datagram.take (kHeaderSize + header.payloadSize.toNat) := by
  obtain ⟨rfl, rfl, -, -, hlen, hsum⟩ := decode_eq_some_iff.mp h
  have hheader : kHeaderSize ≤ datagram.length := by omega
  have hfield : put32 (headerOf datagram).checksum = (datagram.drop 44).take 4 :=
    put32_get32 (by rw [kHeaderSize] at hheader; omega)
  rw [encode_eq, frontOf_headerOf hheader, hsum, hfield, ← List.take_add,
    show 44 + 4 = kHeaderSize from rfl, ← List.take_add]

/-- Decoding undoes encoding, but for the checksum, and encoding undoes decoding, but for what
stands behind the payload. -/
theorem codec_round_trip :
    (∀ (header : PacketHeader) (payload : Bytes), header.magic = kMagic →
      header.version = kVersion →
        header.payloadSize.toNat = payload.length →
        ∃ checksum, decode (encode header payload) = some ({ header with checksum }, payload)) ∧
      ∀ (datagram : Bytes) (header : PacketHeader) (payload : Bytes),
        decode datagram = some (header, payload) →
        encode header payload = datagram.take (kHeaderSize + header.payloadSize.toNat) :=
  ⟨decode_encode, fun _ _ _ => encode_decode⟩

/-- A datagram with one byte of payload, there and back. -/
theorem codec_round_trip_byte :
    ∃ checksum,
      decode (encode { magic := kMagic, version := kVersion, payloadSize := 1 } [7]) =
        some ({ magic := kMagic, version := kVersion, payloadSize := 1, checksum }, [7]) ∧
      encode { magic := kMagic, version := kVersion, payloadSize := 1, checksum } [7] =
        (encode { magic := kMagic, version := kVersion, payloadSize := 1 } [7]).take
          (kHeaderSize + 1) := by
  obtain ⟨checksum, hdecode⟩ := codec_round_trip.1
    { magic := kMagic, version := kVersion, payloadSize := 1 } [7] rfl rfl rfl
  exact ⟨checksum, hdecode, codec_round_trip.2 _ _ _ hdecode⟩

end PacketCodec
end Damen
