import Damen.Properties.AuthenticatedEncryption
import Damen.Properties.Codec
import Damen.Properties.Dispatch

/-!
# The encrypted round trip

A packet that `build_wire_packet` encrypts comes back from `PacketCodec::decode` and
`decrypt_payload` at a receiver with the same session key (`secure_round_trip`).  The additional
data are the first 44 header bytes: the sender has them in the datagram, the receiver encodes the
decoded header again.  Both are `frontOf` of one header, and so is the nonce.

The cipher enters by two facts that hold for any key schedule: counter mode keeps the length and
undoes itself (`aes256GcmCrypt_aes256GcmCrypt`), and the tag is computed from the ciphertext in both
directions.
-/

namespace Damen
namespace Crypto

/-! ## AES-256-GCM undoes itself -/

lemma length_aes256GcmCrypt (w : List UInt32) (j0 : Block) (text : Bytes) :
    (aes256GcmCrypt w j0 text).length = text.length := by
  rw [aes256GcmCrypt_eq, Sp80038D.length_gctr]

lemma aes256GcmCrypt_aes256GcmCrypt (w : List UInt32) (j0 : Block) (text : Bytes) :
    aes256GcmCrypt w j0 (aes256GcmCrypt w j0 text) = text := by
  rw [aes256GcmCrypt_eq, aes256GcmCrypt_eq, Sp80038D.gctr_gctr]

lemma length_aes256GcmEncrypt (key nonce aad plaintext : Bytes) :
    (aes256GcmEncrypt key nonce aad plaintext).1.length = plaintext.length ∧
      (aes256GcmEncrypt key nonce aad plaintext).2.length = 16 :=
  ⟨length_aes256GcmCrypt _ _ plaintext, Vector.length_toList⟩

/-- What was encrypted with a key, nonce and additional data is decrypted with them. -/
lemma aes256GcmDecrypt_aes256GcmEncrypt (key nonce aad plaintext : Bytes) :
    aes256GcmDecrypt key nonce aad (aes256GcmEncrypt key nonce aad plaintext).1
      (aes256GcmEncrypt key nonce aad plaintext).2 = some plaintext := by
  simp only [aes256GcmDecrypt, aes256GcmEncrypt, tagDiff_self, aes256GcmCrypt_aes256GcmCrypt, ne_eq,
    not_true_eq_false, if_false]

end Crypto

namespace Transport

open PacketCodec

lemma additionalData_eq (header : PacketHeader) : additionalData header = frontOf header := by
  rw [additionalData, encodeHeaderTo_eq]
  exact List.take_left' (length_frontOf header)

/-- Taking the mark of an encrypted payload off again leaves the bits below it. -/
lemma flags_unmarked (flags : UInt16) :
    (flags ||| kFlagEncrypted) &&& ~~~kFlagEncrypted = flags &&& ~~~kFlagEncrypted := by
  apply UInt16.eq_of_toBitVec_eq
  apply BitVec.eq_of_getLsbD_eq
  intro i hi
  simp only [kFlagEncrypted, UInt16.toBitVec_and, UInt16.toBitVec_or, UInt16.toBitVec_not,
    UInt16.toBitVec_ofNat, BitVec.getLsbD_and, BitVec.getLsbD_or, BitVec.getLsbD_not]
  interval_cases i <;> simp [-BitVec.getLsbD_eq_getElem]

lemma toNat_flags_unmarked (flags : UInt16) :
    (flags &&& ~~~kFlagEncrypted).toNat = flags.toNat % 32768 := by
  have hmask : (~~~kFlagEncrypted).toNat = 2 ^ 15 - 1 := by decide
  rw [UInt16.toNat_and, hmask, Nat.and_two_pow_sub_one_eq_mod]

/-- Flags below the mark are not touched by it. -/
lemma flags_below {flags : UInt16} (h : flags < 0x8000) : flags &&& ~~~kFlagEncrypted = flags := by
  apply UInt16.toNat_inj.mp
  rw [toNat_flags_unmarked]
  exact Nat.mod_eq_of_lt h

/-- The header of an encrypted datagram. -/
def wireHeader (header : PacketHeader) (payload : Bytes) : PacketHeader :=
  { header with
    flags := header.flags ||| kFlagEncrypted
    payloadSize := UInt16.ofNat (payload.length + kGcmTagSize) }

variable {payload : Bytes} {me : Local} {peer : Peer} {header : PacketHeader} {acts : List Action}

lemma toNat_wireHeader_payloadSize (header : PacketHeader) (h : payload.length + 16 ≤ 65535) :
    (wireHeader header payload).payloadSize.toNat = payload.length + 16 :=
  UInt16.toNat_ofNat_of_lt' (show payload.length + 16 < 65536 by omega)

/-- An encrypted datagram is the encoding of its header with ciphertext and tag. -/
lemma buildWirePacket_encrypted (cs : CryptoSuite) (header : PacketHeader)
    (henc : me.config.encryptionEnabled = true) (hready : peer.cryptoReady = true)
    (hlen : payload.length + 16 ≤ 65535) {wire : PacketHeader}
    (hwire : wireHeader header payload = wire) {c : Bytes × Bytes}
    (hc : cs.aes256GcmEncrypt peer.cryptoKey (buildNonce wire) (frontOf wire) payload = c) :
    buildWirePacket cs me peer header payload =
      .ok (encode wire (c.1 ++ c.2),
        [.encrypt peer.cryptoKey (buildNonce wire) (frontOf wire) payload]) := by
  have hsize : ¬ wire.payloadSize.toNat < payload.length + kGcmTagSize := by
    rw [← hwire, toNat_wireHeader_payloadSize header hlen, kGcmTagSize]
    omega
  have hopen : buildWirePacket cs me peer header payload =
      if wire.payloadSize.toNat < payload.length + kGcmTagSize then .error .overrun
      else .ok (finalizeCrc (encodeHeaderTo wire
          ++ (cs.aes256GcmEncrypt peer.cryptoKey (buildNonce wire) (additionalData wire) payload).1
          ++ (cs.aes256GcmEncrypt peer.cryptoKey (buildNonce wire)
            (additionalData wire) payload).2),
        [.encrypt peer.cryptoKey (buildNonce wire) (additionalData wire) payload]) := by
    subst hwire
    exact if_pos (by rw [henc, hready]; rfl)
  rw [hopen, if_neg hsize, additionalData_eq, hc, encode, List.append_assoc]

/-- The datagrams that are enqueued. -/
def enqueued (acts : List Action) : List Bytes :=
  acts.filterMap fun
    | .enqueue datagram => some datagram
    | _ => none

@[simp]
lemma enqueued_append (acts acts' : List Action) :
    enqueued (acts ++ acts') = enqueued acts ++ enqueued acts' := List.filterMap_append

lemma enqueued_buildWirePacket {cs : CryptoSuite} {datagram : Bytes}
    (h : buildWirePacket cs me peer header payload = .ok (datagram, acts)) :
    enqueued acts = [] := by
  obtain ⟨wire, body, -, ⟨-, rfl⟩ | ⟨-, rfl⟩⟩ := buildWirePacket_cases h
  · rfl
  · rfl

/-- The header that stands in front of a datagram, encrypted or not. -/
lemma headerOf_buildWirePacket {cs : CryptoSuite} {datagram : Bytes}
    (h : buildWirePacket cs me peer header payload = .ok (datagram, acts)) :
    ∃ payloadSize flags checksum,
      headerOf datagram = { header with payloadSize, flags, checksum } := by
  have hread : ∀ (wire : PacketHeader) (body : Bytes),
      headerOf (finalizeCrc (encodeHeaderTo wire ++ body)) =
        { wire with checksum := checksumOf (frontOf wire) body } := by
    intro wire body
    rw [encodeHeaderTo_eq, finalizeCrc_eq (length_frontOf wire), headerOf_append]
  obtain ⟨wire, body, hdatagram, hwire⟩ := buildWirePacket_cases h
  rw [hdatagram, hread]
  rcases hwire with ⟨rfl, -⟩ | ⟨rfl, -⟩
  · exact ⟨_, _, _, rfl⟩
  · exact ⟨_, _, _, rfl⟩

/-- An encrypted packet is restored by a receiver with the same key, but for the topmost bit of its
flags, which marked it. -/
lemma encrypted_round_trip (x25519 : Bytes → Bytes → Option Bytes)
    (hkdfSha256 : Bytes → Bytes → Bytes → Bytes) {sender receiver : Peer}
    (henc : me.config.encryptionEnabled = true) (hsender : sender.cryptoReady = true)
    (hreceiver : receiver.cryptoReady = true) (hkey : receiver.cryptoKey = sender.cryptoKey)
    (hmagic : header.magic = kMagic) (hversion : header.version = kVersion)
    (hsize : header.payloadSize.toNat = payload.length) (hlen : payload.length + 16 ≤ 65535) :
    ∃ datagram acts wire body checksum,
      buildWirePacket (.ofGcm x25519 hkdfSha256) me sender header payload = .ok (datagram, acts) ∧
        decode datagram = some (wire, body) ∧ wire.flags = header.flags ||| kFlagEncrypted ∧
        decryptPayload (.ofGcm x25519 hkdfSha256) receiver wire body =
          some ({ header with flags := header.flags &&& ~~~kFlagEncrypted, checksum },
            payload) := by
  generalize hwire : wireHeader header payload = wire
  generalize hc : Crypto.aes256GcmEncrypt sender.cryptoKey (buildNonce wire)
    (frontOf wire) payload = c
  have hbuild :=
    buildWirePacket_encrypted (.ofGcm x25519 hkdfSha256) header henc hsender hlen hwire hc
  have hlengths := Crypto.length_aes256GcmEncrypt sender.cryptoKey (buildNonce wire) (frontOf wire)
    payload
  have hopen := Crypto.aes256GcmDecrypt_aes256GcmEncrypt sender.cryptoKey (buildNonce wire)
    (frontOf wire) payload
  rw [hc] at hlengths hopen
  have hbody : (c.1 ++ c.2).length = payload.length + 16 := by
    rw [List.length_append, hlengths.1, hlengths.2]
  have hwiresize := toNat_wireHeader_payloadSize header hlen
  rw [hwire] at hwiresize
  obtain ⟨checksum, hdecode⟩ := decode_encode wire (c.1 ++ c.2)
    (by rw [← hwire]; exact hmagic) (by rw [← hwire]; exact hversion) (by rw [hwiresize, hbody])
  refine ⟨_, _, _, _, checksum, hbuild, hdecode, by rw [← hwire]; rfl, ?_⟩
  have hct : (c.1 ++ c.2).length - kGcmTagSize = c.1.length := by
    rw [hbody, hlengths.1, kGcmTagSize]
    omega
  have htake : (c.1 ++ c.2).take c.1.length = c.1 := List.take_left' rfl
  have hdrop : (c.1 ++ c.2).drop c.1.length = c.2 := List.drop_left' rfl
  rw [decryptPayload, if_neg (not_not.mpr hreceiver),
    if_neg (by rw [hbody, kGcmTagSize]; omega)]
  -- nonce and additional data do not depend on the checksum
  have hnonce : buildNonce { wire with checksum } = buildNonce wire := rfl
  have haad : additionalData { wire with checksum } = frontOf wire := additionalData_eq _
  have hrestored : { { wire with checksum } with
      payloadSize := UInt16.ofNat c.1.length
      flags := wire.flags &&& ~~~kFlagEncrypted } =
        { header with flags := header.flags &&& ~~~kFlagEncrypted, checksum } := by
    rw [hlengths.1, ← hsize, UInt16.ofNat_toNat, ← hwire]
    simp only [wireHeader, flags_unmarked]
  simp only [hct, htake, hdrop, hkey, hnonce, haad, CryptoSuite.ofGcm, hopen]
  rw [hrestored]

/-- Whatever the key exchange is: an encrypted packet is restored by a receiver with the same
key. -/
theorem secure_round_trip (x25519 : Bytes → Bytes → Option Bytes)
    (hkdfSha256 : Bytes → Bytes → Bytes → Bytes) (me : Local) (sender receiver : Peer)
    (henc : me.config.encryptionEnabled = true) (hsender : sender.cryptoReady = true)
    (hreceiver : receiver.cryptoReady = true) (hkey : receiver.cryptoKey = sender.cryptoKey)
    (header : PacketHeader) (payload : Bytes)
    (_htype : header.type = .data ∨ header.type = .parity ∨ header.type = .command)
    (hmagic : header.magic = kMagic) (hversion : header.version = kVersion)
    (hflags : header.flags < 0x8000) (hsize : header.payloadSize.toNat = payload.length)
    (hlen : payload.length + 16 ≤ 65535) :
    ∃ datagram acts wire body checksum,
      buildWirePacket (.ofGcm x25519 hkdfSha256) me sender header payload = .ok (datagram, acts) ∧
        decode datagram = some (wire, body) ∧
        decryptPayload (.ofGcm x25519 hkdfSha256) receiver wire body =
          some ({ header with checksum }, payload) := by
  obtain ⟨datagram, acts, wire, body, checksum, hbuild, hdecode, -, hopen⟩ :=
    encrypted_round_trip x25519 hkdfSha256 henc hsender hreceiver hkey hmagic hversion hsize hlen
  rw [flags_below hflags] at hopen
  exact ⟨datagram, acts, wire, body, checksum, hbuild, hdecode, hopen⟩

/-- One byte of data, encrypted and restored. -/
theorem secure_round_trip_byte :
    ∃ datagram acts wire body checksum,
      buildWirePacket (.ofGcm (fun _ _ => none) fun _ _ _ => []) {} { cryptoReady := true }
          { magic := kMagic, version := kVersion, type := .data, payloadSize := 1 } [7] =
        .ok (datagram, acts) ∧
      decode datagram = some (wire, body) ∧
      decryptPayload (.ofGcm (fun _ _ => none) fun _ _ _ => []) { cryptoReady := true } wire body =
        some ({ magic := kMagic, version := kVersion, type := .data, payloadSize := 1, checksum },
          [7]) :=
  secure_round_trip (fun _ _ => none) (fun _ _ _ => []) {} { cryptoReady := true }
    { cryptoReady := true } rfl rfl rfl rfl
    { magic := kMagic, version := kVersion, type := .data,
      payloadSize := 1 } [7] (Or.inl rfl) rfl rfl
    (by decide) rfl (by decide)

end Transport
end Damen
