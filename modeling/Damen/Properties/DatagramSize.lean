import Damen.Properties.InOrder

/-!
# The size of a datagram

A datagram has the 48 bytes of its header, the payload and, if it is encrypted, the tag of 16 bytes
(`exists_buildWirePacket`).  The payload of a fragment fills what the MTU leaves behind the header,
and `send_command` accepts a payload up to that size; neither leaves room for the tag.  A fragment
of an MTU that leaves at most four bytes has 64.

`datagrams_within_mtu_iff`: a packet of a message fits the MTU exactly if it is not encrypted and
the MTU is above 52, and a command exactly if it leaves room for its tag.  In both cases the payload
must not exceed the 16 bits of its size field.
-/

namespace Damen
namespace Transport

open Fragmenter PacketCodec

/-- The bytes of the tag, if the datagrams for the peer are encrypted. -/
def tagSize (me : Local) (peer : Peer) : ℕ :=
  if me.config.encryptionEnabled && peer.cryptoReady then kGcmTagSize else 0

/-- `build_wire_packet` stays in its buffer, and the datagram has at most `mtu` bytes. -/
def WithinMtu (cs : CryptoSuite) (me : Local) (peer : Peer) (packet : PacketHeader × Bytes) :
    Prop :=
  ∃ datagram acts, buildWirePacket cs me peer packet.1 packet.2 = .ok (datagram, acts) ∧
    datagram.length ≤ me.config.mtu

section Size

variable (x25519 : Bytes → Bytes → Option Bytes) (hkdfSha256 : Bytes → Bytes → Bytes → Bytes)
  {me : Local} {peer : Peer}

variable {header : PacketHeader}

lemma exists_buildWirePacket {payload : Bytes}
    (hsize : header.payloadSize = UInt16.ofNat payload.length)
    (hfits : payload.length + tagSize me peer ≤ 65535) :
    ∃ datagram acts,
      buildWirePacket (.ofGcm x25519 hkdfSha256) me peer header payload = .ok (datagram, acts) ∧
        datagram.length = kHeaderSize + payload.length + tagSize me peer := by
  unfold tagSize at hfits ⊢
  cases henc : me.config.encryptionEnabled && peer.cryptoReady with
  | true =>
      obtain ⟨henabled, hready⟩ := Bool.and_eq_true_iff.mp henc
      rw [henc, if_pos rfl] at hfits
      refine ⟨_, _, buildWirePacket_encrypted _ header henabled hready hfits rfl rfl, ?_⟩
      obtain ⟨hcipher, htag⟩ := Crypto.length_aes256GcmEncrypt peer.cryptoKey
        (buildNonce (wireHeader header payload)) (frontOf (wireHeader header payload)) payload
      simp only [CryptoSuite.ofGcm, length_encode, List.length_append, hcipher, htag,
        if_true, kGcmTagSize]
      omega
  | false =>
      rw [henc, if_neg Bool.false_ne_true] at hfits
      have hlength : header.payloadSize.toNat = payload.length := by
        rw [hsize]
        exact UInt16.toNat_ofNat_of_lt' (show payload.length < 65536 by omega)
      refine ⟨_, _, buildWirePacket_plain _ henc hlength, ?_⟩
      rw [length_encode, if_neg Bool.false_ne_true, add_zero]

/-- The size of a datagram that was built. -/
lemma length_of_buildWirePacket {payload datagram : Bytes} {acts : List Action}
    (hsize : header.payloadSize = UInt16.ofNat payload.length)
    (h : buildWirePacket (.ofGcm x25519 hkdfSha256) me peer header payload = .ok (datagram, acts)) :
    payload.length + tagSize me peer ≤ 65535 ∧
      datagram.length = kHeaderSize + payload.length + tagSize me peer := by
  have hfits : payload.length + tagSize me peer ≤ 65535 := by
    obtain ⟨hplain, hencrypted⟩ := length_le_of_buildWirePacket hsize h
    unfold tagSize
    split
    · next henc => exact hencrypted henc
    · exact hplain
  obtain ⟨datagram', acts', hbuild, hlength⟩ := exists_buildWirePacket x25519 hkdfSha256 hsize hfits
  obtain ⟨rfl, -⟩ := Prod.mk.inj (Except.ok.inj (h.symm.trans hbuild))
  exact ⟨hfits, hlength⟩

/-- Header, payload and tag have to fit the MTU, and payload and tag the size field. -/
lemma withinMtu_iff {packet : PacketHeader × Bytes}
    (hsize : packet.1.payloadSize = UInt16.ofNat packet.2.length) :
    WithinMtu (.ofGcm x25519 hkdfSha256) me peer packet ↔
      packet.2.length + tagSize me peer ≤ 65535 ∧
        kHeaderSize + packet.2.length + tagSize me peer ≤ me.config.mtu := by
  constructor
  · rintro ⟨datagram, acts, hbuild, hmtu⟩
    obtain ⟨hfits, hlength⟩ := length_of_buildWirePacket x25519 hkdfSha256 hsize hbuild
    exact ⟨hfits, hlength ▸ hmtu⟩
  · rintro ⟨hsize', hmtu⟩
    obtain ⟨datagram, acts, hbuild, hlength⟩ :=
      exists_buildWirePacket x25519 hkdfSha256 hsize hsize'
    exact ⟨datagram, acts, hbuild, hlength ▸ hmtu⟩

end Size

/-- The packet of a fragment has the width of the fragment. -/
lemma registerDataPacket_size (me : Local) (clock : Clock) (peer : Peer) (frag : Fragment) :
    (registerDataPacket me clock peer frag).2.1.payloadSize =
        UInt16.ofNat (registerDataPacket me clock peer frag).2.2.length ∧
      (registerDataPacket me clock peer frag).2.2.length = frag.width :=
  ⟨rfl, ReedSolomon.length_resize frag.data frag.width⟩

lemma width_of_mem_fragmentAndSend {peer : Peer} {payload : Bytes} {mtu : ℕ} {buffers : List Bytes}
    {frag : Fragment} (h : frag ∈ (fragmentAndSend peer payload mtu buffers).2.1) :
    frag.width = fragPayload mtu := by
  obtain ⟨i, hi⟩ := List.mem_iff_getElem?.mp h
  exact (numbered_fragmentsOf hi).width

/-- A message of one byte has fragments. -/
lemma fragments_ne_nil : (fragmentAndSend {} [7] 1350 []).2.1 ≠ [] := by
  intro hnil
  have hdata := (List.append_eq_nil_iff.mp hnil).1
  exact absurd (congrArg List.length hdata) (by decide)

/-- When the datagrams of a message and of a command fit the MTU, whatever the peer is like when the
fragments are cut, numbered and sent. -/
theorem datagrams_within_mtu_iff (x25519 : Bytes → Bytes → Option Bytes)
    (hkdfSha256 : Bytes → Bytes → Bytes → Bytes) (ep : Endpoint)
    (hmtu : kHeaderSize < ep.config.mtu) :
    (∀ payload, payload.length ≤ maxMessageBytes ep.config →
      ∀ sender buffers, ∀ frag ∈ (fragmentAndSend sender payload ep.config.mtu buffers).2.1,
        ∀ clock numbering peer,
          WithinMtu (.ofGcm x25519 hkdfSha256) ep.toLocal peer
              (registerDataPacket ep.toLocal clock numbering frag).2 ↔
            tagSize ep.toLocal peer = 0 ∧ 52 < ep.config.mtu ∧ ep.config.mtu ≤ 65583) ∧
    ∀ id payload key peer, payload.length ≤ ep.config.mtu - kHeaderSize →
      findPeer ep id = some (key, peer) → peer.state = .online → ∀ clock,
        (WithinMtu (.ofGcm x25519 hkdfSha256) ep.toLocal
          { peer with cmdSeqOut := peer.cmdSeqOut + 1 }
            (commandHeader ep.toLocal clock peer payload, payload) ↔
          payload.length + tagSize ep.toLocal peer ≤ min 65535 (ep.config.mtu - kHeaderSize)) := by
  have htag : ∀ peer, tagSize ep.toLocal peer = 0 ∨ tagSize ep.toLocal peer = 16 := by
    intro peer
    unfold tagSize
    split
    · exact Or.inr rfl
    · exact Or.inl rfl
  rw [kHeaderSize] at hmtu
  constructor
  · intro payload _ sender buffers frag hfrag clock numbering peer
    obtain ⟨hsize, hlength⟩ := registerDataPacket_size ep.toLocal clock numbering frag
    have hwidth := width_of_mem_fragmentAndSend hfrag
    rw [withinMtu_iff x25519 hkdfSha256 hsize, hlength, hwidth, fragPayload, kHeaderSize]
    have htag := htag peer
    split_ifs <;> omega
  · intro id payload key peer _ _ _ clock
    have hsize : (commandHeader ep.toLocal clock peer payload).payloadSize =
        UInt16.ofNat payload.length := rfl
    have hsame : tagSize ep.toLocal { peer with cmdSeqOut := peer.cmdSeqOut + 1 } =
        tagSize ep.toLocal peer := rfl
    rw [withinMtu_iff x25519 hkdfSha256 hsize, hsame]
    simp only [kHeaderSize]
    omega

/-- Without encryption, a fragment of one byte fits. -/
theorem datagrams_within_mtu_plain :
    ∃ frag ∈ (fragmentAndSend {} [7] 1350 []).2.1,
      WithinMtu (.ofGcm (fun _ _ => none) fun _ _ _ => []) ({} : Endpoint).toLocal {}
        (registerDataPacket ({} : Endpoint).toLocal ⟨0, 0⟩ {} frag).2 := by
  obtain ⟨frag, hfrag⟩ := List.exists_mem_of_ne_nil _ fragments_ne_nil
  refine ⟨frag, hfrag, ?_⟩
  exact ((datagrams_within_mtu_iff (fun _ _ => none) (fun _ _ _ => []) {} (by decide)).1
    [7] (by decide) {} [] frag hfrag ⟨0, 0⟩ {} {}).mpr (by decide)

/-- With encryption, a fragment of one byte is sent in 1366 bytes under the default MTU of 1350. -/
theorem datagram_exceeds_mtu :
    ({} : TightConfig).mtu = 1350 ∧
      ∃ frag ∈ (fragmentAndSend {} [7] 1350 []).2.1, ∃ datagram acts,
        buildWirePacket (.ofGcm (fun _ _ => none) fun _ _ _ => []) {} { cryptoReady := true }
            (registerDataPacket {} ⟨0, 0⟩ { cryptoReady := true } frag).2.1
            (registerDataPacket {} ⟨0, 0⟩ { cryptoReady := true } frag).2.2 = .ok (datagram, acts) ∧
          datagram.length = 1366 := by
  refine ⟨rfl, ?_⟩
  obtain ⟨frag, hfrag⟩ := List.exists_mem_of_ne_nil _ fragments_ne_nil
  obtain ⟨hsize, hlength⟩ :=
    registerDataPacket_size {} ⟨0, 0⟩ { cryptoReady := true } frag
  rw [width_of_mem_fragmentAndSend hfrag] at hlength
  have htag : tagSize {} { cryptoReady := true } = 16 := rfl
  have hwidth : fragPayload 1350 = 1302 := by decide
  obtain ⟨datagram, acts, hbuild, hdatagram⟩ := exists_buildWirePacket (fun _ _ => none)
    (fun _ _ _ => []) hsize (by rw [hlength, hwidth, htag]; decide)
  refine ⟨frag, hfrag, datagram, acts, hbuild, ?_⟩
  rw [hdatagram, hlength, hwidth, htag]
  rfl

end Transport
end Damen
