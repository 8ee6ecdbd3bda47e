import Damen.Model.DataPath
import Damen.Properties.DataNonce
import Damen.Properties.Message
import Damen.Properties.PacketSeries
import Damen.Properties.SecureWire

/-!
# Every fragment in order and without loss

`send` takes any message of up to `max_message_bytes()` bytes.  Its fragments are as wide as the MTU
allows, and the MTU is not checked; the number of fragments and the number of data fragments are cut
to 16 bits, and of the latter the topmost bit is lost to the mark of an encrypted payload.  The
receiver in turn takes no message of more than `max_message_bytes() / 64 + 8` fragments, which
assumes that a fragment has 64 bytes; an MTU between 53 and 111 makes it shorter than that.

`accepted_delivered_iff` says where the limits agree: if all fragments of a message reach
`handle_data` in order, the message is delivered once and whole exactly when it has at most 32768
data fragments and no more fragments than the receiver takes.  `Reaches.conveys` says what
`handle_data` is given for a fragment that went through `build_wire_packet`, `decode` and
`decrypt_payload`; the packets of a message are then a series whose data count falls short of the
sender's exactly above 32768.
-/

namespace Damen

/-! ## The fragments of a message -/

namespace Fragmenter

/-- What is in fragment `i` of a message: its number, the counts, and if it is a data fragment its
stretch of the stream and the length of that. -/
structure Numbered (id : UInt32) (payload : Bytes) (w total i : ℕ) (frag : Fragment) : Prop where
  msgId : frag.msgId = id
  idx : frag.idx = UInt16.ofNat i
  cnt : frag.cnt = UInt16.ofNat total
  dataCnt : frag.dataCnt = UInt16.ofNat (dataCountOf payload w)
  width : frag.width = w
  realSize_le : frag.realSize.toNat ≤ w
  data : i < dataCountOf payload w →
    frag.data = ((fullStream payload).drop (i * w)).take w ∧
      frag.realSize = UInt16.ofNat frag.data.length

lemma numbered_fragmentsOf {id : UInt32} {payload : Bytes} {mtu : ℕ} {parityCount : UInt16}
    {buffers : List Bytes} {i : ℕ} {frag : Fragment}
    (h : (fragmentsOf id payload mtu parityCount buffers).1[i]? = some frag) :
    Numbered id payload (fragPayload mtu)
      (dataCountOf payload (fragPayload mtu) + parityCount.toNat) i frag := by
  have hsize : ∀ n ≤ fragPayload mtu, (UInt16.ofNat n).toNat ≤ fragPayload mtu := fun n hn =>
    (Nat.mod_le _ _).trans hn
  unfold fragmentsOf at h
  simp only at h
  by_cases hi : i < dataCountOf payload (fragPayload mtu)
  · rw [List.getElem?_append_left (by rwa [List.length_mapIdx, length_spans]), List.getElem?_mapIdx,
      spans, List.getElem?_map, List.getElem?_range hi] at h
    cases h
    exact ⟨rfl, rfl, rfl, rfl, rfl, hsize _ (List.length_take_le _ _), fun _ => ⟨rfl, rfl⟩⟩
  · rw [List.getElem?_append_right (by rw [List.length_mapIdx, length_spans]; omega),
      List.length_mapIdx, length_spans, List.getElem?_map, Option.map_eq_some_iff] at h
    obtain ⟨p, hp, rfl⟩ := h
    obtain ⟨hp, rfl⟩ := List.getElem?_eq_some_iff.mp hp
    rw [List.getElem_range]
    refine ⟨rfl, ?_, rfl, rfl, rfl, hsize _ le_rfl, fun hlt => absurd hlt hi⟩
    exact congrArg UInt16.ofNat (by omega)

end Fragmenter

namespace Transport

open Fragmenter Reassembler PacketCodec

/-! ## From the sender to `handle_data` -/

/-- The fragment is packed, put into a datagram, decoded and, if it was encrypted, decrypted, and is
then given to `handle_data`.  Both ends have the same key and agree on whether it is in use. -/
def Reaches (cs : CryptoSuite) (me : Local) (frag : Fragment) (a : Arrival) : Prop :=
  ∃ (sender receiver : Peer) (clock : Clock) (datagram : Bytes) (acts : List Action)
    (wire : PacketHeader) (body : Bytes),
    receiver.cryptoKey = sender.cryptoKey ∧
      receiver.cryptoReady = (me.config.encryptionEnabled && sender.cryptoReady) ∧
      buildWirePacket cs me sender (registerDataPacket me clock sender frag).2.1
        (registerDataPacket me clock sender frag).2.2 = .ok (datagram, acts) ∧
      decode datagram = some (wire, body) ∧ openPacket cs receiver wire body =
        some (a.header, a.payload)

/-- The arrival has the fields of the fragment, but for the topmost bit of the data count. -/
structure Conveys (frag : Fragment) (a : Arrival) : Prop where
  messageId : a.header.messageId = frag.msgId
  fragmentIndex : a.header.fragmentIndex = frag.idx
  fragmentCount : a.header.fragmentCount = frag.cnt
  flags : a.header.flags = frag.dataCnt &&& ~~~kFlagEncrypted
  reserved : a.header.reserved = frag.realSize
  payload : a.payload = ReedSolomon.resize frag.data frag.width
  width_le : frag.width ≤ 65535

variable {me : Local} {header : PacketHeader} {payload : Bytes}

lemma buildWirePacket_plain (cs : CryptoSuite) {peer : Peer}
    (hplain : (me.config.encryptionEnabled && peer.cryptoReady) = false)
    (hsize : header.payloadSize.toNat = payload.length) :
    buildWirePacket cs me peer header payload = .ok (encode header payload, []) := by
  unfold buildWirePacket
  rw [hplain, if_neg Bool.false_ne_true, if_neg (by omega), hsize, Nat.sub_self]
  simp only [List.replicate_zero, List.append_nil]
  rfl

/-- A size that is large enough for the buffer was not cut to 16 bits. -/
lemma length_le_of_buildWirePacket {cs : CryptoSuite} {peer : Peer} {datagram : Bytes}
    {acts : List Action} (hsize : header.payloadSize = UInt16.ofNat payload.length)
    (h : buildWirePacket cs me peer header payload = .ok (datagram, acts)) :
    payload.length ≤ 65535 ∧
      ((me.config.encryptionEnabled && peer.cryptoReady) = true → payload.length + 16 ≤ 65535) := by
  have hcut : ∀ n : ℕ, ¬ (UInt16.ofNat n).toNat < n → n ≤ 65535 := by
    intro n hn
    have hlt := (UInt16.ofNat n).toNat_lt
    omega
  unfold buildWirePacket at h
  simp only at h
  split at h
  · split at h
    · exact absurd h (by simp)
    · next hfits =>
      have hle := hcut _ hfits
      rw [kGcmTagSize] at hle
      exact ⟨by omega, fun _ => hle⟩
  · next hplain =>
    split at h
    · exact absurd h (by simp)
    · next hfits =>
      rw [hsize] at hfits
      exact ⟨hcut _ hfits, fun henc => absurd henc hplain⟩

lemma marked_ne_zero (flags : UInt16) : (flags ||| kFlagEncrypted) &&& kFlagEncrypted ≠ 0 := by
  intro hzero
  have hbit := congrArg (fun x => x.toBitVec.getLsbD 15) hzero
  simp only [kFlagEncrypted, UInt16.toBitVec_and, UInt16.toBitVec_or, UInt16.toBitVec_ofNat,
    BitVec.getLsbD_and, BitVec.getLsbD_or] at hbit
  simp [-BitVec.getLsbD_eq_getElem] at hbit

lemma flags_of_unmarked {flags : UInt16} (h : flags &&& kFlagEncrypted = 0) :
    flags &&& ~~~kFlagEncrypted = flags := by
  apply UInt16.eq_of_toBitVec_eq
  apply BitVec.eq_of_getLsbD_eq
  intro i hi
  have hbit := congrArg (fun x => x.toBitVec.getLsbD i) h
  simp only [UInt16.toBitVec_and, UInt16.toBitVec_not, BitVec.getLsbD_and,
    BitVec.getLsbD_not] at hbit ⊢
  simp only [hi, decide_true, Bool.true_and]
  cases hf : flags.toBitVec.getLsbD i with
  | false => rfl
  | true =>
      rw [hf, Bool.true_and] at hbit
      rw [hbit]
      simp

lemma Reaches.conveys {x25519 : Bytes → Bytes → Option Bytes}
    {hkdfSha256 : Bytes → Bytes → Bytes → Bytes} {frag : Fragment} {a : Arrival}
    (h : Reaches (.ofGcm x25519 hkdfSha256) me frag a) : Conveys frag a := by
  obtain ⟨sender, receiver, clock, datagram, acts, wire, body, hkey, hready, hbuild,
      hdecode, hopen⟩ := h
  generalize hpacket : (registerDataPacket me clock sender frag).2 = packet at hbuild
  have hpayload : packet.2 = ReedSolomon.resize frag.data frag.width := by
    rw [← hpacket]
    rfl
  have hsize : packet.1.payloadSize = UInt16.ofNat packet.2.length := by
    rw [← hpacket]
    rfl
  obtain ⟨hlen, hlenEnc⟩ := length_le_of_buildWirePacket hsize hbuild
  have hfits : packet.1.payloadSize.toNat = packet.2.length := by
    rw [hsize]
    exact UInt16.toNat_ofNat_of_lt' (show packet.2.length < 65536 by omega)
  have hmagic : packet.1.magic = kMagic := by
    rw [← hpacket]
    rfl
  have hversion : packet.1.version = kVersion := by
    rw [← hpacket]
    rfl
  -- The fields of the packet are those of the fragment, whatever becomes of the flags.
  have hconveys : ∀ checksum, a.header = { packet.1 with
      flags := packet.1.flags &&& ~~~kFlagEncrypted, checksum } → a.payload = packet.2 →
      Conveys frag a := by
    intro checksum hheader hpayload'
    have hwidth : frag.width ≤ 65535 := by
      rw [hpayload, ReedSolomon.length_resize] at hlen
      exact hlen
    rw [← hpacket] at hheader
    refine ⟨?_, ?_, ?_, ?_, ?_, hpayload'.trans hpayload, hwidth⟩ <;> rw [hheader] <;> rfl
  cases henc : me.config.encryptionEnabled && sender.cryptoReady with
  | true =>
      rw [henc] at hready
      rw [Bool.and_eq_true] at henc
      obtain ⟨datagram', acts', wire', body', checksum, hbuild', hdecode', hmark, hopen'⟩ :=
        encrypted_round_trip x25519 hkdfSha256 henc.1 henc.2 hready hkey hmagic hversion hfits
          (hlenEnc (by rw [henc.1, henc.2]; rfl))
      obtain ⟨rfl, -⟩ := Prod.mk.inj (Except.ok.inj (hbuild.symm.trans hbuild'))
      obtain ⟨rfl, rfl⟩ := Prod.mk.inj (Option.some.inj (hdecode.symm.trans hdecode'))
      rw [openPacket, if_pos (by rw [hmark]; exact marked_ne_zero _), hopen'] at hopen
      obtain ⟨hheader, hpayload'⟩ := Prod.mk.inj (Option.some.inj hopen)
      exact hconveys checksum hheader.symm hpayload'.symm
  | false =>
      rw [henc] at hready
      rw [buildWirePacket_plain _ henc hfits] at hbuild
      obtain ⟨rfl, -⟩ := Prod.mk.inj (Except.ok.inj hbuild)
      obtain ⟨checksum, hdecode'⟩ := decode_encode packet.1 packet.2 hmagic hversion hfits
      obtain ⟨rfl, rfl⟩ := Prod.mk.inj (Option.some.inj (hdecode.symm.trans hdecode'))
      by_cases hmark : packet.1.flags &&& kFlagEncrypted = 0
      · rw [openPacket, if_neg (not_not.mpr hmark)] at hopen
        obtain ⟨hheader, hpayload'⟩ := Prod.mk.inj (Option.some.inj hopen)
        refine hconveys checksum ?_ hpayload'.symm
        rw [flags_of_unmarked hmark]
        exact hheader.symm
      · -- a data count with the topmost bit set is taken for an encrypted packet
        rw [openPacket, if_pos hmark, decryptPayload, if_pos (by rw [hready]; decide)] at hopen
        exact absurd hopen (by simp)

/-! ## Fragments do reach the receiver -/

lemma unmarked_of_lt {flags : UInt16} (h : flags < 0x8000) : flags &&& kFlagEncrypted = 0 := by
  have hmask : ~~~kFlagEncrypted &&& kFlagEncrypted = 0 := by decide
  rw [← flags_below h, UInt16.and_assoc, hmask, UInt16.and_zero]

/-- A plain packet goes through if its data count does not look like the mark. -/
lemma exists_reaches (cs : CryptoSuite) (me : Local) {frag : Fragment}
    (hflags : frag.dataCnt < 0x8000) (hwidth : frag.width ≤ 65535) :
    ∃ a, Reaches cs me frag a := by
  generalize hpacket : (registerDataPacket me ⟨0, 0⟩ {} frag).2 = packet
  have hsize : packet.1.payloadSize.toNat = packet.2.length := by
    rw [← hpacket]
    refine UInt16.toNat_ofNat_of_lt' ?_
    rw [ReedSolomon.length_resize]
    exact Nat.lt_succ_of_le hwidth
  have hplain : (me.config.encryptionEnabled && ({} : Peer).cryptoReady) = false := Bool.and_false _
  have hbuild := buildWirePacket_plain cs hplain hsize
  obtain ⟨checksum, hdecode⟩ := decode_encode packet.1 packet.2 (by rw [← hpacket]; rfl)
    (by rw [← hpacket]; rfl) hsize
  have hmark : packet.1.flags &&& kFlagEncrypted = 0 := by
    have hfield : packet.1.flags = frag.dataCnt := by
      rw [← hpacket]
      rfl
    rw [hfield]
    exact unmarked_of_lt hflags
  refine ⟨{ header := { packet.1 with checksum }, payload := packet.2 }, {}, {},
    ⟨0, 0⟩, _, [], _, _, rfl, hplain.symm, ?_, hdecode, ?_⟩
  · rw [hpacket]
    exact hbuild
  · rw [openPacket, if_neg (not_not.mpr hmark)]

lemma exists_arrivals (cs : CryptoSuite) (me : Local) (sender : Peer) {mtu : ℕ}
    (buffers : List Bytes) (hdata : dataCountOf payload (fragPayload mtu) < 32768)
    (hwidth : fragPayload mtu ≤ 65535) :
    ∃ arrivals,
      List.Forall₂ (Reaches cs me) (fragmentAndSend sender payload mtu buffers).2.1 arrivals := by
  have hfrags : ∀ frag ∈ (fragmentAndSend sender payload mtu buffers).2.1,
      frag.dataCnt < 0x8000 ∧ frag.width ≤ 65535 := by
    intro frag hfrag
    obtain ⟨i, hi⟩ := List.mem_iff_getElem?.mp hfrag
    have hnum := numbered_fragmentsOf hi
    rw [hnum.dataCnt, hnum.width, UInt16.lt_iff_toNat_lt,
      UInt16.toNat_ofNat_of_lt' (show _ < 65536 by omega)]
    exact ⟨hdata, hwidth⟩
  generalize (fragmentAndSend sender payload mtu buffers).2.1 = frags at hfrags ⊢
  induction frags with
  | nil => exact ⟨[], .nil⟩
  | cons frag frags ih =>
      obtain ⟨hflags, hwidth⟩ := hfrags frag List.mem_cons_self
      obtain ⟨a, ha⟩ := exists_reaches cs me hflags hwidth
      obtain ⟨arrivals, hrest⟩ := ih fun f hf => hfrags f (List.mem_cons_of_mem frag hf)
      exact ⟨a :: arrivals, .cons ha hrest⟩

/-! ## Where the limits agree -/

section Message

variable {id : UInt32} {payload : Bytes} {mtu : ℕ} {parityCount : UInt16} {buffers : List Bytes}
  {arrivals : List Arrival}

/-- The headers of the packets of a message. -/
def seriesOf (id : UInt32) (payload : Bytes) (mtu : ℕ) (parityCount : UInt16) : Series where
  id := id
  count := UInt16.ofNat (dataCountOf payload (fragPayload mtu) + parityCount.toNat)
  flags := UInt16.ofNat (dataCountOf payload (fragPayload mtu)) &&& ~~~kFlagEncrypted

lemma exists_numbered
    (h : List.Forall₂ Conveys (fragmentsOf id payload mtu parityCount buffers).1 arrivals) {i : ℕ}
    (hi : i < arrivals.length) :
    ∃ frag, Numbered id payload (fragPayload mtu)
        (dataCountOf payload (fragPayload mtu) + parityCount.toNat) i frag ∧
      Conveys frag arrivals[i] := by
  have hi' : i < (fragmentsOf id payload mtu parityCount buffers).1.length := by rwa [h.length_eq]
  exact ⟨_, numbered_fragmentsOf (List.getElem?_eq_getElem hi'), h.get hi' hi⟩

lemma fits_seriesOf
    (h : List.Forall₂ Conveys (fragmentsOf id payload mtu parityCount buffers).1 arrivals) :
    ∀ a ∈ arrivals, (seriesOf id payload mtu parityCount).Fits (fragPayload mtu) a := by
  intro a ha
  obtain ⟨i, hi, rfl⟩ := List.mem_iff_getElem.mp ha
  obtain ⟨frag, hnum, hconv⟩ := exists_numbered h hi
  refine ⟨⟨?_, ?_, ?_⟩, ?_, ?_⟩
  · rw [hconv.messageId, hnum.msgId]
    rfl
  · rw [hconv.fragmentCount, hnum.cnt]
    rfl
  · rw [hconv.flags, hnum.dataCnt]
    rfl
  · rw [hconv.reserved]
    exact hnum.realSize_le
  · rw [hconv.payload, ReedSolomon.length_resize, hnum.width]

lemma toNat_seriesOf_flags :
    (seriesOf id payload mtu parityCount).flags.toNat =
      dataCountOf payload (fragPayload mtu) % 32768 := by
  rw [seriesOf, toNat_flags_unmarked]
  have hcast : (UInt16.ofNat (dataCountOf payload (fragPayload mtu))).toNat =
      dataCountOf payload (fragPayload mtu) % 65536 := UInt16.toNat_ofNat'
  omega

/-- The count in the headers is the number of packets, if it fits. -/
lemma toNat_seriesOf_count
    (h : List.Forall₂ Conveys (fragmentsOf id payload mtu parityCount buffers).1 arrivals)
    (hcount : arrivals.length < 65536) :
    (seriesOf id payload mtu parityCount).count.toNat = arrivals.length := by
  have hlength := h.length_eq
  rw [length_fragmentsOf] at hlength
  rw [seriesOf, hlength]
  exact UInt16.toNat_ofNat_of_lt' hcount

/-- The data count the receiver goes by, in terms of the sender's. -/
lemma dataCount_seriesOf :
    (seriesOf id payload mtu parityCount).dataCount =
      if 0 < dataCountOf payload (fragPayload mtu) % 32768 then
        dataCountOf payload (fragPayload mtu) % 32768
      else (seriesOf id payload mtu parityCount).count.toNat - 1 := by
  rw [Series.dataCount]
  simp only [UInt16.lt_iff_toNat_lt, toNat_seriesOf_flags, UInt16.toNat_zero]

/-- Above 32768 data fragments the receiver expects fewer of them than there are. -/
lemma dataCount_seriesOf_lt (id : UInt32) (parityCount : UInt16)
    (h : 32768 < dataCountOf payload (fragPayload mtu)) :
    (seriesOf id payload mtu parityCount).dataCount < dataCountOf payload (fragPayload mtu) := by
  have hcount := (seriesOf id payload mtu parityCount).count.toNat_lt
  rw [dataCount_seriesOf]
  split <;> omega

lemma fragPayload_pos (mtu : ℕ) : 5 ≤ fragPayload mtu := by
  unfold fragPayload
  simp only
  split <;> split <;> omega

/-- The stretches of the stream in the first packets are the stream. -/
lemma flatten_pieceOf
    (h : List.Forall₂ Conveys (fragmentsOf id payload mtu parityCount buffers).1 arrivals) {n : ℕ}
    (hn : dataCountOf payload (fragPayload mtu) ≤ n) :
    ∃ rest, ((arrivals.take n).map pieceOf).flatten =
      put32 (UInt32.ofNat payload.length) ++ (payload ++ rest) := by
  have hlength : dataCountOf payload (fragPayload mtu) ≤ arrivals.length := by
    rw [← h.length_eq, length_fragmentsOf]
    omega
  have hspec := dataCountOf_spec payload (lt_of_lt_of_le (by omega) (fragPayload_pos mtu))
  have hdata : (arrivals.take (dataCountOf payload (fragPayload mtu))).map pieceOf =
      (List.range (dataCountOf payload (fragPayload mtu))).map fun i =>
        ((fullStream payload).drop (i * fragPayload mtu)).take (fragPayload mtu) := by
    apply List.ext_getElem
    · rw [List.length_map, List.length_take, List.length_map, List.length_range]
      omega
    · intro i hi hi'
      rw [List.length_map, List.length_range] at hi'
      obtain ⟨frag, hnum, hconv⟩ := exists_numbered h (lt_of_lt_of_le hi' hlength)
      obtain ⟨hspan, hsize⟩ := hnum.data hi'
      have hle : frag.data.length ≤ fragPayload mtu := by
        rw [hspan]
        exact List.length_take_le _ _
      have hwidth := hconv.width_le
      rw [hnum.width] at hwidth
      have hreserved : (arrivals[i]).header.reserved.toNat = frag.data.length := by
        rw [hconv.reserved, hsize]
        exact UInt16.toNat_ofNat_of_lt' (show frag.data.length < 65536 by omega)
      rw [List.getElem_map, List.getElem_take, List.getElem_map, List.getElem_range, pieceOf,
        hreserved, hconv.payload, ReedSolomon.length_resize, hnum.width, min_eq_left hle,
        ReedSolomon.resize, List.take_of_length_le hle, ← hspan]
      exact List.take_left' rfl
  refine ⟨((arrivals.drop (dataCountOf payload (fragPayload mtu))).take
    (n - dataCountOf payload (fragPayload mtu))).map pieceOf |>.flatten, ?_⟩
  have hsplit : arrivals.take n = arrivals.take (dataCountOf payload (fragPayload mtu)) ++
      (arrivals.drop (dataCountOf payload (fragPayload mtu))).take
        (n - dataCountOf payload (fragPayload mtu)) := by
    rw [← List.take_add, Nat.add_sub_cancel' hn]
  rw [hsplit, List.map_append, List.flatten_append, hdata, Message.flatten_chunks,
    List.take_of_length_le (by rw [length_fullStream]; exact hspec.2.1), fullStream,
    List.append_assoc]

/-- The message is handed to `deliver` once, and nothing else is. -/
def DeliversOnce (late : Float) (maxMessageBytes : ℕ) (peer : Peer) (arrivals : List Arrival)
    (payload : Bytes) : Prop :=
  ∃ peer' outs, Machine.run (receive late maxMessageBytes) peer arrivals = .ok (peer', outs) ∧
    outs.reduceOption = [payload]

variable {late : Float} {peer : Peer}

/-- Above 32768 data fragments, what is delivered is too short. -/
lemma not_deliversOnce_of_dataCount {maxMessageBytes : ℕ}
    (h : List.Forall₂ Conveys (fragmentsOf id payload mtu parityCount buffers).1 arrivals)
    (hincoming : peer.incoming[id]? = none)
    (hcount : 32768 < dataCountOf payload (fragPayload mtu)) :
    ¬ DeliversOnce late maxMessageBytes peer arrivals payload := by
  rintro ⟨peer', outs, hrun, houts⟩
  have hwithin : (seriesOf id payload mtu parityCount).Within (fragPayload mtu) peer :=
    fun slot hget => absurd (hincoming.symm.trans hget) (by simp)
  have hshort := Series.run_short hwithin (fits_seriesOf h) hrun (some payload)
    (List.reduceOption_mem_iff.mp (houts ▸ List.mem_singleton_self payload)) payload rfl
  have hlt := dataCount_seriesOf_lt id parityCount hcount
  have hspec := dataCountOf_spec payload (lt_of_lt_of_le (by omega) (fragPayload_pos mtu))
  have hmul : (seriesOf id payload mtu parityCount).dataCount * fragPayload mtu ≤
      (dataCountOf payload (fragPayload mtu) - 1) * fragPayload mtu :=
    Nat.mul_le_mul_right _ (by omega)
  have hlong : 1 * 5 ≤ (dataCountOf payload (fragPayload mtu) - 1) * fragPayload mtu :=
    Nat.mul_le_mul (by omega) (fragPayload_pos mtu)
  omega

/-- Above the receiver's limit on the number of fragments nothing is delivered. -/
lemma not_deliversOnce_of_count {maxMessageBytes : ℕ}
    (h : List.Forall₂ Conveys (fragmentsOf id payload mtu parityCount buffers).1 arrivals)
    (hlimit : maxMessageBytes / 64 + 8 < arrivals.length) (hcount : arrivals.length < 65536) :
    ¬ DeliversOnce late maxMessageBytes peer arrivals payload := by
  rintro ⟨peer', outs, hrun, houts⟩
  rw [← toNat_seriesOf_count h hcount] at hlimit
  have hnone :=
    Series.run_refused hlimit (fun a ha => (fits_seriesOf h a ha).has) hrun (some payload)
    (List.reduceOption_mem_iff.mp (houts ▸ List.mem_singleton_self payload))
  exact absurd hnone (by simp)

lemma inOrder_seriesOf
    (h : List.Forall₂ Conveys (fragmentsOf id payload mtu parityCount buffers).1 arrivals)
    (hcount : arrivals.length < 65536) :
    (seriesOf id payload mtu parityCount).InOrder [] arrivals := by
  intro i hi
  obtain ⟨frag, hnum, hconv⟩ := exists_numbered h hi
  refine ⟨(fits_seriesOf h _ (List.getElem_mem hi)).has, ?_⟩
  rw [hconv.fragmentIndex, hnum.idx, List.length_nil, Nat.zero_add]
  exact UInt16.toNat_ofNat_of_lt' (show i < 65536 by omega)

/-- Within both limits the message is delivered. -/
lemma deliversOnce_of_fits {maxMessageBytes : ℕ} (hid : id ≠ 0)
    (hparity : 1 ≤ parityCount.toNat ∧ parityCount.toNat ≤ 3)
    (h : List.Forall₂ Conveys (fragmentsOf id payload mtu parityCount buffers).1 arrivals)
    (hincoming : peer.incoming[id]? = none) (hcompleted : id ∉ peer.completed)
    (hsize : payload.length ≤ maxMessageBytes) (hword : payload.length < 2 ^ 32)
    (hdata : dataCountOf payload (fragPayload mtu) ≤ 32768)
    (hlimit : arrivals.length ≤ maxMessageBytes / 64 + 8) :
    DeliversOnce late maxMessageBytes peer arrivals payload := by
  have hone := (dataCountOf_spec payload (lt_of_lt_of_le (by omega) (fragPayload_pos mtu))).2.2
  have hlength : arrivals.length = dataCountOf payload (fragPayload mtu) + parityCount.toNat := by
    rw [← h.length_eq, length_fragmentsOf]
  have hcount := toNat_seriesOf_count h (by omega)
  have hbounds : dataCountOf payload (fragPayload mtu) ≤
        (seriesOf id payload mtu parityCount).dataCount ∧
      (seriesOf id payload mtu parityCount).dataCount ≤ arrivals.length := by
    rw [dataCount_seriesOf, hcount]
    split <;> omega
  have hreached : (seriesOf id payload mtu parityCount).Reached [] peer :=
    Series.reached_nil (by omega) hincoming hcompleted
  have htake : (seriesOf id payload mtu parityCount).count.toNat ≤ maxMessageBytes / 64 + 8 := by
    rwa [hcount]
  obtain ⟨peer', outs, hrun, houts⟩ := Series.run_inOrder hid (by omega) (by omega) htake
    (by rw [hcount, List.length_nil, Nat.zero_add]) (inOrder_seriesOf h (by omega)) hreached
  obtain ⟨rest, hstream⟩ := flatten_pieceOf h hbounds.1
  refine ⟨peer', outs, hrun, ?_⟩
  rw [houts, if_pos (by rw [List.length_nil]; omega), List.nil_append,
    messageOf_of_stream hstream hsize hword]

end Message

lemma nextMsgId_ne_zero (msgIdOut : UInt32) : (nextMsgId msgIdOut).1 ≠ 0 := by
  intro hzero
  have hnat := (nextMsgId_toNat msgIdOut).1
  rw [hzero] at hnat
  split at hnat
  · exact absurd hnat (by decide)
  · next hne => exact hne hnat.symm

lemma length_fragmentAndSend (sender : Peer) (payload : Bytes) (mtu : ℕ) (buffers : List Bytes) :
    dataCountOf payload (fragPayload mtu) <
      (fragmentAndSend sender payload mtu buffers).2.1.length ∧
      (fragmentAndSend sender payload mtu buffers).2.1.length ≤
        dataCountOf payload (fragPayload mtu) + 3 := by
  have hparity := computeParityCountFor_bounds sender.peerLateRatio
    (dataCountOf payload (fragPayload mtu))
  have hlength := length_fragmentsOf (nextMsgId sender.msgIdOut).1 payload mtu
    (computeParityCountFor sender.peerLateRatio (dataCountOf payload (fragPayload mtu))) buffers
  exact ⟨by rw [fragmentAndSend, hlength]; omega, by rw [fragmentAndSend, hlength]; omega⟩

/-- A message whose fragments all reach `handle_data` in order is delivered once and whole exactly
when it has at most 32768 data fragments and the receiver takes that many fragments. -/
theorem accepted_delivered_iff (x25519 : Bytes → Bytes → Option Bytes)
    (hkdfSha256 : Bytes → Bytes → Bytes → Bytes) (me : Local) (sender receiver : Peer)
    (payload : Bytes) (buffers : List Bytes) (late : Float) (arrivals : List Arrival)
    (hsize : payload.length ≤ maxMessageBytes me.config)
    (hreach : List.Forall₂ (Reaches (.ofGcm x25519 hkdfSha256) me)
      (fragmentAndSend sender payload me.config.mtu buffers).2.1 arrivals)
    (hnew : receiver.incoming[(nextMsgId sender.msgIdOut).1]? = none ∧
      (nextMsgId sender.msgIdOut).1 ∉ receiver.completed) :
    DeliversOnce late (maxMessageBytes me.config) receiver arrivals payload ↔
      dataCountOf payload (fragPayload me.config.mtu) ≤ 32768 ∧
        (fragmentAndSend sender payload me.config.mtu buffers).2.1.length ≤
          maxMessageBytes me.config / 64 + 8 := by
  have hparity := computeParityCountFor_bounds sender.peerLateRatio
    (dataCountOf payload (fragPayload me.config.mtu))
  have hlength := (length_fragmentAndSend sender payload me.config.mtu buffers).2
  have hconv := hreach.imp fun _ _ => Reaches.conveys
  rw [hreach.length_eq] at hlength ⊢
  constructor
  · intro hdelivers
    have hdata : dataCountOf payload (fragPayload me.config.mtu) ≤ 32768 :=
      not_lt.mp fun hlt => not_deliversOnce_of_dataCount hconv hnew.1 hlt hdelivers
    exact ⟨hdata, not_lt.mp fun hlt => not_deliversOnce_of_count hconv hlt (by omega) hdelivers⟩
  · rintro ⟨hdata, hlimit⟩
    have hword : payload.length < 2 ^ 32 := by
      unfold maxMessageBytes at hsize
      omega
    exact deliversOnce_of_fits (nextMsgId_ne_zero _) hparity hconv hnew.1 hnew.2 hsize
      hword hdata hlimit

/-- Five thousand bytes in four data fragments, with the default configuration: the fifth message to
a receiver that has completed the one before it. -/
theorem accepted_delivered_fragments :
    ∃ arrivals, List.Forall₂ (Reaches (.ofGcm (fun _ _ => none) fun _ _ _ => []) {})
        (fragmentAndSend { msgIdOut := 5 } (List.replicate 5000 7) 1350 []).2.1 arrivals ∧
      DeliversOnce 4.0 (maxMessageBytes {})
        { completed := (∅ : Std.ExtTreeMap UInt32 TimePoint).insert 4 0 } arrivals
        (List.replicate 5000 7) := by
  have hdata : dataCountOf (List.replicate 5000 7) (fragPayload 1350) = 4 := by
    rw [dataCountOf_eq _ (by decide), List.length_replicate]
    rfl
  have hsize : (List.replicate 5000 (7 : UInt8)).length ≤ maxMessageBytes {} := by
    rw [List.length_replicate]
    decide
  obtain ⟨arrivals, hreach⟩ := exists_arrivals (.ofGcm (fun _ _ => none) fun _ _ _ => []) {}
    { msgIdOut := 5 } [] (show dataCountOf (List.replicate 5000 7) (fragPayload 1350) <
      32768 by omega)
    (by decide)
  refine ⟨arrivals, hreach, (accepted_delivered_iff (fun _ _ => none) (fun _ _ _ => []) {}
    { msgIdOut := 5 } _ _ [] 4.0 arrivals hsize hreach ⟨by decide, by decide⟩).mpr
      ⟨hdata.trans_le (by decide), ?_⟩⟩
  refine (length_fragmentAndSend { msgIdOut := 5 } _ 1350 []).2.trans ?_
  rw [hdata]
  decide

/-- With an MTU of 53, a fragment has five bytes and 700 bytes are more fragments than the receiver
takes at a limit of 8 KiB. -/
theorem accepted_not_delivered :
    ∃ arrivals, List.Forall₂ (Reaches (.ofGcm (fun _ _ => none) fun _ _ _ => [])
          { config := { mtu := 53, maxMessageBytes := 8192 } })
        (fragmentAndSend {} (List.replicate 700 7) 53 []).2.1 arrivals ∧
      (List.replicate 700 (7 : UInt8)).length ≤
        maxMessageBytes { mtu := 53, maxMessageBytes := 8192 } ∧
      ∀ late,
      ¬ DeliversOnce late (maxMessageBytes { mtu := 53, maxMessageBytes := 8192 }) {} arrivals
        (List.replicate 700 7) := by
  have hdata : dataCountOf (List.replicate 700 7) (fragPayload 53) = 141 := by
    rw [dataCountOf_eq _ (by decide), List.length_replicate]
    rfl
  obtain ⟨arrivals, hreach⟩ := exists_arrivals (.ofGcm (fun _ _ => none) fun _ _ _ => [])
    { config := { mtu := 53, maxMessageBytes := 8192 } } {} []
    (show dataCountOf (List.replicate 700 7) (fragPayload 53) < 32768 by omega) (by decide)
  refine ⟨arrivals, hreach, by rw [List.length_replicate]; decide, fun late => ?_⟩
  have hlength := length_fragmentAndSend {} (List.replicate 700 7) 53 []
  rw [hdata, hreach.length_eq] at hlength
  have hlimit : maxMessageBytes { mtu := 53, maxMessageBytes := 8192 } / 64 + 8 = 136 := by decide
  exact not_deliversOnce_of_count (hreach.imp fun _ _ => Reaches.conveys) (by omega) (by omega)

end Transport
end Damen
