import Damen.Model.DataPath
import Damen.Properties.CommandNonce
import Damen.Properties.Message
import Damen.Properties.ReportHandling
import Damen.Properties.SecureWire

/-!
# The nonces of data packets

A data or parity packet is encrypted with a nonce made of the sender's client id, the message id,
the index of the fragment and the packet type.  Message ids have 31 bits, skip zero and go around
after 2^31 - 1 messages; a fragment is sent once, and sent again with the header it was given then.

`data_nonces_unique` says that a nonce is used for one packet only, over every interleaving of
messages, fragments, reports and commands.  Fragments of several messages may be on their way at the
same time and in any order, and a report may come between the two parts of `send_data_packet`.

The invariant behind it keeps the list of the packets registered so far: message id and fragment
index occur once among them and the fragments still to come, and whatever is sent again is in the
list.
-/

namespace Damen
namespace Transport

open Std (ExtTreeMap)
open Fragmenter (Fragment nextMsgId fragmentAndSend keyOf fragmentsOf_keys length_fragmentsOf)

/-! ## Nonces -/

/-- Message id and fragment index. -/
def fragmentKey (header : PacketHeader) : UInt32 × UInt16 :=
  (header.messageId, header.fragmentIndex)

/-- The packet carries a fragment. -/
def OfMessage (header : PacketHeader) : Prop := header.type = .data ∨ header.type = .parity

variable {header : PacketHeader} {acts out : List Action} {cs : CryptoSuite} {me : Local}
  {peer : Peer} {payload : Bytes} {n : ℕ} {sent sent' : List (PacketHeader × Bytes)}
  {commands : List UInt32} {clock : Clock} {sequence : UInt32} {ps' : PendingSend}

lemma OfMessage.ne_command (h : OfMessage header) : header.type ≠ .command := by
  rcases h with h | h <;> rw [h] <;> simp

/-- The nonce of a data packet gives message id and fragment index away. -/
lemma fragmentKey_of_nonce {header' : PacketHeader} (h : OfMessage header) (h' : OfMessage header')
    (heq : buildNonce header = buildNonce header') : fragmentKey header = fragmentKey header' := by
  have hread : ∀ header : PacketHeader, OfMessage header →
      get32 (buildNonce header) 4 = header.messageId ∧
        get16 (buildNonce header) 8 = header.fragmentIndex := by
    intro header h
    rw [buildNonce, if_neg h.ne_command]
    constructor
    · have hget := get32_put32 (put32 header.clientId)
        (put16 header.fragmentIndex ++ [header.type.toByte, 0]) header.messageId
      rw [length_put32] at hget
      simpa only [List.append_assoc] using hget
    · have hget := get16_put16 (put32 header.clientId ++ put32 header.messageId)
        [header.type.toByte, 0] header.fragmentIndex
      rw [List.length_append, length_put32, length_put32] at hget
      simpa only [List.append_assoc] using hget
  rw [fragmentKey, fragmentKey, ← (hread header h).1, ← (hread header h).2, heq,
    (hread header' h').1, (hread header' h').2]

/-- The two layouts differ in the byte of the type: a command has a zero there. -/
lemma commandNonce_ne (h : OfMessage header) (clientId sequence : UInt32) :
    commandNonce clientId sequence ≠ buildNonce header := by
  intro heq
  rw [buildNonce, if_neg h.ne_command] at heq
  have hbyte : (commandNonce clientId sequence).getD 10 0 = header.type.toByte :=
    (congrArg (fun l => l.getD 10 0) heq).trans rfl
  have hzero : (commandNonce clientId sequence).getD 10 0 = 0 := rfl
  rw [hzero] at hbyte
  rcases h with h | h <;> rw [h] at hbyte <;> exact absurd hbyte (by decide)

/-! ## Message ids -/

/-- The number of message ids. -/
def idCount : ℕ := 2147483647

/-- The id of message number `k`, from the state `msgIdOut` of the counter on. -/
def idAt (msgIdOut : UInt32) (k : ℕ) : ℕ :=
  ((nextMsgId msgIdOut).1.toNat - 1 + k) % idCount + 1

lemma toNat_and_mask (m : UInt32) : (m &&& 0x7FFFFFFF).toNat = m.toNat % 2147483648 := by
  rw [UInt32.toNat_and]
  exact Nat.and_two_pow_sub_one_eq_mod m.toNat 31

lemma nextMsgId_toNat (m : UInt32) :
    (nextMsgId m).1.toNat = (if m.toNat % 2147483648 = 0 then 1 else m.toNat % 2147483648) ∧
      (nextMsgId m).2.toNat % 2147483648 = ((nextMsgId m).1.toNat + 1) % 2147483648 := by
  have hmask := toNat_and_mask m
  have hone : (m + 1).toNat = (m.toNat + 1) % 4294967296 := UInt32.toNat_add m 1
  have htwo : (m + 2).toNat = (m.toNat + 2) % 4294967296 := UInt32.toNat_add m 2
  have hzero : m &&& 0x7FFFFFFF = 0 ↔ m.toNat % 2147483648 = 0 := by
    rw [← UInt32.toNat_inj, hmask]
    rfl
  have hmask' := toNat_and_mask (m + 1)
  unfold nextMsgId
  by_cases h : m &&& 0x7FFFFFFF = 0
  · rw [if_pos h, if_pos (hzero.mp h)]
    have h := hzero.mp h
    simp only [hmask', hone, htwo]
    omega
  · rw [if_neg h, if_neg (mt hzero.mpr h)]
    simp only [hmask, hone, true_and]
    omega

/-- Behind the last id comes the first one. -/
lemma nextMsgId_next (m : UInt32) :
    (nextMsgId (nextMsgId m).2).1.toNat = (nextMsgId m).1.toNat % idCount + 1 := by
  obtain ⟨hid, hcounter⟩ := nextMsgId_toNat m
  obtain ⟨hnext, -⟩ := nextMsgId_toNat (nextMsgId m).2
  rw [hnext, hcounter, idCount]
  split at hid <;> split <;> omega

lemma idAt_zero (m : UInt32) : idAt m 0 = (nextMsgId m).1.toNat := by
  obtain ⟨hid, -⟩ := nextMsgId_toNat m
  rw [idAt, idCount]
  split at hid <;> omega

lemma idAt_succ (m : UInt32) (k : ℕ) : idAt m (k + 1) = idAt m k % idCount + 1 := by
  rw [idAt, idAt, Nat.mod_add_mod]
  rfl

lemma idAt_injective {m : UInt32} {i j : ℕ} (hi : i < idCount) (hj : j < idCount)
    (h : idAt m i = idAt m j) : i = j := by
  unfold idAt idCount at *
  omega

/-! ## Fragments -/

/-- The fragments of a message have its id, and different indices if there are not too many. -/
lemma fragmentAndSend_keys (peer : Peer) (payload : Bytes) (mtu : ℕ) (buffers : List Bytes)
    (h : (fragmentAndSend peer payload mtu buffers).2.1.length ≤ 65535) :
    ((fragmentAndSend peer payload mtu buffers).2.1.map keyOf).Nodup ∧
      ∀ frag ∈ (fragmentAndSend peer payload mtu buffers).2.1,
        frag.msgId = (nextMsgId peer.msgIdOut).1 := by
  have hkeys := fragmentsOf_keys (nextMsgId peer.msgIdOut).1 payload mtu
    (Fragmenter.computeParityCountFor peer.peerLateRatio
      (Fragmenter.dataCountOf payload (Fragmenter.fragPayload mtu))) buffers
  change (fragmentAndSend peer payload mtu buffers).2.1.map _ =
    (List.range (fragmentAndSend peer payload mtu buffers).2.1.length).map _ at hkeys
  constructor
  · rw [hkeys]
    refine List.Nodup.map_on ?_ List.nodup_range
    intro i hi j hj heq
    have hi := List.mem_range.mp hi
    have hj := List.mem_range.mp hj
    have hidx : UInt16.ofNat i = UInt16.ofNat j := congrArg Prod.snd heq
    rw [← UInt16.toNat_inj, UInt16.toNat_ofNat', UInt16.toNat_ofNat'] at hidx
    omega
  · intro frag hfrag
    have hmem := List.mem_map_of_mem (f := keyOf) hfrag
    rw [hkeys] at hmem
    obtain ⟨i, -, heq⟩ := List.mem_map.mp hmem
    exact (congrArg Prod.fst heq).symm

/-! ## The machine -/

/-- One peer, the fragments of the messages for it that `send_data_packet` was not called for yet,
and the packets between the two parts of that function, with the choice to keep them. -/
structure DataState where
  bandwidth : BandwidthEstimator := {}
  peer : Peer := {}
  backlog : List Fragment := []
  inFlight : List (PacketHeader × Bytes × Bool) := []

inductive DataEvent
  /-- A call of `fragment_and_send`, up to its first call of `send_data_packet`. -/
  | message (payload : Bytes) (mtu : ℕ) (buffers : List Bytes)
  /-- One of the fragments gets its packet. -/
  | register (i : ℕ) (clock : Clock)
  /-- One of these packets is sent. -/
  | transmit (i : ℕ)
  /-- A report arrives. -/
  | report (header : PacketHeader) (payload : Bytes) (clock : Clock)
  /-- A command is sent; handshakes in between may have set its number back or on. -/
  | command (sequence : UInt32) (payload : Bytes) (clock : Clock)

def dataStep (cs : CryptoSuite) (me : Local) (s : DataState) :
    DataEvent → Except Fault (DataState × List Action)
  | .message payload mtu buffers =>
      let (peer, frags, _) := fragmentAndSend s.peer payload mtu buffers
      .ok ({ s with peer, backlog := s.backlog ++ frags }, [])
  | .register i clock =>
      match s.backlog[i]? with
      | none => .ok (s, [])
      | some frag =>
          let (peer, header, payload) := registerDataPacket me clock s.peer frag
          .ok ({ s with
            peer
            backlog := s.backlog.eraseIdx i
            inFlight := s.inFlight ++ [(header, payload, keepsPending me s.peer header)] }, [])
  | .transmit i =>
      match s.inFlight[i]? with
      | none => .ok (s, [])
      | some (header, payload, keep) =>
          match transmitDataPacket cs me s.peer header payload keep with
          | .error fault => .error fault
          | .ok (peer, out) => .ok ({ s with peer, inFlight := s.inFlight.eraseIdx i }, out)
  | .report header payload clock =>
      match handleReport cs me s.bandwidth clock s.peer header payload with
      | .error fault => .error fault
      | .ok (bandwidth, peer, out) => .ok ({ s with bandwidth, peer }, out)
  | .command sequence payload clock =>
      let peer := { s.peer with cmdSeqOut := sequence + 1 }
      match buildWirePacket cs me peer
          (commandHeader me clock { s.peer with cmdSeqOut := sequence } payload) payload with
      | .error fault => .error fault
      | .ok (datagram, out) => .ok ({ s with peer }, out ++ sendRaw peer datagram)

/-- A message has at most 65535 fragments, and a report makes the peer send data packets again.  An
entry that comes back when the size of its packet is recorded behind its acknowledgement holds
none. -/
def InBounds (s : DataState) : DataEvent → Prop
  | .message payload mtu buffers =>
      (fragmentAndSend s.peer payload mtu buffers).2.1.length ≤ 65535
  | .report _ payload clock =>
      ∀ packet ∈ (Report.handle s.peer payload clock.now).2.2, packet.1.type = .data
  | _ => True

def DataEvent.isMessage : DataEvent → Bool
  | .message _ _ _ => true
  | _ => false

/-- The numbers of the commands. -/
def commandNumbers (events : List DataEvent) : List UInt32 :=
  events.filterMap fun
    | .command sequence _ _ => some sequence
    | _ => none

/-- A call of `aes256_gcm_encrypt`. -/
structure Sealing where
  nonce : Bytes
  aad : Bytes
  plaintext : Bytes

def sealings (acts : List Action) : List Sealing :=
  acts.filterMap fun
    | .encrypt _ nonce aad plaintext => some ⟨nonce, aad, plaintext⟩
    | _ => none

/-- The encryption of a packet. -/
def sealOf (packet : PacketHeader × Bytes) : Sealing :=
  ⟨buildNonce packet.1, additionalData (wireHeader packet.1 packet.2), packet.2⟩

/-- If the nonces are the same, both are encryptions of one packet, and it carries a fragment. -/
def SamePacket (c c' : Sealing) : Prop :=
  c.nonce = c'.nonce → ∃ packet, OfMessage packet.1 ∧ c = sealOf packet ∧ c' = sealOf packet

/-! ## Encryptions -/

variable {s s' : DataState} {l new : List Sealing}

lemma sealings_append (acts acts' : List Action) :
    sealings (acts ++ acts') = sealings acts ++ sealings acts' := List.filterMap_append

lemma Routine.sealings_eq_nil (h : Routine acts) : sealings acts = [] := by
  rw [sealings, List.filterMap_eq_nil_iff]
  intro a ha
  have hroutine := h a ha
  cases a <;> first | rfl | exact absurd hroutine (by simp [Action.isRoutine])

/-- A packet is encrypted at most once on its way out. -/
lemma sealings_send {datagram : Bytes}
    (h : buildWirePacket cs me peer header payload = .ok (datagram, acts)) :
    sealings (acts ++ sendRaw peer datagram) = [] ∨
      sealings (acts ++ sendRaw peer datagram) = [sealOf (header, payload)] := by
  rw [sealings_append, (routine_sendRaw peer datagram).sealings_eq_nil, List.append_nil]
  obtain ⟨wire, body, -, ⟨-, rfl⟩ | ⟨rfl, rfl⟩⟩ := buildWirePacket_cases h
  · exact Or.inl rfl
  · exact Or.inr rfl

/-- The encryptions of packets that are sent again. -/
lemma sealings_resend {packets : List (PacketHeader × Bytes)}
    (h : resend cs me peer packets = .ok acts) :
    ∀ c ∈ sealings acts, ∃ packet ∈ packets, c = sealOf packet := by
  induction packets generalizing acts with
  | nil =>
      cases h
      exact fun c hc => absurd hc List.not_mem_nil
  | cons packet packets ih =>
      obtain ⟨header, payload⟩ := packet
      rw [resend] at h
      split at h
      · exact absurd h (by simp)
      · next datagram out hbuild =>
        split at h
        · exact absurd h (by simp)
        · next out' hrest =>
          cases h
          intro c hc
          rw [sealings_append, List.mem_append] at hc
          rcases hc with hc | hc
          · rcases sealings_send hbuild with hnone | hone
            · exact absurd (hnone ▸ hc) List.not_mem_nil
            · exact ⟨_, List.mem_cons_self, List.mem_singleton.mp (hone ▸ hc)⟩
          · obtain ⟨packet, hmem, heq⟩ := ih hrest c hc
            exact ⟨packet, List.mem_cons_of_mem _ hmem, heq⟩

/-! ## Runs -/

/-- The packet an entry of the retransmission buffer holds. -/
def packetOf (ps : PendingSend) : PacketHeader × Bytes := (ps.header, ps.payload)

/-- The encryption is one of a packet that was registered, or of a command. -/
def Origin (me : Local) (sent : List (PacketHeader × Bytes)) (commands : List UInt32)
    (c : Sealing) : Prop :=
  (∃ packet ∈ sent, c = sealOf packet) ∨
    ∃ sequence ∈ commands, c.nonce = commandNonce me.clientId sequence

/-- The registered packets `sent`, seen from a state behind `n` messages, the first of which came
when the counter was `first`: message id and index occur once among them and the fragments still to
come. -/
structure Registered (first : UInt32) (n : ℕ) (s : DataState) (sent : List (PacketHeader × Bytes)) :
    Prop where
  ofMessage : ∀ packet ∈ sent, OfMessage packet.1
  keys : (sent.map (fun packet => fragmentKey packet.1) ++ s.backlog.map keyOf).Nodup
  ids : ∀ key ∈ sent.map (fun packet => fragmentKey packet.1) ++ s.backlog.map keyOf,
    ∃ i < n, key.1.toNat = idAt first i
  next : (nextMsgId s.peer.msgIdOut).1.toNat = idAt first n
  inFlight : ∀ p ∈ s.inFlight, (p.1, p.2.1) ∈ sent
  pending : ∀ (k : UInt32) (ps : PendingSend), s.peer.pending[k]? = some ps →
    packetOf ps ∈ sent ∨ packetOf ps = ({}, [])

/-- Two registered packets with the same nonce are one. -/
lemma Registered.eq_of_nonce {first : UInt32} (h : Registered first n s sent)
    {packet packet' : PacketHeader × Bytes} (hmem : packet ∈ sent) (hmem' : packet' ∈ sent)
    (heq : buildNonce packet.1 = buildNonce packet'.1) : packet = packet' :=
  List.inj_on_of_nodup_map (List.nodup_append.mp h.keys).1 hmem hmem'
    (fragmentKey_of_nonce (h.ofMessage packet hmem) (h.ofMessage packet' hmem') heq)

/-- What an encryption of a registered packet has in common with those before it. -/
lemma Registered.samePacket {first : UInt32} (h : Registered first n s sent) {c c' : Sealing}
    (hc : Origin me sent commands c) (hc' : ∃ packet ∈ sent, c' = sealOf packet) :
    SamePacket c c' := by
  intro hnonce
  obtain ⟨packet', hmem', rfl⟩ := hc'
  rcases hc with ⟨packet, hmem, rfl⟩ | ⟨sequence, -, hcommand⟩
  · have heq := h.eq_of_nonce hmem hmem' hnonce
    exact ⟨packet, h.ofMessage packet hmem, rfl, congrArg sealOf heq.symm⟩
  · exact absurd (hcommand.symm.trans hnonce) (commandNonce_ne (h.ofMessage packet' hmem') _ _)

/-- A message adds fragments with a new id. -/
lemma Registered.message {first : UInt32} (h : Registered first n s sent) (hn : n < idCount)
    {mtu : ℕ} {buffers : List Bytes}
    (hcount : (fragmentAndSend s.peer payload mtu buffers).2.1.length ≤ 65535) :
    Registered first (n + 1)
      { s with
        peer := (fragmentAndSend s.peer payload mtu buffers).1
        backlog := s.backlog ++ (fragmentAndSend s.peer payload mtu buffers).2.1 } sent := by
  obtain ⟨hnodup, hid⟩ := fragmentAndSend_keys s.peer payload mtu buffers hcount
  have hnew : ∀ key ∈ (fragmentAndSend s.peer payload mtu buffers).2.1.map keyOf,
      key.1.toNat = idAt first n := by
    intro key hkey
    obtain ⟨frag, hfrag, rfl⟩ := List.mem_map.mp hkey
    rw [keyOf, hid frag hfrag, h.next]
  refine ⟨h.ofMessage, ?_, ?_, ?_, h.inFlight, h.pending⟩
  · rw [List.map_append, ← List.append_assoc]
    refine List.Nodup.append h.keys hnodup ?_
    -- the ids handed out before are those of fewer than `n` messages
    intro key hold hkey
    obtain ⟨i, hi, heq⟩ := h.ids key hold
    have := idAt_injective (hi.trans hn) hn (heq.symm.trans (hnew key hkey))
    omega
  · intro key hkey
    rw [List.map_append, ← List.append_assoc, List.mem_append] at hkey
    rcases hkey with hkey | hkey
    · obtain ⟨i, hi, heq⟩ := h.ids key hkey
      exact ⟨i, by omega, heq⟩
    · exact ⟨n, by omega, hnew key hkey⟩
  · calc (nextMsgId (nextMsgId s.peer.msgIdOut).2).1.toNat
        = (nextMsgId s.peer.msgIdOut).1.toNat % idCount + 1 := nextMsgId_next _
      _ = idAt first (n + 1) := by rw [h.next, idAt_succ]

/-- The peer changes, with the counter of messages and the packets to send again staying the same up
to blank entries, and some packets in flight are sent. -/
lemma Registered.keep {first : UInt32} (h : Registered first n s sent)
    (hbacklog : s'.backlog = s.backlog) (hcounter : s'.peer.msgIdOut = s.peer.msgIdOut)
    (hflight : s'.inFlight ⊆ s.inFlight)
    (hpending : ∀ (k : UInt32) (ps' : PendingSend), s'.peer.pending[k]? = some ps' →
      (∃ ps, s.peer.pending[k]? = some ps ∧ packetOf ps' = packetOf ps) ∨ packetOf ps' = ({}, [])) :
    Registered first n s' sent where
  ofMessage := h.ofMessage
  keys := hbacklog ▸ h.keys
  ids := hbacklog ▸ h.ids
  next := hcounter ▸ h.next
  inFlight p hp := h.inFlight p (hflight hp)
  pending k ps' hps' := by
    rcases hpending k ps' hps' with ⟨ps, hps, heq⟩ | hblank
    · rw [heq]
      exact h.pending k ps hps
    · exact Or.inr hblank

/-- The packet of a fragment. -/
lemma registerDataPacket_spec {peer' : Peer} {frag : Fragment}
    (h : registerDataPacket me clock peer frag = (peer', header, payload)) :
    OfMessage header ∧ fragmentKey header = keyOf frag ∧ peer'.msgIdOut = peer.msgIdOut ∧
      ∀ (k : UInt32) (ps : PendingSend), peer'.pending[k]? = some ps →
        peer.pending[k]? = some ps ∨ packetOf ps = (header, payload) := by
  unfold registerDataPacket at h
  simp only [Prod.mk.injEq] at h
  obtain ⟨rfl, rfl, rfl⟩ := h
  refine ⟨?_, rfl, ?_, ?_⟩
  · unfold OfMessage Fragmenter.dataPacket
    simp only
    split
    · exact Or.inr rfl
    · exact Or.inl rfl
  · split_ifs <;> rfl
  · intro k ps
    have hsame : ∀ c : Prop, [Decidable c] → ∀ p : Peer,
        (if c then { p with sequenceOut := p.sequenceOut + 1 } else p).pending = p.pending := by
      intro c _ p
      split_ifs <;> rfl
    split
    · simp only [hsame, OrderedMap.getElem?_insert]
      split
      · rintro ⟨⟩
        exact Or.inr rfl
      · exact Or.inl
    · rw [hsame]
      exact Or.inl

/-- A fragment that gets its packet takes its key along. -/
lemma Registered.register {first : UInt32} (h : Registered first n s sent) {i : ℕ} {frag : Fragment}
    (hfrag : s.backlog[i]? = some frag) (keep : Bool)
    (hregister : registerDataPacket me clock s.peer frag = (peer, header, payload)) :
    Registered first n
      { s with
        peer
        backlog := s.backlog.eraseIdx i
        inFlight := s.inFlight ++ [(header, payload, keep)] }
      ((header, payload) :: sent) := by
  obtain ⟨hof, hkey, hcounter, hpending⟩ := registerDataPacket_spec hregister
  obtain ⟨hi, rfl⟩ := List.getElem?_eq_some_iff.mp hfrag
  have hperm : (((header, payload) :: sent).map (fun packet => fragmentKey packet.1) ++
      (s.backlog.eraseIdx i).map keyOf).Perm
      (sent.map (fun packet => fragmentKey packet.1) ++ s.backlog.map keyOf) := by
    rw [List.map_cons, hkey]
    refine List.perm_middle.symm.trans (List.Perm.append_left _ ?_)
    exact (List.getElem_cons_eraseIdx_perm hi).map keyOf
  refine ⟨?_, hperm.nodup_iff.mpr h.keys, ?_, ?_, ?_, ?_⟩
  · intro packet hmem
    rcases List.mem_cons.mp hmem with rfl | hmem
    · exact hof
    · exact h.ofMessage packet hmem
  · exact fun key hmem => h.ids key (hperm.mem_iff.mp hmem)
  · exact hcounter ▸ h.next
  · intro p hp
    rcases List.mem_append.mp hp with hp | hp
    · exact List.mem_cons_of_mem _ (h.inFlight p hp)
    · rw [List.mem_singleton.mp hp]
      exact List.mem_cons_self
  · intro k ps hps
    rcases hpending k ps hps with hps | hpacket
    · exact (h.pending k ps hps).imp_left (List.mem_cons_of_mem _)
    · exact Or.inl (hpacket ▸ List.mem_cons_self)

lemma recordWireSize_pending {k : UInt32} {size : ℕ}
    (h : (recordWireSize peer sequence size).pending[k]? = some ps') :
    (∃ ps, peer.pending[k]? = some ps ∧ packetOf ps' = packetOf ps) ∨ packetOf ps' = ({}, []) := by
  rw [recordWireSize, OrderedMap.getElem?_insert] at h
  split at h
  · next hk =>
    cases h
    rw [hk, ExtTreeMap.getD_eq_getD_getElem?]
    cases hps : peer.pending[sequence]? with
    | none => exact Or.inr rfl
    | some ps => exact Or.inl ⟨ps, rfl, rfl⟩
  · exact Or.inl ⟨ps', h, rfl⟩

lemma handle_packets {now : TimePoint} {k : UInt32}
    (h : (Report.handle peer payload now).1.pending[k]? = some ps') :
    ∃ ps, peer.pending[k]? = some ps ∧ packetOf ps' = packetOf ps := by
  by_cases hform : Report.WellFormed payload
  · rw [Report.handle_pending hform] at h
    obtain ⟨ps, hps, h⟩ := Option.bind_eq_some_iff.mp h
    refine ⟨ps, hps, ?_⟩
    split at h
    · exact absurd h (by simp)
    · split at h <;> cases h <;> rfl
  · rw [Report.handle_malformed hform] at h
    exact ⟨ps', h, rfl⟩

/-- The encryptions `l` of a run, with the packets it registered and the commands it sent. -/
structure SealedOnce (me : Local) (first : UInt32) (n : ℕ) (commands : List UInt32) (s : DataState)
    (sent : List (PacketHeader × Bytes)) (l : List Sealing) : Prop extends
    Registered first n s sent where
  origin : ∀ c ∈ l, Origin me sent commands c
  unique : l.Pairwise SamePacket

lemma Origin.mono {commands' : List UInt32} {c : Sealing} (h : Origin me sent commands c)
    (hsent : sent ⊆ sent') (hcommands : commands ⊆ commands') : Origin me sent' commands' c :=
  h.imp (fun ⟨packet, hmem, heq⟩ => ⟨packet, hsent hmem, heq⟩)
    fun ⟨sequence, hmem, heq⟩ => ⟨sequence, hcommands hmem, heq⟩

/-- Registered packets are encrypted, for the first time or again. -/
lemma SealedOnce.packets {first : UInt32} {n' : ℕ} (h : SealedOnce me first n commands s sent l)
    (hreg : Registered first n' s' sent') (hsent : sent ⊆ sent')
    (hnew : ∀ c ∈ new, ∃ packet ∈ sent', c = sealOf packet) :
    SealedOnce me first n' commands s' sent' (l ++ new) where
  toRegistered := hreg
  origin c hc := by
    rcases List.mem_append.mp hc with hc | hc
    · exact (h.origin c hc).mono hsent (List.Subset.refl _)
    · exact Or.inl (hnew c hc)
  unique := by
    refine List.pairwise_append.mpr ⟨h.unique, ?_, ?_⟩
    · have hnew' : ∀ c ∈ new, Origin me sent' commands c := fun c hc => Or.inl (hnew c hc)
      refine List.pairwise_of_forall_mem_list fun c hc c' hc' => ?_
      exact hreg.samePacket (hnew' c hc) (hnew c' hc')
    · intro c hc c' hc'
      exact hreg.samePacket ((h.origin c hc).mono hsent (List.Subset.refl _)) (hnew c' hc')

/-- A command is encrypted, with a number that was not used before. -/
lemma SealedOnce.command {first : UInt32} (h : SealedOnce me first n commands s sent l)
    (hreg : Registered first n s' sent) (hfresh : sequence ∉ commands)
    (hnew : new = [] ∨ ∃ c, new = [c] ∧ c.nonce = commandNonce me.clientId sequence) :
    SealedOnce me first n (commands ++ [sequence]) s' sent (l ++ new) := by
  have hold : ∀ c ∈ l, Origin me sent (commands ++ [sequence]) c := fun c hc =>
    (h.origin c hc).mono (List.Subset.refl _) (List.subset_append_left _ _)
  rcases hnew with rfl | ⟨c', rfl, hc'⟩
  · rw [List.append_nil]
    exact ⟨hreg, hold, h.unique⟩
  · refine ⟨hreg, ?_, List.pairwise_append.mpr ⟨h.unique, List.pairwise_singleton _ _, ?_⟩⟩
    · intro c hc
      rcases List.mem_append.mp hc with hc | hc
      · exact hold c hc
      · rw [List.mem_singleton.mp hc]
        exact Or.inr ⟨sequence, List.mem_append_right _ (List.mem_singleton_self _), hc'⟩
    · intro c hc c'' hc'' hnonce
      rw [List.mem_singleton.mp hc'', hc'] at hnonce
      rcases h.origin c hc with ⟨packet, hmem, rfl⟩ | ⟨sequence', hmem, heq⟩
      · exact absurd hnonce.symm (commandNonce_ne (h.ofMessage packet hmem) _ _)
      · exact absurd (commandNonce_injective (heq.symm.trans hnonce) ▸ hmem) hfresh

/-- A packet in flight is sent. -/
lemma SealedOnce.transmit {first : UInt32} (h : SealedOnce me first n commands s sent l) {i : ℕ}
    {keep : Bool} (hflight : s.inFlight[i]? = some (header, payload, keep))
    (htransmit : transmitDataPacket cs me s.peer header payload keep = .ok (peer, out)) :
    SealedOnce me first n commands { s with peer, inFlight := s.inFlight.eraseIdx i } sent
      (l ++ sealings out) := by
  have hmem : (header, payload) ∈ sent := h.inFlight _ (List.mem_of_getElem? hflight)
  unfold transmitDataPacket at htransmit
  split at htransmit
  · exact absurd htransmit (by simp)
  · next datagram acts hbuild =>
    cases htransmit
    refine h.packets (h.toRegistered.keep rfl ?_ List.eraseIdx_subset ?_) (List.Subset.refl _) ?_
    · split <;> rfl
    · intro k ps' hps'
      split at hps'
      · exact recordWireSize_pending hps'
      · exact Or.inl ⟨ps', hps', rfl⟩
    · intro c hc
      rcases sealings_send hbuild with hnone | hone
      · exact absurd (hnone ▸ hc) List.not_mem_nil
      · exact ⟨_, hmem, List.mem_singleton.mp (hone ▸ hc)⟩

/-- A report arrives, and data packets are sent again. -/
lemma SealedOnce.report {first : UInt32} (h : SealedOnce me first n commands s sent l)
    {bandwidth : BandwidthEstimator}
    (hdata : ∀ packet ∈ (Report.handle s.peer payload clock.now).2.2, packet.1.type = .data)
    (hreport : handleReport cs me s.bandwidth clock s.peer header payload =
      .ok (bandwidth, peer, out)) :
    SealedOnce me first n commands { s with bandwidth, peer } sent (l ++ sealings out) := by
  unfold handleReport at hreport
  simp only at hreport
  split at hreport
  · exact absurd hreport (by simp)
  · next out' hresend =>
    cases hreport
    have hcounter := congrArg Peer.msgIdOut (Report.handle_frame s.peer payload clock.now)
    refine h.packets (h.toRegistered.keep rfl hcounter (List.Subset.refl _) ?_)
      (List.Subset.refl _) ?_
    · exact fun k ps' hps' => Or.inl (handle_packets hps')
    · intro c hc
      obtain ⟨packet, hmem, rfl⟩ := sealings_resend hresend c hc
      obtain ⟨k, ps, hps, heq⟩ := Report.mem_resent hmem
      refine ⟨packet, ?_, rfl⟩
      rcases h.pending k ps hps with hsent | hblank
      · exact heq ▸ hsent
      · -- an entry without a packet would be sent as a handshake
        have htype := hdata packet hmem
        rw [heq.trans hblank] at htype
        exact absurd htype (by simp)

/-- What one event does to the invariant. -/
lemma SealedOnce.step {first : UInt32} (h : SealedOnce me first n commands s sent l)
    {ev : DataEvent} (hbounds : InBounds s ev) (hn : n < idCount)
    (hfresh : ∀ sequence ∈ commandNumbers [ev], sequence ∉ commands)
    (hstep : dataStep cs me s ev = .ok (s', out)) :
    ∃ sent', SealedOnce me first (n + [ev].countP DataEvent.isMessage)
      (commands ++ commandNumbers [ev])
      s' sent' (l ++ sealings out) := by
  have hnone : ∀ sent : List (PacketHeader × Bytes), ∀ c ∈ sealings [],
      ∃ packet ∈ sent, c = sealOf packet := fun sent c hc => absurd hc List.not_mem_nil
  have hkeep : SealedOnce me first n commands s sent (l ++ sealings []) :=
    h.packets h.toRegistered (List.Subset.refl _) (hnone sent)
  have hnil : commands ++ [] = commands := List.append_nil commands
  cases ev with
  | message payload mtu buffers =>
      cases hstep
      refine ⟨sent, ?_⟩
      exact hnil.symm ▸ h.packets (h.toRegistered.message hn hbounds)
        (List.Subset.refl _) (hnone sent)
  | register i clock =>
      rw [dataStep] at hstep
      split at hstep
      · cases hstep
        exact ⟨sent, hnil.symm ▸ hkeep⟩
      · next frag hfrag =>
        cases hstep
        exact ⟨_, hnil.symm ▸ h.packets (h.toRegistered.register hfrag _ rfl)
          (List.subset_cons_self _ _) (hnone _)⟩
  | transmit i =>
      rw [dataStep] at hstep
      split at hstep
      · cases hstep
        exact ⟨sent, hnil.symm ▸ hkeep⟩
      · next header payload keep hflight =>
        split at hstep
        · exact absurd hstep (by simp)
        · next peer out' htransmit =>
          cases hstep
          exact ⟨sent, hnil.symm ▸ h.transmit hflight htransmit⟩
  | report header payload clock =>
      rw [dataStep] at hstep
      split at hstep
      · exact absurd hstep (by simp)
      · next bandwidth peer out' hreport =>
        cases hstep
        exact ⟨sent, hnil.symm ▸ h.report hbounds hreport⟩
  | command sequence payload clock =>
      rw [dataStep] at hstep
      simp only at hstep
      split at hstep
      · exact absurd hstep (by simp)
      · next datagram acts hbuild =>
        cases hstep
        have hreg : Registered first n
            { s with peer := { s.peer with cmdSeqOut := sequence + 1 } } sent :=
          h.toRegistered.keep rfl rfl (List.Subset.refl _) fun k ps' hps' => Or.inl ⟨ps', hps', rfl⟩
        exact ⟨sent, h.command hreg (hfresh sequence (List.mem_singleton_self _))
          ((sealings_send hbuild).imp_right fun hone => ⟨_, hone, rfl⟩)⟩

lemma sealedOnce_run {start : DataState} (hpending : start.peer.pending = ∅)
    (hbacklog : start.backlog = []) (hflight : start.inFlight = []) {events : List DataEvent}
    (hcount : events.countP DataEvent.isMessage < 2 ^ 31 - 1)
    (hbounds : Machine.Along (dataStep cs me) InBounds start events)
    (hcommands : (commandNumbers events).Nodup) {outs : List (List Action)}
    (hrun : Machine.run (dataStep cs me) start events = .ok (s, outs)) :
    ∃ sent, SealedOnce me start.peer.msgIdOut (events.countP DataEvent.isMessage)
      (commandNumbers events) s sent (sealings outs.flatten) := by
  induction events using List.reverseRecOn generalizing s outs with
  | nil =>
      cases hrun
      refine ⟨[], ⟨?_, ?_, ?_, (idAt_zero _).symm, ?_, ?_⟩, ?_, List.Pairwise.nil⟩
      · exact fun packet hmem => absurd hmem List.not_mem_nil
      · rw [hbacklog]
        exact List.nodup_nil
      · rw [hbacklog]
        exact fun key hmem => absurd hmem List.not_mem_nil
      · rw [hflight]
        exact fun p hp => absurd hp List.not_mem_nil
      · rw [hpending]
        exact fun k ps hps => absurd hps (by simp)
      · exact fun c hc => absurd hc List.not_mem_nil
  | append_singleton events ev ih =>
      obtain ⟨t, outs₁, out, hrun₁, hstep, rfl⟩ := Machine.run_concat_ok.mp hrun
      rw [List.countP_append] at hcount ⊢
      have hsplit : commandNumbers (events ++ [ev]) =
          commandNumbers events ++ commandNumbers [ev] :=
        List.filterMap_append
      rw [hsplit] at hcommands ⊢
      obtain ⟨hnodup, -, hdisjoint⟩ := List.nodup_append.mp hcommands
      obtain ⟨sent, hinv⟩ := ih (by omega) hbounds.left hnodup hrun₁
      have hev : InBounds t ev := Machine.along_iff.mp hbounds events ev [] rfl t outs₁ hrun₁
      rw [List.flatten_append, List.flatten_singleton, sealings_append]
      refine hinv.step hev (by unfold idCount; omega) ?_ hstep
      exact fun sequence hmem hold => hdisjoint sequence hold sequence hmem rfl

/-- Two encryptions with the same nonce are encryptions of one data or parity packet, and the nonces
of commands are different from theirs. -/
theorem data_nonces_unique (cs : CryptoSuite) (me : Local) (start : DataState)
    (events : List DataEvent) (hpending : start.peer.pending = ∅) (hbacklog : start.backlog = [])
    (hflight : start.inFlight = []) (hcount : events.countP DataEvent.isMessage < 2 ^ 31 - 1)
    (hbounds : Machine.Along (dataStep cs me) InBounds start events)
    (hcommands : (commandNumbers events).Nodup) {s : DataState} {outs : List (List Action)}
    (hrun : Machine.run (dataStep cs me) start events = .ok (s, outs)) :
    (sealings outs.flatten).Pairwise SamePacket ∧
      ∀ header header', header.type = .command → OfMessage header' →
        buildNonce header ≠ buildNonce header' := by
  obtain ⟨sent, hinv⟩ := sealedOnce_run hpending hbacklog hflight hcount hbounds hcommands hrun
  refine ⟨hinv.unique, fun header header' hcommand hof => ?_⟩
  rw [buildNonce, if_pos hcommand, hcommand]
  exact commandNonce_ne hof header.clientId header.sequence

/-- One message, its first fragment and a command. -/
theorem data_nonces_unique_short :
    ∃ s outs, Machine.run (dataStep plainKeys { config := { encryptionEnabled := true } })
        { peer := { cryptoReady := true } }
        [.message [1, 2] 60 [], .register 0 ⟨0, 0⟩, .transmit 0, .command 1 [3] ⟨0, 0⟩] =
          .ok (s, outs) ∧
      (sealings outs.flatten).length = 2 ∧ (sealings outs.flatten).Pairwise SamePacket := by
  have hcount : (fragmentAndSend { cryptoReady := true } [1, 2] 60 []).2.1.length ≤ 65535 := by
    have hlength := length_fragmentsOf 1 [1, 2] 60
      (Fragmenter.computeParityCountFor ({} : Peer).peerLateRatio 1) []
    have hparity := (Fragmenter.computeParityCountFor_bounds ({} : Peer).peerLateRatio 1).2
    have hdata : Fragmenter.dataCountOf [1, 2] (Fragmenter.fragPayload 60) = 1 := by decide
    rw [hdata] at hlength
    exact hlength.trans_le (by omega)
  refine ⟨_, _, rfl, rfl, ?_⟩
  refine (data_nonces_unique plainKeys { config := { encryptionEnabled := true } }
    { peer := { cryptoReady := true } }
    [.message [1, 2] 60 [], .register 0 ⟨0, 0⟩, .transmit 0, .command 1 [3] ⟨0, 0⟩] rfl rfl rfl
    (by decide) ?_ (by decide) rfl).1
  exact ⟨hcount, fun _ _ _ => ⟨trivial, fun _ _ _ => ⟨trivial, fun _ _ _ => ⟨trivial, fun _ _ _ =>
    trivial⟩⟩⟩⟩

end Transport
end Damen
