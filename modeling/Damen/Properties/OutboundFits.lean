import Damen.Properties.EnqueuedSize
import Damen.Properties.QueuedWork

/-!
# What waits for the token bucket in a run

The datagrams in the outbound queue, in the slot of the reactor and in the hand of the sender come
from the functions of `EnqueuedSize`, called for peers that only these functions have written.  So
under `FitsBucket` they all fit the bucket, in every state of every run (`run_bounded`).  The jobs
the threads have in hand carry what was computed in an earlier step: answers that are still to be
enqueued, fragments, and the packet between the two sections of `send_data_packet`.
-/

namespace Damen
namespace Transport

open Std (ExtTreeMap)
open Fragmenter (Fragment fragPayload)

/-! ## Endpoints -/

section

variable (x25519 : Bytes → Bytes → Option Bytes) (me : Local)

/-- The endpoint is this one, and so are its peers. -/
structure OwnPeers (ep : Endpoint) : Prop where
  self : ep.toLocal = me
  peers : ∀ (key : Bytes) (peer : Peer), ep.peers[key]? = some peer → OwnPeer x25519 me peer

/-- What a step enqueues fits. -/
def OutputsFit (out : Outputs) : Prop :=
  ∀ e ∈ out, ∀ datagram, e.2 = .enqueue datagram → Fits me datagram

end

section

variable {x25519 : Bytes → Bytes → Option Bytes} {hkdfSha256 : Bytes → Bytes → Bytes → Bytes}
  {me : Local} {ep ep' : Endpoint} {key : Bytes} {peer : Peer}

variable {acts : List Action}

lemma mem_enqueued {datagram : Bytes} : datagram ∈ enqueued acts ↔ .enqueue datagram ∈ acts := by
  rw [enqueued, List.mem_filterMap]
  constructor
  · rintro ⟨act, hact, hd⟩
    cases act with
    | enqueue d =>
        obtain rfl := Option.some.inj hd
        exact hact
    | _ => exact absurd hd (by simp)
  · exact fun h => ⟨_, h, rfl⟩

lemma outputsFit_outputsOf (h : ∀ d ∈ enqueued acts, Fits me d) (key : Bytes) :
    OutputsFit me (outputsOf key acts) := by
  intro e he datagram henqueue
  obtain ⟨act, hact, rfl⟩ := List.mem_map.mp he
  obtain rfl : act = .enqueue datagram := henqueue
  exact h datagram (mem_enqueued.mpr hact)

/-- A peer that was just created. -/
lemma ownPeer_new (h : peer.retransmit = me.config.retransmitEnabled) (hpending : peer.pending = ∅)
    (hready : peer.cryptoReady = false) : OwnPeer x25519 me peer where
  retransmit := h
  pending seq ps hps := by simp [hpending] at hps
  keyed hkey := absurd (hready.symm.trans hkey) Bool.false_ne_true

/-- The flag of an entry is set before it is used, so a default entry will do. -/
lemma OwnPeers.getD (h : OwnPeers x25519 me ep) (key : Bytes) :
    OwnPeer x25519 me { ep.peers.getD key {} with retransmit := me.config.retransmitEnabled } := by
  rw [ExtTreeMap.getD_eq_getD_getElem?]
  cases hpeer : ep.peers[key]? with
  | none => exact ownPeer_new rfl rfl rfl
  | some peer =>
      obtain ⟨-, hpending, hkeyed⟩ := h.peers key peer hpeer
      exact ⟨rfl, hpending, hkeyed⟩

lemma OwnPeers.of_mem (h : OwnPeers x25519 me ep) (hkey : key ∈ ep.peers) :
    OwnPeer x25519 me (ep.peers.getD key {}) := by
  obtain ⟨peer, hpeer⟩ := Option.isSome_iff_exists.mp (ExtTreeMap.mem_iff_isSome_getElem?.mp hkey)
  rw [ExtTreeMap.getD_eq_getD_getElem?, hpeer]
  exact h.peers key peer hpeer

/-- An entry is written. -/
lemma OwnPeers.put (h : OwnPeers x25519 me ep) (hpeer : OwnPeer x25519 me peer)
    (hself : ep'.toLocal = ep.toLocal)
    (hpeers : ep'.peers = ep.peers.insert key peer) : OwnPeers x25519 me ep' where
  self := hself.trans h.self
  peers k peer' hpeer' := by
    rw [hpeers, OrderedMap.getElem?_insert] at hpeer'
    split_ifs at hpeer'
    · obtain rfl := Option.some.inj hpeer'
      exact hpeer
    · exact h.peers k peer' hpeer'

lemma forPeers_own (h : OwnPeers x25519 me ep) {f : Peer → Peer × List Action}
    (hf : ∀ peer, OwnPeer x25519 me peer → Answers x25519 me (f peer)) :
    OwnPeers x25519 me (forPeers ep f).1 ∧ OutputsFit me (forPeers ep f).2 := by
  refine ⟨⟨h.self, fun key peer' hpeer' => ?_⟩, fun e he datagram henqueue => ?_⟩
  · rw [forPeers_peer, Option.map_eq_some_iff] at hpeer'
    obtain ⟨peer, hpeer, rfl⟩ := hpeer'
    exact (hf peer (h.peers key peer hpeer)).peer
  · obtain ⟨entry, hentry, he⟩ := List.mem_flatMap.mp he
    have hpeer := h.peers _ _ (ExtTreeMap.mem_toList_iff_getElem?_eq_some.mp hentry)
    exact outputsFit_outputsOf (hf entry.2 hpeer).fits entry.1 e he datagram henqueue

lemma pass_own (hmtu : kHeaderSize < me.config.mtu) (hb : FitsBucket x25519 me)
    (h : OwnPeers x25519 me ep)
    (pass : Impl.Pass) (clock : Clock) :
    OwnPeers x25519 me (pass.apply ep clock).1 ∧ OutputsFit me (pass.apply ep clock).2 := by
  obtain rfl := h.self
  cases pass with
  | handshakes => exact forPeers_own h fun peer hpeer => sendHandshakes_answers hb hpeer clock
  | heartbeats =>
      exact forPeers_own h fun peer hpeer => sendHeartbeats_answers hmtu hb hpeer _ clock
  | reports => exact forPeers_own h fun peer hpeer => sendReports_answers hmtu hb hpeer clock
  | offline => exact forPeers_own h fun peer hpeer => checkOffline_answers hpeer clock
  | commands => exact forPeers_own h fun peer hpeer => flushCommands_answers hpeer _ clock

lemma findOrCreate_own (h : OwnPeers x25519 me ep) (addr : AddrKey) (now : TimePoint)
    (random : UInt64) :
    OwnPeers x25519 me (findOrCreatePeerByAddr ep addr now random).1 := by
  unfold findOrCreatePeerByAddr
  simp only
  split
  · exact h
  · next hunknown =>
    refine h.put ?_ rfl rfl
    rw [peerFor]
    simp only [if_neg hunknown]
    rw [anonymous, h.self]
    exact (h.getD _).frame ⟨rfl, rfl, rfl⟩

lemma connect_own (hb : FitsBucket x25519 me) (h : OwnPeers x25519 me ep) (id : Bytes)
    (addr : AddrKey)
    (clock : Clock) :
    OwnPeers x25519 me (connect ep id addr clock).1 ∧
      OutputsFit me (connect ep id addr clock).2 := by
  -- the peer that had the address may be dropped first
  have hdropped : ∀ old, OwnPeers x25519 me { ep with peers := ep.peers.erase old } := by
    refine fun old => ⟨h.self, fun key peer hpeer => ?_⟩
    rw [OrderedMap.getElem?_erase] at hpeer
    split_ifs at hpeer
    exact h.peers key peer hpeer
  have hcall : ∀ ep : Endpoint, OwnPeers x25519 me ep →
      ∀ peer : Peer,
      SameBuffer { ep.peers.getD id {} with retransmit := me.config.retransmitEnabled } peer →
        OwnPeers x25519 me { ep with
            peers := ep.peers.insert id (sendHandshake ep.toLocal clock peer).1
            peerByAddr := ep.peerByAddr.insert addr id } ∧
          OutputsFit me (outputsOf id (sendHandshake ep.toLocal clock peer).2) := by
    intro ep h peer hsame
    have hanswers := sendHandshake_answers hb ((h.getD id).frame hsame) clock
    rw [h.self]
    exact ⟨h.put hanswers.peer h.self.symm rfl, outputsFit_outputsOf hanswers.fits id⟩
  have hpeer : ∀ ep : Endpoint, OwnPeers x25519 me ep → ∀ peer : Peer,
      SameBuffer { ep.peers.getD id {} with retransmit := ep.config.retransmitEnabled } peer →
      SameBuffer { ep.peers.getD id {} with retransmit := me.config.retransmitEnabled }
        (if peer.state = .closed then
          { peer with state := .handshake, lastHandshakeSent := clock.now - oneHour }
            else peer) := by
    intro ep h peer hsame
    rw [← h.self]
    split
    · exact ⟨hsame.retransmit, hsame.pending, hsame.cryptoReady⟩
    · exact hsame
  unfold connect
  split
  · next old _ =>
    split
    · exact hcall _ (hdropped old) _ (hpeer _ (hdropped old) _ ⟨rfl, rfl, rfl⟩)
    · exact hcall _ h _ (hpeer _ h _ ⟨rfl, rfl, rfl⟩)
  · exact hcall _ h _ (hpeer _ h _ ⟨rfl, rfl, rfl⟩)

lemma sendCommand_own (hb : FitsBucket x25519 me) (h : OwnPeers x25519 me ep)
    (hmtu : kHeaderSize < me.config.mtu) {id payload : Bytes} {clock : Clock} {out : Outputs}
    {sent : Bool}
    (hok : sendCommand (.ofGcm x25519 hkdfSha256) ep id payload clock = .ok (ep', out, sent)) :
    OwnPeers x25519 me ep' ∧ OutputsFit me out := by
  rcases sendCommand_ok hok with ⟨rfl, rfl, -⟩ | ⟨key, peer, datagram, acts, hfind, -, hbuild,
    rfl, rfl, rfl⟩
  · exact ⟨h, fun e he => absurd he List.not_mem_nil⟩
  · have hlength : payload.length ≤ ep.config.mtu - kHeaderSize := by
      by_contra hlong
      rw [sendCommand, if_pos (not_le.mp hlong)] at hok
      exact absurd hok (by simp)
    have hpeer : OwnPeer x25519 me { peer with cmdSeqOut := peer.cmdSeqOut + 1 } :=
      (h.peers key peer (findPeer_mem hfind)).frame ⟨rfl, rfl, rfl⟩
    have hmoderate : Moderate me payload := by
      right
      rw [h.self, kHeaderSize] at *
      rw [kGcmTagSize]
      omega
    refine ⟨h.put hpeer rfl rfl, outputsFit_outputsOf (fits_append ?_ ?_) key⟩
    · rw [enqueued_buildWirePacket hbuild]
      exact fun _ hd => absurd hd List.not_mem_nil
    · rw [h.self] at hbuild
      exact fits_sendRaw (hmoderate.built hb hpeer rfl hbuild) peer

end

/-! ## The outbound queue -/

namespace Outbound

variable {α : Type}

/-- What waits for the bucket: in the queue, in the slot of the reactor and in the hand of the
sender. -/
def waiting (o : Outbound α) : List α := o.queue.items ++ o.litePending.toList ++ o.sending.toList

lemma mem_waiting {o : Outbound α} {packet : α} :
    packet ∈ o.waiting ↔ packet ∈ o.queue.items ∨ o.litePending = some packet ∨
      o.sending = some packet := by
  simp only [waiting, List.mem_append, Option.mem_toList, or_assoc]

/-- The consumers only move packets on. -/
lemma take_waiting (o : Outbound α) : o.take.waiting ⊆ o.waiting := by
  intro packet hpacket
  rw [mem_waiting] at hpacket ⊢
  obtain ⟨hrest, htaken⟩ := Impl.poll_mem o.queue
  rcases hpacket with hqueue | hslot | hsending
  · exact Or.inl (hrest hqueue)
  · exact Or.inr (Or.inl hslot)
  · exact Or.inl (htaken packet hsending)

lemma send_waiting (ready : α → Bool) (o : Outbound α) : (o.send ready).waiting ⊆ o.waiting := by
  intro packet hpacket
  unfold send at hpacket
  split at hpacket
  · exact hpacket
  · rw [mem_waiting] at hpacket ⊢
    exact hpacket.imp id (Or.imp id fun hnone => absurd hnone (by simp))

lemma fill_waiting (o : Outbound α) : o.fill.waiting ⊆ o.waiting := by
  intro packet hpacket
  unfold fill at hpacket
  split at hpacket
  · exact hpacket
  · rw [mem_waiting] at hpacket ⊢
    obtain ⟨hrest, htaken⟩ := Impl.poll_mem o.queue
    rcases hpacket with hqueue | hslot | hsending
    · exact Or.inl (hrest hqueue)
    · exact Or.inl (htaken packet hslot)
    · exact Or.inr (Or.inr hsending)

lemma flush_waiting (ready : α → Bool) (enough : Bool) (o : Outbound α) :
    (o.flush ready enough).waiting ⊆ o.waiting := by
  intro packet hpacket
  unfold flush at hpacket
  split at hpacket
  · exact hpacket
  · split_ifs at hpacket
    · rw [mem_waiting] at hpacket ⊢
      exact hpacket.imp id (Or.imp (fun hnone => absurd hnone (by simp)) id)
    · exact hpacket
    · rw [mem_waiting] at hpacket ⊢
      exact hpacket.imp id (Or.imp (fun hnone => absurd hnone (by simp)) id)

/-- What is appended waits. -/
lemma push_waiting {o : Outbound α} {packet new : α} (h : packet ∈ (o.push new).1.waiting) :
    packet ∈ o.waiting ∨ packet = new := by
  simp only [push, BlockingQueue.tryPush] at h
  split at h
  · exact Or.inl h
  · simp only [mem_waiting, List.mem_append, List.mem_singleton] at h ⊢
    tauto

end Outbound

/-! ## The threads -/

namespace Impl

/-- The job carries what fits. -/
def JobFits (me : Local) : Job → Prop
  | .packet _ _ | .message _ => True
  | .outputs acts => ∀ datagram ∈ enqueued acts, Fits me datagram
  | .fragments frags => ∀ frag ∈ frags, frag.width = fragPayload me.config.mtu
  | .registered header payload _ frags =>
      (header.payloadSize = UInt16.ofNat payload.length ∧ Moderate me payload) ∧
        ∀ frag ∈ frags, frag.width = fragPayload me.config.mtu

structure Bounded (x25519 : Bytes → Bytes → Option Bytes) (me : Local) (s : Impl) : Prop where
  peers : OwnPeers x25519 me s.ep
  hands : ∀ work ∈ s.hands, JobFits me work.item
  waiting : ∀ packet ∈ s.outbound.waiting, Fits me packet.item

/-- Packets with `P` may have been appended to the outbound queue. -/
structure Appended (P : Bytes → Prop) (s s' : Impl) : Prop where
  ep : s'.ep = s.ep
  hands : s'.hands = s.hands
  waiting : ∀ packet ∈ s'.outbound.waiting, packet ∈ s.outbound.waiting ∨ P packet.item

lemma Appended.refl (P : Bytes → Prop) (s : Impl) : Appended P s s := ⟨rfl, rfl, fun _ => Or.inl⟩

variable {P : Bytes → Prop}

lemma Appended.trans {s t u : Impl} (h : Appended P s t) (h' : Appended P t u) :
    Appended P s u where
  ep := h'.ep.trans h.ep
  hands := h'.hands.trans h.hands
  waiting packet hpacket := (h'.waiting packet hpacket).elim (h.waiting packet) Or.inr

lemma perform_appended (s : Impl) (ref : Ref) {act : Action}
    (hact : ∀ datagram, act = .enqueue datagram → P datagram) :
    Appended P s (s.perform ref act) := by
  cases act with
  | enqueue datagram =>
      refine ⟨rfl, rfl, fun packet hpacket => ?_⟩
      rcases Outbound.push_waiting hpacket with hold | rfl
      · exact Or.inl hold
      · exact Or.inr (hact datagram rfl)
  | probe _ | encrypt _ _ _ _ | message _ _ | command _ _ | peerEvent _ _ _ _ =>
      exact Appended.refl P s

lemma foldl_perform_appended {α : Type} (ref : Impl → α → Ref) (act : α → Action) {l : List α}
    (hl : ∀ a ∈ l, ∀ datagram, act a = .enqueue datagram → P datagram) (s : Impl) :
    Appended P s (l.foldl (fun s a => s.perform (ref s a) (act a)) s) := by
  induction l generalizing s with
  | nil => exact Appended.refl P s
  | cons a l ih =>
      exact (perform_appended s _ (hl a List.mem_cons_self)).trans
        (ih (fun b hb => hl b (List.mem_cons_of_mem a hb)) _)

section

variable {x25519 : Bytes → Bytes → Option Bytes} {hkdfSha256 : Bytes → Bytes → Bytes → Bytes}
  {me : Local} {s s' : Impl}

lemma Bounded.appended (h : Bounded x25519 me s) (hs : Appended (Fits me) s s') :
    Bounded x25519 me s' where
  peers := hs.ep ▸ h.peers
  hands := hs.hands ▸ h.hands
  waiting packet hpacket := (hs.waiting packet hpacket).elim (h.waiting packet) id

lemma Bounded.withEndpoint (h : Bounded x25519 me s) {ep : Endpoint} (hep : OwnPeers x25519 me ep)
    {out : Outputs}
    (hout : OutputsFit me out) : Bounded x25519 me ((s.withEndpoint ep).performAll out) := by
  have hs : Bounded x25519 me (s.withEndpoint ep) := ⟨hep, h.hands, h.waiting⟩
  exact hs.appended (foldl_perform_appended (fun s (e : Bytes × Action) => s.ref e.1)
    Prod.snd hout _)

/-- The consumers of the outbound queue only move packets on. -/
lemma Bounded.outbound (h : Bounded x25519 me s) {o : Outbound (Work Bytes)}
    (ho : o.waiting ⊆ s.outbound.waiting) : Bounded x25519 me { s with outbound := o } :=
  ⟨h.peers, h.hands, fun packet hpacket => h.waiting packet (ho hpacket)⟩

lemma advance_bounded (hmtu : kHeaderSize < me.config.mtu) (hb : FitsBucket x25519 me)
    (h : Bounded x25519 me s) {work : Work Job} (hlive : s.Live work.peer)
    (hjob : JobFits me work.item)
    {clock : Clock} {buffers : List Bytes} {job : Option Job}
    (hok : s.advance (.ofGcm x25519 hkdfSha256) work clock buffers = .ok (s', job)) :
    Bounded x25519 me s' ∧ s'.hands = s.hands ∧ ∀ j ∈ job, JobFits me j := by
  have hpeer := h.peers.of_mem hlive.1
  have hself := h.peers.self
  obtain ⟨ref, item⟩ := work
  cases item with
  | packet header payload =>
      unfold advance at hok
      simp only at hok
      split at hok
      · exact absurd hok (by simp)
      · next hreceive =>
        rw [hself] at hreceive
        have hanswers := receivePacket_answers hmtu hb hpeer hreceive
        obtain ⟨rfl, rfl⟩ := Prod.mk.inj (Except.ok.inj hok)
        refine ⟨⟨h.peers.put hanswers.peer rfl rfl, h.hands, h.waiting⟩, rfl, ?_⟩
        rintro j ⟨rfl⟩
        exact hanswers.fits
  | outputs acts =>
      cases acts with
      | nil =>
          obtain ⟨rfl, rfl⟩ := Prod.mk.inj (Except.ok.inj hok)
          exact ⟨h, rfl, fun j hj => absurd hj (by simp)⟩
      | cons act acts =>
          obtain ⟨rfl, rfl⟩ := Prod.mk.inj (Except.ok.inj hok)
          have hact : Appended (Fits me) s (s.perform ref act) :=
            perform_appended s ref fun d hd => hjob d (mem_enqueued.mpr (hd ▸ List.mem_cons_self))
          refine ⟨h.appended hact, hact.hands, ?_⟩
          rintro j ⟨rfl⟩
          exact fun d hd =>
            hjob d (mem_enqueued.mpr (List.mem_cons_of_mem act (mem_enqueued.mp hd)))
  | message payload =>
      obtain ⟨rfl, rfl⟩ := Prod.mk.inj (Except.ok.inj hok)
      have hsent := fragmentAndSend_own hpeer payload s.ep.config.mtu buffers
      have hput : OwnPeers x25519 me { s.ep with
          peers := s.ep.peers.insert ref.key (Fragmenter.fragmentAndSend
            (s.ep.peers.getD ref.key {}) payload s.ep.config.mtu buffers).1 } :=
        h.peers.put hsent rfl rfl
      refine ⟨⟨hput, h.hands, h.waiting⟩, rfl, ?_⟩
      rintro j ⟨rfl⟩ frag hfrag
      rw [← hself]
      exact width_of_mem_fragmentAndSend hfrag
  | fragments frags =>
      cases frags with
      | nil =>
          obtain ⟨rfl, rfl⟩ := Prod.mk.inj (Except.ok.inj hok)
          exact ⟨h, rfl, fun j hj => absurd hj (by simp)⟩
      | cons frag frags =>
          obtain ⟨rfl, rfl⟩ := Prod.mk.inj (Except.ok.inj hok)
          have hregister := registerDataPacket_own hmtu hpeer (hjob frag List.mem_cons_self) clock
          rw [← hself] at hregister
          refine ⟨⟨h.peers.put (hself ▸ hregister.1) rfl rfl, h.hands, h.waiting⟩, rfl, ?_⟩
          rintro j ⟨rfl⟩
          exact ⟨hself ▸ hregister.2, fun f hf => hjob f (List.mem_cons_of_mem frag hf)⟩
  | registered header payload keep frags =>
      obtain ⟨⟨hsize, hmoderate⟩, hfrags⟩ := hjob
      unfold advance at hok
      simp only at hok
      split at hok
      · exact absurd hok (by simp)
      · next peer acts htransmit =>
        rw [hself] at htransmit
        have hanswers := transmitDataPacket_answers hmtu hb hpeer hsize hmoderate htransmit
        obtain ⟨rfl, rfl⟩ := Prod.mk.inj (Except.ok.inj hok)
        have hput : Bounded x25519 me
            { s with ep := { s.ep with peers := s.ep.peers.insert ref.key peer } } :=
          ⟨h.peers.put hanswers.peer rfl rfl, h.hands, h.waiting⟩
        have hacts := foldl_perform_appended (P := Fits me) (fun _ _ => ref) id
          (fun act hact d hd => hanswers.fits d (mem_enqueued.mpr (hd ▸ hact)))
          { s with ep := { s.ep with peers := s.ep.peers.insert ref.key peer } }
        refine ⟨hput.appended hacts, hacts.hands, ?_⟩
        rintro j ⟨rfl⟩
        exact hfrags

/-! ## Runs -/

lemma move_bounded (hmtu : kHeaderSize < me.config.mtu) (hb : FitsBucket x25519 me)
    (h : Bounded x25519 me s) {ev : Event} (hok : s.move (.ofGcm x25519 hkdfSha256) ev = .ok s') :
    Bounded x25519 me s' := by
  cases ev with
  | connect id addr clock =>
      have hconnect := connect_own hb h.peers id addr clock
      rw [← Except.ok.inj hok]
      exact h.withEndpoint hconnect.1 hconnect.2
  | sendCommand id payload clock =>
      rw [move] at hok
      split at hok
      · exact absurd hok (by simp)
      · next hsend =>
        obtain rfl := Except.ok.inj hok
        obtain ⟨hep, hout⟩ := sendCommand_own hb h.peers hmtu hsend
        exact h.withEndpoint hep hout
  | sendMessage limit priority id payload =>
      obtain rfl := Except.ok.inj hok
      unfold sendMessage
      split
      · exact h
      · exact ⟨h.peers, h.hands, h.waiting⟩
  | pass pass clock =>
      have hpass := pass_own hmtu hb h.peers pass clock
      rw [← Except.ok.inj hok]
      exact h.withEndpoint hpass.1 hpass.2
  | takeMessages =>
      obtain rfl := Except.ok.inj hok
      exact ⟨h.peers, h.hands, h.waiting⟩
  | processMessage limit =>
      rw [move] at hok
      split at hok
      · obtain rfl := Except.ok.inj hok
        exact h
      · obtain rfl := Except.ok.inj hok
        exact ⟨h.peers, h.hands, h.waiting⟩
  | receive addr header payload clock random =>
      obtain rfl := Except.ok.inj hok
      refine ⟨findOrCreate_own h.peers addr clock.now random, fun work hwork => ?_, h.waiting⟩
      rcases List.mem_append.mp hwork with hold | hnew
      · exact h.hands work hold
      · rw [List.mem_singleton.mp hnew]
        trivial
  | takeTask =>
      obtain rfl := Except.ok.inj hok
      refine ⟨h.peers, fun work hwork => ?_, h.waiting⟩
      rcases List.mem_append.mp hwork with hold | hnew
      · exact h.hands work hold
      · obtain ⟨task, -, rfl⟩ := List.mem_map.mp hnew
        trivial
  | advance i clock buffers =>
      rw [move] at hok
      split at hok
      · obtain rfl := Except.ok.inj hok
        exact h
      · next work hwork =>
        split at hok
        · exact absurd hok (by simp)
        · next hlive =>
          split at hok
          · exact absurd hok (by simp)
          · next t job hadvance =>
            have hjob := h.hands work (List.mem_of_getElem? hwork)
            obtain ⟨ht, hhands, hnext⟩ := advance_bounded hmtu hb h (not_not.mp hlive) hjob hadvance
            obtain rfl := Except.ok.inj hok
            refine ⟨ht.peers, fun w hw => ?_, ht.waiting⟩
            cases job with
            | none => exact ht.hands w (List.mem_of_mem_eraseIdx hw)
            | some job =>
                rcases List.mem_or_eq_of_mem_set hw with hold | rfl
                · exact ht.hands w hold
                · exact hnext job rfl
  | takePacket =>
      rw [move] at hok
      split at hok
      · obtain rfl := Except.ok.inj hok
        exact h
      · obtain rfl := Except.ok.inj hok
        exact h.outbound (Outbound.take_waiting _)
  | sendPacket =>
      rw [move] at hok
      split at hok
      · exact absurd hok (by simp)
      · obtain rfl := Except.ok.inj hok
        exact h.outbound (Outbound.send_waiting _ _)
  | fillSlot =>
      obtain rfl := Except.ok.inj hok
      exact h.outbound (Outbound.fill_waiting _)
  | flushSlot enough =>
      rw [move] at hok
      split at hok
      · exact absurd hok (by simp)
      · obtain rfl := Except.ok.inj hok
        exact h.outbound (Outbound.flush_waiting _ _ _)

lemma step_bounded (hmtu : kHeaderSize < me.config.mtu) (hb : FitsBucket x25519 me)
    (h : Bounded x25519 me s) {ev : Event} {o : Unit}
    (hok : step (.ofGcm x25519 hkdfSha256) s ev = .ok (s', o)) : Bounded x25519 me s' := by
  unfold step at hok
  split at hok
  · exact absurd hok (by simp)
  · next hmove =>
    have ht := move_bounded hmtu hb h hmove
    obtain ⟨rfl, -⟩ := Prod.mk.inj (Except.ok.inj hok)
    exact ⟨ht.peers, ht.hands, ht.waiting⟩

/-- The transport of this endpoint before it has a peer or anything to do for one. -/
structure Fresh (me : Local) (s : Impl) : Prop where
  self : s.ep.toLocal = me
  peers : s.ep.peers = ∅
  peerByAddr : s.ep.peerByAddr = ∅
  outbound : s.outbound = {}
  hands : s.hands = []

lemma Fresh.bounded (h : Fresh me s) : Bounded x25519 me s where
  peers := ⟨h.self, fun key peer hpeer => by simp [h.peers] at hpeer⟩
  hands work hwork := by simp [h.hands] at hwork
  waiting packet hpacket := by simp [Outbound.waiting, h.outbound] at hpacket

lemma run_bounded (hmtu : kHeaderSize < me.config.mtu) (hb : FitsBucket x25519 me) (h : Fresh me s)
    {events : List Event} {outs : List Unit}
    (hrun : Machine.run (step (.ofGcm x25519 hkdfSha256)) s events = .ok (s', outs)) :
    Bounded x25519 me s' :=
  Machine.run_keeps (fun _ _ _ _ hs hstep => step_bounded hmtu hb hs hstep) h.bounded hrun

end

end Impl
end Transport
end Damen
