import Damen.Properties.CommandNonce
import Damen.Properties.CommandOrder
import Damen.Properties.SecureWire

/-!
# Handshakes and the command channel

Two endpoints with an online link: A sends commands, B receives them in sending order, and
handshakes and their acknowledgements arrive at either end at any time.  `CommandChannel::reset` is
called for every one of them that is accepted, and sets the counter of the sending side and the
cursor of the receiving side back at that end only.  When A starts over and B does not, B takes the
new commands for ones it has delivered already.

`commands_not_discarded` says when that does not happen: A's counter is ahead of B whenever A sends,
that is, above the numbers on the way and those B holds, and not below B's cursor.  The handshake
packets themselves may come as they like.
-/

namespace Damen
namespace Transport

open Std (ExtTreeMap)
open PacketCodec

/-! ## What handshakes do to the receiving side -/

/-- The receiving side of the command channel is the same. -/
structure SameReceiver (peer peer' : Peer) : Prop where
  cmdInitialized : peer'.cmdInitialized = peer.cmdInitialized
  cmdNextExpected : peer'.cmdNextExpected = peer.cmdNextExpected
  cmdHeld : peer'.cmdHeld = peer.cmdHeld

/-- The receiving side starts over. -/
def StartsOver (peer : Peer) : Prop := peer.cmdInitialized = false ∧ peer.cmdHeld = ∅

lemma handleHandshake_receiver (cs : CryptoSuite) (me : Local) (bw : BandwidthEstimator)
    (clock : Clock) (peer : Peer) (header : PacketHeader) (payload : Bytes) :
    SameReceiver peer (handleHandshake cs me bw clock peer header payload).1 ∨
      StartsOver (handleHandshake cs me bw clock peer header payload).1 := by
  rcases handleHandshake_frame cs me bw clock peer header payload with
    ⟨-, _, hframe⟩ | ⟨_, -, -, _, _, _, _, _, _, _, _, _, _, _, _, hframe⟩
  · rw [hframe]
    exact Or.inl ⟨rfl, rfl, rfl⟩
  · rw [hframe]
    exact Or.inr ⟨rfl, rfl⟩

lemma handleHandshakeAck_startsOver (cs : CryptoSuite) (me : Local) (bw : BandwidthEstimator)
    (clock : Clock) (peer : Peer) (header : PacketHeader) (payload : Bytes) :
    StartsOver (handleHandshakeAck cs me bw clock peer header payload).1 := by
  obtain ⟨_, _, _, _, _, _, _, _, _, _, hframe⟩ :=
    handleHandshakeAck_frame cs me bw clock peer header payload
  rw [hframe]
  exact ⟨rfl, rfl⟩

variable {cs : CryptoSuite} {bw bw' : BandwidthEstimator} {clock : Clock} {peer : Peer}
  {header : PacketHeader} {payload : Bytes} {acts : List Action} {seq : UInt32} {out : Outputs}
  {addrA : AddrKey}

/-- A handshake packet leaves the receiving side alone or makes it start over. -/
lemma receive_handshake_receiver {me : Local} {peer' : Peer}
    (htype : header.type = .handshake ∨ header.type = .handshakeAck)
    (h : receivePacket cs me bw clock peer header payload = .ok (bw', peer', acts)) :
    SameReceiver peer peer' ∨ StartsOver peer' := by
  rcases receivePacket_ok h with ⟨-, -, rfl, rfl⟩ | ⟨header', payload', acts', hopen, hdispatch, -⟩
  · exact Or.inl ⟨rfl, rfl, rfl⟩
  rw [← openPacket_type hopen] at htype
  rw [dispatch] at hdispatch
  rcases htype with htype | htype
  · rw [htype] at hdispatch
    obtain ⟨rfl, -⟩ := ok_inj hdispatch
    exact (handleHandshake_receiver cs me bw clock (noteSender clock peer header) header'
      payload').imp_left fun hsame => ⟨hsame.1, hsame.2, hsame.3⟩
  · rw [htype] at hdispatch
    obtain ⟨rfl, -⟩ := ok_inj hdispatch
    exact Or.inr (handleHandshakeAck_startsOver _ _ _ _ _ _ _)

/-! ## What commands do to it -/

/-- Cursor and held commands do not reach the number `seq`. -/
structure Below (peer : Peer) (seq : UInt32) : Prop where
  cursor : peer.cmdInitialized = true → peer.cmdNextExpected ≤ seq
  held : ∀ k ∈ peer.cmdHeld, k < seq

lemma SameReceiver.below {p q : Peer} (h : SameReceiver p q) (hp : Below p seq) : Below q seq := by
  constructor
  · rw [h.cmdInitialized, h.cmdNextExpected]
    exact hp.cursor
  · rw [h.cmdHeld]
    exact hp.held

lemma StartsOver.below (h : StartsOver peer) (seq : UInt32) : Below peer seq := by
  constructor
  · intro hinit
    exact absurd (h.1.symm.trans hinit) (by simp)
  · rw [h.2]
    exact fun k hk => absurd hk ExtTreeMap.not_mem_empty

lemma succ_le_of_lt {k : UInt32} (h : k < seq) : k + 1 ≤ seq := by
  have hlt := UInt32.lt_iff_toNat_lt.mp h
  have hseq : seq.toNat < 2 ^ 32 := seq.toNat_lt
  exact (Drain.succ_le_iff (by omega)).mpr h

/-- Draining takes commands out, and the cursor stops behind the last one of them. -/
lemma drainHeld_below (fuel : ℕ) (held : ExtTreeMap UInt32 Bytes) (next seq : UInt32)
    (hnext : next ≤ seq) (hheld : ∀ k ∈ held, k < seq) :
    (CommandChannel.drainHeld fuel held next).2.1 ≤ seq ∧
      ∀ k ∈ (CommandChannel.drainHeld fuel held next).1, k < seq := by
  induction fuel generalizing held next with
  | zero => exact ⟨hnext, hheld⟩
  | succ fuel ih =>
      rw [CommandChannel.drainHeld]
      cases hfound : held[next]? with
      | none => exact ⟨hnext, hheld⟩
      | some payload =>
          have hmem : next ∈ held := of_getElem?_eq_some hfound
          exact ih (held.erase next) (next + 1) (succ_le_of_lt (hheld next hmem))
            fun k hk => hheld k (ExtTreeMap.mem_erase.mp hk).2

lemma drainLocked_below (hnext : peer.cmdNextExpected ≤ seq) (hheld : ∀ k ∈ peer.cmdHeld, k < seq) :
    Below (CommandChannel.drainLocked peer).1 seq := by
  obtain ⟨hcursor, hleft⟩ :=
    drainHeld_below peer.cmdHeld.size peer.cmdHeld peer.cmdNextExpected seq hnext hheld
  exact ⟨fun _ => hcursor, hleft⟩

lemma expireLocked_below (h : Below peer seq) (rttUs : UInt32) (now : TimePoint) :
    Below (CommandChannel.expireLocked peer rttUs now).1 seq := by
  unfold CommandChannel.expireLocked
  split
  · exact h
  · next first hfirst =>
    split
    · exact h
    · have hlt := h.held first (ExtTreeMap.minKey?_mem hfirst)
      have hdrained :
          Below (CommandChannel.drainLocked { peer with cmdNextExpected := first }).1 seq :=
        drainLocked_below (UInt32.le_of_lt hlt) h.held
      simp only
      split
      · exact hdrained
      · exact ⟨hdrained.cursor, hdrained.held⟩

/-- A command with a smaller number keeps the receiving side below `seq`. -/
lemma handle_below (h : Below peer seq) (hlt : header.sequence < seq) (payload : Bytes)
    (rttUs : UInt32) (now : TimePoint) :
    Below (CommandChannel.handle peer header payload rttUs now).1 seq := by
  unfold CommandChannel.handle
  simp only
  split
  · exact h
  · have hstart : Below (if peer.cmdInitialized then peer
        else { peer with cmdNextExpected := header.sequence, cmdInitialized := true }) seq ∧
        (if peer.cmdInitialized then peer
          else { peer with
            cmdNextExpected := header.sequence, cmdInitialized := true }).cmdInitialized =
            true := by
      split
      · next hinit => exact ⟨h, hinit⟩
      · exact ⟨⟨fun _ => UInt32.le_of_lt hlt, h.held⟩, rfl⟩
    generalize (if peer.cmdInitialized then peer
      else { peer with cmdNextExpected := header.sequence, cmdInitialized := true }) =
        peer' at hstart
    obtain ⟨hbelow, hinit⟩ := hstart
    split
    · exact hbelow
    · split
      · next heq => exact drainLocked_below (succ_le_of_lt (heq ▸ hlt)) hbelow.held
      · refine expireLocked_below ?_ rttUs now
        have hheld : ∀ k ∈ peer'.cmdHeld.insertIfNew header.sequence payload, k < seq := by
          intro k hk
          rcases ExtTreeMap.mem_insertIfNew.mp hk with heq | hk
          · exact Std.LawfulEqCmp.compare_eq_iff_eq.mp heq ▸ hlt
          · exact hbelow.held k hk
        split
        · exact ⟨hbelow.cursor, hheld⟩
        · exact ⟨hbelow.cursor, hheld⟩

/-! ## The link -/

/-- Both ends of a link, and the commands that A has sent and that have not arrived at B. -/
structure Link where
  a : Endpoint
  b : Endpoint
  wire : List Bytes := []

/-- The packet belongs to a handshake. -/
def OfHandshake (header : PacketHeader) : Prop :=
  header.type = .handshake ∨ header.type = .handshakeAck

inductive LinkEvent
  /-- A calls `send_command`. -/
  | send (id payload : Bytes) (clock : Clock)
  /-- A handshake or an acknowledgement from the address of B arrives at A. -/
  | atA (header : PacketHeader) (h : OfHandshake header) (payload : Bytes) (clock : Clock)
      (random : UInt64)
  /-- One from the address of A arrives at B. -/
  | atB (header : PacketHeader) (h : OfHandshake header) (payload : Bytes) (clock : Clock)
      (random : UInt64)
  /-- The next command on the way arrives at B. -/
  | arrive (clock : Clock) (random : UInt64)

/-- A step of the link, with `x` for B in the peers of A. -/
def linkStep (cs : CryptoSuite) (x : Bytes) (addrA addrB : AddrKey) (s : Link) :
    LinkEvent → Except Fault (Link × Outputs)
  | .send id payload clock =>
      match step cs s.a (.sendCommand id payload clock) with
      | .error fault => .error fault
      | .ok (a, out) => .ok ({ s with a, wire := s.wire ++ enqueued (actionsFor x out) }, out)
  | .atA header _ payload clock random =>
      match step cs s.a (.packet addrB header payload clock random) with
      | .error fault => .error fault
      | .ok (a, out) => .ok ({ s with a }, out)
  | .atB header _ payload clock random =>
      match step cs s.b (.packet addrA header payload clock random) with
      | .error fault => .error fault
      | .ok (b, out) => .ok ({ s with b }, out)
  | .arrive clock random =>
      match s.wire with
      | [] => .ok (s, [])
      | datagram :: wire =>
          match decode datagram with
          | none => .ok ({ s with wire }, [])
          | some (header, payload) =>
              match step cs s.b (.packet addrA header payload clock random) with
              | .error fault => .error fault
              | .ok (b, out) => .ok ({ s with b, wire }, out)

/-- The next command on the way is one that B, with `y` for A among its peers, takes for
delivered. -/
def Discards (cs : CryptoSuite) (y : Bytes) (s : Link) : Prop :=
  ∃ datagram ∈ s.wire.head?, ∃ peer ∈ s.b.peers[y]?, ∃ packet ∈ decode datagram,
    ∃ opened ∈ openPacket cs peer packet.1 packet.2,
      opened.1.sequence ≠ 0 ∧ peer.cmdInitialized = true ∧ opened.1.sequence < peer.cmdNextExpected

/-- The number of a command on the way. -/
def numberOf (datagram : Bytes) : UInt32 := (headerOf datagram).sequence

/-- A counter that is ahead of B: above what is on the way and what B holds, and not below its
cursor. -/
def Ahead (y : Bytes) (s : Link) (counter : UInt32) : Prop :=
  (∀ datagram ∈ s.wire, numberOf datagram < counter) ∧ ∀ peer ∈ s.b.peers[y]?, Below peer counter

/-- If the event is a call of `send_command`, A's counter for B is ahead of B. -/
def SendsAhead (x y : Bytes) (s : Link) : LinkEvent → Prop
  | .send _ _ _ => ∀ peer ∈ s.a.peers[x]?, Ahead y s peer.cmdSeqOut
  | _ => True

/-! ## The link stays in step -/

/-- B knows A by the key `y`.  The numbers on the way increase, and the receiving side of B is below
all of them. -/
structure InStep (y : Bytes) (addrA : AddrKey) (s : Link) : Prop where
  known : s.b.peerByAddr[addrA]? = some y
  commands : ∀ datagram ∈ s.wire, (headerOf datagram).type = .command
  increasing : (s.wire.map numberOf).Pairwise (· < ·)
  below : ∃ peer, s.b.peers[y]? = some peer ∧ ∀ datagram ∈ s.wire, Below peer (numberOf datagram)

/-- A call of `send_command` enqueues at most one datagram for `x`, a command with the number of the
counter. -/
lemma sendCommand_enqueued {x : Bytes} {ep ep' : Endpoint} {id : Bytes}
    (h : step cs ep (.sendCommand id payload clock) = .ok (ep', out)) :
    enqueued (actionsFor x out) = [] ∨
      ∃ peer datagram, ep.peers[x]? = some peer ∧ enqueued (actionsFor x out) = [datagram] ∧
        (headerOf datagram).type = .command ∧ numberOf datagram = peer.cmdSeqOut := by
  obtain ⟨-, hview⟩ := step_view (x := x) (fun _ _ => by simp) h
  cases hview with
  | command hpeer _ hbuild _ hout =>
      obtain ⟨payloadSize, flags, checksum, hheader⟩ := headerOf_buildWirePacket hbuild
      rw [hout, enqueued, List.filterMap_append, ← enqueued, enqueued_buildWirePacket hbuild,
        List.nil_append, sendRaw]
      split
      · refine Or.inr ⟨_, _, hpeer, rfl, ?_, ?_⟩
        · rw [hheader]
          rfl
        · rw [numberOf, hheader]
          rfl
      · exact Or.inl rfl
  | other _ hout =>
      rw [hout]
      exact Or.inl rfl

/-- A packet from the address of A is handled for the peer that B knows A by. -/
lemma packet_known {ep ep' : Endpoint} {addr : AddrKey} {random : UInt64} {y : Bytes}
    (hknown : ep.peerByAddr[addr]? = some y) (hpeer : ep.peers[y]? = some peer)
    (h : step cs ep (.packet addr header payload clock random) = .ok (ep', out)) :
    ∃ peer' acts, receivePacket cs ep.toLocal ep.bandwidth clock peer header payload =
        .ok (ep'.bandwidth, peer', acts) ∧
      ep'.peerByAddr[addr]? = some y ∧ ep'.peers[y]? = some peer' := by
  have hmem : y ∈ ep.peers := of_getElem?_eq_some hpeer
  have hkey : peerKey ep addr random = y := by
    simp only [peerKey, hknown, if_pos hmem]
  have hfor : peerFor ep addr clock.now random = peer := by
    rw [peerFor, hkey, if_pos ⟨y, hknown, hmem⟩, ExtTreeMap.getD_eq_getD_getElem?, hpeer]
    rfl
  obtain ⟨peer', acts, hreceive, -, hpeers, haddr, -⟩ := handlePacket_ok h
  rw [hfor] at hreceive
  rw [if_pos ⟨y, hknown, hmem⟩] at haddr
  refine ⟨peer', acts, hreceive, by rw [haddr, hknown], ?_⟩
  rw [hpeers, hkey, if_pos rfl]

/-- A command that arrives keeps the receiving side below larger numbers. -/
lemma receive_command_below {me : Local} {peer' : Peer} (htype : header.type = .command)
    (h : receivePacket cs me bw clock peer header payload = .ok (bw', peer', acts))
    (hlt : header.sequence < seq) (hbelow : Below peer seq) : Below peer' seq := by
  rcases receivePacket_ok h with ⟨-, -, rfl, rfl⟩ | ⟨header', payload', acts', hopen, hdispatch, -⟩
  · exact ⟨hbelow.cursor, hbelow.held⟩
  have hnote : Below (noteSender clock peer header) seq := ⟨hbelow.cursor, hbelow.held⟩
  obtain ⟨payloadSize, flags, rfl⟩ := openPacket_header hopen
  rw [dispatch] at hdispatch
  simp only [htype] at hdispatch
  obtain ⟨rfl, -⟩ := ok_inj hdispatch
  exact handle_below hnote hlt _ _ _

/-- A command with a number above all others is put on the wire. -/
lemma InStep.enqueue {y : Bytes} {s : Link} (h : InStep y addrA s) {datagram : Bytes}
    (htype : (headerOf datagram).type = .command)
    (hwire : ∀ d ∈ s.wire, numberOf d < numberOf datagram) (hpeer : s.b.peers[y]? = some peer)
    (hbelow : Below peer (numberOf datagram)) (a : Endpoint) :
    InStep y addrA { s with a, wire := s.wire ++ [datagram] } := by
  refine ⟨h.known, ?_, ?_, peer, hpeer, ?_⟩
  · intro d hd
    rcases List.mem_append.mp hd with hd | hd
    · exact h.commands d hd
    · exact List.mem_singleton.mp hd ▸ htype
  · rw [List.map_append, List.pairwise_append]
    refine ⟨h.increasing, List.pairwise_singleton _ _, fun k hk k' hk' => ?_⟩
    obtain ⟨d, hd, rfl⟩ := List.mem_map.mp hk
    rw [List.mem_singleton.mp hk']
    exact hwire d hd
  · obtain ⟨peer', hpeer', hbelow'⟩ := h.below
    obtain rfl := Option.some.inj (hpeer.symm.trans hpeer')
    intro d hd
    rcases List.mem_append.mp hd with hd | hd
    · exact hbelow' d hd
    · rw [List.mem_singleton.mp hd]
      exact hbelow

lemma linkStep_inStep {x y : Bytes} {addrB : AddrKey} {s s' : Link} {ev : LinkEvent}
    (h : InStep y addrA s) (hahead : SendsAhead x y s ev)
    (hstep : linkStep cs x addrA addrB s ev = .ok (s', out)) : InStep y addrA s' := by
  obtain ⟨peer, hpeer, hbelow⟩ := h.below
  cases ev with
  | send id payload clock =>
      rw [linkStep] at hstep
      split at hstep
      · exact absurd hstep (by simp)
      · next a out' hsend =>
        obtain ⟨rfl, -⟩ := Prod.mk.inj (Except.ok.inj hstep)
        rcases sendCommand_enqueued (x := x) hsend with
          hnone | ⟨sender, datagram, hsender, hone, htype, hnumber⟩
        · rw [hnone, List.append_nil]
          exact ⟨h.known, h.commands, h.increasing, h.below⟩
        · obtain ⟨hwire, hpeers⟩ := hahead sender hsender
          rw [hone]
          exact h.enqueue htype (hnumber ▸ hwire) hpeer (hnumber ▸ hpeers peer hpeer) a
  | atA header htype payload clock random =>
      rw [linkStep] at hstep
      split at hstep
      · exact absurd hstep (by simp)
      · obtain ⟨rfl, -⟩ := Prod.mk.inj (Except.ok.inj hstep)
        exact ⟨h.known, h.commands, h.increasing, h.below⟩
  | atB header htype payload clock random =>
      rw [linkStep] at hstep
      split at hstep
      · exact absurd hstep (by simp)
      · next b out' hpacket =>
        obtain ⟨rfl, -⟩ := Prod.mk.inj (Except.ok.inj hstep)
        obtain ⟨peer', acts, hreceive, hknown, hpeer'⟩ := packet_known h.known hpeer hpacket
        refine ⟨hknown, h.commands, h.increasing, peer', hpeer', fun d hd => ?_⟩
        rcases receive_handshake_receiver htype hreceive with hsame | hover
        · exact hsame.below (hbelow d hd)
        · exact hover.below _
  | arrive clock random =>
      rw [linkStep] at hstep
      split at hstep
      · obtain ⟨rfl, -⟩ := Prod.mk.inj (Except.ok.inj hstep)
        exact h
      · next datagram wire hwire =>
        have hcommands := h.commands
        have hincreasing := h.increasing
        rw [hwire] at hcommands hincreasing hbelow
        rw [List.map_cons, List.pairwise_cons] at hincreasing
        have hrest : ∀ d ∈ wire, Below peer (numberOf d) :=
          fun d hd => hbelow d (List.mem_cons_of_mem _ hd)
        have hrestcommands : ∀ d ∈ wire, (headerOf d).type = .command :=
          fun d hd => hcommands d (List.mem_cons_of_mem _ hd)
        split at hstep
        · obtain ⟨rfl, -⟩ := Prod.mk.inj (Except.ok.inj hstep)
          exact ⟨h.known, hrestcommands, hincreasing.2, peer, hpeer, hrest⟩
        · next header payload hdecode =>
          split at hstep
          · exact absurd hstep (by simp)
          · next b out' hpacket =>
            obtain ⟨rfl, -⟩ := Prod.mk.inj (Except.ok.inj hstep)
            obtain ⟨peer', acts, hreceive, hknown, hpeer'⟩ := packet_known h.known hpeer hpacket
            obtain rfl := (decode_eq_some_iff.mp hdecode).1
            refine ⟨hknown, hrestcommands, hincreasing.2, peer', hpeer', fun d hd => ?_⟩
            exact receive_command_below (hcommands datagram List.mem_cons_self) hreceive
              (hincreasing.1 _ (List.mem_map_of_mem hd)) (hrest d hd)

lemma InStep.not_discards {y : Bytes} {s : Link} (h : InStep y addrA s) : ¬ Discards cs y s := by
  rintro ⟨datagram, hhead, peer, hpeer, ⟨header, payload⟩, hdecode, ⟨header', payload'⟩, hopen, -,
    hinit, hlt⟩
  obtain ⟨peer', hpeer', hbelow⟩ := h.below
  obtain rfl := Option.some.inj (hpeer'.symm.trans hpeer)
  obtain ⟨payloadSize, flags, rfl⟩ := openPacket_header hopen
  obtain rfl := (decode_eq_some_iff.mp hdecode).1
  have hcursor := (hbelow datagram (List.mem_of_head? hhead)).cursor hinit
  exact absurd hlt (UInt32.not_lt.mpr hcursor)

/-- An online link at rest: both ends have each other as an online peer, nothing is on the way, and
B expects the number that A sends next, or has not received a command yet. -/
structure OnlineLink (x y : Bytes) (addrA addrB : AddrKey) (s : Link) : Prop where
  knownA : s.b.peerByAddr[addrA]? = some y
  knownB : s.a.peerByAddr[addrB]? = some x
  wire : s.wire = []
  peers : ∃ a b, s.a.peers[x]? = some a ∧ a.state = .online ∧ s.b.peers[y]? = some b ∧
    b.state = .online ∧ b.cmdHeld = ∅ ∧ (b.cmdInitialized = true → b.cmdNextExpected = a.cmdSeqOut)

/-- On an online link on which A's counter is ahead of B whenever A sends, B never discards a
command as delivered. -/
theorem commands_not_discarded (cs : CryptoSuite) (x y : Bytes) (addrA addrB : AddrKey)
    (start : Link) (hstart : OnlineLink x y addrA addrB start) (events : List LinkEvent)
    (hahead : Machine.Along (linkStep cs x addrA addrB) (SendsAhead x y) start events) (s : Link)
    (outs : List Outputs)
    (hrun : Machine.run (linkStep cs x addrA addrB) start events = .ok (s, outs)) :
    ¬ Discards cs y s := by
  have hnone : ∀ {P : Bytes → Prop}, ∀ d ∈ start.wire, P d := by
    intro P d hd
    rw [hstart.wire] at hd
    exact absurd hd List.not_mem_nil
  have hinit : InStep y addrA start := by
    obtain ⟨a, b, -, -, hb, -⟩ := hstart.peers
    refine ⟨hstart.knownA, hnone, ?_, b, hb, hnone⟩
    rw [hstart.wire]
    exact List.Pairwise.nil
  exact (Machine.run_invariant (fun _ _ _ _ h hP hstep => linkStep_inStep h hP hstep) hinit hahead
    hrun).not_discards

lemma openPacket_plain (cs : CryptoSuite) (peer : Peer) (payload : Bytes) (h : header.flags = 0) :
    openPacket cs peer header payload = some (header, payload) := by
  rw [openPacket, if_neg]
  rw [h, UInt16.zero_and]
  exact not_not.mpr rfl

/-- A link between `a` at one address and `b` at another, on which B has received one command. -/
def usedLink : Link where
  a := { peers := (∅ : ExtTreeMap Bytes Peer).insert [98]
           { id := [98], addrSet := true, state := .online, cmdSeqOut := 2 }
         peerByAddr := (∅ : ExtTreeMap AddrKey Bytes).insert ⟨2, 2⟩ [98] }
  b := { peers := (∅ : ExtTreeMap Bytes Peer).insert [97]
           { id := [97], addrSet := true, state := .online, cmdInitialized := true
             cmdNextExpected := 2 }
         peerByAddr := (∅ : ExtTreeMap AddrKey Bytes).insert ⟨1, 1⟩ [97] }

lemma usedLink_online : OnlineLink [98] [97] ⟨1, 1⟩ ⟨2, 2⟩ usedLink where
  knownA := rfl
  knownB := rfl
  wire := rfl
  peers := ⟨_, _, rfl, rfl, rfl, rfl, rfl, fun _ => rfl⟩

/-- The second command is not discarded. -/
theorem commands_not_discarded_second :
    ∃ s outs, Machine.run (linkStep noCrypto [98] ⟨1, 1⟩ ⟨2, 2⟩) usedLink
        [.send [98] [9] ⟨0, 0⟩] = .ok (s, outs) ∧ ¬ Discards noCrypto [97] s := by
  refine ⟨_, _, rfl, ?_⟩
  refine commands_not_discarded noCrypto [98] [97] ⟨1, 1⟩ ⟨2, 2⟩ usedLink usedLink_online
    [.send [98] [9] ⟨0, 0⟩] ⟨?_, fun _ _ _ => trivial⟩ _ _ rfl
  intro peer hpeer
  obtain rfl := Option.some.inj hpeer
  refine ⟨fun d hd => absurd hd List.not_mem_nil, fun peer hpeer => ?_⟩
  obtain rfl := Option.some.inj hpeer
  exact ⟨fun _ => UInt32.le_refl _, fun k hk => absurd hk ExtTreeMap.not_mem_empty⟩

/-- A late acknowledgement of the handshake arrives at A.  The next command has the number 1, and B
has been past that number since the first one. -/
theorem command_discarded :
    ¬ ∀ (cs : CryptoSuite) (x y : Bytes) (addrA addrB : AddrKey) (start : Link),
      OnlineLink x y addrA addrB start →
        ∀ (events : List LinkEvent) (s : Link) (outs : List Outputs),
        Machine.run (linkStep cs x addrA addrB) start events = .ok (s, outs) →
        ¬ Discards cs y s := by
  intro h
  have hkept := h noCrypto [98] [97] ⟨1, 1⟩ ⟨2, 2⟩ usedLink usedLink_online
    [.atA { type := .handshakeAck } (Or.inr rfl) [] ⟨0, 0⟩ 0, .send [98] [9] ⟨0, 0⟩] _ _ rfl
  obtain ⟨checksum, hdecode⟩ := decode_encode
    { ownHeader {} .command with sequence := 1, payloadSize := 1 } [9] rfl rfl rfl
  have hwire : encode { ownHeader {} .command with sequence := 1, payloadSize := 1 } [9] =
      finalizeCrc (encodeHeaderTo { ownHeader {} .command with sequence := 1, payloadSize := 1 }
        ++ [9] ++ []) := by
    rw [List.append_nil, encode]
  refine hkept ⟨_, congrArg some hwire, _, rfl, _, hdecode, _,
    openPacket_plain noCrypto _ _ rfl, ?_, rfl, ?_⟩
  · exact (by decide : (1 : UInt32) ≠ 0)
  · exact (by decide : (1 : UInt32) < 2)

end Transport
end Damen
