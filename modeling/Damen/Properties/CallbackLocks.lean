import Damen.Model.Locks
import Damen.Properties.Dispatch

/-!
# Callbacks and locks

The documentation promises that the callbacks are called without a lock.  The traces of
`Damen.Model.Locks` say with which locks they are: on all ways but one with none, and
`check_offline` fires the event of a link that has timed out inside its loop over the peers, under
`m_peers_mutex`.

A thread takes one way after the other, and in between any other thread may change the peers, so the
state at the start of each way is arbitrary.  `callbacks_unlocked_iff` says when no callback of such
a thread is called under a lock of the peers, and that these are exactly the cases in which a
callback may use the transport: one that calls `send_command`, `connect` or `peers` waits for its
own thread otherwise.
-/

namespace Damen
namespace Transport

open Std (ExtTreeMap)
open Locking

/-- The locks of the peers are not held. -/
def Unlocked (held : List Lock) : Prop := Lock.peers ∉ held ∧ ∀ key, Lock.peer key ∉ held

/-- The link is up and nothing has arrived for the dead timeout. -/
def TimedOut (me : Local) (clock : Clock) (peer : Peer) : Prop :=
  linked peer = true ∧ millis me.config.deadTimeout ≤ clock.now - peer.lastRecv

/-- If this is a sweep of `check_offline` and the peer callback is set, no link has timed out. -/
def NoneTimedOut (cbs : Callbacks) (ep : Endpoint) : Path → Prop
  | .pass .offline clock => cbs.peer = true →
      ∀ e ∈ ep.peers.toList, ¬ TimedOut ep.toLocal clock e.2
  | _ => True

/-- What a thread does that takes these ways, each with the state it finds. -/
def threadLocks (cs : CryptoSuite) (cbs : Callbacks) (paths : List (Endpoint × Path)) : LockTrace :=
  paths.flatMap fun p => pathLocks cs cbs p.1 p.2

/-- What a callback does that reacts with these calls, each with the state it finds. -/
def reactionLocks (react : Action → List (Endpoint × Call)) (act : Action) : LockTrace :=
  (react act).flatMap fun c => callLocks c.1 c.2

/-! ## The callbacks on a way

The traces call the application for what the model of the way outputs, in this order.
-/

@[simp]
lemma callsOf_append (t u : LockTrace) : callsOf (t ++ u) = callsOf t ++ callsOf u :=
  List.filterMap_append

lemma callsOf_flatMap {α : Type} (l : List α) (f : α → LockTrace) :
    callsOf (l.flatMap f) = l.flatMap fun a => callsOf (f a) := List.filterMap_flatMap

@[simp]
lemma callsOf_underPeer (key : Bytes) : callsOf (underPeer key) = [] := rfl

@[simp]
lemma callsOf_locked (lock : Lock) (t : LockTrace) : callsOf (locked lock t) = callsOf t :=
  List.filterMap_append.trans (List.append_nil _)

variable {cs : CryptoSuite} {cbs : Callbacks} {me : Local} {bw : BandwidthEstimator} {clock : Clock}
  {key : Bytes} {peer : Peer} {header : PacketHeader} {payload : Bytes} {ep : Endpoint}
  {held : List Lock}

lemma callsOf_fire (act : Action) :
    callsOf (fire cbs act) = if cbs.calls act then [act] else [] := by
  have hcopy : callsOf (locked Lock.callback [] ++ if cbs.calls act then [.call act] else []) =
      if cbs.calls act then [act] else [] := by
    split <;> rfl
  cases act
  case message | command | peerEvent => exact hcopy
  case enqueue | probe | encrypt => rfl

@[simp]
lemma callsOf_fireAll (acts : List Action) :
    callsOf (fireAll cbs acts) = acts.filter cbs.calls := by
  induction acts with
  | nil => rfl
  | cons act acts ih =>
      rw [fireAll, List.flatMap_cons, callsOf_append, callsOf_fire, ← fireAll, ih, List.filter_cons]
      split <;> rfl

lemma filter_calls_sendRaw (peer : Peer) (datagram : Bytes) :
    (sendRaw peer datagram).filter cbs.calls = [] := by
  unfold sendRaw
  split <;> rfl

variable {acts : List Action} {peer' : Peer} {bw' : BandwidthEstimator}

lemma filter_calls_resend {packets : List (PacketHeader × Bytes)}
    (h : resend cs me peer packets = .ok acts) : acts.filter cbs.calls = [] := by
  induction packets generalizing acts with
  | nil =>
      cases h
      rfl
  | cons e packets ih =>
      obtain ⟨header, payload⟩ := e
      rw [resend] at h
      split at h
      · exact absurd h (by simp)
      · next datagram acts₁ hbuild =>
        split at h
        · exact absurd h (by simp)
        · next acts₂ hrest =>
          have hbuilt : acts₁.filter cbs.calls = [] := by
            unfold buildWirePacket at hbuild
            simp only at hbuild
            split_ifs at hbuild <;>
            · obtain ⟨-, rfl⟩ := Prod.mk.inj (Except.ok.inj hbuild)
              rfl
          rw [← Except.ok.inj h, List.filter_append, List.filter_append, hbuilt,
            filter_calls_sendRaw, ih hrest]
          rfl

lemma handleData_not_admitted
    (hnot : ¬ Reassembler.Admitted peer header (maxMessageBytes me.config))
    (h : handleData me bw clock peer header payload = .ok (peer', acts)) : acts = [] := by
  have hkept : ¬ Reassembler.Admitted (Reassembler.bookkeep me.config.lateRttMultiplier peer
      ⟨header, payload, rttUs bw, clock⟩) header (maxMessageBytes me.config) := by
    unfold Reassembler.Admitted
    rw [Reassembler.bookkeep_completed]
    exact hnot
  unfold handleData at h
  rw [show Reassembler.handleData peer header payload (rttUs bw) me.config.lateRttMultiplier
    (maxMessageBytes me.config) clock = .ok (_, none) from if_pos hkept] at h
  exact (Prod.mk.inj (Except.ok.inj h)).2.symm

lemma callsOf_handleDataLocks (h : handleData me bw clock peer header payload = .ok (peer', acts)) :
    callsOf (handleDataLocks cbs me bw clock key peer header payload) = acts.filter cbs.calls := by
  unfold handleDataLocks
  rw [callsOf_append, callsOf_underPeer, List.nil_append]
  split
  · next hcount =>
    rw [handleData_not_admitted (fun hadmitted => hadmitted.1 hcount) h]
    rfl
  · rw [callsOf_append, callsOf_underPeer, List.nil_append]
    split
    · next hnot =>
      rw [handleData_not_admitted hnot h]
      rfl
    · rw [callsOf_append, callsOf_underPeer, List.nil_append, h]
      cases acts with
      | nil => rfl
      | cons act acts => rw [callsOf_append, callsOf_fireAll, callsOf_underPeer, List.append_nil]

lemma callsOf_handleReportLocks : callsOf (handleReportLocks clock key peer payload) = [] := by
  unfold handleReportLocks
  split
  · rfl
  · rw [callsOf_append, callsOf_append, callsOf_underPeer, callsOf_flatMap]
    exact List.flatMap_eq_nil_iff.mpr fun _ _ => rfl

lemma callsOf_handleHandshakeLocks :
    callsOf (handleHandshakeLocks cs cbs me bw clock key peer header payload) =
      (handleHandshake cs me bw clock peer header payload).2.filter cbs.calls := by
  unfold handleHandshakeLocks
  rcases hparse : parseHandshake me.config.encryptionEnabled payload with _ | fields
  · simp only [handleHandshake, hparse]
    rfl
  · by_cases htoken : fields.token = me.config.token
    · simp only [htoken, ne_eq, not_true_eq_false, if_false, callsOf_append, callsOf_underPeer,
        callsOf_fireAll, List.nil_append]
    · simp only [handleHandshake, hparse, ne_eq, htoken, not_false_eq_true, if_true]
      rfl

lemma callsOf_handleCommandLocks :
    callsOf (handleCommandLocks cbs bw clock key peer header payload) =
      (handleCommand bw clock peer header payload).2.filter cbs.calls := by
  unfold handleCommandLocks
  split
  · next hzero =>
    simp only [handleCommand, CommandChannel.handle, hzero, if_true]
    rfl
  · rw [callsOf_append, callsOf_underPeer, callsOf_fireAll, List.nil_append]

lemma callsOf_dispatchLocks
    (h : dispatch cs me bw clock peer header payload = .ok (bw', peer', acts)) :
    callsOf (dispatchLocks cs cbs me bw clock key peer header payload) = acts.filter cbs.calls := by
  unfold dispatch at h
  unfold dispatchLocks
  cases htype : header.type <;> simp only [htype] at h ⊢
  case handshake =>
    obtain ⟨-, rfl⟩ := ok_inj h
    exact callsOf_handleHandshakeLocks
  case handshakeAck =>
    obtain ⟨-, rfl⟩ := ok_inj h
    rw [handleHandshakeAckLocks, callsOf_append, callsOf_underPeer, callsOf_fireAll,
      List.nil_append]
  case online | bye =>
    obtain ⟨-, rfl⟩ := ok_inj h
    exact callsOf_fireAll _
  case data | parity =>
    split at h
    · exact absurd h (by simp)
    · next hdata =>
      obtain ⟨-, rfl⟩ := ok_inj h
      exact callsOf_handleDataLocks hdata
  case ack =>
    obtain ⟨-, rfl⟩ := ok_inj h
    unfold handleAckLocks
    split <;> rfl
  case report =>
    unfold handleReport at h
    simp only at h
    split at h
    · exact absurd h (by simp)
    · next hresend =>
      obtain ⟨-, rfl⟩ := ok_inj h
      rw [filter_calls_resend hresend]
      exact callsOf_handleReportLocks
  case command =>
    obtain ⟨-, rfl⟩ := ok_inj h
    exact callsOf_handleCommandLocks
  case heartbeat | probe | unknown =>
    obtain ⟨-, rfl⟩ := ok_inj h
    rfl

lemma callsOf_receivePacketLocks
    (h : receivePacket cs me bw clock peer header payload = .ok (bw', peer', acts)) :
    callsOf (receivePacketLocks cs cbs me bw clock key peer header payload) =
      acts.filter cbs.calls := by
  unfold receivePacket at h
  unfold receivePacketLocks
  simp only at h ⊢
  rcases hopen : openPacket cs (noteSender clock peer header) header payload with
    _ | ⟨header', payload'⟩
    <;> simp only [hopen] at h ⊢
  · obtain ⟨-, rfl⟩ := ok_inj h
    rfl
  · split at h
    · exact absurd h (by simp)
    · next hdispatch =>
      obtain ⟨-, rfl⟩ := ok_inj h
      rw [callsOf_dispatchLocks hdispatch]
      split
      · rw [List.filter_append, sendAckPacket, filter_calls_sendRaw, List.append_nil]
      · rfl

lemma map_snd_outputsOf (key : Bytes) (acts : List Action) :
    (outputsOf key acts).map Prod.snd = acts := by
  rw [outputsOf, List.map_map]
  exact List.map_id acts

/-- For a packet the application is called as the model of `handle_packet` says. -/
theorem callsOf_handlePacketLocks {addr : AddrKey} {random : UInt64} {ep' : Endpoint}
    {out : Outputs}
    (h : handlePacket cs ep addr header payload clock random = .ok (ep', out)) :
    callsOf (handlePacketLocks cs cbs ep addr header payload clock random) =
      (out.map Prod.snd).filter cbs.calls := by
  unfold handlePacket at h
  unfold handlePacketLocks
  simp only at h ⊢
  split at h
  · exact absurd h (by simp)
  · next hreceive =>
    obtain ⟨-, rfl⟩ := Prod.mk.inj (Except.ok.inj h)
    rw [callsOf_append, callsOf_receivePacketLocks hreceive, map_snd_outputsOf]
    rfl

/-- The callbacks of a loop over the peers. -/
lemma filter_calls_forPeers (ep : Endpoint) (f : Peer → Peer × List Action) :
    ((forPeers ep f).2.map Prod.snd).filter cbs.calls =
      ep.peers.toList.flatMap fun e => (f e.2).2.filter cbs.calls := by
  rw [forPeers, List.map_flatMap, List.filter_flatMap]
  simp only [map_snd_outputsOf]

lemma filter_calls_sendControl (type : PacketType) (ackable : Bool) :
    (sendControl me clock peer type payload ackable).2.filter cbs.calls = [] := by
  unfold sendControl
  simp only
  split <;> exact filter_calls_sendRaw _ _

lemma filter_calls_sendHandshakes : (sendHandshakes me clock peer).2.filter cbs.calls = [] := by
  unfold sendHandshakes
  split_ifs
  · rfl
  · exact filter_calls_sendControl _ _
  · rfl

lemma filter_calls_sendHeartbeats : (sendHeartbeats me bw clock peer).2.filter cbs.calls = [] := by
  unfold sendHeartbeats
  split_ifs
  · rfl
  · exact filter_calls_sendControl _ _
  · rfl

lemma filter_calls_sendReports : (sendReports me clock peer).2.filter cbs.calls = [] := by
  unfold sendReports
  split_ifs
  · rfl
  · exact filter_calls_sendRaw _ _
  · rfl

lemma callsOf_sendReportsLocks : callsOf (sendReportsLocks me clock key peer) = [] := by
  unfold sendReportsLocks
  split_ifs <;> rfl

/-- The event of a link that has timed out, and else nothing. -/
lemma checkOffline_acts (me : Local) (clock : Clock) (peer : Peer) :
    (TimedOut me clock peer → (checkOffline me clock peer).2 =
        [.peerEvent peer.id peer.role .closed peer.peerClientId]) ∧
      (¬ TimedOut me clock peer → (checkOffline me clock peer).2 = []) := by
  unfold checkOffline TimedOut
  simp only
  constructor
  · rintro ⟨hlinked, hlate⟩
    split
    · next hdown => exact absurd hlinked hdown
    · split
      · next htimely => exact absurd htimely (not_lt.mpr hlate)
      · rfl
  · intro hnot
    split
    · rfl
    · next hlinked =>
      split
      · rfl
      · next hlate => exact absurd ⟨not_not.mp hlinked, not_lt.mp hlate⟩ hnot

/-- One round of `check_offline` fires the event of a link that has timed out, and else nothing. -/
lemma checkOfflineLocks_eq (cbs : Callbacks) (me : Local) (clock : Clock) (key : Bytes)
    (peer : Peer) :
    (TimedOut me clock peer → checkOfflineLocks cbs me clock key peer = underPeer key ++
        (underPeer key ++ fire cbs (.peerEvent peer.id peer.role .closed peer.peerClientId))) ∧
      (¬ TimedOut me clock peer → checkOfflineLocks cbs me clock key peer = underPeer key) := by
  obtain ⟨hevent, -⟩ := checkOffline_acts me clock peer
  unfold checkOfflineLocks
  constructor
  · rintro ⟨hlinked, hlate⟩
    rw [if_neg (not_not.mpr hlinked), if_neg (not_lt.mpr hlate), hevent ⟨hlinked, hlate⟩, fireAll,
      List.flatMap_cons, List.flatMap_nil, List.append_nil]
  · intro hnot
    split
    · rfl
    · next hlinked =>
      rw [if_pos (not_le.mp fun hlate => hnot ⟨not_not.mp hlinked, hlate⟩)]
      rfl

lemma callsOf_checkOfflineLocks :
    callsOf (checkOfflineLocks cbs me clock key peer) =
      (checkOffline me clock peer).2.filter cbs.calls := by
  obtain ⟨hevent, hnone⟩ := checkOffline_acts me clock peer
  obtain ⟨hlate, htimely⟩ := checkOfflineLocks_eq cbs me clock key peer
  by_cases htimeout : TimedOut me clock peer
  · rw [hlate htimeout, hevent htimeout, callsOf_append, callsOf_append, callsOf_underPeer,
      callsOf_fire, List.filter_singleton, Bool.cond_eq_ite]
    rfl
  · rw [htimely htimeout, hnone htimeout]
    rfl

/-- On a pass of the reactor the application is called as the model of the pass says. -/
theorem callsOf_passLocks (pass : Impl.Pass) :
    callsOf (passLocks cbs ep clock pass) =
      ((pass.apply ep clock).2.map Prod.snd).filter cbs.calls := by
  have hloop : ∀ (body : Bytes → Peer → LockTrace) (f : Peer → Peer × List Action),
      (∀ key peer, callsOf (body key peer) = (f peer).2.filter cbs.calls) →
      callsOf (forPeersLocks ep body) = ((forPeers ep f).2.map Prod.snd).filter cbs.calls := by
    intro body f hbody
    rw [filter_calls_forPeers, forPeersLocks, callsOf_locked, callsOf_flatMap]
    simp only [hbody]
  cases pass with
  | handshakes => exact hloop (fun _ _ => []) _ fun _ _ => filter_calls_sendHandshakes.symm
  | heartbeats => exact hloop (fun _ _ => []) _ fun _ _ => filter_calls_sendHeartbeats.symm
  | reports =>
      exact hloop _ _ fun _ _ => callsOf_sendReportsLocks.trans filter_calls_sendReports.symm
  | offline => exact hloop _ _ fun _ _ => callsOf_checkOfflineLocks
  | commands =>
      have hsweep : callsOf (forPeersLocks ep fun key _ => underPeer key) = [] := by
        rw [forPeersLocks, callsOf_locked, callsOf_flatMap]
        exact List.flatMap_eq_nil_iff.mpr fun _ _ => rfl
      rw [passLocks, flushCommandsLocks, callsOf_append, hsweep, callsOf_fireAll]
      rfl

/-! ## Sections -/

lemma level_underPeer (h : Lock.peer key ∉ held) : Level held (underPeer key) :=
  level_locked h balanced_nil rfl

lemma level_peers : Level [] (locked .peers [] : LockTrace) :=
  level_locked List.not_mem_nil balanced_nil rfl

lemma level_fire (h : Lock.callback ∉ held) (act : Action) : Level held (fire cbs act) := by
  have hcopy : Level held (locked .callback [] ++ if cbs.calls act then [.call act] else []) := by
    refine (level_locked h balanced_nil rfl).append ?_
    split
    · exact level_call act
    · exact level_nil
  cases act
  case message | command | peerEvent => exact hcopy
  case enqueue | probe | encrypt => exact level_nil

lemma level_fireAll (h : Lock.callback ∉ held) (acts : List Action) :
    Level held (fireAll cbs acts) :=
  level_flatMap fun act _ => level_fire h act

/-- A section under the lock of the peer, and callbacks behind it. -/
lemma level_underPeer_fireAll (acts : List Action) : Level [] (underPeer key ++ fireAll cbs acts) :=
  (level_underPeer List.not_mem_nil).append (level_fireAll List.not_mem_nil acts)

/-! ## Packets -/

lemma level_handleHandshakeLocks :
    Level [] (handleHandshakeLocks cs cbs me bw clock key peer header payload) := by
  unfold handleHandshakeLocks
  split
  · exact level_nil
  · split
    · exact level_nil
    · exact level_underPeer_fireAll _

lemma level_handleDataLocks :
    Level [] (handleDataLocks cbs me bw clock key peer header payload) := by
  have hpeer : Level [] (underPeer key) := level_underPeer List.not_mem_nil
  unfold handleDataLocks
  refine hpeer.append ?_
  split
  · exact level_nil
  · refine hpeer.append ?_
    split
    · exact level_nil
    · refine hpeer.append ?_
      split
      · exact (level_fireAll List.not_mem_nil _).append hpeer
      · exact level_nil

lemma level_handleReportLocks : Level [] (handleReportLocks clock key peer payload) := by
  have hpeer : Level [] (underPeer key) := level_underPeer List.not_mem_nil
  unfold handleReportLocks
  split
  · exact level_nil
  · exact (hpeer.append hpeer).append (level_flatMap fun _ _ => hpeer)

lemma level_handleCommandLocks :
    Level [] (handleCommandLocks cbs bw clock key peer header payload) := by
  unfold handleCommandLocks
  split
  · exact level_nil
  · exact level_underPeer_fireAll _

lemma level_handleAckLocks : Level [] (handleAckLocks key header) := by
  unfold handleAckLocks
  split
  · exact level_nil
  · exact level_underPeer List.not_mem_nil

lemma level_dispatchLocks :
    Level [] (dispatchLocks cs cbs me bw clock key peer header payload) := by
  unfold dispatchLocks
  split
  · exact level_handleHandshakeLocks
  · exact level_underPeer_fireAll _
  · exact level_fireAll List.not_mem_nil _
  · exact level_nil
  · exact level_fireAll List.not_mem_nil _
  · exact level_handleDataLocks
  · exact level_handleDataLocks
  · exact level_handleAckLocks
  · exact level_handleReportLocks
  · exact level_underPeer List.not_mem_nil
  · exact level_handleCommandLocks
  · exact level_nil

/-- A packet is handled without a lock of the peers wherever the application is called. -/
lemma level_handlePacketLocks (addr : AddrKey) (random : UInt64) :
    Level [] (handlePacketLocks cs cbs ep addr header payload clock random) := by
  unfold handlePacketLocks receivePacketLocks
  simp only
  refine level_peers.append ?_
  split
  · exact level_nil
  · exact level_dispatchLocks

/-! ## Messages and calls -/

lemma level_fragmentAndSendLocks (buffers : List Bytes) :
    Level [] (fragmentAndSendLocks me clock key peer payload buffers) := by
  have hpeer : Level [] (underPeer key) := level_underPeer List.not_mem_nil
  refine hpeer.append (level_flatMap fun frag _ => hpeer.append ?_)
  split
  · exact hpeer
  · exact level_nil

lemma neat_underPeer : Neat (underPeer key) := neat_nil.locked _

/-- `send_command` takes no lock, that of the peers, or that of a peer under it. -/
lemma sendCommandLocks_cases (ep : Endpoint) (id payload : Bytes) :
    sendCommandLocks ep id payload = [] ∨ sendCommandLocks ep id payload = locked .peers [] ∨
      ∃ key, sendCommandLocks ep id payload = locked .peers (underPeer key) := by
  unfold sendCommandLocks
  split
  · exact Or.inl rfl
  · right
    split
    · exact Or.inl rfl
    · next key peer hfind =>
      split
      · exact Or.inl rfl
      · exact Or.inr ⟨key, rfl⟩

lemma balanced_underPeer_peers : Balanced [Lock.peers] (underPeer key) :=
  (level_underPeer (by simp)).balanced

lemma neat_callLocks (call : Call) : Neat (callLocks ep call) := by
  have hpeers : Neat (locked .peers [] : LockTrace) := neat_nil.locked _
  cases call with
  | connect id addr => exact hpeers
  | peers => exact hpeers
  | sendCommand id payload =>
      rcases sendCommandLocks_cases ep id payload with h | h | ⟨key, h⟩ <;> rw [callLocks, h]
      · exact neat_nil
      · exact hpeers
      · exact neat_underPeer.locked _

lemma level_callLocks (call : Call) : Level [] (callLocks ep call) := by
  cases call with
  | connect id addr => exact level_peers
  | peers => exact level_peers
  | sendCommand id payload =>
      rcases sendCommandLocks_cases ep id payload with h | h | ⟨key, h⟩ <;> rw [callLocks, h]
      · exact level_nil
      · exact level_peers
      · exact level_locked List.not_mem_nil balanced_underPeer_peers rfl

/-! ## The reactor -/

lemma balanced_forPeersLocks {body : Bytes → Peer → LockTrace}
    (h : ∀ e ∈ ep.peers.toList, Balanced [Lock.peers] (body e.1 e.2)) :
    Balanced [] (forPeersLocks ep body) :=
  (balanced_flatMap h).locked List.not_mem_nil

/-- A loop that calls nothing. -/
lemma level_forPeersLocks {body : Bytes → Peer → LockTrace}
    (h : ∀ e ∈ ep.peers.toList, Balanced [Lock.peers] (body e.1 e.2))
    (hcalls : ∀ key peer, callsOf (body key peer) = []) : Level [] (forPeersLocks ep body) := by
  refine level_locked List.not_mem_nil (balanced_flatMap h) ?_
  rw [callsOf_flatMap]
  exact List.flatMap_eq_nil_iff.mpr fun e _ => hcalls e.1 e.2

lemma balanced_sendReportsLocks (key : Bytes) (peer : Peer) :
    Balanced [Lock.peers] (sendReportsLocks me clock key peer) := by
  unfold sendReportsLocks
  split_ifs
  · exact balanced_nil
  · exact balanced_underPeer_peers
  · exact balanced_nil

/-- All passes but `check_offline` call the application without a lock. -/
lemma level_passLocks {pass : Impl.Pass} (h : pass ≠ .offline) :
    Level [] (passLocks cbs ep clock pass) := by
  have hnone : Level [] (forPeersLocks ep fun _ _ => []) :=
    level_forPeersLocks (fun _ _ => balanced_nil) fun _ _ => rfl
  have hsweep : Level [] (forPeersLocks ep fun key _ => underPeer key) :=
    level_forPeersLocks (fun _ _ => balanced_underPeer_peers) fun _ _ => rfl
  cases pass with
  | handshakes => exact hnone
  | heartbeats => exact hnone
  | reports =>
      exact level_forPeersLocks (fun e _ => balanced_sendReportsLocks e.1 e.2)
        fun _ _ => callsOf_sendReportsLocks
  | offline => exact absurd rfl h
  | commands =>
      exact hsweep.append (level_fireAll List.not_mem_nil _)

lemma balanced_checkOfflineLocks (key : Bytes) (peer : Peer) :
    Balanced [Lock.peers] (checkOfflineLocks cbs me clock key peer) := by
  obtain ⟨hlate, htimely⟩ := checkOfflineLocks_eq cbs me clock key peer
  by_cases htimeout : TimedOut me clock peer
  · rw [hlate htimeout]
    exact balanced_underPeer_peers.append
      (balanced_underPeer_peers.append (level_fire (by simp) _).balanced)
  · rw [htimely htimeout]
    exact balanced_underPeer_peers

section Calls

variable {P : List Lock → Action → Prop}

lemma calls_fire_iff (h : Lock.callback ∉ held) {act : Action} :
    Calls P held (fire cbs act) ↔ (cbs.calls act = true → P held act) := by
  have hcopy : Calls P held (locked .callback [] ++ if cbs.calls act then [.call act] else []) ↔
      (cbs.calls act = true → P held act) := by
    rw [calls_append_iff (level_locked h balanced_nil rfl).balanced]
    refine (and_iff_right (calls_of_callsOf_eq_nil rfl)).trans ?_
    split
    · next hcalls => exact calls_call_iff.trans ⟨fun hP _ => hP, fun hP => hP hcalls⟩
    · next hcalls => exact ⟨fun _ hcall => absurd hcall hcalls, fun _ => calls_nil⟩
  cases act
  case message | command | peerEvent => exact hcopy
  case enqueue | probe | encrypt =>
    exact ⟨fun _ hcall => absurd hcall (by simp [Callbacks.calls]), fun _ => calls_nil⟩

lemma calls_checkOfflineLocks_iff (hheld : ∀ act, ¬ P [Lock.peers] act) :
    Calls P [Lock.peers] (checkOfflineLocks cbs me clock key peer) ↔
      (cbs.peer = true → ¬ TimedOut me clock peer) := by
  obtain ⟨hlate, htimely⟩ := checkOfflineLocks_eq cbs me clock key peer
  have hsection : Calls P [Lock.peers] (underPeer key) := calls_of_callsOf_eq_nil rfl
  by_cases htimeout : TimedOut me clock peer
  · rw [hlate htimeout, calls_append_iff balanced_underPeer_peers,
      calls_append_iff balanced_underPeer_peers, calls_fire_iff (by simp)]
    exact ⟨fun h hset => absurd (h.2.2 hset) (hheld _),
      fun h => ⟨hsection, hsection, fun hset => absurd htimeout (h hset)⟩⟩
  · rw [htimely htimeout]
    exact ⟨fun _ _ => htimeout, fun _ => hsection⟩

/-! ## All ways -/

lemma level_pathLocks {path : Path} (h : ∀ clock, path ≠ .pass .offline clock) :
    Level [] (pathLocks cs cbs ep path) := by
  cases path with
  | packet addr header payload clock random => exact level_handlePacketLocks addr random
  | pass pass clock => exact level_passLocks fun heq => h clock (by rw [heq])
  | message => exact level_peers
  | encode key payload clock buffers => exact level_fragmentAndSendLocks buffers
  | call call => exact level_callLocks call

lemma balanced_pathLocks (path : Path) : Balanced [] (pathLocks cs cbs ep path) := by
  by_cases h : ∃ clock, path = .pass .offline clock
  · obtain ⟨clock, rfl⟩ := h
    exact balanced_forPeersLocks fun e _ => balanced_checkOfflineLocks e.1 e.2
  · exact (level_pathLocks fun clock heq => h ⟨clock, heq⟩).balanced

/-- Whatever is asked of the locks at a callback: if no lock meets it and `m_peers_mutex` does not,
it is met on every way on which no link times out. -/
lemma calls_pathLocks_iff (hfree : ∀ act, P [] act) (hheld : ∀ act, ¬ P [Lock.peers] act)
    (path : Path) :
    Calls P [] (pathLocks cs cbs ep path) ↔ NoneTimedOut cbs ep path := by
  by_cases h : ∃ clock, path = .pass .offline clock
  · obtain ⟨clock, rfl⟩ := h
    have hbalanced : ∀ e ∈ ep.peers.toList,
        Balanced [Lock.peers] (checkOfflineLocks cbs ep.toLocal clock e.1 e.2) :=
      fun e _ => balanced_checkOfflineLocks e.1 e.2
    have hloop : Calls P [] (forPeersLocks ep (checkOfflineLocks cbs ep.toLocal clock)) ↔
        ∀ e ∈ ep.peers.toList, cbs.peer = true → ¬ TimedOut ep.toLocal clock e.2 := by
      rw [forPeersLocks, calls_locked_iff List.not_mem_nil (balanced_flatMap hbalanced),
        calls_flatMap_iff hbalanced]
      exact forall₂_congr fun e _ => calls_checkOfflineLocks_iff hheld
    exact hloop.trans ⟨fun hall hset e he => hall e he hset, fun hall e he hset => hall hset e he⟩
  · have hlevel : Level [] (pathLocks cs cbs ep path) :=
      level_pathLocks fun clock heq => h ⟨clock, heq⟩
    have hnone : NoneTimedOut cbs ep path := by
      unfold NoneTimedOut
      split
      · next clock => exact absurd ⟨clock, rfl⟩ h
      · trivial
    exact iff_of_true (hlevel.calls_of hfree) hnone

lemma calls_threadLocks_iff (hfree : ∀ act, P [] act) (hheld : ∀ act, ¬ P [Lock.peers] act)
    (paths : List (Endpoint × Path)) :
    Calls P [] (threadLocks cs cbs paths) ↔ ∀ p ∈ paths, NoneTimedOut cbs p.1 p.2 := by
  rw [threadLocks, calls_flatMap_iff fun p _ => balanced_pathLocks p.2]
  exact forall₂_congr fun p _ => calls_pathLocks_iff hfree hheld p.2

end Calls

lemma neat_reactionLocks (react : Action → List (Endpoint × Call)) (act : Action) :
    Neat (reactionLocks react act) :=
  neat_flatMap fun c => neat_callLocks c.2

/-- Without a lock, a callback may make any calls. -/
lemma runs_reactionLocks (react : Action → List (Endpoint × Call)) (act : Action) :
    Runs [] (reactionLocks react act) :=
  (level_flatMap fun c _ => level_callLocks c.2).balanced.runs

/-- For a thread that takes any ways, whatever the states it finds: no callback is called under
`m_peers_mutex` or the lock of a peer exactly if no link times out in a sweep with the peer callback
set, and these are exactly the cases in which every callback may call `send_command`, `connect` and
`peers` without waiting for a lock of its own thread. -/
theorem callbacks_unlocked_iff (cs : CryptoSuite) (cbs : Callbacks)
    (paths : List (Endpoint × Path)) :
    (Calls (fun held _ => Unlocked held) [] (threadLocks cs cbs paths) ↔
        ∀ p ∈ paths, NoneTimedOut cbs p.1 p.2) ∧
      ((∀ react, Runs [] (within (reactionLocks react) (threadLocks cs cbs paths))) ↔
        ∀ p ∈ paths, NoneTimedOut cbs p.1 p.2) := by
  have hruns : Runs [] (threadLocks cs cbs paths) :=
    (balanced_flatMap fun p _ => balanced_pathLocks p.2).runs
  refine ⟨calls_threadLocks_iff (fun _ => ⟨List.not_mem_nil, fun _ => List.not_mem_nil⟩)
    (fun _ h => h.1 List.mem_cons_self) paths, fun h => ?_, fun h react => ?_⟩
  · -- a callback that asks for the peers is enough
    have hpeers := ((runs_within_iff (neat_reactionLocks _)).mp (h fun _ => [({}, .peers)])).2
    refine (calls_threadLocks_iff (runs_reactionLocks _) (fun act hact => ?_) paths).mp hpeers
    have hruns : Runs [Lock.peers] (locked .peers [] : LockTrace) := hact
    exact not_runs_locked List.mem_cons_self hruns
  · refine (runs_within_iff (neat_reactionLocks react)).mpr ⟨hruns, ?_⟩
    have hnone : Calls (fun held _ => held = []) [] (threadLocks cs cbs paths) :=
      (calls_threadLocks_iff (fun _ => rfl) (fun _ h => absurd h (by simp)) paths).mpr h
    exact hnone.mono fun held act hnil => hnil ▸ runs_reactionLocks react act

/-- An endpoint with one link, which was last heard of at time zero. -/
def idleLink : Endpoint :=
  { peers := (∅ : ExtTreeMap Bytes Peer).insert [120] { state := .online } }

/-- A link times out, and the callback asks for the peers: it is called under `m_peers_mutex`, and
waits for it. -/
theorem callback_waits_for_itself :
    ¬ Calls (fun held _ => Unlocked held) []
        (threadLocks noCrypto {} [(idleLink, .pass .offline ⟨millis 60000, 0⟩)]) ∧
      Machine.run Locking.step [] (within (reactionLocks fun _ => [(idleLink, .peers)])
        (threadLocks noCrypto {} [(idleLink, .pass .offline ⟨millis 60000, 0⟩)])) =
        .error Lock.peers := by
  constructor
  · intro h
    have hnone := (calls_threadLocks_iff (fun _ => ⟨List.not_mem_nil, fun _ => List.not_mem_nil⟩)
      (fun _ h => h.1 List.mem_cons_self) _).mp h
    have hlink : ([120], { state := .online }) ∈ idleLink.peers.toList :=
      ExtTreeMap.mem_toList_iff_getElem?_eq_some.mpr ExtTreeMap.getElem?_insert_self
    exact hnone _ List.mem_cons_self rfl _ hlink ⟨rfl, by decide⟩
  · decide +kernel

end Transport
end Damen
