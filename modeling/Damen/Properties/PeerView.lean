import Damen.Framework.OrderedMap
import Damen.Model.Endpoint

/-!
# An endpoint seen from one peer

What a step of the endpoint does to the peer with a given key, and which actions it takes for it.
A packet is for one peer (`handlePacket_ok`), a round of the reactor treats every peer by itself
(`reactorTick_peer`, `reactorTick_outputs`), `connect` writes the peer it names and may drop one
other, and `send_command` draws a number from the peer it finds.
-/

namespace Damen
namespace Transport

open Std (ExtTreeMap)

/-! ## Outputs of one peer -/

/-- The actions for the peer with key `key`, in order. -/
def actionsFor (key : Bytes) (out : Outputs) : List Action :=
  out.filterMap fun e => if e.1 = key then some e.2 else none

@[simp]
lemma actionsFor_append (key : Bytes) (out out' : Outputs) :
    actionsFor key (out ++ out') = actionsFor key out ++ actionsFor key out' :=
  List.filterMap_append

@[simp]
lemma actionsFor_outputsOf_self (key : Bytes) (out : List Action) :
    actionsFor key (outputsOf key out) = out := by
  induction out with
  | nil => rfl
  | cons a out ih =>
      rw [outputsOf, List.map_cons, actionsFor, List.filterMap_cons]
      simp only [if_true]
      exact congrArg (a :: ·) ih

lemma actionsFor_outputsOf_of_ne {key key' : Bytes} (h : key' ≠ key) (out : List Action) :
    actionsFor key (outputsOf key' out) = [] := by
  induction out with
  | nil => rfl
  | cons a out ih =>
      rw [outputsOf, List.map_cons, actionsFor, List.filterMap_cons]
      simp only [if_neg h]
      exact ih

/-! ## Packets -/

lemma findOrCreatePeerByAddr_spec (ep : Endpoint) (addr : AddrKey) (now : TimePoint)
    (random : UInt64) :
    (findOrCreatePeerByAddr ep addr now random).2 = peerKey ep addr random ∧
      (findOrCreatePeerByAddr ep addr now random).1.toLocal = ep.toLocal ∧
      (findOrCreatePeerByAddr ep addr now random).1.bandwidth = ep.bandwidth ∧
      (findOrCreatePeerByAddr ep addr now random).1.peers.getD (peerKey ep addr random) {} =
        peerFor ep addr now random ∧
      ∀ x, x ≠ peerKey ep addr random →
        (findOrCreatePeerByAddr ep addr now random).1.peers[x]? = ep.peers[x]? := by
  unfold findOrCreatePeerByAddr
  simp only
  split
  · next hknown =>
    refine ⟨rfl, rfl, rfl, ?_, fun _ _ => rfl⟩
    rw [peerFor]
    simp only [if_pos hknown]
  · refine ⟨rfl, rfl, rfl, ?_, fun x hx => ?_⟩
    · rw [ExtTreeMap.getD_insert_self]
    · rw [OrderedMap.getElem?_insert, if_neg hx]

/-- The addresses after a packet: the sender is known by its key. -/
lemma findOrCreatePeerByAddr_addr (ep : Endpoint) (addr : AddrKey) (now : TimePoint)
    (random : UInt64) :
    (findOrCreatePeerByAddr ep addr now random).1.peerByAddr =
      if Known ep addr then ep.peerByAddr
      else ep.peerByAddr.insert addr (peerKey ep addr random) := by
  unfold findOrCreatePeerByAddr
  simp only
  split <;> rfl

variable {cs : CryptoSuite} {ep' : Endpoint} {header : PacketHeader} {payload : Bytes}
  {clock : Clock} {out : Outputs}

/-- A packet that is handled without a fault is handled for the peer of its sender, and nothing
else changes but the bandwidth estimate and the address table. -/
lemma handlePacket_ok {ep : Endpoint} {addr : AddrKey} {random : UInt64}
    (h : handlePacket cs ep addr header payload clock random = .ok (ep', out)) :
    ∃ peer acts, receivePacket cs ep.toLocal ep.bandwidth clock (peerFor ep addr clock.now random)
        header payload = .ok (ep'.bandwidth, peer, acts) ∧
      ep'.toLocal = ep.toLocal ∧
      (∀ x, ep'.peers[x]? = if x = peerKey ep addr random then some peer else ep.peers[x]?) ∧
      ep'.peerByAddr = (if Known ep addr then ep.peerByAddr
        else ep.peerByAddr.insert addr (peerKey ep addr random)) ∧
      out = outputsOf (peerKey ep addr random) acts := by
  have hspec := findOrCreatePeerByAddr_spec ep addr clock.now random
  have haddr := findOrCreatePeerByAddr_addr ep addr clock.now random
  unfold handlePacket at h
  generalize findOrCreatePeerByAddr ep addr clock.now random = found at h hspec haddr
  obtain ⟨mid, key⟩ := found
  obtain ⟨rfl, hlocal, hbw, hpeer, hother⟩ := hspec
  simp only at h hlocal hbw hpeer hother haddr
  rw [hpeer, hlocal, hbw] at h
  split at h
  · exact absurd h (by simp)
  · next bandwidth peer acts hreceive =>
    obtain ⟨rfl, rfl⟩ := Prod.mk.inj (Except.ok.inj h)
    refine ⟨peer, acts, hreceive, rfl, fun x => ?_, haddr, rfl⟩
    rw [OrderedMap.getElem?_insert]
    split
    · rfl
    · next hne => exact hother x hne

/-- A packet that its peer can handle is handled. -/
lemma handlePacket_of_receive {ep : Endpoint} {addr : AddrKey} {random : UInt64}
    {bw : BandwidthEstimator} {peer : Peer} {acts : List Action}
    (h : receivePacket cs ep.toLocal ep.bandwidth clock (peerFor ep addr clock.now random) header
      payload = .ok (bw, peer, acts)) :
    ∃ ep' out, handlePacket cs ep addr header payload clock random = .ok (ep', out) ∧
      ep'.peers[peerKey ep addr random]? = some peer := by
  have hspec := findOrCreatePeerByAddr_spec ep addr clock.now random
  unfold handlePacket
  generalize findOrCreatePeerByAddr ep addr clock.now random = found at hspec
  obtain ⟨mid, key⟩ := found
  obtain ⟨rfl, hlocal, hbw, hpeer, -⟩ := hspec
  simp only at hlocal hbw hpeer
  simp only [hpeer, hlocal, hbw, h]
  exact ⟨_, _, rfl, by rw [OrderedMap.getElem?_insert, if_pos rfl]⟩

/-! ## The reactor -/

lemma forPeers_local (ep : Endpoint) (f : Peer → Peer × List Action) :
    (forPeers ep f).1.toLocal = ep.toLocal := rfl

lemma forPeers_bandwidth (ep : Endpoint) (f : Peer → Peer × List Action) :
    (forPeers ep f).1.bandwidth = ep.bandwidth := rfl

lemma forPeers_peer (ep : Endpoint) (f : Peer → Peer × List Action) (x : Bytes) :
    (forPeers ep f).1.peers[x]? = (ep.peers[x]?).map fun peer => (f peer).1 :=
  ExtTreeMap.getElem?_map

/-- In a list with distinct keys at most one entry contributes for a key. -/
lemma actionsFor_flatMap {l : List (Bytes × Peer)} (hl : l.Pairwise fun a b => a.1 ≠ b.1)
    (f : Peer → List Action) (x : Bytes) :
    (∀ peer, (x, peer) ∈ l →
        actionsFor x (l.flatMap fun e => outputsOf e.1 (f e.2)) = f peer) ∧
      ((∀ peer, (x, peer) ∉ l) →
        actionsFor x (l.flatMap fun e => outputsOf e.1 (f e.2)) = []) := by
  induction l with
  | nil => exact ⟨fun _ h => absurd h List.not_mem_nil, fun _ => rfl⟩
  | cons e l ih =>
      obtain ⟨key, peer'⟩ := e
      obtain ⟨hhead, htail⟩ := List.pairwise_cons.mp hl
      obtain ⟨ihin, ihout⟩ := ih htail
      rw [List.flatMap_cons, actionsFor_append]
      by_cases hkey : key = x
      · subst hkey
        have hnone : ∀ peer, (key, peer) ∉ l := fun peer hmem => hhead _ hmem rfl
        rw [actionsFor_outputsOf_self, ihout hnone, List.append_nil]
        refine ⟨fun peer hmem => ?_, fun hnot => absurd List.mem_cons_self (hnot peer')⟩
        rcases List.mem_cons.mp hmem with heq | hmem
        · rw [(Prod.mk.inj heq).2]
        · exact absurd hmem (hnone peer)
      · rw [actionsFor_outputsOf_of_ne hkey, List.nil_append]
        refine ⟨fun peer hmem => ihin peer ?_, fun hnot => ihout fun peer hmem =>
          hnot peer (List.mem_cons_of_mem _ hmem)⟩
        rcases List.mem_cons.mp hmem with heq | hmem
        · exact absurd (Prod.mk.inj heq).1.symm hkey
        · exact hmem

lemma forPeers_outputs (ep : Endpoint) (f : Peer → Peer × List Action) (x : Bytes) :
    actionsFor x (forPeers ep f).2 = ((ep.peers[x]?).map fun peer => (f peer).2).getD [] := by
  have hdistinct : ep.peers.toList.Pairwise fun a b => a.1 ≠ b.1 :=
    ExtTreeMap.distinct_keys_toList.imp fun h heq =>
      h (Std.LawfulEqOrd.compare_eq_iff_eq.mpr heq)
  obtain ⟨hin, hout⟩ := actionsFor_flatMap hdistinct (fun peer => (f peer).2) x
  cases hx : ep.peers[x]? with
  | some peer => exact hin peer (ExtTreeMap.mem_toList_iff_getElem?_eq_some.mpr hx)
  | none =>
      refine hout fun peer hmem => ?_
      rw [ExtTreeMap.mem_toList_iff_getElem?_eq_some, hx] at hmem
      exact absurd hmem (by simp)

/-- One round of the reactor for one peer. -/
def tickPeer (me : Local) (bw : BandwidthEstimator) (clock : Clock) (peer : Peer) :
    Peer × List Action :=
  let (peer, out₁) := sendHandshakes me clock peer
  let (peer, out₂) := sendHeartbeats me bw clock peer
  let (peer, out₃) := sendReports me clock peer
  let (peer, out₄) := checkOffline me clock peer
  let (peer, out₅) := flushCommands bw clock peer
  (peer, out₁ ++ out₂ ++ out₃ ++ out₄ ++ out₅)

lemma reactorTick_local (ep : Endpoint) (clock : Clock) :
    (reactorTick ep clock).1.toLocal = ep.toLocal ∧
      (reactorTick ep clock).1.bandwidth = ep.bandwidth ∧
      (reactorTick ep clock).1.peerByAddr = ep.peerByAddr := ⟨rfl, rfl, rfl⟩

lemma reactorTick_peer (ep : Endpoint) (clock : Clock) (x : Bytes) :
    (reactorTick ep clock).1.peers[x]? =
      (ep.peers[x]?).map fun peer => (tickPeer ep.toLocal ep.bandwidth clock peer).1 := by
  unfold reactorTick
  simp only [forPeers_peer, forPeers_local, forPeers_bandwidth]
  cases ep.peers[x]? with
  | none => rfl
  | some peer => simp only [Option.map_some, tickPeer]

lemma reactorTick_outputs (ep : Endpoint) (clock : Clock) (x : Bytes) :
    actionsFor x (reactorTick ep clock).2 =
      ((ep.peers[x]?).map fun peer => (tickPeer ep.toLocal ep.bandwidth clock peer).2).getD [] := by
  unfold reactorTick
  simp only [actionsFor_append, forPeers_outputs, forPeers_peer, forPeers_local,
    forPeers_bandwidth]
  cases ep.peers[x]? with
  | none => rfl
  | some peer => simp only [Option.map_some, Option.getD_some, tickPeer]

/-! ## Calls of the application -/

/-- `connect` leaves every other peer as it is, but for one it may drop. -/
lemma connect_other (ep : Endpoint) {id x : Bytes} (addr : AddrKey) (clock : Clock) (hx : x ≠ id) :
    ((connect ep id addr clock).1.peers[x]? = ep.peers[x]? ∨
        (connect ep id addr clock).1.peers[x]? = none) ∧
      (connect ep id addr clock).1.toLocal = ep.toLocal ∧
      (connect ep id addr clock).1.bandwidth = ep.bandwidth ∧
      actionsFor x (connect ep id addr clock).2 = [] := by
  unfold connect
  simp only
  refine ⟨?_, ?_, ?_, actionsFor_outputsOf_of_ne hx.symm _⟩
  · rw [OrderedMap.getElem?_insert, if_neg hx]
    split
    · next old _ =>
      split
      · rw [OrderedMap.getElem?_erase]
        split
        · exact Or.inr rfl
        · exact Or.inl rfl
      · exact Or.inl rfl
    · exact Or.inl rfl
  · split <;> [split; skip] <;> rfl
  · split <;> [split; skip] <;> rfl

lemma findPeer_mem {ep : Endpoint} {id key : Bytes} {peer : Peer}
    (h : findPeer ep id = some (key, peer)) : ep.peers[key]? = some peer := by
  unfold findPeer at h
  split at h
  · next hpeer =>
    obtain ⟨rfl, rfl⟩ := Prod.mk.inj (Option.some.inj h)
    exact hpeer
  · exact ExtTreeMap.mem_toList_iff_getElem?_eq_some.mp (List.mem_of_find?_eq_some h)

/-- What a call of `send_command` does when it does not refuse: the peer it finds is online, its
counter moves on, and one datagram is built and enqueued. -/
lemma sendCommand_ok {ep : Endpoint} {id : Bytes} {sent : Bool}
    (h : sendCommand cs ep id payload clock = .ok (ep', out, sent)) :
    (ep' = ep ∧ out = [] ∧ sent = false) ∨
      ∃ key peer datagram acts, findPeer ep id = some (key, peer) ∧ peer.state = .online ∧
        buildWirePacket cs ep.toLocal { peer with cmdSeqOut := peer.cmdSeqOut + 1 }
          (commandHeader ep.toLocal clock peer payload) payload = .ok (datagram, acts) ∧
        ep' = { ep with
          peers := ep.peers.insert key { peer with cmdSeqOut := peer.cmdSeqOut + 1 } } ∧
        out = outputsOf key (acts ++ sendRaw peer datagram) ∧ sent = true := by
  unfold sendCommand at h
  split at h
  · cases h
    exact Or.inl ⟨rfl, rfl, rfl⟩
  · split at h
    · cases h
      exact Or.inl ⟨rfl, rfl, rfl⟩
    · next key peer hfind =>
      split at h
      · cases h
        exact Or.inl ⟨rfl, rfl, rfl⟩
      · next honline =>
        simp only at h
        split at h
        · exact absurd h (by simp)
        · next datagram acts hbuild =>
          cases h
          exact Or.inr ⟨key, peer, datagram, acts, hfind, not_not.mp honline, hbuild, rfl, rfl,
            rfl⟩

/-! ## Steps -/

/-- What a step from `ep` to `ep'` is for the peer with key `x`. -/
inductive View (cs : CryptoSuite) (x : Bytes) (ep ep' : Endpoint) (out : Outputs) : Event → Prop
  | packet {addr : AddrKey} {header : PacketHeader} {payload : Bytes} {clock : Clock}
      {random : UInt64} {peer' : Peer} (hkey : peerKey ep addr random = x)
      (hreceive : receivePacket cs ep.toLocal ep.bandwidth clock
        (peerFor ep addr clock.now random) header payload =
          .ok (ep'.bandwidth, peer', actionsFor x out))
      (hpeer : ep'.peers[x]? = some peer') :
      View cs x ep ep' out (.packet addr header payload clock random)
  | tick {clock : Clock}
      (hpeer : ep'.peers[x]? =
        (ep.peers[x]?).map fun peer => (tickPeer ep.toLocal ep.bandwidth clock peer).1)
      (hout : actionsFor x out = ((ep.peers[x]?).map fun peer =>
        (tickPeer ep.toLocal ep.bandwidth clock peer).2).getD []) :
      View cs x ep ep' out (.tick clock)
  | command {id payload : Bytes} {clock : Clock} {peer : Peer} {datagram : Bytes}
      {acts : List Action} (hpeer : ep.peers[x]? = some peer) (hstate : peer.state = .online)
      (hbuild : buildWirePacket cs ep.toLocal { peer with cmdSeqOut := peer.cmdSeqOut + 1 }
        (commandHeader ep.toLocal clock peer payload) payload = .ok (datagram, acts))
      (hpeer' : ep'.peers[x]? = some { peer with cmdSeqOut := peer.cmdSeqOut + 1 })
      (hout : actionsFor x out = acts ++ sendRaw peer datagram) :
      View cs x ep ep' out (.sendCommand id payload clock)
  /-- The step connects to another peer at the address of this one. -/
  | dropped {id : Bytes} {addr : AddrKey} {clock : Clock} (hpeer : ep'.peers[x]? = none)
      (hout : actionsFor x out = []) : View cs x ep ep' out (.connect id addr clock)
  /-- The step is about another peer. -/
  | other {ev : Event} (hpeer : ep'.peers[x]? = ep.peers[x]?) (hout : actionsFor x out = []) :
      View cs x ep ep' out ev

lemma step_view {x : Bytes} {ep : Endpoint} {ev : Event}
    (hconnect : ∀ addr clock, ev ≠ .connect x addr clock) (h : step cs ep ev = .ok (ep', out)) :
    ep'.toLocal = ep.toLocal ∧ View cs x ep ep' out ev := by
  cases ev with
  | packet addr header payload clock random =>
      obtain ⟨peer', acts, hreceive, hlocal, hpeers, -, rfl⟩ := handlePacket_ok h
      refine ⟨hlocal, ?_⟩
      by_cases hkey : peerKey ep addr random = x
      · subst hkey
        refine .packet rfl ?_ (by rw [hpeers, if_pos rfl])
        rw [actionsFor_outputsOf_self]
        exact hreceive
      · exact .other (by rw [hpeers, if_neg (Ne.symm hkey)])
          (actionsFor_outputsOf_of_ne hkey acts)
  | tick clock =>
      simp only [step, Except.ok.injEq] at h
      obtain ⟨hlocal, -, -⟩ := reactorTick_local ep clock
      have hpeer := reactorTick_peer ep clock x
      have hout := reactorTick_outputs ep clock x
      rw [h] at hlocal hpeer hout
      exact ⟨hlocal, .tick hpeer hout⟩
  | connect id addr clock =>
      simp only [step, Except.ok.injEq] at h
      have hx : x ≠ id := fun heq => hconnect addr clock (heq ▸ rfl)
      obtain ⟨hpeer, hlocal, -, hout⟩ := connect_other ep addr clock hx
      rw [h] at hpeer hlocal hout
      exact ⟨hlocal, hpeer.elim (.other · hout) (.dropped · hout)⟩
  | sendCommand id payload clock =>
      rw [step] at h
      split at h
      · exact absurd h (by simp)
      · next hsend =>
        obtain ⟨rfl, rfl⟩ := Prod.mk.inj (Except.ok.inj h)
        rcases sendCommand_ok hsend with ⟨rfl, rfl, -⟩ |
          ⟨key, peer, datagram, acts, hfind, hstate, hbuild, rfl, rfl, -⟩
        · exact ⟨rfl, .other rfl rfl⟩
        · refine ⟨rfl, ?_⟩
          by_cases hkey : key = x
          · subst hkey
            exact .command (findPeer_mem hfind) hstate hbuild
              (by rw [OrderedMap.getElem?_insert, if_pos rfl]) (actionsFor_outputsOf_self _ _)
          · exact .other (by rw [OrderedMap.getElem?_insert, if_neg (Ne.symm hkey)])
              (actionsFor_outputsOf_of_ne hkey _)

end Transport
end Damen
