import Damen.Model.SendQueue
import Damen.Properties.Contact

/-!
# Which peer a message goes to

`process_send_queue` and `send_command` look for the peer under the id they are given, and then for
the first peer that goes by this id.  Peers that were met by a packet are kept under a generated
name for good, so a device that comes back from another address leaves an entry with its id behind,
and which of the two is found depends on the generated names.

As long as no peer takes an id that another peer goes by or is kept under, ids are unambiguous
(`Distinct`), and a message for a peer that is online goes to it (`routed_to_live_link`).
-/

namespace Damen
namespace Transport

open Std (ExtTreeMap)

/-- Some peer that goes by this id is online. -/
def OnlineUnder (ep : Endpoint) (id : Bytes) : Prop :=
  ∃ (key : Bytes) (peer : Peer), ep.peers[key]? = some peer ∧ peer.id = id ∧ peer.state = .online

/-- `send_command` selects a peer that is online, and `process_send_queue` hands a message over to
it when the encode queue has room. -/
def Routes (ep : Endpoint) (id : Bytes) : Prop :=
  ∃ key peer, findPeer ep id = some (key, peer) ∧ peer.state = .online ∧
    ∀ (limit : ℕ) (q : Queues) (priority : Int) (payload : Bytes), q.encode.refuses = false →
      processItem limit ep q priority id payload =
        { q with encode := { q.encode with items := q.encode.items ++ [⟨key, payload⟩] } }

/-- Ids are unambiguous: no two peers go by the same one, and none goes by the key of another. -/
def Distinct (ep : Endpoint) : Prop :=
  ∀ (key key' : Bytes) (peer peer' : Peer), ep.peers[key]? = some peer →
    ep.peers[key']? = some peer' → key ≠ key' → peer.id ≠ peer'.id ∧ peer.id ≠ key'

/-- No peer but the one under `key` goes by the name or is kept under it. -/
def Free (ep : Endpoint) (key name : Bytes) : Prop :=
  ∀ (x : Bytes) (peer : Peer), x ≠ key → ep.peers[x]? = some peer → peer.id ≠ name ∧ x ≠ name

/-- A peer takes only an id that is free: the id of a handshake, the generated name of a new peer,
or the id of `connect`, behind the peer that the call erases. -/
def TakesFreeId (cs : CryptoSuite) (ep : Endpoint) : Event → Prop
  | .packet addr header payload clock random =>
      (∀ name ∈ adoptedId cs ep.toLocal (peerFor ep addr clock.now random) header payload,
        Free ep (peerKey ep addr random) name) ∧
      (¬ Known ep addr → Free ep (peerKey ep addr random) (peerKey ep addr random))
  | .connect id addr _ => ∀ (x : Bytes) (peer : Peer), x ≠ id → ep.peerByAddr[addr]? ≠ some x →
      ep.peers[x]? = some peer → peer.id ≠ id
  | .tick _ | .sendCommand _ _ _ => True

lemma onlineUnder_of_map {ep : Endpoint} {k id : Bytes}
    (h : ep.peers[k]?.map (fun peer => (peer.id, peer.state)) = some (id, .online)) :
    OnlineUnder ep id := by
  obtain ⟨peer, hpeer, hfields⟩ := Option.map_eq_some_iff.mp h
  obtain ⟨rfl, hstate⟩ := Prod.mk.inj hfields
  exact ⟨k, peer, hpeer, rfl, hstate⟩

/-! ## Lookups -/

variable {key : Bytes} {peer : Peer} {ep' : Endpoint}

/-- With unambiguous ids, a lookup finds the peer that goes by the id. -/
lemma findPeer_of_distinct {ep : Endpoint} (h : Distinct ep) (hpeer : ep.peers[key]? = some peer) :
    findPeer ep peer.id = some (key, peer) := by
  unfold findPeer
  split
  · next peer' hfound =>
    by_cases hkey : key = peer.id
    · rw [← hkey, hpeer, Option.some.injEq] at hfound
      rw [← hfound, ← hkey]
    · exact absurd rfl (h key peer.id peer peer' hpeer hfound hkey).2
  · have hmem : (key, peer) ∈ ep.peers.toList :=
      ExtTreeMap.mem_toList_iff_getElem?_eq_some.mpr hpeer
    have hsome : (ep.peers.toList.find? fun e => e.2.id = peer.id).isSome :=
      List.find?_isSome.mpr ⟨(key, peer), hmem, decide_eq_true rfl⟩
    obtain ⟨⟨key', peer'⟩, hfind⟩ := Option.isSome_iff_exists.mp hsome
    have hfound : ep.peers[key']? = some peer' :=
      ExtTreeMap.mem_toList_iff_getElem?_eq_some.mp (List.mem_of_find?_eq_some hfind)
    have hid := List.find?_some hfind
    simp only [decide_eq_true_eq] at hid
    rw [hfind]
    by_cases hkey : key = key'
    · subst hkey
      rw [Option.some.inj (hfound.symm.trans hpeer)]
    · exact absurd hid.symm (h key key' peer peer' hpeer hfound hkey).1

lemma processItem_online (limit : ℕ) {ep : Endpoint} {q : Queues} (priority : Int) {id : Bytes}
    (payload : Bytes) (hfind : findPeer ep id = some (key, peer)) (hstate : peer.state = .online)
    (hroom : q.encode.refuses = false) :
    processItem limit ep q priority id payload =
      { q with encode := { q.encode with items := q.encode.items ++ [⟨key, payload⟩] } } := by
  unfold processItem BlockingQueue.tryPush
  simp only [hfind, hstate, hroom, ne_eq, not_true_eq_false, if_false, Bool.false_eq_true, if_true]

/-- A lookup that finds a peer which is online routes to it. -/
lemma routes_of_findPeer {ep : Endpoint} {id : Bytes} (hfind : findPeer ep id = some (key, peer))
    (hstate : peer.state = .online) : Routes ep id :=
  ⟨key, peer, hfind, hstate, fun limit _ priority payload hroom =>
    processItem_online limit priority payload hfind hstate hroom⟩

/-! ## One step -/

/-- A peer is written under a key with an id that is free. -/
lemma distinct_put {ep : Endpoint}
    (h : ∀ (x y : Bytes) (p q : Peer), x ≠ key → y ≠ key → ep.peers[x]? = some p →
      ep.peers[y]? = some q → x ≠ y → p.id ≠ q.id ∧ p.id ≠ y)
    (hpeer : ep.peers[key]? = some peer)
    (hfree : ∀ (x : Bytes) (p : Peer), x ≠ key → ep.peers[x]? = some p → p.id ≠ peer.id ∧
      x ≠ peer.id ∧ p.id ≠ key) :
    Distinct ep := by
  intro x y p q hp hq hne
  by_cases hx : x = key
  · subst hx
    obtain rfl := Option.some.inj (hp.symm.trans hpeer)
    obtain ⟨hid, hkey, -⟩ := hfree y q (Ne.symm hne) hq
    exact ⟨Ne.symm hid, Ne.symm hkey⟩
  · by_cases hy : y = key
    · subst hy
      obtain rfl := Option.some.inj (hq.symm.trans hpeer)
      obtain ⟨hid, -, hkey⟩ := hfree x p hx hp
      exact ⟨hid, hkey⟩
    · exact h x y p q hx hy hp hq hne

/-- Peers whose ids stay the same. -/
lemma Distinct.congr {ep : Endpoint} (h : Distinct ep)
    (hid : ∀ x : Bytes, (ep'.peers[x]?).map Peer.id = (ep.peers[x]?).map Peer.id) :
    Distinct ep' := by
  have hback : ∀ (x : Bytes) (p : Peer), ep'.peers[x]? = some p →
      ∃ p₀ : Peer, ep.peers[x]? = some p₀ ∧ p₀.id = p.id := by
    intro x p hp
    have hmap := hid x
    rw [hp, Option.map_some, eq_comm, Option.map_eq_some_iff] at hmap
    exact hmap
  intro x y p q hp hq hne
  obtain ⟨p₀, hp₀, hpid⟩ := hback x p hp
  obtain ⟨q₀, hq₀, hqid⟩ := hback y q hq
  rw [← hpid, ← hqid]
  exact h x y p₀ q₀ hp₀ hq₀ hne

lemma handlePacket_distinct {cs : CryptoSuite} {ep : Endpoint} {addr : AddrKey}
    {header : PacketHeader} {payload : Bytes} {clock : Clock} {random : UInt64} {out : Outputs}
    (h : Distinct ep) (hfree : TakesFreeId cs ep (.packet addr header payload clock random))
    (hstep : handlePacket cs ep addr header payload clock random = .ok (ep', out)) :
    Distinct ep' := by
  obtain ⟨peer, acts, hreceive, -, hpeers, -, -⟩ := handlePacket_ok hstep
  have hid : peer.id = (adoptedId cs ep.toLocal (peerFor ep addr clock.now random) header
      payload).getD (peerFor ep addr clock.now random).id :=
    congrArg Prod.fst (receivePacket_contact hreceive)
  have hother : ∀ (x : Bytes) (p : Peer), x ≠ peerKey ep addr random → ep'.peers[x]? = some p →
      ep.peers[x]? = some p := by
    intro x p hx hp
    rw [hpeers, if_neg hx] at hp
    exact hp
  -- the key of a peer that is met is free, and so is the id it had
  have hkept : Free ep (peerKey ep addr random) (peerFor ep addr clock.now random).id ∧
      ∀ (x : Bytes) (p : Peer), x ≠ peerKey ep addr random → ep.peers[x]? = some p →
        p.id ≠ peerKey ep addr random := by
    by_cases hknown : Known ep addr
    · have hpeer := peerFor_of_known hknown clock.now random
      refine ⟨fun x p hx hp => ?_, fun x p hx hp => (h x _ p _ hp hpeer hx).2⟩
      obtain ⟨hne, hkey⟩ := h _ x _ p hpeer hp (Ne.symm hx)
      exact ⟨Ne.symm hne, Ne.symm hkey⟩
    · have hfresh := hfree.2 hknown
      have hname : (peerFor ep addr clock.now random).id = peerKey ep addr random := by
        rw [peerFor, if_neg hknown]
        rfl
      rw [hname]
      exact ⟨hfresh, fun x p hx hp => (hfresh x p hx hp).1⟩
  refine distinct_put (fun x y p q hx hy hp hq => h x y p q (hother x p hx hp) (hother y q hy hq))
    (by rw [hpeers, if_pos rfl]) fun x p hx hp => ?_
  have hp := hother x p hx hp
  refine (and_assoc.mp ⟨?_, hkept.2 x p hx hp⟩)
  rw [hid]
  cases hadopted : adoptedId cs ep.toLocal (peerFor ep addr clock.now random) header payload with
  | none => exact hkept.1 x p hx hp
  | some name => exact hfree.1 name hadopted x p hx hp

lemma connect_distinct {ep : Endpoint} (h : Distinct ep) {id : Bytes} {addr : AddrKey}
    (clock : Clock)
    (hfree : ∀ (x : Bytes) (peer : Peer), x ≠ id → ep.peerByAddr[addr]? ≠ some x →
      ep.peers[x]? = some peer → peer.id ≠ id) : Distinct (connect ep id addr clock).1 := by
  obtain ⟨peer, hpeer, hcontact, -⟩ := connect_peer ep id addr clock
  have hid : peer.id = id := congrArg Prod.fst hcontact
  have hother : ∀ (x : Bytes) (p : Peer), x ≠ id → (connect ep id addr clock).1.peers[x]? = some p →
      ep.peerByAddr[addr]? ≠ some x ∧ ep.peers[x]? = some p := by
    intro x p hx hp
    rw [connect_peer_of_ne ep addr clock hx] at hp
    split_ifs at hp with hold
    exact ⟨hold, hp⟩
  refine distinct_put (fun x y p q hx hy hp hq =>
    h x y p q (hother x p hx hp).2 (hother y q hy hq).2) hpeer fun x p hx hp => ?_
  obtain ⟨hkept, hp⟩ := hother x p hx hp
  rw [hid]
  exact ⟨hfree x p hx hkept hp, hx, hfree x p hx hkept hp⟩

lemma step_distinct {cs : CryptoSuite} {ep : Endpoint} {ev : Event} {out : Outputs}
    (h : Distinct ep) (hfree : TakesFreeId cs ep ev) (hstep : step cs ep ev = .ok (ep', out)) :
    Distinct ep' := by
  cases ev with
  | packet addr header payload clock random => exact handlePacket_distinct h hfree hstep
  | tick clock =>
      simp only [step, Except.ok.injEq] at hstep
      obtain rfl := congrArg Prod.fst hstep
      refine h.congr fun x => ?_
      rw [reactorTick_peer, Option.map_map]
      refine congrArg (Option.map · ep.peers[x]?) (funext fun peer => ?_)
      exact congrArg Prod.fst (tickPeer_contact ep.toLocal ep.bandwidth clock peer)
  | connect id addr clock =>
      simp only [step, Except.ok.injEq] at hstep
      obtain rfl := congrArg Prod.fst hstep
      exact connect_distinct h clock hfree
  | sendCommand id payload clock =>
      refine h.congr fun x => ?_
      rcases (step_sendCommand hstep).2 x with hsame | ⟨peer, hpeer, hpeer'⟩
      · rw [hsame]
      · rw [hpeer, hpeer']
        rfl

/-! ## Runs -/

/-- In every state of a run in which peers only take ids that are free, a message or a command for
an id goes to a peer that is online, if any peer that goes by this id is. -/
theorem routed_to_live_link (cs : CryptoSuite) (start : Endpoint) (hstart : start.peers = ∅)
    (events : List Event) (hfree : Machine.Along (step cs) (TakesFreeId cs) start events)
    (ep : Endpoint) (outs : List Outputs)
    (hrun : Machine.run (step cs) start events = .ok (ep, outs)) (id : Bytes)
    (honline : OnlineUnder ep id) : Routes ep id := by
  have hnone : Distinct start := fun x y p q hp => by simp [hstart] at hp
  have hdistinct : Distinct ep :=
    Machine.run_invariant (fun _ _ _ _ h hfree hstep => step_distinct h hfree hstep)
      hnone hfree hrun
  obtain ⟨key, peer, hpeer, rfl, hstate⟩ := honline
  exact routes_of_findPeer (findPeer_of_distinct hdistinct hpeer) hstate

/-- A packet from an address, with the random number that names its peer if it is new. -/
def packetFrom (addr : UInt32) (random : UInt64) (type : PacketType) (payload : Bytes) : Event :=
  .packet ⟨addr, 2⟩ { magic := kMagic, version := kVersion, type, clientId := 7 }
    payload ⟨0, 0⟩ random

/-- The handshake of a device with the id `x`, under the empty token. -/
def handshakeOfX : Bytes := [0, 0, 1, 120]

/-- One device comes online. -/
theorem routed_to_live_link_single :
    ∃ ep outs, Machine.run (step noCrypto) {}
        [packetFrom 1 5 .handshake handshakeOfX, packetFrom 1 0 .online []] = .ok (ep, outs) ∧
      Routes ep [120] := by
  refine ⟨_, _, rfl, ?_⟩
  refine routed_to_live_link noCrypto {} rfl
    [packetFrom 1 5 .handshake handshakeOfX, packetFrom 1 0 .online []] ?_ _ _ rfl [120]
    (onlineUnder_of_map (k := anonId 2 5) (by decide))
  refine ⟨⟨fun _ _ x peer _ hpeer => ?_, fun _ x peer _ hpeer => ?_⟩, fun ep out hstep => ?_⟩
  · exact absurd (show none = some peer from hpeer) (by simp)
  · exact absurd (show none = some peer from hpeer) (by simp)
  · cases hstep
    refine ⟨⟨fun name hname => ?_, fun hknown => ?_⟩, fun _ _ _ => trivial⟩
    · rw [adoptedId_of_type_ne [] (by decide)] at hname
      exact absurd hname (by simp)
    · exact absurd (by decide) hknown

/-- A device says goodbye and comes back from another address.  Its new peer is online, but the
generated name of the old one comes first. -/
theorem routed_to_closed_link :
    ¬ ∀ (cs : CryptoSuite) (start : Endpoint), start.peers = ∅ →
      ∀ (events : List Event) (ep : Endpoint) (outs : List Outputs),
        Machine.run (step cs) start events = .ok (ep, outs) →
      ∀ id, OnlineUnder ep id → Routes ep id := by
  intro h
  obtain ⟨ep, outs, hrun, honline, hclosed⟩ : ∃ ep outs,
      Machine.run (step noCrypto) {}
        [packetFrom 1 5 .handshake handshakeOfX, packetFrom 1 0 .online [], packetFrom 1 0 .bye [],
          packetFrom 3 6 .handshake handshakeOfX, packetFrom 3 0 .online []] = .ok (ep, outs) ∧
        OnlineUnder ep [120] ∧ (findPeer ep [120]).map (fun e => e.2.state) = some .closed :=
    ⟨_, _, rfl, onlineUnder_of_map (k := anonId 2 6) (by decide), by decide⟩
  obtain ⟨key, peer, hfind, hstate, -⟩ := h noCrypto {} rfl _ ep outs hrun [120] honline
  rw [hfind, Option.map_some, hstate] at hclosed
  exact absurd hclosed (by decide)

end Transport
end Damen
