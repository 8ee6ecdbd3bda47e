import Damen.Framework.Index
import Damen.Properties.Contact
import Damen.Properties.HandshakeRetry

/-!
# The index of the peers by address

`m_peer_by_addr` leads from an address to the key of the peer at that address.  Two operations write
both maps: `find_or_create_peer_by_addr` when a packet comes from an address without a peer, and
`connect`.  `connect` drops a peer that was known at its address under another key, but not the
entry of the address its own id was known at before.  So the index stays in step exactly in the runs
in which no id is connected at a second address, and no generated name is already taken
(`addressIndex_consistent_iff`).
-/

namespace Damen
namespace Transport

open Std (ExtTreeMap)

/-- The two maps and the addresses in the peers are in step. -/
structure Consistent (ep : Endpoint) : Prop where
  index : ∀ (addr : AddrKey) (key : Bytes), ep.peerByAddr[addr]? = some key →
    ∃ peer : Peer, ep.peers[key]? = some peer ∧ peer.addr = addr
  peers : ∀ (key : Bytes) (peer : Peer), ep.peers[key]? = some peer → peer.addrSet = true →
    ep.peerByAddr[peer.addr]? = some key

/-- The step leaves no stale entry in the index and overwrites no peer: a new peer gets a name that
is free, and an id is connected only at the address it has. -/
def KeepsIndex (ep : Endpoint) : Event → Prop
  | .packet addr _ _ _ random => Known ep addr ∨ anonId addr.port random ∉ ep.peers
  | .connect id addr _ => ∀ peer : Peer, ep.peers[id]? = some peer → peer.addr = addr
  | .tick _ | .sendCommand _ _ _ => True

/-! ## One step -/

lemma consistent_iff_matches {ep : Endpoint} (h : Addressed ep) :
    Consistent ep ↔ Index.Matches Peer.addr (fun x => ep.peers[x]?) (fun a => ep.peerByAddr[a]?) :=
  ⟨fun hc => ⟨hc.index, fun k peer hpeer => hc.peers k peer hpeer (h k peer hpeer)⟩,
    fun hm => ⟨hm.fwd, fun k peer hpeer _ => hm.bwd k peer hpeer⟩⟩

lemma known_of_consistent {ep : Endpoint} (haddr : Addressed ep) (h : Consistent ep) {key : Bytes}
    {peer : Peer} (hpeer : ep.peers[key]? = some peer) : Known ep peer.addr :=
  ⟨key, h.peers key peer hpeer (haddr key peer hpeer),
    of_getElem?_eq_some hpeer⟩

lemma handlePacket_consistent_iff {cs : CryptoSuite} {ep ep' : Endpoint} {addr : AddrKey}
    {header : PacketHeader} {payload : Bytes} {clock : Clock} {random : UInt64} {out : Outputs}
    (haddr : Addressed ep) (haddr' : Addressed ep') (h : Consistent ep)
    (hstep : handlePacket cs ep addr header payload clock random = .ok (ep', out)) :
    Consistent ep' ↔ Known ep addr ∨ anonId addr.port random ∉ ep.peers := by
  obtain ⟨peer, acts, hreceive, -, hpeers, hindex, -⟩ := handlePacket_ok hstep
  have hsame : peer.addr = (peerFor ep addr clock.now random).addr :=
    congrArg Prod.snd (receivePacket_contact hreceive)
  have hmatches := (consistent_iff_matches haddr).mp h
  rw [consistent_iff_matches haddr']
  by_cases hknown : Known ep addr
  · rw [if_pos hknown] at hindex
    refine iff_of_true ?_ (Or.inl hknown)
    rw [hindex]
    refine hmatches.congr fun x => ?_
    rw [hpeers]
    split_ifs with hx
    · rw [hx, peerFor_of_known hknown clock.now, Option.map_some, Option.map_some, hsame]
    · rfl
  · rw [if_neg hknown] at hindex
    have hnew : peer.addr = addr := by
      rw [hsame, peerFor, if_neg hknown]
      rfl
    have hfree : ∀ (key : Bytes) (old : Peer), ep.peers[key]? = some old → old.addr ≠ addr :=
      fun key old hold heq => hknown (heq ▸ known_of_consistent haddr h hold)
    have hentry : ∀ a, ep'.peerByAddr[a]? =
        if a = peer.addr then some (peerKey ep addr random) else ep.peerByAddr[a]? := by
      intro a
      rw [hindex, OrderedMap.getElem?_insert, hnew]
    rw [Index.matches_put_iff (fun a k _ => hmatches.fwd a k) hmatches.bwd hpeers hentry, hnew,
      peerKey_of_not_known hknown, ExtTreeMap.mem_iff_isSome_getElem?]
    constructor
    · rintro ⟨hkey, -⟩
      refine Or.inr fun hmem => ?_
      obtain ⟨old, hold⟩ := Option.isSome_iff_exists.mp hmem
      exact hfree _ old hold (hkey old hold)
    · intro hcase
      refine ⟨fun old hold => ?_, fun key old hold heq => absurd heq (hfree key old hold)⟩
      exact absurd (by rw [hold]; rfl) (hcase.resolve_left hknown)

lemma connect_consistent_iff {ep : Endpoint} (haddr : Addressed ep) (h : Consistent ep) (id : Bytes)
    (addr : AddrKey) (clock : Clock) :
    Consistent (connect ep id addr clock).1 ↔
      ∀ peer : Peer, ep.peers[id]? = some peer → peer.addr = addr := by
  have hmatches := (consistent_iff_matches haddr).mp h
  obtain ⟨peer, hpeer, hcontact, -⟩ := connect_peer ep id addr clock
  have hnew : peer.addr = addr := congrArg Prod.snd hcontact
  -- the peers without the one that is dropped
  let kept : Bytes → Option Peer := fun x =>
    if x ≠ id ∧ ep.peerByAddr[addr]? = some x then none else ep.peers[x]?
  have hkept : ∀ x p, kept x = some p → ep.peers[x]? = some p := by
    intro x p hp
    simp only [kept] at hp
    split_ifs at hp
    exact hp
  rw [consistent_iff_matches (connect_addressed haddr id addr clock),
    Index.matches_put_iff (m := kept) (i := fun a => ep.peerByAddr[a]?) (k := id) (v := peer)]
  · have hid : kept id = ep.peers[id]? := if_neg fun hcase => hcase.1 rfl
    rw [hid, hnew]
    refine ⟨And.left, fun hold => ⟨hold, fun key p hp heq => ?_⟩⟩
    -- a second peer at the address would have been dropped
    by_contra hne
    have hentry := hmatches.bwd key p (hkept key p hp)
    rw [heq] at hentry
    have hnone : kept key = none := if_pos ⟨hne, hentry⟩
    exact absurd (hnone.symm.trans hp) (by simp)
  · intro a key ha hentry
    obtain ⟨p, hp, heq⟩ := hmatches.fwd a key hentry
    refine ⟨p, ?_, heq⟩
    have hstays : ¬ (key ≠ id ∧ ep.peerByAddr[addr]? = some key) := by
      rintro ⟨-, hold⟩
      obtain ⟨q, hq, hqaddr⟩ := hmatches.fwd addr key hold
      obtain rfl := Option.some.inj (hp.symm.trans hq)
      exact ha (heq.symm.trans (hqaddr.trans hnew.symm))
    simp only [kept, if_neg hstays]
    exact hp
  · exact fun key p hp => hmatches.bwd key p (hkept key p hp)
  · intro x
    by_cases hx : x = id
    · rw [if_pos hx, hx, hpeer]
    · rw [if_neg hx, connect_peer_of_ne ep addr clock hx]
      exact if_congr ⟨fun hold => ⟨hx, hold⟩, And.right⟩ rfl rfl
  · intro a
    rw [connect_peerByAddr, hnew]

/-- A step keeps the index in step exactly if it leaves no stale entry and overwrites no peer. -/
lemma step_consistent_iff {cs : CryptoSuite} {ep ep' : Endpoint} {ev : Event} {out : Outputs}
    (haddr : Addressed ep) (h : Consistent ep) (hstep : step cs ep ev = .ok (ep', out)) :
    Consistent ep' ↔ KeepsIndex ep ev := by
  have haddr' := step_addressed haddr hstep
  have hmatches := (consistent_iff_matches haddr).mp h
  cases ev with
  | packet addr header payload clock random =>
      exact handlePacket_consistent_iff haddr haddr' h hstep
  | tick clock =>
      simp only [step, Except.ok.injEq] at hstep
      refine iff_of_true ((consistent_iff_matches haddr').mpr ?_) trivial
      obtain rfl := congrArg Prod.fst hstep
      refine hmatches.congr fun x => ?_
      rw [reactorTick_peer, Option.map_map]
      refine congrArg (Option.map · ep.peers[x]?) (funext fun peer => ?_)
      exact congrArg Prod.snd (tickPeer_contact ep.toLocal ep.bandwidth clock peer)
  | connect id addr clock =>
      simp only [step, Except.ok.injEq] at hstep
      obtain rfl := congrArg Prod.fst hstep
      exact connect_consistent_iff haddr h id addr clock
  | sendCommand id payload clock =>
      obtain ⟨hindex, hpeers⟩ := step_sendCommand hstep
      refine iff_of_true ((consistent_iff_matches haddr').mpr ?_) trivial
      rw [hindex]
      refine hmatches.congr fun x => ?_
      rcases hpeers x with hsame | ⟨peer, hpeer, hpeer'⟩
      · rw [hsame]
      · rw [hpeer, hpeer']
        rfl

/-! ## Runs -/

/-- In a run from an endpoint without peers, the index is consistent in every state exactly if at
every step a new peer gets a name that is free, and an id is connected only at the address it
has. -/
theorem addressIndex_consistent_iff (cs : CryptoSuite) (start : Endpoint) (hpeers : start.peers = ∅)
    (hindex : start.peerByAddr = ∅) (events : List Event) (ep : Endpoint) (outs : List Outputs)
    (hrun : Machine.run (step cs) start events = .ok (ep, outs)) :
    Machine.Throughout (step cs) Consistent start events ↔
      Machine.Along (step cs) KeepsIndex start events := by
  have haddr : Addressed start := fun x peer hpeer => by simp [hpeers] at hpeer
  have hstart : Consistent start :=
    ⟨fun a key hkey => by simp [hindex] at hkey, fun key peer hpeer => by simp [hpeers] at hpeer⟩
  refine Machine.throughout_iff (I := fun ep => Addressed ep ∧ Consistent ep) (fun _ => And.right)
    ?_ ?_ ⟨haddr, hstart⟩ hrun
  · rintro ep ev ep' out ⟨haddr, h⟩ hkeeps hstep
    exact ⟨step_addressed haddr hstep, (step_consistent_iff haddr h hstep).mpr hkeeps⟩
  · rintro ep ev ep' out ⟨haddr, h⟩ hbreaks hstep h'
    exact hbreaks ((step_consistent_iff haddr h hstep).mp h')

/-- A packet from a new address, then `connect` at that address. -/
theorem addressIndex_consistent_claimed :
    Machine.Throughout (step noCrypto) Consistent {}
      [stray .ack 1 [], .connect [120] ⟨1, 2⟩ ⟨0, 0⟩] := by
  refine (addressIndex_consistent_iff noCrypto {} rfl rfl _ _ _ rfl).mpr ?_
  refine ⟨Or.inr (by decide), fun ep out hstep => ⟨fun peer hpeer => ?_, fun _ _ _ => trivial⟩⟩
  cases hstep
  exact absurd (show none = some peer from hpeer) (by simp)

/-- An id is connected at one address and then at another: the entry of the first stays, and a
packet from there is taken for one of the peer that has moved. -/
theorem addressIndex_stale :
    ¬ ∀ (cs : CryptoSuite) (start : Endpoint), start.peers = ∅ → start.peerByAddr = ∅ →
      ∀ (events : List Event) (ep : Endpoint) (outs : List Outputs),
        Machine.run (step cs) start events = .ok (ep, outs) → Consistent ep := by
  intro h
  have hconsistent := h noCrypto {} rfl rfl
    [.connect [120] ⟨1, 2⟩ ⟨0, 0⟩, .connect [120] ⟨1, 3⟩ ⟨0, 0⟩] _ _ rfl
  obtain ⟨peer, hpeer, haddr⟩ := hconsistent.index ⟨1, 2⟩ [120] rfl
  cases hpeer
  exact absurd haddr (by decide)

end Transport
end Damen
