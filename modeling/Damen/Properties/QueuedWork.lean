import Damen.Model.Impl
import Damen.Properties.Contact

/-!
# What the queues refer to

The entries of the encode queue and of the outbound queue, the packet in the slot of the reactor,
and the threads that are at work hold their peer by pointer.  Peers are erased in one place only:
`connect` on an address that is known under another key.  It looks at none of the pointers, so they
keep to peers that are still there exactly in the runs in which, at every such call, none is to the
peer that is erased; in these runs no thread uses a pointer to an erased peer
(`queued_work_live_iff`).
-/

namespace Damen
namespace Transport
namespace Impl

open Std (ExtTreeMap)

/-- The peers that are referred to by the encode queue, the outbound queue and the slot. -/
def queued (s : Impl) : List Ref :=
  s.encode.items.map Work.peer ++ s.outbound.queue.items.map Work.peer ++
    s.outbound.litePending.toList.map Work.peer

/-- All of these, and the peers that the threads have in hand. -/
def held (s : Impl) : List Ref :=
  s.queued ++ s.hands.map Work.peer ++ s.outbound.sending.toList.map Work.peer

/-- Everything queued is for a peer that is still in `m_peers`. -/
def QueuesLive (s : Impl) : Prop := ∀ ref ∈ s.queued, s.Live ref

/-- So is everything in hand. -/
def AllLive (s : Impl) : Prop := ∀ ref ∈ s.held, s.Live ref

/-- Nothing is queued or in hand for the peer that a call of `connect` erases. -/
def ErasesIdle (s : Impl) : Event → Prop
  | .connect id addr _ => ∀ old, s.ep.peerByAddr[addr]? = some old → old ≠ id →
      ∀ ref ∈ s.held, ref.key ≠ old
  | _ => True

/-- Every peer has a creation step. -/
def Born (s : Impl) : Prop := ∀ key ∈ s.ep.peers, key ∈ s.births

variable {cs : CryptoSuite} {P : Ref → Prop} {s s' t u : Impl} {ev : Event}

lemma mem_held {ref : Ref} : ref ∈ s.held ↔ (∃ task ∈ s.encode.items, task.peer = ref) ∨
    (∃ packet ∈ s.outbound.queue.items, packet.peer = ref) ∨
    (∃ packet ∈ s.outbound.litePending, packet.peer = ref) ∨
    (∃ work ∈ s.hands, work.peer = ref) ∨ ∃ packet ∈ s.outbound.sending, packet.peer = ref := by
  simp only [held, queued, List.mem_append, List.mem_map, Option.mem_toList, Option.mem_def,
    or_assoc]

lemma AllLive.queuesLive (h : AllLive s) : QueuesLive s := fun ref href =>
  h ref (List.mem_append_left _ (List.mem_append_left _ href))

/-! ## References -/

variable {key : Bytes} {out : Outputs} {clock : Clock} {buffers : List Bytes}

lemma live_ref (hborn : Born s) (hkey : key ∈ s.ep.peers) : s.Live (s.ref key) := by
  refine ⟨hkey, ?_⟩
  exact ExtTreeMap.getElem?_eq_some_getD_of_contains (hborn key hkey)

lemma births_withEndpoint (s : Impl) (ep : Endpoint) (key : Bytes) :
    (s.withEndpoint ep).births[key]? = (ep.peers[key]?).map fun _ => s.births.getD key s.steps :=
  ExtTreeMap.getElem?_map

lemma withEndpoint_born (s : Impl) (ep : Endpoint) : Born (s.withEndpoint ep) := by
  intro key hkey
  have hkey : key ∈ ep.peers := hkey
  rw [ExtTreeMap.mem_iff_isSome_getElem?] at hkey ⊢
  rw [births_withEndpoint, Option.isSome_map]
  exact hkey

/-- A peer that keeps its entry keeps its identity. -/
lemma Live.withEndpoint {ref : Ref} (h : s.Live ref) {ep : Endpoint}
    (hkey : ref.key ∈ ep.peers) : (s.withEndpoint ep).Live ref := by
  refine ⟨hkey, ?_⟩
  obtain ⟨peer, hpeer⟩ := Option.isSome_iff_exists.mp (ExtTreeMap.mem_iff_isSome_getElem?.mp hkey)
  rw [births_withEndpoint, hpeer, Option.map_some, ExtTreeMap.getD_eq_getD_getElem?, h.2]
  rfl

/-! ## Packets for the outbound queue -/

/-- The state has changed by packets that were appended to the outbound queue, all of them for
peers in `P`. -/
structure Pushed (P : Ref → Prop) (s s' : Impl) : Prop where
  rest : ∃ queue, s' = { s with outbound := { s.outbound with queue } }
  queue : ∃ added, s'.outbound.queue.items = s.outbound.queue.items ++ added ∧
    ∀ packet ∈ added, P packet.peer

lemma Pushed.refl (P : Ref → Prop) (s : Impl) : Pushed P s s :=
  ⟨⟨_, rfl⟩, [], (List.append_nil _).symm, fun _ h => absurd h List.not_mem_nil⟩

lemma Pushed.trans (h : Pushed P s t) (h' : Pushed P t u) : Pushed P s u := by
  obtain ⟨⟨queue, rfl⟩, added, hitems, hadded⟩ := h
  obtain ⟨⟨queue', rfl⟩, added', hitems', hadded'⟩ := h'
  refine ⟨⟨queue', rfl⟩, added ++ added', ?_, ?_⟩
  · rw [hitems', hitems, List.append_assoc]
  · intro packet hpacket
    exact (List.mem_append.mp hpacket).elim (hadded packet) (hadded' packet)

lemma Pushed.ep (h : Pushed P s s') : s'.ep = s.ep := by
  obtain ⟨⟨_, rfl⟩, -⟩ := h
  rfl

lemma Pushed.live (h : Pushed P s s') {ref : Ref} : s'.Live ref ↔ s.Live ref := by
  obtain ⟨⟨_, rfl⟩, -⟩ := h
  rfl

lemma Pushed.born (h : Pushed P s s') (hborn : Born s) : Born s' := by
  obtain ⟨⟨_, rfl⟩, -⟩ := h
  exact hborn

lemma Pushed.mem_held_iff (h : Pushed P s s') {ref : Ref} :
    (ref ∈ s.held → ref ∈ s'.held) ∧ (ref ∈ s'.held → ref ∈ s.held ∨ P ref) := by
  obtain ⟨⟨_, rfl⟩, added, hitems, hadded⟩ := h
  simp only at hitems
  simp only [mem_held, hitems, List.mem_append]
  grind

lemma perform_pushed (s : Impl) {ref : Ref} (href : P ref) (act : Action) :
    Pushed P s (s.perform ref act) := by
  cases act with
  | enqueue datagram =>
      refine ⟨⟨_, rfl⟩, ?_⟩
      simp only [perform, Outbound.push, BlockingQueue.tryPush]
      split
      · exact ⟨[], (List.append_nil _).symm, fun _ h => absurd h List.not_mem_nil⟩
      · exact ⟨[⟨ref, datagram⟩], rfl, fun packet h => List.mem_singleton.mp h ▸ href⟩
  | probe _ | encrypt _ _ _ _ | message _ _ | command _ _ | peerEvent _ _ _ _ =>
      exact Pushed.refl P s

lemma foldl_perform_pushed {ref : Ref} (href : P ref) (acts : List Action)
    (s : Impl) : Pushed P s (acts.foldl (fun s act => s.perform ref act) s) := by
  induction acts generalizing s with
  | nil => exact Pushed.refl P s
  | cons act acts ih => exact (perform_pushed s href act).trans (ih _)

/-- The outputs of a step with the lock are for peers that are there. -/
lemma performAll_pushed (hborn : Born s) (hout : ∀ e ∈ out, e.1 ∈ s.ep.peers) :
    Pushed s.Live s (s.performAll out) := by
  have hfold : ∀ (out : Outputs) (t : Impl), Pushed s.Live s t → (∀ e ∈ out, e.1 ∈ s.ep.peers) →
      Pushed s.Live s (out.foldl (fun s e => s.perform (s.ref e.1) e.2) t) := by
    intro out
    induction out with
    | nil => exact fun t ht _ => ht
    | cons e out ih =>
        intro t ht hout
        have href : s.Live (t.ref e.1) := by
          obtain ⟨⟨_, rfl⟩, -⟩ := ht
          exact live_ref hborn (hout e List.mem_cons_self)
        exact ih _ (ht.trans (perform_pushed t href e.2)) fun e' he' =>
          hout e' (List.mem_cons_of_mem _ he')
  exact hfold out s (Pushed.refl _ s) hout

/-! ## Steps that erase nothing -/

/-- No peer loses its entry, and whatever is newly queued or in hand is for a peer that is there. -/
structure Keeps (s s' : Impl) : Prop where
  born : Born s'
  live : ∀ ref, s.Live ref → s'.Live ref
  held : ∀ ref ∈ s'.held, ref ∈ s.held ∨ s'.Live ref

lemma Keeps.allLive (h : Keeps s s') (hlive : AllLive s) : AllLive s' :=
  fun ref href => (h.held ref href).elim (fun hold => h.live ref (hlive ref hold)) id

/-- Neither the peers nor their creation steps change, and nothing is new. -/
lemma Keeps.of_held_subset (hborn : Born s) (hep : s'.ep = s.ep) (hbirths : s'.births = s.births)
    (hheld : ∀ ref ∈ s'.held, ref ∈ s.held) : Keeps s s' where
  born key hkey := by
    rw [hep] at hkey
    rw [hbirths]
    exact hborn key hkey
  live ref href := by
    unfold Live
    rw [hep, hbirths]
    exact href
  held ref href := Or.inl (hheld ref href)

lemma Keeps.trans (h : Keeps s t) (h' : Keeps t u) : Keeps s u where
  born := h'.born
  live ref href := h'.live ref (h.live ref href)
  held ref href := by
    rcases h'.held ref href with hold | hnew
    · exact (h.held ref hold).imp id (h'.live ref)
    · exact Or.inr hnew

lemma Keeps.refl (hborn : Born s) : Keeps s s :=
  ⟨hborn, fun _ h => h, fun _ h => Or.inl h⟩

/-- A step with the lock that keeps all entries. -/
lemma keeps_performAll {ep : Endpoint} (hkeys : ∀ key ∈ s.ep.peers, key ∈ ep.peers)
    (hout : ∀ e ∈ out, e.1 ∈ ep.peers) : Keeps s ((s.withEndpoint ep).performAll out) := by
  have hpushed := performAll_pushed (withEndpoint_born s ep) hout
  refine ⟨hpushed.born (withEndpoint_born s ep), fun ref href => ?_, fun ref href => ?_⟩
  · exact hpushed.live.mpr (href.withEndpoint (hkeys _ href.1))
  · exact (hpushed.mem_held_iff.2 href).imp id hpushed.live.mpr

lemma sendCommand_keeps {id payload : Bytes} {ep : Endpoint} {sent : Bool}
    (h : sendCommand cs s.ep id payload clock = .ok (ep, out, sent)) :
    Keeps s ((s.withEndpoint ep).performAll out) := by
  rcases sendCommand_ok h with ⟨rfl, rfl, -⟩ | ⟨key, peer, -, acts, hfind, -, -, rfl, rfl, -⟩
  · exact keeps_performAll (fun _ hkey => hkey) fun _ he => absurd he List.not_mem_nil
  · refine keeps_performAll (fun x hx => ?_) fun e he => ?_
    · exact ExtTreeMap.mem_insert.mpr (Or.inr hx)
    · obtain ⟨act, -, rfl⟩ := List.mem_map.mp he
      exact ExtTreeMap.mem_insert_self

lemma forPeers_keeps (s : Impl) (f : Peer → Peer × List Action) :
    Keeps s ((s.withEndpoint (forPeers s.ep f).1).performAll (forPeers s.ep f).2) := by
  have hkeys : ∀ key, key ∈ s.ep.peers → key ∈ (forPeers s.ep f).1.peers := by
    intro key hkey
    rw [ExtTreeMap.mem_iff_isSome_getElem?] at hkey ⊢
    rw [forPeers_peer, Option.isSome_map]
    exact hkey
  refine keeps_performAll hkeys fun e he => ?_
  obtain ⟨entry, hentry, he⟩ := List.mem_flatMap.mp he
  obtain ⟨act, -, rfl⟩ := List.mem_map.mp he
  exact hkeys _ (of_getElem?_eq_some (ExtTreeMap.mem_toList_iff_getElem?_eq_some.mp hentry))

lemma pass_keeps (s : Impl) (pass : Pass) (clock : Clock) :
    Keeps s ((s.withEndpoint (pass.apply s.ep clock).1).performAll (pass.apply s.ep clock).2) := by
  cases pass <;> exact forPeers_keeps s _

/-- A message that leaves the send queue for the encoder is appended to its queue, for a peer that
was just found. -/
lemma processItem_encode (limit : ℕ) (ep : Endpoint) (q : Queues) (priority : Int)
    (peerId payload : Bytes) :
    ∃ added, (processItem limit ep q priority peerId payload).encode.items =
        q.encode.items ++ added ∧ ∀ task ∈ added, task.peer ∈ ep.peers := by
  have hsame : ∃ added, q.encode.items = q.encode.items ++ added ∧
      ∀ task ∈ added, task.peer ∈ ep.peers :=
    ⟨[], (List.append_nil _).symm, fun _ h => absurd h List.not_mem_nil⟩
  have hrequeue : ∀ priority payload, (requeue limit q priority peerId payload).encode =
      q.encode := by
    intro priority payload
    unfold requeue
    split <;> rfl
  unfold processItem
  split
  · exact hsame
  · next key peer hfind =>
    split
    · split
      · rw [hrequeue]
        exact hsame
      · exact hsame
    · unfold BlockingQueue.tryPush
      simp only
      split
      · split
        · exact hsame
        · rw [hrequeue]
          exact hsame
      · refine ⟨[⟨key, payload⟩], rfl, fun task htask => ?_⟩
        rw [List.mem_singleton.mp htask]
        exact of_getElem?_eq_some (findPeer_mem hfind)

lemma processMessage_keeps (hborn : Born s) (limit : ℕ) (priority : Int) (peerId payload : Bytes) :
    Keeps s (s.processMessage limit priority peerId payload) := by
  obtain ⟨added, hitems, hadded⟩ := processItem_encode limit s.ep s.queues priority peerId payload
  have hlength : s.queues.encode.items.length = s.encode.items.length := List.length_map _
  have hdrop : (processItem limit s.ep s.queues priority peerId payload).encode.items.drop
      s.encode.items.length = added := by
    rw [hitems, ← hlength, List.drop_left]
  refine ⟨hborn, fun ref href => href, fun ref href => ?_⟩
  simp only [mem_held, processMessage, hdrop, List.mem_append, or_and_right, exists_or] at href ⊢
  rcases href with (hold | ⟨work, hwork, rfl⟩) | hrest
  · exact Or.inl (Or.inl hold)
  · obtain ⟨task, htask, rfl⟩ := List.mem_map.mp hwork
    exact Or.inr (live_ref hborn (hadded task htask))
  · exact Or.inl (Or.inr hrest)

lemma findOrCreate_keys (ep : Endpoint) (addr : AddrKey) (now : TimePoint) (random : UInt64)
    (key : Bytes) (h : key ∈ ep.peers) :
    key ∈ (findOrCreatePeerByAddr ep addr now random).1.peers := by
  unfold findOrCreatePeerByAddr
  simp only
  split
  · exact h
  · exact ExtTreeMap.mem_insert.mpr (Or.inr h)

lemma mem_findOrCreate (ep : Endpoint) (addr : AddrKey) (now : TimePoint) (random : UInt64) :
    peerKey ep addr random ∈ (findOrCreatePeerByAddr ep addr now random).1.peers := by
  unfold findOrCreatePeerByAddr
  simp only
  split
  · next hknown => exact of_getElem?_eq_some (peerFor_of_known hknown now random)
  · exact ExtTreeMap.mem_insert_self

/-! ## Threads with a peer in hand -/

/-- The entry of a peer that is there is written. -/
lemma keeps_put (hborn : Born s) (hkey : key ∈ s.ep.peers) (bandwidth : BandwidthEstimator)
    (peer : Peer) :
    Keeps s { s with ep := { s.ep with bandwidth, peers := s.ep.peers.insert key peer } } := by
  refine ⟨fun x hx => ?_, fun ref href => ?_, fun ref href => Or.inl href⟩
  · rcases ExtTreeMap.mem_insert.mp hx with heq | hold
    · rw [← Std.LawfulEqOrd.compare_eq_iff_eq.mp heq]
      exact hborn key hkey
    · exact hborn x hold
  · exact ⟨ExtTreeMap.mem_insert.mpr (Or.inr href.1), href.2⟩

lemma Pushed.keeps (h : Pushed s.Live s s') (hborn : Born s) : Keeps s s' where
  born := h.born hborn
  live _ href := h.live.mpr href
  held _ href := (h.mem_held_iff.2 href).imp id h.live.mpr

lemma advance_keeps (hborn : Born s) {work : Work Job} (hlive : s.Live work.peer) {job : Option Job}
    (h : s.advance cs work clock buffers = .ok (s', job)) : Keeps s s' ∧ s'.hands = s.hands := by
  obtain ⟨ref, item⟩ := work
  cases item with
  | packet header payload =>
      unfold advance at h
      simp only at h
      split at h
      · exact absurd h (by simp)
      · obtain ⟨rfl, -⟩ := Prod.mk.inj (Except.ok.inj h)
        exact ⟨keeps_put hborn hlive.1 _ _, rfl⟩
  | outputs acts =>
      cases acts with
      | nil =>
          obtain ⟨rfl, -⟩ := Prod.mk.inj (Except.ok.inj h)
          exact ⟨Keeps.refl hborn, rfl⟩
      | cons act acts =>
          obtain ⟨rfl, -⟩ := Prod.mk.inj (Except.ok.inj h)
          exact ⟨(perform_pushed s hlive act).keeps hborn, by cases act <;> rfl⟩
  | message payload =>
      obtain ⟨rfl, -⟩ := Prod.mk.inj (Except.ok.inj h)
      exact ⟨keeps_put hborn hlive.1 _ _, rfl⟩
  | fragments frags =>
      cases frags with
      | nil =>
          obtain ⟨rfl, -⟩ := Prod.mk.inj (Except.ok.inj h)
          exact ⟨Keeps.refl hborn, rfl⟩
      | cons frag frags =>
          obtain ⟨rfl, -⟩ := Prod.mk.inj (Except.ok.inj h)
          exact ⟨keeps_put hborn hlive.1 _ _, rfl⟩
  | registered header payload keep frags =>
      unfold advance at h
      simp only at h
      split at h
      · exact absurd h (by simp)
      · next peer acts _ =>
        obtain ⟨rfl, -⟩ := Prod.mk.inj (Except.ok.inj h)
        have hput := keeps_put hborn hlive.1 s.ep.bandwidth peer
        have hpushed := foldl_perform_pushed (hput.live ref hlive) acts
          { s with ep := { s.ep with peers := s.ep.peers.insert ref.key peer } }
        obtain ⟨queue, hrest⟩ := hpushed.rest
        exact ⟨hput.trans (hpushed.keeps hput.born), (congrArg Impl.hands hrest :)⟩

/-- A move of a thread runs into no erased peer that it has not in hand itself. -/
lemma advance_error {work : Work Job} {fault : ImplFault}
    (h : s.advance cs work clock buffers = .error fault) : fault ≠ .dangling := by
  rintro rfl
  unfold advance at h
  simp only at h
  split at h
  all_goals first | cases h | (split at h <;> cases h)

/-! ## The machine -/

lemma poll_mem {α : Type} (q : BlockingQueue α) :
    q.poll.1.items ⊆ q.items ∧ ∀ item ∈ q.poll.2, item ∈ q.items := by
  unfold BlockingQueue.poll
  split
  · exact ⟨fun _ h => h, fun _ h => absurd h (by simp)⟩
  · next item items hitems =>
    rw [hitems]
    refine ⟨List.subset_cons_self item items, fun x hx => ?_⟩
    obtain rfl := Option.some.inj hx
    exact List.mem_cons_self

/-- The consumers of the outbound queue only pass on what they find in it. -/
lemma keeps_outbound (hborn : Born s) {o : Outbound (Work Bytes)}
    (h : ∀ packet, packet ∈ o.queue.items ∨ packet ∈ o.litePending ∨ packet ∈ o.sending →
      packet ∈ s.outbound.queue.items ∨ packet ∈ s.outbound.litePending ∨
        packet ∈ s.outbound.sending) :
    Keeps s { s with outbound := o } := by
  refine Keeps.of_held_subset hborn rfl rfl fun ref href => ?_
  simp only [mem_held] at href ⊢
  grind

lemma move_keeps (hborn : Born s)
    (hconnect : ∀ id addr clock, ev ≠ .connect id addr clock)
    (h : s.move cs ev = .ok s') : Keeps s s' := by
  cases ev with
  | connect id addr clock => exact absurd rfl (hconnect id addr clock)
  | sendCommand id payload clock =>
      rw [move] at h
      split at h
      · exact absurd h (by simp)
      · next hsend =>
        obtain rfl := Except.ok.inj h
        exact sendCommand_keeps hsend
  | sendMessage limit priority id payload =>
      obtain rfl := Except.ok.inj h
      unfold sendMessage
      split
      · exact Keeps.refl hborn
      · exact Keeps.of_held_subset hborn rfl rfl fun _ href => href
  | pass pass clock =>
      obtain rfl := Except.ok.inj h
      exact pass_keeps s pass clock
  | takeMessages =>
      obtain rfl := Except.ok.inj h
      exact Keeps.of_held_subset hborn rfl rfl fun _ href => href
  | processMessage limit =>
      rw [move] at h
      split at h
      · obtain rfl := Except.ok.inj h
        exact Keeps.refl hborn
      · next priority id payload batch _ =>
        obtain rfl := Except.ok.inj h
        have hkeeps := processMessage_keeps (s := { s with batch }) hborn limit priority id payload
        exact ⟨hkeeps.born, hkeeps.live, hkeeps.held⟩
  | receive addr header payload clock random =>
      obtain rfl := Except.ok.inj h
      refine ⟨withEndpoint_born s _, fun ref href => ?_, fun ref href => ?_⟩
      · exact href.withEndpoint (findOrCreate_keys s.ep addr clock.now random _ href.1)
      · have hmem := mem_findOrCreate s.ep addr clock.now random
        rw [← (findOrCreatePeerByAddr_spec s.ep addr clock.now random).1] at hmem
        simp only [mem_held, List.mem_append, List.mem_singleton, or_and_right, exists_or,
          exists_eq_left] at href ⊢
        have hnew := live_ref (withEndpoint_born s _) hmem
        rcases href with hencode | hqueue | hslot | (hhand | rfl) | hsending
        · exact Or.inl (Or.inl hencode)
        · exact Or.inl (Or.inr (Or.inl hqueue))
        · exact Or.inl (Or.inr (Or.inr (Or.inl hslot)))
        · exact Or.inl (Or.inr (Or.inr (Or.inr (Or.inl hhand))))
        · exact Or.inr hnew
        · exact Or.inl (Or.inr (Or.inr (Or.inr (Or.inr hsending))))
  | takeTask =>
      obtain rfl := Except.ok.inj h
      refine Keeps.of_held_subset hborn rfl rfl fun ref href => ?_
      obtain ⟨hrest, htaken⟩ := poll_mem s.encode
      simp only [mem_held, List.mem_append, List.mem_map, Option.mem_toList] at href ⊢
      grind
  | advance i clock buffers =>
      rw [move] at h
      split at h
      · obtain rfl := Except.ok.inj h
        exact Keeps.refl hborn
      · next work hwork =>
        split at h
        · exact absurd h (by simp)
        · next hlive =>
          split at h
          · exact absurd h (by simp)
          · next hadvance =>
            obtain rfl := Except.ok.inj h
            obtain ⟨hkeeps, hhands⟩ := advance_keeps hborn (not_not.mp hlive) hadvance
            refine hkeeps.trans (Keeps.of_held_subset hkeeps.born rfl rfl fun ref href => ?_)
            have hmem := List.mem_of_getElem? hwork
            simp only [mem_held, hhands] at href ⊢
            split at href
            · grind [List.mem_of_mem_eraseIdx]
            · grind [List.mem_or_eq_of_mem_set]
  | takePacket =>
      rw [move] at h
      split at h
      · obtain rfl := Except.ok.inj h
        exact Keeps.refl hborn
      · obtain rfl := Except.ok.inj h
        obtain ⟨hrest, htaken⟩ := poll_mem s.outbound.queue
        refine keeps_outbound hborn fun packet hpacket => ?_
        simp only [Outbound.take] at hpacket
        grind
  | sendPacket =>
      rw [move] at h
      split at h
      · exact absurd h (by simp)
      · obtain rfl := Except.ok.inj h
        refine keeps_outbound hborn fun packet hpacket => ?_
        unfold Outbound.send at hpacket
        split at hpacket <;> grind
  | fillSlot =>
      obtain rfl := Except.ok.inj h
      obtain ⟨hrest, htaken⟩ := poll_mem s.outbound.queue
      refine keeps_outbound hborn fun packet hpacket => ?_
      unfold Outbound.fill at hpacket
      split at hpacket <;> grind
  | flushSlot enough =>
      rw [move] at h
      split at h
      · exact absurd h (by simp)
      · obtain rfl := Except.ok.inj h
        refine keeps_outbound hborn fun packet hpacket => ?_
        unfold Outbound.flush at hpacket
        split at hpacket
        · exact hpacket
        · split_ifs at hpacket <;> grind

/-- A thread that uses a pointer to an erased peer has it in hand. -/
lemma move_dangling (h : s.move cs ev = .error .dangling) : ¬ AllLive s := by
  intro hlive
  cases ev with
  | advance i clock buffers =>
      rw [move] at h
      split at h
      · cases h
      · next work hwork =>
        have hmem : work.peer ∈ s.held :=
          mem_held.mpr (Or.inr (Or.inr (Or.inr (Or.inl ⟨work, List.mem_of_getElem? hwork, rfl⟩))))
        rw [if_neg (not_not.mpr (hlive _ hmem))] at h
        split at h
        · next hadvance => exact advance_error hadvance (Except.error.inj h)
        · cases h
  | sendPacket =>
      have husable : s.Usable s.outbound.sending := fun packet hpacket =>
        hlive _ (mem_held.mpr (Or.inr (Or.inr (Or.inr (Or.inr ⟨packet, hpacket, rfl⟩)))))
      rw [move, if_neg (not_not.mpr husable)] at h
      cases h
  | flushSlot enough =>
      have husable : s.Usable s.outbound.litePending := fun packet hpacket =>
        hlive _ (mem_held.mpr (Or.inr (Or.inr (Or.inl ⟨packet, hpacket, rfl⟩))))
      rw [move, if_neg (not_not.mpr husable)] at h
      cases h
  | sendCommand | processMessage | takePacket =>
      rw [move] at h
      split at h <;> cases h
  | _ => cases h

/-- `connect` appends its handshake to the outbound queue, and drops at most one entry. -/
lemma connect_pushed (s : Impl) (id : Bytes) (addr : AddrKey) (clock : Clock) :
    Pushed (s.withEndpoint (connect s.ep id addr clock).1).Live
      (s.withEndpoint (connect s.ep id addr clock).1)
      ((s.withEndpoint (connect s.ep id addr clock).1).performAll
        (connect s.ep id addr clock).2) := by
  refine performAll_pushed (withEndpoint_born s _) fun e he => ?_
  obtain ⟨act, -, rfl⟩ := List.mem_map.mp he
  obtain ⟨peer, hpeer, -⟩ := connect_peer s.ep id addr clock
  exact of_getElem?_eq_some hpeer

lemma mem_connect_iff (ep : Endpoint) (id : Bytes) (addr : AddrKey) (clock : Clock)
    (hkey : key ∈ ep.peers) :
    key ∈ (connect ep id addr clock).1.peers ↔ ¬ (ep.peerByAddr[addr]? = some key ∧ key ≠ id) := by
  by_cases hid : key = id
  · subst hid
    obtain ⟨peer, hpeer, -⟩ := connect_peer ep key addr clock
    exact iff_of_true (of_getElem?_eq_some hpeer) fun h => h.2 rfl
  · rw [ExtTreeMap.mem_iff_isSome_getElem?] at hkey ⊢
    rw [connect_peer_of_ne ep addr clock hid]
    by_cases hold : ep.peerByAddr[addr]? = some key
    · rw [if_pos hold]
      exact iff_of_false (by simp) fun h => h ⟨hold, hid⟩
    · rw [if_neg hold]
      exact iff_of_true hkey fun h => hold h.1

lemma connect_allLive_iff (hlive : AllLive s) (id : Bytes) (addr : AddrKey) (clock : Clock) :
    AllLive ((s.withEndpoint (connect s.ep id addr clock).1).performAll
        (connect s.ep id addr clock).2) ↔
      s.ErasesIdle (.connect id addr clock) := by
  have hpushed := connect_pushed s id addr clock
  constructor
  · rintro hafter old hold hne ref href rfl
    have hmem : ref.key ∈ (connect s.ep id addr clock).1.peers :=
      (hpushed.live.mp (hafter ref (hpushed.mem_held_iff.1 href))).1
    exact (mem_connect_iff s.ep id addr clock (hlive ref href).1).mp hmem ⟨hold, hne⟩
  · intro hidle ref href
    refine hpushed.live.mpr ?_
    rcases hpushed.mem_held_iff.2 href with hold | hnew
    · refine (hlive ref hold).withEndpoint ?_
      exact (mem_connect_iff s.ep id addr clock (hlive ref hold).1).mpr fun h =>
        hidle ref.key h.1 h.2 ref hold rfl
    · exact hnew

/-- A step counts itself, which nothing else depends on. -/
lemma step_ok {o : Unit} (h : step cs s ev = .ok (s', o)) :
    ∃ t, s.move cs ev = .ok t ∧ s' = { t with steps := t.steps + 1 } := by
  unfold step at h
  split at h
  · exact absurd h (by simp)
  · next t hmove => exact ⟨t, hmove, (Prod.mk.inj (Except.ok.inj h)).1.symm⟩

lemma step_dangling (h : step cs s ev = .error .dangling) : ¬ AllLive s := by
  unfold step at h
  split at h
  · next hmove => exact move_dangling (hmove.trans (congrArg _ (Except.error.inj h)))
  · cases h

/-- A step erases nothing, or it is a call of `connect`. -/
lemma step_cases {o : Unit} (hborn : Born s) (h : step cs s ev = .ok (s', o)) :
    ∃ t, s' = { t with steps := t.steps + 1 } ∧ (Keeps s t ∧ s.ErasesIdle ev ∨
      ∃ id addr clock, ev = .connect id addr clock ∧
        t = (s.withEndpoint (connect s.ep id addr clock).1).performAll
          (connect s.ep id addr clock).2) := by
  obtain ⟨t, hmove, rfl⟩ := step_ok h
  refine ⟨t, rfl, ?_⟩
  cases ev with
  | connect id addr clock => exact Or.inr ⟨id, addr, clock, rfl, (Except.ok.inj hmove).symm⟩
  | _ => exact Or.inl ⟨move_keeps hborn (by simp) hmove, trivial⟩

lemma step_born {o : Unit} (hborn : Born s) (h : step cs s ev = .ok (s', o)) : Born s' := by
  obtain ⟨t, rfl, ⟨hkeeps, -⟩ | ⟨id, addr, clock, rfl, rfl⟩⟩ := step_cases hborn h
  · exact hkeeps.born
  · exact (connect_pushed s id addr clock).born (withEndpoint_born s _)

/-- A step keeps all pointers to peers that are there exactly if it erases no peer that there is one
to. -/
lemma step_allLive_iff {o : Unit} (hborn : Born s) (hlive : AllLive s)
    (h : step cs s ev = .ok (s', o)) : AllLive s' ↔ s.ErasesIdle ev := by
  obtain ⟨t, rfl, ⟨hkeeps, hidle⟩ | ⟨id, addr, clock, rfl, rfl⟩⟩ := step_cases hborn h
  · exact iff_of_true (hkeeps.allLive hlive) hidle
  · exact connect_allLive_iff hlive id addr clock

/-! ## Runs -/

/-- Wherever a run gets in which `connect` only erases peers without work, all pointers are to peers
that are there. -/
lemma run_allLive {start : Impl} {events before after : List Event} {outs : List Unit}
    (hstart : Born start ∧ AllLive start) (hidle : Machine.Along (step cs) ErasesIdle start events)
    (hevents : events = before ++ after)
    (hrun : Machine.run (step cs) start before = .ok (t, outs)) : AllLive t := by
  subst hevents
  refine (Machine.run_invariant (I := fun s => Born s ∧ AllLive s) ?_ hstart hidle.left hrun).2
  rintro s ev s' o ⟨hborn, hlive⟩ hP hstep
  exact ⟨step_born hborn hstep, (step_allLive_iff hborn hlive hstep).mpr hP⟩

/-- In a run that starts with nothing queued or in hand, everything queued and in hand is for a peer
that is still there, in every state, exactly if at every call of `connect` there is nothing for the
peer it erases.  Then no thread of the run uses a pointer to an erased peer. -/
theorem queued_work_live_iff (cs : CryptoSuite) (start : Impl) (hpeers : start.ep.peers = ∅)
    (hheld : start.held = []) (events : List Event) :
    (Machine.Throughout (step cs) AllLive start events ↔
        Machine.Along (step cs) ErasesIdle start events) ∧
      (Machine.Along (step cs) ErasesIdle start events →
        Machine.Throughout (step cs) QueuesLive start events ∧
          Machine.run (step cs) start events ≠ .error .dangling) := by
  have hstart : Born start ∧ AllLive start :=
    ⟨fun key hkey => by simp [hpeers] at hkey, fun ref href => by simp [hheld] at href⟩
  refine ⟨⟨fun hall => Machine.along_iff.mpr ?_, fun hidle before after hevents s outs hrun =>
    run_allLive hstart hidle hevents hrun⟩, fun hidle => ⟨fun before after hevents s outs hrun =>
    (run_allLive hstart hidle hevents hrun).queuesLive, fun herror => ?_⟩⟩
  · rintro before ev after rfl s outs hrun
    have hborn := Machine.run_keeps (fun _ _ _ _ h hstep => step_born h hstep) hstart.1 hrun
    have hlive := hall before (ev :: after) rfl s outs hrun
    cases ev with
    | connect id addr clock =>
        -- `connect` always comes to an end, so the run has a state after it
        have hstep : step cs s (.connect id addr clock) = .ok (_, ()) := rfl
        refine (step_allLive_iff hborn hlive hstep).mp ?_
        exact hall (before ++ [.connect id addr clock]) after (by simp) _ (outs ++ [()])
          (Machine.run_concat_ok.mpr ⟨s, outs, (), hrun, hstep, rfl⟩)
    | _ => trivial
  · obtain ⟨before, ev, after, s, outs, hevents, hrun, hstep⟩ := Machine.run_error herror
    exact step_dangling hstep (run_allLive hstart hidle hevents hrun)

/-- An acknowledgement from an address without a peer. -/
def strayAck : Event :=
  .receive ⟨1, 2⟩ { magic := kMagic, version := kVersion, type := .ack, clientId := 7 } [] ⟨0, 0⟩ 5

/-- A peer that was met by a packet is replaced by `connect` when the packet has been handled and
the handshake that the reactor queued for the peer has been sent. -/
def answered : List Event :=
  [strayAck, .advance 0 ⟨0, 0⟩ [], .advance 0 ⟨0, 0⟩ [], .pass .handshakes ⟨0, 0⟩, .takePacket,
    .sendPacket, .connect [120] ⟨1, 2⟩ ⟨0, 0⟩]

theorem queued_work_live_answered :
    Machine.Throughout (step noCrypto) AllLive {} answered ∧
      Machine.run (step noCrypto) {} answered ≠ .error .dangling := by
  have hidle : Machine.Along (step noCrypto) ErasesIdle {} answered := by
    iterate 6
      refine ⟨trivial, fun s o hstep => ?_⟩
      cases hstep
    refine ⟨fun old _ _ ref href => ?_, fun _ _ _ => trivial⟩
    exact absurd href List.not_mem_nil
  have hiff := queued_work_live_iff noCrypto {} rfl rfl answered
  exact ⟨hiff.1.mpr hidle, (hiff.2 hidle).2⟩

/-- The reactor queues a handshake for a peer that was met by a packet, and the application connects
to the address of that peer. -/
theorem queued_work_dangling :
    ¬ ∀ (cs : CryptoSuite) (start : Impl), start.ep.peers = ∅ → start.held = [] →
      ∀ (events : List Event) (s : Impl) (outs : List Unit),
        Machine.run (step cs) start events = .ok (s, outs) → QueuesLive s := by
  intro h
  have hlive := h noCrypto {} rfl rfl
    [strayAck, .pass .handshakes ⟨0, 0⟩, .connect [120] ⟨1, 2⟩ ⟨0, 0⟩] _ _ rfl
    ⟨anonId 2 5, 0⟩ List.mem_cons_self
  exact absurd hlive.1 (by decide)

end Impl
end Transport
end Damen
