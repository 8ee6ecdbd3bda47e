import Damen.Framework.OrderedMap
import Damen.Model.SendQueue

/-!
# No message is lost by a scheduling pass

A pass over the send queue should put every message in one place: the encode queue, the send queue
under its own priority, or nowhere if its peer is gone or the send queue is full (`NothingLost`).

It does not when the encode queue refuses a message that the send queue has room for: `try_push`
takes its argument by value, so the payload is gone when the message is queued again, and it is
queued under priority 0 whatever it had.  `nothing_lost_iff` says that this is the only way, in
terms of what the pass starts from: the free places of the encode queue, the limit, and the messages
in front.
-/

namespace Damen
namespace Transport

open Std (ExtTreeMap)

/-! ## The messages of a pass -/

/-- A message that a pass takes out. -/
structure Item where
  priority : Int
  peerId : Bytes
  payload : Bytes

/-- The messages of the send queue in the order in which a pass processes them. -/
def takenOut (send : SendQueue) : List Item :=
  send.toList.reverse.flatMap fun kv => kv.2.map fun item => ⟨kv.1, item.1, item.2⟩

/-- The turn of a message. -/
def turn (limit : ℕ) (ep : Endpoint) (q : Queues) (item : Item) : Queues :=
  processItem limit ep q item.priority item.peerId item.payload

/-- The queues after the turns of `items`, from the start of a pass on. -/
def afterTurns (limit : ℕ) (ep : Endpoint) (q : Queues) (items : List Item) : Queues :=
  items.foldl (turn limit ep) { q with send := ∅ }

lemma processSendQueue_eq (limit : ℕ) (ep : Endpoint) (q : Queues) :
    processSendQueue limit ep q = afterTurns limit ep q (takenOut q.send) := by
  rw [afterTurns, takenOut, List.foldl_flatMap, processSendQueue]
  simp only [List.foldl_map]
  rfl

lemma afterTurns_append (limit : ℕ) (ep : Endpoint) (q : Queues) (items items' : List Item) :
    afterTurns limit ep q (items ++ items') =
      items'.foldl (turn limit ep) (afterTurns limit ep q items) :=
  List.foldl_append

lemma afterTurns_concat (limit : ℕ) (ep : Endpoint) (q : Queues) (items : List Item) (item : Item) :
    afterTurns limit ep q (items ++ [item]) = turn limit ep (afterTurns limit ep q items) item :=
  afterTurns_append limit ep q items [item]

/-! ## Where a message goes -/

/-- The link state of the peer that a message is addressed to. -/
def linkOf (ep : Endpoint) (item : Item) : Option LinkState :=
  (findPeer ep item.peerId).map fun found => found.2.state

/-- It is the last one in the encode queue, for the peer it is addressed to. -/
def Encoded (ep : Endpoint) (item : Item) (q q' : Queues) : Prop :=
  ∃ key peer, findPeer ep item.peerId = some (key, peer) ∧
    q' = { q with encode := { q.encode with items := q.encode.items ++ [⟨key, item.payload⟩] } }

/-- It is the last one in the send queue, under its priority. -/
def Requeued (item : Item) (q q' : Queues) : Prop :=
  q' = { q with send := enqueue q.send item.priority item.peerId item.payload }

/-- It is nowhere, because its peer is unknown or closed or the send queue is full. -/
def Dropped (limit : ℕ) (ep : Endpoint) (item : Item) (q q' : Queues) : Prop :=
  q' = q ∧ (linkOf ep item = none ∨ linkOf ep item = some .closed ∨ limit ≤ total q.send)

def ExactlyOne (a b c : Prop) : Prop := a ∧ ¬ b ∧ ¬ c ∨ ¬ a ∧ b ∧ ¬ c ∨ ¬ a ∧ ¬ b ∧ c

/-- What is queued in `q` is queued in `q'`, at the same place. -/
def Extends (q q' : Queues) : Prop :=
  q.encode.items <+: q'.encode.items ∧
    ∀ priority, q.send.getD priority [] <+: q'.send.getD priority []

/-- Every message of the pass is put in one place, and stays there. -/
def NothingLost (limit : ℕ) (ep : Endpoint) (q : Queues) : Prop :=
  ∀ before item after, takenOut q.send = before ++ item :: after →
    let here := afterTurns limit ep q before
    let next := turn limit ep here item
    ExactlyOne (Encoded ep item here next) (Requeued item here next)
      (Dropped limit ep item here next) ∧
      Extends next (processSendQueue limit ep q)

/-! ## One turn -/

lemma total_enqueue (send : SendQueue) (priority : Int) (peerId payload : Bytes) :
    total (enqueue send priority peerId payload) = total send + 1 := by
  have hsum := OrderedMap.sum_toList_insert List.length send priority
    (send.getD priority [] ++ [(peerId, payload)])
  have hlen : send[priority]?.elim 0 List.length = (send.getD priority []).length := by
    rw [ExtTreeMap.getD_eq_getD_getElem?]
    cases send[priority]? <;> rfl
  rw [hlen, List.length_append, List.length_singleton] at hsum
  unfold total enqueue
  omega

/-- The peer is online. -/
def toOnline (ep : Endpoint) (item : Item) : Bool := linkOf ep item = some .online

/-- The peer is known, and neither closed nor online. -/
def toWaiting (ep : Endpoint) (item : Item) : Bool :=
  linkOf ep item = some .handshake ∨ linkOf ep item = some .established

variable {item : Item} {q q' : Queues}

lemma not_online_of_waiting {ep : Endpoint} (h : toWaiting ep item = true) :
    toOnline ep item ≠ true := by
  intro honline
  have h := of_decide_eq_true h
  have honline := of_decide_eq_true honline
  simp [honline] at h

lemma turn_waiting {ep : Endpoint} (h : toWaiting ep item = true) (limit : ℕ) (q : Queues) :
    turn limit ep q item = requeue limit q item.priority item.peerId item.payload := by
  have h := of_decide_eq_true h
  unfold turn processItem
  cases hfind : findPeer ep item.peerId with
  | none =>
      simp only [linkOf, hfind, Option.map_none] at h
      simp at h
  | some found =>
      simp only [linkOf, hfind, Option.map_some, Option.some.injEq] at h
      rcases h with h | h
      · simp only [h, ne_eq, reduceCtorEq, not_false_eq_true, if_true]
      · simp only [h, ne_eq, reduceCtorEq, not_false_eq_true, if_true]

lemma turn_online {ep : Endpoint} (h : toOnline ep item = true) (limit : ℕ) (q : Queues) :
    ∃ key peer, findPeer ep item.peerId = some (key, peer) ∧
      turn limit ep q item =
        if q.encode.refuses then requeue limit q 0 item.peerId []
        else { q with
          encode := { q.encode with items := q.encode.items ++ [⟨key, item.payload⟩] } } := by
  have h := of_decide_eq_true h
  obtain ⟨⟨key, peer⟩, hfind, hstate⟩ := Option.map_eq_some_iff.mp h
  refine ⟨key, peer, hfind, ?_⟩
  unfold turn processItem BlockingQueue.tryPush
  simp only [hfind]
  rw [if_neg (not_not.mpr hstate)]
  split
  · rfl
  · rfl

lemma turn_gone {ep : Endpoint} (honline : toOnline ep item = false)
    (hwaiting : toWaiting ep item = false) (limit : ℕ) (q : Queues) :
    turn limit ep q item = q ∧ (linkOf ep item = none ∨ linkOf ep item = some .closed) := by
  have honline := of_decide_eq_false honline
  have hwaiting := of_decide_eq_false hwaiting
  cases hfind : findPeer ep item.peerId with
  | none =>
      refine ⟨?_, Or.inl (by rw [linkOf, hfind]; rfl)⟩
      simp only [turn, processItem, hfind]
  | some found =>
      have hlink : linkOf ep item = some found.2.state := by
        rw [linkOf, hfind]
        rfl
      rw [hlink] at honline hwaiting
      have hclosed : found.2.state = .closed := by
        cases hstate : found.2.state <;> simp_all
      refine ⟨?_, Or.inr (hlink.trans (congrArg some hclosed))⟩
      simp only [turn, processItem, hfind, hclosed, ne_eq, reduceCtorEq, not_false_eq_true,
        not_true, if_true, if_false]

/-- A turn queues the message again, in some form, encodes it or leaves the queues alone. -/
lemma turn_cases (limit : ℕ) (ep : Endpoint) (q : Queues) (item : Item) :
    (∃ priority payload, turn limit ep q item = requeue limit q priority item.peerId payload) ∨
      (∃ task, turn limit ep q item =
        { q with encode := { q.encode with items := q.encode.items ++ [task] } }) ∨
      turn limit ep q item = q := by
  by_cases hwaiting : toWaiting ep item = true
  · exact Or.inl ⟨_, _, turn_waiting hwaiting limit q⟩
  · by_cases honline : toOnline ep item = true
    · obtain ⟨key, peer, -, hturn⟩ := turn_online honline limit q
      rw [hturn]
      split
      · exact Or.inl ⟨_, _, rfl⟩
      · exact Or.inr (Or.inl ⟨_, rfl⟩)
    · have hgone :=
        turn_gone (Bool.eq_false_iff.mpr honline) (Bool.eq_false_iff.mpr hwaiting) limit q
      exact Or.inr (Or.inr hgone.1)

lemma extends_refl (q : Queues) : Extends q q :=
  ⟨List.prefix_refl _, fun _ => List.prefix_refl _⟩

lemma Extends.trans {a b c : Queues} (h : Extends a b) (h' : Extends b c) : Extends a c :=
  ⟨h.1.trans h'.1, fun priority => (h.2 priority).trans (h'.2 priority)⟩

lemma requeue_extends (limit : ℕ) (q : Queues) (priority : Int) (peerId payload : Bytes) :
    Extends q (requeue limit q priority peerId payload) := by
  unfold requeue
  split
  · refine ⟨List.prefix_refl _, fun p => ?_⟩
    simp only [enqueue, ExtTreeMap.getD_eq_getD_getElem?, OrderedMap.getElem?_insert]
    split
    · next heq =>
      rw [heq]
      exact List.prefix_append _ _
    · exact List.prefix_refl _
  · exact extends_refl q

lemma turn_extends (limit : ℕ) (ep : Endpoint) (q : Queues) (item : Item) :
    Extends q (turn limit ep q item) := by
  rcases turn_cases limit ep q item with ⟨priority, payload, hturn⟩ | ⟨task, hturn⟩ | hturn
  · rw [hturn]
    exact requeue_extends ..
  · rw [hturn]
    exact ⟨List.prefix_append _ _, fun _ => List.prefix_refl _⟩
  · rw [hturn]
    exact extends_refl q

lemma foldl_turn_extends (limit : ℕ) (ep : Endpoint) (q : Queues) (items : List Item) :
    Extends q (items.foldl (turn limit ep) q) := by
  induction items generalizing q with
  | nil => exact extends_refl q
  | cons item items ih => exact (turn_extends limit ep q item).trans (ih _)

/-! ## Exactly one place -/

/-- The message is refused although the send queue has room for it, and would not be queued again as
it was. -/
def Bounces (limit : ℕ) (ep : Endpoint) (q : Queues) (item : Item) : Prop :=
  toOnline ep item = true ∧ q.encode.refuses = true ∧ total q.send < limit ∧
    ¬ (item.payload = [] ∧ item.priority = 0)

lemma encoded_ne {ep : Endpoint} (h : Encoded ep item q q') : q'.encode ≠ q.encode := by
  obtain ⟨key, peer, -, rfl⟩ := h
  intro heq
  have hlen := congrArg (fun e : BlockingQueue EncodeTask => e.items.length) heq
  simp at hlen

lemma requeued_ne (h : Requeued item q q') : q'.send ≠ q.send := by
  rw [h]
  intro heq
  have htotal := congrArg total heq
  rw [total_enqueue] at htotal
  omega

/-- The three places exclude one another. -/
lemma exactlyOne_iff {limit : ℕ} {ep : Endpoint} :
    ExactlyOne (Encoded ep item q q') (Requeued item q q') (Dropped limit ep item q q') ↔
      Encoded ep item q q' ∨ Requeued item q q' ∨ Dropped limit ep item q q' := by
  have her : Encoded ep item q q' → ¬ Requeued item q q' := fun he hr => encoded_ne he (by rw [hr])
  have hed : Encoded ep item q q' → ¬ Dropped limit ep item q q' :=
    fun he hd => encoded_ne he (by rw [hd.1])
  have hrd : Requeued item q q' → ¬ Dropped limit ep item q q' :=
    fun hr hd => requeued_ne hr (by rw [hd.1])
  unfold ExactlyOne
  tauto

lemma enqueue_ne (h : ¬ (item.payload = [] ∧ item.priority = 0)) (send : SendQueue) :
    enqueue send 0 item.peerId [] ≠ enqueue send item.priority item.peerId item.payload := by
  intro heq
  have hzero := congrArg (fun send : SendQueue => send[(0 : Int)]?) heq
  simp only [enqueue, OrderedMap.getElem?_insert, if_true] at hzero
  by_cases hpriority : 0 = item.priority
  · rw [if_pos hpriority, ← hpriority, Option.some.injEq, List.append_cancel_left_eq,
      List.singleton_inj, Prod.mk.injEq] at hzero
    exact h ⟨hzero.2.symm, hpriority.symm⟩
  · rw [if_neg hpriority, ExtTreeMap.getD_eq_getD_getElem?] at hzero
    cases hold : send[(0 : Int)]? with
    | none => simp [hold] at hzero
    | some queue => simp [hold] at hzero

lemma turn_exactlyOne_iff (limit : ℕ) (ep : Endpoint) (q : Queues) (item : Item) :
    ExactlyOne (Encoded ep item q (turn limit ep q item)) (Requeued item q (turn limit ep q item))
      (Dropped limit ep item q (turn limit ep q item)) ↔ ¬ Bounces limit ep q item := by
  rw [exactlyOne_iff]
  by_cases hwaiting : toWaiting ep item = true
  · refine iff_of_true (Or.inr ?_) fun hbounce => not_online_of_waiting hwaiting hbounce.1
    rw [turn_waiting hwaiting, requeue]
    split
    · exact Or.inl rfl
    · next hfull => exact Or.inr ⟨rfl, Or.inr (Or.inr (not_lt.mp hfull))⟩
  · by_cases honline : toOnline ep item = true
    · obtain ⟨key, peer, hfind, hturn⟩ := turn_online honline limit q
      rw [hturn]
      by_cases hrefuses : q.encode.refuses = true
      · rw [if_pos hrefuses, requeue]
        by_cases hroom : total q.send < limit
        · rw [if_pos hroom]
          constructor
          · rintro (henc | hreq | hdrop) ⟨-, -, -, hchanged⟩
            · exact encoded_ne henc rfl
            · exact enqueue_ne hchanged q.send (congrArg Queues.send hreq)
            · have htotal := congrArg (fun q => total q.send) hdrop.1
              simp only [total_enqueue] at htotal
              omega
          · intro hnot
            have hsame : item.payload = [] ∧ item.priority = 0 :=
              not_not.mp fun hchanged => hnot ⟨honline, hrefuses, hroom, hchanged⟩
            refine Or.inr (Or.inl ?_)
            rw [Requeued, hsame.1, hsame.2]
        · rw [if_neg hroom]
          exact iff_of_true (Or.inr (Or.inr ⟨rfl, Or.inr (Or.inr (not_lt.mp hroom))⟩))
            fun hbounce => hroom hbounce.2.2.1
      · rw [if_neg hrefuses]
        exact iff_of_true (Or.inl ⟨key, peer, hfind, rfl⟩) fun hbounce => hrefuses hbounce.2.1
    · obtain ⟨hturn, hgone⟩ :=
        turn_gone (Bool.eq_false_iff.mpr honline) (Bool.eq_false_iff.mpr hwaiting) limit q
      rw [hturn]
      exact iff_of_true (Or.inr (Or.inr ⟨rfl, hgone.imp_right Or.inl⟩))
        fun hbounce => honline hbounce.1

/-! ## A whole pass -/

/-- How many messages the queue still takes, when it is bounded. -/
def freePlaces (q : BlockingQueue EncodeTask) : ℕ :=
  if q.closed then 0 else q.capacity - q.items.length

/-- The message `item` behind the messages `before` is refused although the send queue has room for
it: the messages to online peers in front fill the encode queue, and those that are queued again in
front, because they wait or are refused themselves, do not fill the send queue. -/
def RefusedWithRoom (limit : ℕ) (ep : Endpoint) (q : Queues) (before : List Item) (item : Item) :
    Prop :=
  toOnline ep item = true ∧ (q.encode.closed = true ∨ 0 < q.encode.capacity) ∧
    freePlaces q.encode ≤ before.countP (toOnline ep) ∧
    before.countP (toWaiting ep) + (before.countP (toOnline ep) - freePlaces q.encode) < limit

lemma total_requeue (limit : ℕ) (q : Queues) (priority : Int) (peerId payload : Bytes)
    (h : total q.send ≤ limit) :
    total (requeue limit q priority peerId payload).send = min limit (total q.send + 1) := by
  unfold requeue
  split
  · rw [total_enqueue]
    omega
  · omega

lemma requeue_encode (limit : ℕ) (q : Queues) (priority : Int) (peerId payload : Bytes) :
    (requeue limit q priority peerId payload).encode = q.encode := by
  unfold requeue
  split <;> rfl

/-- Capacity and closing of the encode queue stay as they are. -/
lemma turn_bound (limit : ℕ) (ep : Endpoint) (q : Queues) (item : Item) :
    (turn limit ep q item).encode.closed = q.encode.closed ∧
      (turn limit ep q item).encode.capacity = q.encode.capacity := by
  rcases turn_cases limit ep q item with ⟨priority, payload, hturn⟩ | ⟨task, hturn⟩ | hturn
  · rw [hturn, requeue_encode]
    exact ⟨rfl, rfl⟩
  · rw [hturn]
    exact ⟨rfl, rfl⟩
  · rw [hturn]
    exact ⟨rfl, rfl⟩

lemma afterTurns_bound (limit : ℕ) (ep : Endpoint) (q : Queues) (items : List Item) :
    (afterTurns limit ep q items).encode.closed = q.encode.closed ∧
      (afterTurns limit ep q items).encode.capacity = q.encode.capacity := by
  induction items using List.reverseRecOn with
  | nil => exact ⟨rfl, rfl⟩
  | append_singleton items item ih =>
      obtain ⟨hclosed, hcapacity⟩ := turn_bound limit ep (afterTurns limit ep q items) item
      rw [afterTurns_concat]
      exact ⟨hclosed.trans ih.1, hcapacity.trans ih.2⟩

lemma refuses_eq_true_iff (q : BlockingQueue EncodeTask) :
    q.refuses = true ↔ q.closed = true ∨ 0 < q.capacity ∧ q.capacity ≤ q.items.length := by
  rw [BlockingQueue.refuses, Bool.or_eq_true, decide_eq_true_eq]

/-- How full the queues are after turns of `online` messages to online peers and `waiting` ones to
peers that wait, if the encode queue is bounded. -/
structure Filled (limit : ℕ) (q : Queues) (online waiting : ℕ) (q' : Queues) : Prop where
  encode : q'.encode.items.length = q.encode.items.length + min online (freePlaces q.encode)
  send : total q'.send = min limit (waiting + (online - freePlaces q.encode))

lemma Filled.refuses_iff {limit : ℕ} {online waiting : ℕ} (h : Filled limit q online waiting q')
    (hbound : q.encode.closed = true ∨ 0 < q.encode.capacity)
    (hsame : q'.encode.closed = q.encode.closed ∧ q'.encode.capacity = q.encode.capacity) :
    q'.encode.refuses = true ↔ freePlaces q.encode ≤ online := by
  have henc := h.encode
  rw [refuses_eq_true_iff, hsame.1, hsame.2]
  unfold freePlaces at henc ⊢
  by_cases hclosed : q.encode.closed = true
  · simp [hclosed]
  · rw [if_neg hclosed] at henc ⊢
    have hcap := hbound.resolve_left hclosed
    rw [or_iff_right hclosed]
    omega

lemma afterTurns_filled (limit : ℕ) (ep : Endpoint)
    (hbound : q.encode.closed = true ∨ 0 < q.encode.capacity) (items : List Item) :
    Filled limit q (items.countP (toOnline ep)) (items.countP (toWaiting ep))
      (afterTurns limit ep q items) := by
  induction items using List.reverseRecOn with
  | nil =>
      have hnone : total ∅ = 0 := rfl
      refine ⟨(Nat.zero_min _).symm ▸ rfl, ?_⟩
      rw [List.countP_nil, List.countP_nil, Nat.zero_sub, Nat.min_zero]
      exact hnone
  | append_singleton items item ih =>
      have hrefuses := ih.refuses_iff hbound (afterTurns_bound limit ep q items)
      have henc := ih.encode
      have hsend := ih.send
      rw [afterTurns_concat, List.countP_append, List.countP_append, List.countP_singleton,
        List.countP_singleton]
      generalize afterTurns limit ep q items = here at ih hrefuses henc hsend
      have hroom : total here.send ≤ limit := by omega
      by_cases hwaiting : toWaiting ep item = true
      · rw [turn_waiting hwaiting, if_neg (not_online_of_waiting hwaiting), if_pos hwaiting]
        constructor
        · rw [requeue_encode, henc, Nat.add_zero]
        · rw [total_requeue _ _ _ _ _ hroom]
          omega
      · by_cases honline : toOnline ep item = true
        · obtain ⟨key, peer, -, hturn⟩ := turn_online honline limit here
          rw [hturn, if_pos honline, if_neg hwaiting]
          split
          · next hfull =>
            have hfull := hrefuses.mp hfull
            constructor
            · rw [requeue_encode]
              omega
            · rw [total_requeue _ _ _ _ _ hroom]
              omega
          · next hfree =>
            have hfree := mt hrefuses.mpr hfree
            constructor
            · rw [List.length_append, List.length_singleton]
              omega
            · rw [hsend]
              omega
        · rw [(turn_gone (Bool.eq_false_iff.mpr honline) (Bool.eq_false_iff.mpr hwaiting)
            limit here).1, if_neg honline, if_neg hwaiting]
          exact ih

/-- A message bounces at its turn exactly if it is refused with room, by what the pass starts
from. -/
lemma bounces_iff (limit : ℕ) (ep : Endpoint) (q : Queues) (before : List Item) (item : Item) :
    Bounces limit ep (afterTurns limit ep q before) item ↔
      RefusedWithRoom limit ep q before item ∧ ¬ (item.payload = [] ∧ item.priority = 0) := by
  by_cases hbound : q.encode.closed = true ∨ 0 < q.encode.capacity
  · have hfilled := afterTurns_filled limit ep hbound before
    have hsend := hfilled.send
    have hroom : total (afterTurns limit ep q before).send < limit ↔
        before.countP (toWaiting ep) + (before.countP (toOnline ep) - freePlaces q.encode) <
          limit := by
      omega
    unfold Bounces RefusedWithRoom
    rw [hfilled.refuses_iff hbound (afterTurns_bound limit ep q before), hroom]
    tauto
  · obtain ⟨hclosed, hcapacity⟩ := afterTurns_bound limit ep q before
    have hopen : (afterTurns limit ep q before).encode.refuses ≠ true := by
      rw [ne_eq, refuses_eq_true_iff, hclosed, hcapacity]
      exact fun hrefuses => hbound (hrefuses.imp_right And.left)
    exact iff_of_false (fun h => hopen h.2.1) fun h => hbound h.1.2.1

/-- A pass loses and alters nothing exactly if no message is refused while the send queue has room,
but for empty messages of priority 0, which are queued again as they were. -/
theorem nothing_lost_iff (limit : ℕ) (ep : Endpoint) (q : Queues) :
    NothingLost limit ep q ↔
      ∀ before item after, takenOut q.send = before ++ item :: after →
        RefusedWithRoom limit ep q before item → item.payload = [] ∧ item.priority = 0 := by
  constructor
  · intro h before item after heq hrefused
    by_contra hchanged
    exact (turn_exactlyOne_iff limit ep _ item).mp (h before item after heq).1
      ((bounces_iff limit ep q before item).mpr ⟨hrefused, hchanged⟩)
  · intro h before item after heq
    refine ⟨(turn_exactlyOne_iff limit ep _ item).mpr fun hbounces => ?_, ?_⟩
    · obtain ⟨hrefused, hchanged⟩ := (bounces_iff limit ep q before item).mp hbounces
      exact hchanged (h before item after heq hrefused)
    · have hrest := afterTurns_append limit ep q (before ++ [item]) after
      rw [afterTurns_concat] at hrest
      rw [processSendQueue_eq, heq, List.append_cons, hrest]
      exact foldl_turn_extends limit ep _ after

/-- An endpoint with one online peer, `x`. -/
def oneOnline : Endpoint :=
  { peers := (∅ : ExtTreeMap Bytes Peer).insert [120] { id := [120], state := .online } }

/-- The message `[7]` for `x` under priority 1, in front of an encode queue without a free place. -/
def backlogged : Queues :=
  { send := enqueue ∅ 1 [120] [7], encode := { capacity := 1, items := [⟨[120], [5]⟩] } }

/-- The message comes back empty, under priority 0. -/
example : (processSendQueue (queueLimit 65536 true) oneOnline backlogged).send[(0 : Int)]? =
    some [([120], [])] := by rfl

theorem message_emptied :
    ¬ ∀ (configured : ℕ) (lite : Bool) (ep : Endpoint) (q : Queues),
      NothingLost (queueLimit configured lite) ep q := by
  intro h
  have hplaced := (h 65536 true oneOnline backlogged [] ⟨1, [120], [7]⟩ [] rfl).1
  exact (turn_exactlyOne_iff _ oneOnline _ _).mp hplaced ⟨rfl, rfl, by decide, by decide⟩

end Transport
end Damen
