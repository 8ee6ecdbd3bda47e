import Damen.Framework.Run
import Damen.Model.LiteMode

/-!
# Switching to lite mode loses nothing if nothing is queued

Packets are in the outbound queue, in the slot of the reactor, in the hand of the sender thread, or
were sent.  Every step keeps them, up to their order, with one exception: the exit path of
`sender_loop` takes packets out of the queue and drops them.  It was written for the shutdown, where
nobody would send them; here the reactor would.  So every packet that is there when
`set_lite_mode(true)` is called or is accepted while it runs is sent, queued or in the slot when it
returns, exactly if that exit path finds the queue empty (`mode_switch_lossless_iff`).
-/

namespace Damen
namespace Transport

namespace Outbound

variable {α : Type} {o : Outbound α}

/-- All packets, wherever they are. -/
def packets (o : Outbound α) : List α :=
  o.sent ++ o.queue.items ++ o.litePending.toList ++ o.sending.toList

lemma packets_perm_iff {o' : Outbound α} {gained lost : List α} [DecidableEq α] :
    (o.packets ++ gained).Perm (o'.packets ++ lost) ↔ ∀ p,
      o.sent.count p + o.queue.items.count p + o.litePending.toList.count p +
          o.sending.toList.count p + gained.count p =
        o'.sent.count p + o'.queue.items.count p + o'.litePending.toList.count p +
          o'.sending.toList.count p + lost.count p := by
  simp only [List.perm_iff_count, packets, List.count_append]

lemma count_poll [DecidableEq α] (q : BlockingQueue α) (p : α) :
    q.items.count p = q.poll.2.toList.count p + q.poll.1.items.count p := by
  unfold BlockingQueue.poll
  split
  · next hnil => simp [hnil]
  · next item items hcons => rw [hcons, ← List.count_append, Option.toList_some,
      List.singleton_append]

lemma packets_push (o : Outbound α) (packet : α) :
    (o.packets ++ (o.push packet).2.toList).Perm ((o.push packet).1.packets ++ []) := by
  classical
  refine packets_perm_iff.mpr fun p => ?_
  cases hrefuses : o.queue.refuses
  · have hpush : o.push packet =
        ({ o with queue := { o.queue with items := o.queue.items ++ [packet] } }, some packet) := by
      simp only [push, BlockingQueue.tryPush, hrefuses]
      rfl
    simp only [hpush, List.count_append, Option.toList_some, List.count_nil]
    omega
  · have hpush : o.push packet = (o, none) := by
      simp only [push, BlockingQueue.tryPush, hrefuses]
      rfl
    simp only [hpush, Option.toList_none, List.count_nil]

lemma packets_take (h : o.sending = none) : (o.packets ++ []).Perm (o.take.packets ++ []) := by
  classical
  refine packets_perm_iff.mpr fun p => ?_
  have hpoll := count_poll o.queue p
  simp only [take, h, Option.toList_none, List.count_nil]
  omega

lemma packets_send {ready : α → Bool} (hready : ∀ packet, ready packet = true) :
    (o.packets ++ []).Perm ((o.send ready).packets ++ []) := by
  classical
  refine packets_perm_iff.mpr fun p => ?_
  unfold send
  split
  · rfl
  · next packet hsending =>
    simp only [hready, if_true, hsending, Option.toList_some, Option.toList_none, List.count_append,
      List.count_nil]
    omega

lemma packets_fill : (o.packets ++ []).Perm (o.fill.packets ++ []) := by
  classical
  refine packets_perm_iff.mpr fun p => ?_
  have hpoll := count_poll o.queue p
  unfold fill
  split
  · rfl
  · next hempty =>
    simp only [hempty, Option.toList_none, List.count_nil]
    omega

lemma packets_flush {ready : α → Bool} (hready : ∀ packet, ready packet = true) (enough : Bool) :
    (o.packets ++ []).Perm ((o.flush ready enough).packets ++ []) := by
  classical
  refine packets_perm_iff.mpr fun p => ?_
  unfold flush
  split
  · rfl
  · next packet hpending =>
    cases enough
    · simp [hready]
    · simp only [hready, not_true_eq_false, if_false, hpending, Option.toList_some,
        Option.toList_none, List.count_append, List.count_nil]
      omega

/-- A packet is taken out and dropped. -/
lemma packets_drop (o : Outbound α) :
    (o.packets ++ []).Perm
      ({ o with queue := o.queue.poll.1 }.packets ++ o.queue.poll.2.toList) := by
  classical
  refine packets_perm_iff.mpr fun p => ?_
  have hpoll := count_poll o.queue p
  simp only [List.count_nil]
  omega

end Outbound

namespace LiteMode

lemma OutboundPacket.ready_eq (packet : OutboundPacket) : packet.ready = true := packet.addressed

/-- The sender has a packet only where it sends it, the call has not returned at once, and it
returns behind the sender. -/
structure Inv (s : LiteMode) : Prop where
  hand : s.outbound.sending.isSome = true → s.sender = .send
  full : s.call = .start → s.liteMode = false
  joined : s.call = .returned → s.sender = .done

/-- What a step loses. -/
def lost (s : LiteMode) : Event → List OutboundPacket
  | .sender => if s.sender = .drain then s.outbound.queue.poll.2.toList else []
  | _ => []

/-- The call and the sender are where they were, and the sender has the same packet in hand. -/
structure Elsewhere (s s' : LiteMode) : Prop where
  call : s'.call = s.call
  liteMode : s'.liteMode = s.liteMode
  sender : s'.sender = s.sender
  sending : s'.outbound.sending = s.outbound.sending

variable {s s' : LiteMode}

lemma Elsewhere.inv (h : Elsewhere s s') (hs : Inv s) : Inv s' where
  hand := by
    rw [h.sending, h.sender]
    exact hs.hand
  full := by
    rw [h.call, h.liteMode]
    exact hs.full
  joined := by
    rw [h.call, h.sender]
    exact hs.joined

/-! ## The moves of the threads -/

lemma moveCall_spec (h : s.moveCall = .ok s') :
    s'.outbound = s.outbound ∧ s'.sender = s.sender ∧ s'.call ≠ .start ∧
      (s'.call = .returned → s.sender = .done ∨ s.call = .start ∧ s.liteMode = true) := by
  unfold moveCall at h
  split at h
  · next hcall =>
    obtain rfl := Except.ok.inj h
    split
    · next hlite => exact ⟨rfl, rfl, by simp, fun _ => Or.inr ⟨hcall, hlite⟩⟩
    · exact ⟨rfl, rfl, by simp, fun hreturned => absurd hreturned (by simp)⟩
  · obtain rfl := Except.ok.inj h
    exact ⟨rfl, rfl, by simp, fun hreturned => absurd hreturned (by simp)⟩
  · split at h
    · exact absurd h (by simp)
    · obtain rfl := Except.ok.inj h
      exact ⟨rfl, rfl, by simp, fun hreturned => absurd hreturned (by simp)⟩
  · split at h
    · obtain rfl := Except.ok.inj h
      exact ⟨rfl, rfl, by simp, fun hreturned => absurd hreturned (by simp)⟩
    · exact absurd h (by simp)
  · split at h
    · next hdone =>
      obtain rfl := Except.ok.inj h
      exact ⟨rfl, rfl, by simp, fun _ => Or.inl hdone⟩
    · exact absurd h (by simp)
  · exact absurd h (by simp)

/-- A move of a thread that only adds to the packets or moves them on. -/
structure Adds (s s' : LiteMode) (accepted : List OutboundPacket) :
    Prop extends Elsewhere s s' where
  packets : (s.outbound.packets ++ accepted).Perm (s'.outbound.packets ++ [])

/-- A packet is sent in a state that differs from `s` in where the thread is. -/
lemma push_adds {t : LiteMode} {packet : OutboundPacket} {accepted : List OutboundPacket}
    (h : t.push packet = (s', accepted)) (ht : Elsewhere s t) (hout : t.outbound = s.outbound) :
    Adds s s' accepted := by
  have hfst : (t.push packet).1 = s' := congrArg Prod.fst h
  have hsnd : (t.push packet).2 = accepted := congrArg Prod.snd h
  subst hfst hsnd
  refine ⟨⟨ht.call, ht.liteMode, ht.sender, ht.sending⟩, ?_⟩
  rw [← hout]
  exact t.outbound.packets_push packet

lemma adds_nothing (h : Elsewhere s s') (hout : s'.outbound = s.outbound) : Adds s s' [] :=
  ⟨h, by rw [hout]⟩

lemma moveEncoder_adds {accepted : List OutboundPacket} (h : s.moveEncoder = .ok (s', accepted)) :
    Adds s s' accepted := by
  unfold moveEncoder at h
  split at h
  case h_4 => exact push_adds (Except.ok.inj h) ⟨rfl, rfl, rfl, rfl⟩ rfl
  case h_6 => exact absurd h (by simp)
  all_goals
    obtain ⟨rfl, rfl⟩ := Prod.mk.inj (Except.ok.inj h)
    exact adds_nothing ⟨rfl, rfl, rfl, rfl⟩ rfl

lemma sending_fill (o : Outbound OutboundPacket) : o.fill.sending = o.sending := by
  unfold Outbound.fill
  split <;> rfl

lemma sending_flush (o : Outbound OutboundPacket) (ready : OutboundPacket → Bool) (enough : Bool) :
    (o.flush ready enough).sending = o.sending := by
  unfold Outbound.flush
  split
  · rfl
  · split_ifs <;> rfl

lemma sending_send (o : Outbound OutboundPacket) (ready : OutboundPacket → Bool) :
    (o.send ready).sending = none := by
  unfold Outbound.send
  split
  · next hnone => exact hnone
  · rfl

lemma moveReactor_adds {enough : Bool} {accepted : List OutboundPacket}
    (h : s.moveReactor enough = (s', accepted)) : Adds s s' accepted := by
  unfold moveReactor at h
  split at h
  case h_1 =>
    obtain ⟨rfl, rfl⟩ := Prod.mk.inj h
    split <;> exact adds_nothing ⟨rfl, rfl, rfl, rfl⟩ rfl
  case h_5 => exact push_adds h ⟨rfl, rfl, rfl, rfl⟩ rfl
  case h_7 =>
    obtain ⟨rfl, rfl⟩ := Prod.mk.inj h
    exact ⟨⟨rfl, rfl, rfl, sending_fill _⟩, Outbound.packets_fill⟩
  case h_8 =>
    obtain ⟨rfl, rfl⟩ := Prod.mk.inj h
    exact ⟨⟨rfl, rfl, rfl, sending_flush _ _ _⟩,
      Outbound.packets_flush OutboundPacket.ready_eq enough⟩
  all_goals
    obtain ⟨rfl, rfl⟩ := Prod.mk.inj h
    exact adds_nothing ⟨rfl, rfl, rfl, rfl⟩ rfl

/-- The sender keeps the packets in its loop, and drops those it takes out behind it. -/
lemma moveSender_spec (hs : Inv s) (h : s.moveSender = .ok s') :
    (s.outbound.packets ++ []).Perm (s'.outbound.packets ++ lost s .sender) ∧ Inv s' := by
  have hcall : s.call ≠ .returned := by
    intro hreturned
    rw [moveSender, hs.joined hreturned] at h
    exact absurd h (by simp)
  have hnone : s.sender ≠ .send → s.outbound.sending = none := by
    intro hsender
    cases hsending : s.outbound.sending with
    | none => rfl
    | some packet => exact absurd (hs.hand (by rw [hsending]; rfl)) hsender
  unfold moveSender at h
  unfold lost
  cases hsender : s.sender <;> simp only [hsender] at h hnone ⊢
  case check =>
    obtain rfl := Except.ok.inj h
    refine ⟨List.Perm.refl _, fun hsome => ?_, hs.full, fun hreturned => absurd hreturned hcall⟩
    exact absurd hsome (by simp [hnone])
  case take =>
    obtain rfl := Except.ok.inj h
    refine ⟨Outbound.packets_take (hnone (by simp)), fun hsome => if_pos hsome, hs.full,
      fun hreturned => absurd hreturned hcall⟩
  case send =>
    obtain rfl := Except.ok.inj h
    refine ⟨Outbound.packets_send OutboundPacket.ready_eq, fun hsome => ?_, hs.full,
      fun hreturned => absurd hreturned hcall⟩
    exact absurd hsome (by simp [sending_send])
  case drain =>
    obtain rfl := Except.ok.inj h
    refine ⟨Outbound.packets_drop _, fun hsome => ?_, hs.full,
      fun hreturned => absurd hreturned hcall⟩
    exact absurd hsome (by simp [hnone])
  case done => exact absurd h (by simp)

/-! ## Runs -/

lemma map_ok {o : List OutboundPacket} {r : Except Blocked LiteMode}
    (h : r.map (·, ([] : List OutboundPacket)) = .ok (s', o)) : r = .ok s' ∧ o = [] := by
  cases r with
  | error e => exact absurd h (by simp [Except.map])
  | ok t =>
      obtain ⟨rfl, rfl⟩ := Prod.mk.inj (Except.ok.inj h)
      exact ⟨rfl, rfl⟩

/-- Every step keeps the packets but for what it loses, and the invariant. -/
lemma step_spec {ev : Event} {accepted : List OutboundPacket} (hs : Inv s)
    (h : step s ev = .ok (s', accepted)) :
    (s.outbound.packets ++ accepted).Perm (s'.outbound.packets ++ lost s ev) ∧ Inv s' := by
  cases ev with
  | call =>
      obtain ⟨hmove, rfl⟩ := map_ok h
      obtain ⟨hout, hsender, hstart, hreturned⟩ := moveCall_spec hmove
      refine ⟨by rw [hout]; exact List.Perm.refl _, ?_, fun hcall => absurd hcall hstart,
        fun hcall => ?_⟩
      · rw [hout, hsender]
        exact hs.hand
      · rw [hsender]
        refine (hreturned hcall).resolve_right fun hlite => ?_
        exact absurd ((hs.full hlite.1).symm.trans hlite.2) (by simp)
  | receiver =>
      obtain ⟨rfl, rfl⟩ := Prod.mk.inj (Except.ok.inj h)
      have hadds : Adds s s.moveReceiver [] := by
        unfold moveReceiver
        split <;> exact adds_nothing ⟨rfl, rfl, rfl, rfl⟩ rfl
      exact ⟨hadds.packets, hadds.inv hs⟩
  | encoder =>
      have hadds := moveEncoder_adds h
      exact ⟨hadds.packets, hadds.inv hs⟩
  | sender =>
      obtain ⟨hmove, rfl⟩ := map_ok h
      exact moveSender_spec hs hmove
  | reactor enough =>
      have hadds := moveReactor_adds (Except.ok.inj h)
      exact ⟨hadds.packets, hadds.inv hs⟩
  | sendRaw packet =>
      have hadds := push_adds (Except.ok.inj h) ⟨rfl, rfl, rfl, rfl⟩ rfl
      exact ⟨hadds.packets, hadds.inv hs⟩
  | task packets =>
      obtain ⟨rfl, rfl⟩ := Prod.mk.inj (Except.ok.inj h)
      have hadds : Adds s { s with encode := (s.encode.tryPush packets).1 } [] :=
        adds_nothing ⟨rfl, rfl, rfl, rfl⟩ rfl
      exact ⟨hadds.packets, hadds.inv hs⟩

/-- The transport runs in full mode, and `set_lite_mode(true)` is called; a packet the sender has in
hand is about to be sent. -/
structure Full (s : LiteMode) : Prop where
  call : s.call = .start
  liteMode : s.liteMode = false
  hand : s.outbound.sending.isSome = true → s.sender = .send

/-- The exit path of the sender finds the queue empty. -/
def DrainsNothing (s : LiteMode) : Event → Prop
  | .sender => s.sender = .drain → s.outbound.queue.items = []
  | _ => True

lemma poll_eq_none_iff {q : BlockingQueue OutboundPacket} : q.poll.2 = none ↔ q.items = [] := by
  unfold BlockingQueue.poll
  split
  · next hnil => exact iff_of_true rfl hnil
  · next hcons => exact iff_of_false (by simp) (by simp [hcons])

lemma lost_eq_nil_iff (s : LiteMode) (ev : Event) : lost s ev = [] ↔ DrainsNothing s ev := by
  cases ev with
  | sender =>
      by_cases hdrain : s.sender = .drain
      · simp only [lost, DrainsNothing, hdrain, if_true, forall_true_left, Option.toList_eq_nil_iff,
          poll_eq_none_iff]
      · simp only [lost, DrainsNothing, hdrain, if_false, false_imp_iff]
  | _ => exact iff_of_true rfl trivial

/-- Whatever is queued and in whatever order the threads run: when `set_lite_mode(true)` returns,
the packets that were there when it was called and those accepted since are sent, queued or in the
slot, exactly if the sender thread finds the queue empty behind its loop. -/
theorem mode_switch_lossless_iff (start : LiteMode) (hstart : Full start) (events : List Event)
    (s : LiteMode) (accepted : List (List OutboundPacket))
    (hrun : Machine.run step start events = .ok (s, accepted)) (hreturned : s.call = .returned) :
    (start.outbound.packets ++ accepted.flatten).Perm
        (s.outbound.sent ++ s.outbound.queue.items ++ s.outbound.litePending.toList) ↔
      Machine.Along step DrainsNothing start events := by
  have hinv : Inv start := ⟨hstart.hand, fun _ => hstart.liteMode, fun hcall => by
    rw [hstart.call] at hcall
    exact absurd hcall (by simp)⟩
  have hlast : Inv s := Machine.run_keeps (fun _ _ _ _ h hstep => (step_spec h hstep).2) hinv hrun
  have hhand : s.outbound.sending = none := by
    cases hsending : s.outbound.sending with
    | none => rfl
    | some packet =>
        have hsend := hlast.hand (by rw [hsending]; rfl)
        exact absurd ((hlast.joined hreturned).symm.trans hsend) (by simp)
  have hpackets : s.outbound.packets =
      s.outbound.sent ++ s.outbound.queue.items ++ s.outbound.litePending.toList := by
    rw [Outbound.packets, hhand, Option.toList_none, List.append_nil]
  have hconserved : (start.outbound.packets ++ accepted.flatten).Perm s.outbound.packets ↔
      Machine.Along step (fun s ev => lost s ev = []) start events :=
    Machine.conserved_iff (fun _ _ _ _ h hstep => (step_spec h hstep).2)
      (fun _ _ _ _ h hstep => (step_spec h hstep).1) hinv hrun
  have hlost : (fun s ev => lost s ev = []) = DrainsNothing :=
    funext₂ fun s ev => propext (lost_eq_nil_iff s ev)
  rw [← hpackets, hconserved, hlost]

instance (s : LiteMode) : (ev : Event) → Decidable (DrainsNothing s ev)
  | .sender => inferInstanceAs (Decidable (_ → _))
  | .call | .receiver | .encoder | .reactor _ | .sendRaw _ | .task _ =>
      inferInstanceAs (Decidable True)

/-- A packet of one byte. -/
def bytePacket : OutboundPacket := ⟨{ addrSet := true }, [7], rfl⟩

/-- The call and the workers run to their ends, with the sender last. -/
def switchRun : List Event :=
  [.call, .call, .receiver, .encoder, .encoder, .sender, .sender, .sender, .call, .call, .call]

/-- A packet is queued when the mode is switched, and sent before the workers are told to stop. -/
theorem mode_switch_lossless_sent :
    Full { outbound := { queue := { items := [bytePacket] } } } ∧
    ∃ s accepted, Machine.run step { outbound := { queue := { items := [bytePacket] } } }
        ([.sender, .sender, .sender] ++ switchRun.eraseIdx 7) = .ok (s, accepted) ∧
      ([bytePacket] ++ accepted.flatten).Perm
        (s.outbound.sent ++ s.outbound.queue.items ++ s.outbound.litePending.toList) := by
  have hfull : Full { outbound := { queue := { items := [bytePacket] } } } :=
    ⟨rfl, rfl, fun h => absurd h (by simp)⟩
  refine ⟨hfull, ?_⟩
  obtain ⟨⟨s, accepted⟩, hrun, hcall⟩ :=
    Machine.exists_ok_of_any (p := fun r => r.1.call = .returned)
    (r := Machine.run step { outbound := { queue := { items := [bytePacket] } } }
      ([.sender, .sender, .sender] ++ switchRun.eraseIdx 7)) (by decide +kernel)
  exact ⟨s, accepted, hrun, (mode_switch_lossless_iff _ hfull _ s accepted hrun
    (of_decide_eq_true hcall)).mpr (by decide +kernel)⟩

/-- A packet is queued when the mode is switched, and the sender finds it behind its loop: it is
neither sent nor queued nor in the slot. -/
theorem mode_switch_loses_packet :
    ∃ s accepted,
    Machine.run step { outbound := { queue := { items := [bytePacket] } } } switchRun =
        .ok (s, accepted) ∧ s.call = .returned ∧
      s.outbound.sent = [] ∧ s.outbound.queue.items = [] ∧ s.outbound.litePending.toList = [] := by
  obtain ⟨⟨s, accepted⟩, hrun, hs⟩ := Machine.exists_ok_of_any
    (p := fun r => r.1.call = .returned ∧ r.1.outbound.sent = [] ∧ r.1.outbound.queue.items = [] ∧
      r.1.outbound.litePending.toList = [])
    (r := Machine.run step { outbound := { queue := { items := [bytePacket] } } } switchRun)
    (by decide +kernel)
  exact ⟨s, accepted, hrun, of_decide_eq_true hs⟩

end LiteMode
end Transport
end Damen
