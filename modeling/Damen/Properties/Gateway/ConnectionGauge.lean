import Damen.Framework.Run
import Damen.Model.Gateway.RateLimit
import Damen.Properties.Gateway.DeviceEntries
import Mathlib.Data.Finset.Card

/-!
# The counter of connections

`m_active_connections` is changed where a `hello` is accepted, at a `bye` and at a timeout; the flag
of a device also where its link comes up.  A device whose link comes up is connected and not counted
(`link_not_counted`), a repeated `hello` counts a device twice, and a `bye` for any device takes one
off.

`connection_gauge_iff` says for every run from a state in which they agree when they agree
throughout.  The flags are seen through the set of connected devices: a function that touches one
entry changes the number of connected devices by what it does to one flag (`connections_of_leaves`).
-/

namespace Damen
namespace Gateway

open SessionManager

variable {R : Type} {limiter : RateLimiter R}

/-- The number of devices on the board that are connected. -/
def connections (board : DataBoard) : ℕ := board.deviceSnapshot.countP fun e => e.2.connected

/-- The counter is right. -/
def GaugeExact (g : GatewayServer R) : Prop := (gauge g).toNat = connections g.board

/-- A `hello` is accepted only from a device that is not connected, a `bye` comes from one that is,
and a link comes up only if its device is connected already. -/
def Matched (limiter : RateLimiter R) (g : GatewayServer R) : GatewayEvent → Prop
  | .dispatch msg env =>
      match msg.type with
      | .deviceHello => helloAccepted limiter g msg env = true →
          (g.board.entry msg.deviceId).data.connected = false ∧ (gauge g).toNat + 1 < 2 ^ 64
      | .deviceBye => (g.board.entry msg.deviceId).data.connected = true ∨ gauge g = 0
      | _ => True
  | .link deviceId state _ => comesUp state = true → (g.board.entry deviceId).data.connected = true
  | _ => True

/-! ## The connected devices -/

/-- The ids of the connected devices. -/
def connectedIds (board : DataBoard) : Finset Bytes :=
  ((board.deviceSnapshot.filter fun e => e.2.connected).map Prod.fst).toFinset

variable {board : DataBoard} {g g' : GatewayServer R} {deviceId : Bytes}
  {f : BlackboardEntry DeviceState → BlackboardEntry DeviceState}

lemma mem_connectedIds {x : Bytes} :
    x ∈ connectedIds board ↔ (board.entry x).data.connected = true := by
  rw [connectedIds, List.mem_toFinset, List.mem_map]
  constructor
  · rintro ⟨⟨_, state⟩, hmem, rfl⟩
    obtain ⟨hmem, hon⟩ := List.mem_filter.mp hmem
    rw [mem_deviceSnapshot hmem]
    exact hon
  · intro hon
    exact ⟨_, List.mem_filter.mpr ⟨mem_deviceSnapshot_of_connected hon, hon⟩, rfl⟩

lemma card_connectedIds (board : DataBoard) : (connectedIds board).card = connections board := by
  have hnodup : ((board.deviceSnapshot.filter fun e => e.2.connected).map Prod.fst).Nodup :=
    (nodup_deviceSnapshot board).sublist (List.filter_sublist.map Prod.fst)
  rw [connectedIds, List.toFinset_card_of_nodup hnodup, List.length_map, connections,
    List.countP_eq_length_filter]

/-- The other devices, and this one. -/
lemma connections_eq (board : DataBoard) (deviceId : Bytes) :
    connections board =
      ((connectedIds board).erase deviceId).card + (board.entry deviceId).data.connected.toNat := by
  rw [← card_connectedIds]
  cases hon : (board.entry deviceId).data.connected with
  | true => exact (Finset.card_erase_add_one (mem_connectedIds.mpr hon)).symm
  | false =>
      have hnot : deviceId ∉ connectedIds board := by
        rw [mem_connectedIds, hon]
        exact Bool.false_ne_true
      rw [Finset.erase_eq_of_notMem hnot]
      rfl

/-- A function that touches one entry changes the number by what it does to that flag. -/
lemma connections_of_leaves {n : UInt64} (h : Leaves g g' n deviceId f) :
    connections g'.board + (g.board.entry deviceId).data.connected.toNat =
      connections g.board + (f (g.board.entry deviceId)).data.connected.toNat := by
  have hothers : (connectedIds g'.board).erase deviceId =
      (connectedIds g.board).erase deviceId := by
    ext x
    rw [Finset.mem_erase, Finset.mem_erase, mem_connectedIds, mem_connectedIds,
      h.entry, entry_modify]
    refine and_congr_right fun hx => ?_
    rw [if_neg hx]
  rw [connections_eq g'.board deviceId, connections_eq g.board deviceId, hothers, h.entry,
    entry_modify_self]
  omega

lemma connections_congr {board' : DataBoard}
    (h : ∀ x, (board'.entry x).data.connected = (board.entry x).data.connected) :
    connections board' = connections board := by
  rw [← card_connectedIds, ← card_connectedIds]
  congr 1
  ext x
  rw [mem_connectedIds, mem_connectedIds, h]

/-! ## One event -/

lemma toNat_lessOne (n : UInt64) : (lessOne n).toNat = n.toNat - 1 := by
  unfold lessOne
  split
  · next hpos =>
    have hle : 1 ≤ n := UInt64.le_iff_toNat_le.mpr (UInt64.lt_iff_toNat_lt.mp hpos)
    rw [UInt64.toNat_sub_of_le _ _ hle]
    rfl
  · next hzero =>
    have : ¬ 0 < n.toNat := fun h => hzero (UInt64.lt_iff_toNat_lt.mpr h)
    omega

/-- A connection more. -/
lemma gaugeExact_open_iff (hg : GaugeExact g) (h : Leaves g g' (gauge g + 1) deviceId f)
    (hon : ∀ e, (f e).data.connected = true) :
    GaugeExact g' ↔
      (g.board.entry deviceId).data.connected = false ∧ (gauge g).toNat + 1 < 2 ^ 64 := by
  have hcount := connections_of_leaves h
  have hlt := (gauge g).toNat_lt
  unfold GaugeExact at hg ⊢
  rw [h.gauge, UInt64.toNat_add]
  rw [hon] at hcount
  cases hflag : (g.board.entry deviceId).data.connected with
  | false =>
      rw [hflag] at hcount
      simp only [Bool.toNat_false, Bool.toNat_true, UInt64.toNat_one, true_and] at hcount ⊢
      omega
  | true =>
      rw [hflag] at hcount
      simp only [Bool.toNat_true, UInt64.toNat_one, Bool.true_eq_false, false_and,
        iff_false] at hcount ⊢
      omega

/-- A connection less. -/
lemma gaugeExact_close_iff (hg : GaugeExact g) (h : Leaves g g' (lessOne (gauge g)) deviceId f)
    (hoff : ∀ e, (f e).data.connected = false) :
    GaugeExact g' ↔ (g.board.entry deviceId).data.connected = true ∨ gauge g = 0 := by
  have hcount := connections_of_leaves h
  have hzero : gauge g = 0 ↔ (gauge g).toNat = 0 := by
    rw [← UInt64.toNat_inj]
    rfl
  unfold GaugeExact at hg ⊢
  rw [h.gauge, toNat_lessOne, hzero]
  rw [hoff] at hcount
  cases hflag : (g.board.entry deviceId).data.connected with
  | false =>
      rw [hflag] at hcount
      simp only [Bool.toNat_false] at hcount
      simp only [Bool.false_eq_true, false_or]
      omega
  | true =>
      rw [hflag] at hcount
      simp only [Bool.toNat_true, Bool.toNat_false] at hcount
      simp only [true_or, iff_true]
      omega

/-- The counter stays, so the flag has to. -/
lemma gaugeExact_keep_iff (hg : GaugeExact g) (h : Leaves g g' (gauge g) deviceId f) :
    GaugeExact g' ↔
      (f (g.board.entry deviceId)).data.connected = (g.board.entry deviceId).data.connected := by
  have hcount := connections_of_leaves h
  unfold GaugeExact at hg ⊢
  rw [h.gauge, hg]
  cases hflag : (g.board.entry deviceId).data.connected <;>
    cases hflag' : (f (g.board.entry deviceId)).data.connected <;>
    simp only [hflag, hflag', Bool.toNat_false, Bool.toNat_true, iff_true, iff_false,
      Bool.false_eq_true, Bool.true_eq_false] at hcount ⊢ <;> omega

/-- The counter stays, and so do the flags. -/
lemma gaugeExact_same (hg : GaugeExact g) (hgauge : gauge g' = gauge g)
    (h : ∀ x, (g'.board.entry x).data.connected = (g.board.entry x).data.connected) :
    GaugeExact g' := by
  unfold GaugeExact
  rw [hgauge, connections_congr h]
  exact hg

/-- The loop of `heartbeat_check` goes through connected devices, each one once. -/
lemma gaugeExact_closeSilents {config : GatewayConfig} {env : Surroundings}
    {l : List (Bytes × DeviceState)} (hnodup : (l.map Prod.fst).Nodup) (hg : GaugeExact g)
    (hon : ∀ e ∈ l, timedOut config env.unixMs e.2 = true →
      (g.board.entry e.1).data.connected = true) :
    GaugeExact
      (l.foldl (fun g' e => if timedOut config env.unixMs e.2 then
      closeSilent env g' e.1 else g') g) := by
  induction l generalizing g with
  | nil => exact hg
  | cons e l ih =>
      obtain ⟨hnot, hnodup⟩ := List.nodup_cons.mp hnodup
      rw [List.foldl_cons]
      by_cases hout : timedOut config env.unixMs e.2 = true
      · have hclose := closeSilent_leaves g e.1 env
        rw [if_pos hout]
        refine ih hnodup ((gaugeExact_close_iff hg hclose fun _ => rfl).mpr ?_) fun e'
          hmem hout' => ?_
        · exact .inl (hon e List.mem_cons_self hout)
        · have hne : e'.1 ≠ e.1 := fun heq => hnot (heq ▸ List.mem_map_of_mem hmem)
          rw [hclose.entry, entry_modify, if_neg hne]
          exact hon e' (List.mem_cons_of_mem e hmem) hout'
      · rw [if_neg hout]
        exact ih hnodup hg fun e' hmem => hon e' (List.mem_cons_of_mem e hmem)

lemma gaugeExact_heartbeatCheck (hg : GaugeExact g) (env : Surroundings) :
    GaugeExact (heartbeatCheck g env) := by
  refine gaugeExact_closeSilents (nodup_deviceSnapshot g.board) hg ?_
  rintro ⟨x, state⟩ hmem hout
  rw [mem_deviceSnapshot hmem]
  exact (Bool.and_eq_true_iff.mp hout).1

lemma gaugeExact_dispatch_iff (hg : GaugeExact g) (msg : GatewayMessage) (env : Surroundings) :
    GaugeExact (processOneMessage limiter g msg env).1 ↔ Matched limiter g (.dispatch msg env) := by
  have hleaves := @processOneMessage_leaves _ limiter g msg env
  unfold gaugeAfter changeOf at hleaves
  unfold Matched
  cases htype : msg.type with
  | deviceHello =>
      simp only [htype] at hleaves ⊢
      cases haccepted : helloAccepted limiter g msg env with
      | false =>
          simp only [haccepted, Bool.false_eq_true, if_false] at hleaves
          exact iff_of_true ((gaugeExact_keep_iff hg hleaves).mpr rfl) nofun
      | true =>
          simp only [haccepted, if_true] at hleaves
          rw [gaugeExact_open_iff hg hleaves fun _ => rfl]
          exact ⟨fun h _ => h, fun h => h rfl⟩
  | deviceBye =>
      simp only [htype] at hleaves ⊢
      exact gaugeExact_close_iff hg hleaves fun _ => rfl
  | deviceAudioFrame =>
      simp only [htype] at hleaves ⊢
      refine iff_of_true ((gaugeExact_keep_iff hg hleaves).mpr ?_) trivial
      split <;> rfl
  | _ =>
      simp only [htype] at hleaves ⊢
      exact iff_of_true ((gaugeExact_keep_iff hg hleaves).mpr rfl) trivial

lemma gaugeExact_link_iff (hg : GaugeExact g) (deviceId : Bytes) (state : LinkState)
    (env : Surroundings) :
    GaugeExact (onTightPeerEvent g deviceId state env).1 ↔
      Matched limiter g (.link deviceId state env) := by
  rw [gaugeExact_keep_iff hg (onTightPeerEvent_leaves g deviceId state env), Matched, linkChange]
  cases comesUp state <;> cases hflag : (g.board.entry deviceId).data.connected <;>
    simp [hflag, createIn]

/-- Which events leave the counter right. -/
lemma gaugeExact_step_iff {ev : GatewayEvent} {effects : List Effect} (hg : GaugeExact g)
    (hstep : gatewayStep limiter g ev = .ok (g', effects)) :
    GaugeExact g' ↔ Matched limiter g ev := by
  cases ev with
  | receive peerId payload env =>
      cases hstep
      refine iff_of_true
        ((gaugeExact_keep_iff hg (onTightMessage_leaves g peerId payload env)).mpr ?_) trivial
      split <;> rfl
  | dispatch msg env =>
      obtain rfl : (processOneMessage limiter g msg env).1 = g' :=
        congrArg Prod.fst (Except.ok.inj hstep)
      exact gaugeExact_dispatch_iff hg msg env
  | finish env =>
      obtain rfl : (executePendingIo g env).1 = g' := congrArg Prod.fst (Except.ok.inj hstep)
      have hsame := executePendingIo_same g env
      exact iff_of_true (gaugeExact_same hg hsame.gauge fun x => by rw [hsame.entry]) trivial
  | link deviceId state env =>
      obtain rfl : (onTightPeerEvent g deviceId state env).1 = g' :=
        congrArg Prod.fst (Except.ok.inj hstep)
      exact gaugeExact_link_iff hg deviceId state env
  | heartbeat env =>
      cases hstep
      exact iff_of_true (gaugeExact_heartbeatCheck hg env) trivial
  | cleanup env =>
      cases hstep
      exact iff_of_true (gaugeExact_same hg (gauge_sessionCleanup g env)
        (connected_sessionCleanup g env)) trivial

/-- From a state with the right counter: it is right in every state of a run exactly if each
accepted `hello` comes from a device that is not connected, each `bye` from one that is (or the
counter is at zero), and each link that comes up is that of a connected device. -/
theorem connection_gauge_iff (limiter : RateLimiter R) (g g' : GatewayServer R) (hg : GaugeExact g)
    (events : List GatewayEvent) (effects : List (List Effect))
    (hrun : Machine.run (gatewayStep limiter) g events = .ok (g', effects)) :
    Machine.Throughout (gatewayStep limiter) GaugeExact g events ↔
      Machine.Along (gatewayStep limiter) (Matched limiter) g events :=
  Machine.throughout_iff (fun _ h => h) (fun _ _ _ _ h hP hstep =>
    (gaugeExact_step_iff h hstep).mpr hP)
    (fun _ _ _ _ h hP hstep hQ => hP ((gaugeExact_step_iff h hstep).mp hQ)) hg hrun

/-- A `hello`, a second one that lacks the credentials, and a `bye`. -/
theorem connection_gauge_hello_bye :
    let hello : GatewayMessage :=
      { deviceId := text "d"
        payload := text "\"product_id\":\"p\",\"product_key\":\"k\",\"device_name\":\"d\"" }
    let events : List GatewayEvent :=
      [.dispatch hello {}, .dispatch { hello with payload := [] } {},
        .dispatch { type := .deviceBye, deviceId := text "d" } {}]
    Machine.Throughout (gatewayStep .ofTokens) GaugeExact .create events := by
  intro hello events
  refine (connection_gauge_iff .ofTokens .create _ rfl events _ rfl).mpr ?_
  refine ⟨fun _ => by decide, fun g o h => ?_⟩
  obtain rfl : (processOneMessage .ofTokens .create hello {}).1 = g :=
    congrArg Prod.fst (Except.ok.inj h)
  refine ⟨fun haccepted => absurd haccepted (by decide +kernel), fun g o h => ?_⟩
  obtain rfl := congrArg Prod.fst (Except.ok.inj h)
  exact ⟨.inl (by decide +kernel), fun _ _ _ => trivial⟩

/-- The link of a new device comes up. -/
theorem link_not_counted :
    let after := (onTightPeerEvent .create (text "d") .established {}).1
    gauge after = 0 ∧ connections after.board = 1 := by
  decide

end Gateway
end Damen
