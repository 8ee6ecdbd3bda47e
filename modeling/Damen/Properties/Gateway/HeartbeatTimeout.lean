import Damen.Framework.Run
import Damen.Model.Gateway.Heartbeat
import Damen.Model.Gateway.RateLimit

/-!
# Which devices a heartbeat check closes

`heartbeat_check` reads the clock before it takes the snapshot, and subtracts the activity time of
each copy from it in 64 bits without a sign.  A device that is active in between has an activity
time after the clock value; the difference wraps, and the device is closed as if it had been silent
for ages.

`closes_only_idle_iff`: in every interleaving, each device that is closed was idle for longer than
twice the heartbeat, and so are the copies that still wait for their decision, exactly if no
connected device is copied with an activity time ahead of the clock value.  What is copied is
decided about later, so the step lemma (`step_exchange`) keeps account of the copies that wait.
-/

namespace Damen
namespace Gateway

variable {R : Type}

/-- The activity lies more than twice the heartbeat before the clock value. -/
def IdleSince (config : GatewayConfig) (now : UInt64) (state : DeviceState) : Prop :=
  state.lastActivityMs.toNat + config.heartbeatSeconds.toNat * 2000 < now.toNat

instance (config : GatewayConfig) (now : UInt64) (state : DeviceState) :
    Decidable (IdleSince config now state) :=
  inferInstanceAs (Decidable (_ < _))

/-- The device is connected, and its activity lies after the clock value: the difference wraps, and
is above the timeout unless the activity is almost 2^64 milliseconds ahead. -/
def Ahead (config : GatewayConfig) (now : UInt64) (state : DeviceState) : Prop :=
  state.connected = true ∧ now < state.lastActivityMs ∧
    state.lastActivityMs.toNat + config.heartbeatSeconds.toNat * 2000 < 2 ^ 64 + now.toNat

/-- What is closed on a copy has been idle, exactly if the copy is not ahead of the clock value. -/
lemma timedOut_imp_idle_iff (config : GatewayConfig) (now : UInt64) (state : DeviceState) :
    (timedOut config now state = true → IdleSince config now state) ↔ ¬ Ahead config now state := by
  have htimeout : (config.heartbeatSeconds.toUInt64 * 2000).toNat =
      config.heartbeatSeconds.toNat * 2000 := by
    rw [UInt64.toNat_mul, UInt32.toNat_toUInt64]
    have := config.heartbeatSeconds.toNat_lt
    exact Nat.mod_eq_of_lt (by simp; omega)
  have hgap : (now - state.lastActivityMs).toNat =
      (2 ^ 64 - state.lastActivityMs.toNat + now.toNat) % 2 ^ 64 := UInt64.toNat_sub _ _
  have hnow := now.toNat_lt
  have hlast := state.lastActivityMs.toNat_lt
  rw [timedOut, Bool.and_eq_true, decide_eq_true_eq, UInt64.lt_iff_toNat_lt, htimeout, hgap,
    IdleSince, Ahead, UInt64.lt_iff_toNat_lt]
  cases state.connected with
  | false => simp
  | true =>
    simp only [true_and]
    rcases Nat.lt_or_ge now.toNat state.lastActivityMs.toNat with hlt | hge
    · rw [Nat.mod_eq_of_lt (by omega)]
      omega
    · have hmod : (2 ^ 64 - state.lastActivityMs.toNat + now.toNat) % 2 ^ 64 =
          now.toNat - state.lastActivityMs.toNat := by
        rw [show 2 ^ 64 - state.lastActivityMs.toNat + now.toNat =
          now.toNat - state.lastActivityMs.toNat + 2 ^ 64 by omega, Nat.add_mod_right]
        exact Nat.mod_eq_of_lt (by omega)
      rw [hmod]
      omega

namespace Heartbeat

/-- If the step copies a device, the device is not ahead of the clock value. -/
def CopiesNotAhead (s : Heartbeat R) : HeartbeatEvent → Prop
  | .check _ _ =>
      match s.phase with
      | .copying now (id :: _) _ => ¬ Ahead s.server.config now (s.server.board.entry id).data
      | _ => True
  | _ => True

/-- No copy that waits for its decision is ahead of the clock value. -/
def NoneWaiting (s : Heartbeat R) : Prop :=
  match s.phase with
  | .copying now _ snapshot => ∀ e ∈ snapshot, ¬ Ahead s.server.config now e.2
  | .deciding now rest => ∀ e ∈ rest, ¬ Ahead s.server.config now e.2
  | _ => True

lemma config_sendToDevice (g : GatewayServer R) (deviceId : Bytes) (msg : GatewayMessage)
    (env : Surroundings) : (sendToDevice g deviceId msg env).1.config = g.config := by
  unfold sendToDevice
  dsimp only
  split_ifs <;> rfl

lemma config_welcome (g : GatewayServer R) (id : Bytes) (env : Surroundings) :
    (welcome g id env).1.config = g.config := by
  unfold welcome
  dsimp only
  rw [config_sendToDevice, config_sendToDevice]
  rfl

variable {event : HeartbeatEvent} {o : Option Closing}

/-- The settings stay, and only the check moves the check. -/
lemma step_config {s s' : Heartbeat R} (h : s.step event = .ok (s', o)) :
    s'.server.config = s.server.config ∧
      ((∃ order env, event = .check order env ∧ s.moveCheck order env = (s'.phase, o)) ∨
        (∀ order env, event ≠ .check order env) ∧ s'.phase = s.phase ∧ o = none) := by
  cases event with
  | check order env =>
      rw [Heartbeat.step] at h
      cases hmove : s.moveCheck order env with
      | mk phase closing =>
          rw [hmove] at h
          cases h
          exact ⟨by cases o <;> rfl, Or.inl ⟨order, env, rfl, hmove⟩⟩
  | recordBytesIn | recordBytesOut | updateStatus | createSession =>
      cases h
      exact ⟨rfl, Or.inr ⟨by simp, rfl, rfl⟩⟩
  | link deviceId state =>
      cases h
      refine ⟨?_, Or.inr ⟨by simp, by cases state <;> rfl, rfl⟩⟩
      cases state with
      | closed | handshake => rfl
      | online | established =>
          change (markConnected s.server deviceId).1.config = _
          unfold markConnected
          split <;> rfl
  | welcome index env =>
      rw [Heartbeat.step] at h
      split at h
      · cases h
        exact ⟨rfl, Or.inr ⟨by simp, rfl, rfl⟩⟩
      · cases h
        exact ⟨config_welcome .., Or.inr ⟨by simp, rfl, rfl⟩⟩

/-- A check that closes idle devices only leaves no copy ahead of the clock value exactly if it
makes none. -/
lemma step_exchange {config : GatewayConfig} {s s' : Heartbeat R}
    (hconfig : s.server.config = config) (h : s.step event = .ok (s', o)) :
    (∀ c ∈ o, IdleSince config c.now c.state) ∧ s'.NoneWaiting ↔
      s.CopiesNotAhead event ∧ s.NoneWaiting := by
  subst hconfig
  obtain ⟨hconfig, ⟨order, env, rfl, hmove⟩ | ⟨hother, hphase, rfl⟩⟩ := step_config h
  · unfold NoneWaiting CopiesNotAhead
    rw [hconfig]
    obtain ⟨g, phase, marked⟩ := s
    cases phase with
    | away | started now =>
        obtain ⟨hphase, rfl⟩ := Prod.mk.inj hmove
        simp [← hphase]
    | copying now ids snapshot =>
        cases ids with
        | nil =>
            obtain ⟨hphase, rfl⟩ := Prod.mk.inj hmove
            simp [← hphase]
        | cons id ids =>
            obtain ⟨hphase, rfl⟩ := Prod.mk.inj hmove
            rw [← hphase]
            simp only [List.forall_mem_append, List.forall_mem_singleton]
            simp [and_comm]
    | deciding now rest =>
        cases rest with
        | nil =>
            obtain ⟨hphase, rfl⟩ := Prod.mk.inj hmove
            simp [← hphase]
        | cons e rest =>
            obtain ⟨hphase, rfl⟩ := Prod.mk.inj hmove
            rw [← hphase]
            simp only [List.forall_mem_cons, ← timedOut_imp_idle_iff, true_and]
            refine and_congr_left fun _ => ?_
            cases timedOut g.config now e.2 <;> simp
  · refine and_congr (iff_of_true (by simp) ?_) ?_
    · cases event with
      | check order env => exact absurd rfl (hother order env)
      | _ => trivial
    · unfold NoneWaiting
      rw [hphase, hconfig]

end Heartbeat

open Heartbeat

/-- In every interleaving, each device that is closed has been idle for longer than twice the
heartbeat, and so it will be for the copies that still wait, exactly if no connected device is
copied with an activity time ahead of the clock value. -/
theorem closes_only_idle_iff (g : GatewayServer R) (events : List HeartbeatEvent) :
    ∃ s o, Machine.run Heartbeat.step { server := g } events = .ok (s, o) ∧
      ((∀ c, some c ∈ o → IdleSince g.config c.now c.state) ∧ s.NoneWaiting ↔
        Machine.Along Heartbeat.step CopiesNotAhead { server := g } events) := by
  have htotal : ∀ (s : Heartbeat R) event, ∃ s' o, s.step event = .ok (s', o) := by
    intro s event
    cases event with
    | welcome index env =>
        rw [Heartbeat.step]
        split <;> exact ⟨_, _, rfl⟩
    | _ => exact ⟨_, _, rfl⟩
  obtain ⟨s, o, hrun⟩ := Machine.run_of_total htotal { server := g } events
  refine ⟨s, o, hrun, ?_⟩
  have hexchange := Machine.outputs_exchange (I := fun s => s.server.config = g.config)
    (fun _ _ _ _ hs h => (step_config h).1.trans hs) (fun _ _ _ _ => step_exchange) rfl hrun
  have hstart : NoneWaiting ({ server := g } : Heartbeat R) := trivial
  rw [and_iff_left hstart] at hexchange
  rw [← hexchange]
  exact and_congr_left fun _ => ⟨fun h x hx c hc => h c (hc ▸ hx), fun h c hc => h _ hc c rfl⟩

/-- A device that was active a second before the check and again one millisecond after the clock was
read is closed, with the default heartbeat of 60 seconds. -/
theorem active_device_closed :
    ∃ s o s' state, Machine.run Heartbeat.step { server := GatewayServer.create }
        [.createSession (text "d") { activityMs := 99000 }, .check [] { unixMs := 100000 },
          .recordBytesIn (text "d") 1 100001, .check [] {}, .check [] {},
          .check [] {}] = .ok (s, o) ∧
      Machine.run Heartbeat.step s [.check [] { activityMs := 100002 }] =
        .ok (s', [some ⟨text "d", 100000, state⟩]) ∧
      (s.server.board.entry (text "d")).data.connected = true ∧ state.lastActivityMs = 100001 ∧
      (s'.server.board.entry (text "d")).data.connected = false ∧
      ¬ IdleSince s.server.config 100000 state := by
  exact ⟨_, _, _, _, rfl, rfl, by decide, by decide, by decide, by decide⟩

end Gateway
end Damen
