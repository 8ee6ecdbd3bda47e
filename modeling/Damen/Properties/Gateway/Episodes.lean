import Damen.Framework.Run
import Damen.Model.Gateway.RateLimit
import Damen.Properties.Gateway.DeviceEntries

/-!
# Sessions and connection episodes

An episode of a device is what lies between two `Closed` events of its link, if the link comes up in
it.  `on_tight_peer_event` starts a session when the link comes up and the device is not connected.
`Closed` does not take the flag away, so the next episode gets no session
(`second_episode_has_no_session`).

`one_session_per_episode_iff` says for every run without a `bye` or a timeout of the device when
each episode has exactly one session: if the device is not connected at the beginning of any.
-/

namespace Damen
namespace Gateway

open SessionManager

variable {R : Type} {limiter : RateLimiter R} {device : Bytes}

/-- Calls of `create_session`. -/
def sessionsIn (effects : List Effect) : ℕ :=
  effects.countP fun
    | .createSession _ _ => true
    | _ => false

/-- The link events of a device in a run, each with the number of sessions it started. -/
def linkHistory (device : Bytes) : List GatewayEvent → List (List Effect) → List (LinkState × ℕ)
  | .link deviceId state _ :: events, effects :: rest =>
      if deviceId = device then (state, sessionsIn effects) :: linkHistory device events rest
      else linkHistory device events rest
  | _ :: events, _ :: rest => linkHistory device events rest
  | _, _ => []

/-- The number of sessions for each episode; `current` counts for the one that is on, if one is. -/
def perEpisode : Option ℕ → List (LinkState × ℕ) → List ℕ
  | current, [] => current.toList
  | current, (.closed, _) :: history => current.toList ++ perEpisode none history
  | current, (.handshake, _) :: history => perEpisode current history
  | current, (.online, n) :: history | current, (.established, n) :: history =>
      perEpisode (some (current.getD 0 + n)) history

/-- No `bye` for the device and no timeout of it. -/
def Undisturbed (device : Bytes) (g : GatewayServer R) : GatewayEvent → Prop
  | .dispatch msg _ => msg.type = .deviceBye → msg.deviceId ≠ device
  | .heartbeat env => timedOut g.config env.unixMs (g.board.entry device).data = false
  | _ => True

/-- Whether an episode is on after an event. -/
def episodeAfter (device : Bytes) (on : Bool) : GatewayEvent → Bool
  | .link deviceId state _ =>
      if deviceId = device then
        match state with
        | .closed => false
        | .handshake => on
        | .online | .established => true
      else on
  | _ => on

/-- The server, and whether an episode is on. -/
def episodeStep (limiter : RateLimiter R) (device : Bytes) (s : GatewayServer R × Bool)
    (ev : GatewayEvent) : Except Empty ((GatewayServer R × Bool) × List Effect) :=
  match gatewayStep limiter s.1 ev with
  | .ok (g, effects) => .ok ((g, episodeAfter device s.2 ev), effects)
  | .error e => .error e

/-- If an episode begins, the device is not connected. -/
def BeginsOff (device : Bytes) (s : GatewayServer R × Bool) (ev : GatewayEvent) : Prop :=
  ∀ state env, ev = .link device state env → comesUp state = true → s.2 = false →
    (s.1.board.entry device).data.connected = false

/-! ## One event -/

lemma sessionsIn_append (effects effects' : List Effect) :
    sessionsIn (effects ++ effects') = sessionsIn effects + sessionsIn effects' :=
  List.countP_append

lemma sessionsIn_sendToDevice (g : GatewayServer R) (deviceId : Bytes) (msg : GatewayMessage)
    (env : Surroundings) : sessionsIn (sendToDevice g deviceId msg env).2 = 0 := by
  unfold sendToDevice
  dsimp only
  split
  · rfl
  · split <;> split <;> rfl

variable {g g' : GatewayServer R} {ev : GatewayEvent} {effects : List Effect}
  {events : List GatewayEvent} {current : Option ℕ}

/-- A session is started if the link comes up and the device is not connected. -/
lemma sessionsIn_onTightPeerEvent {state : LinkState} (hup : comesUp state = true)
    (env : Surroundings) :
    sessionsIn (onTightPeerEvent g device state env).2 =
      if (g.board.entry device).data.connected then 0 else 1 := by
  rw [onTightPeerEvent_of_comesUp g device hup]
  unfold welcome
  dsimp only
  split
  · rfl
  · have hcreate : ∀ sessionId effects, sessionsIn (.createSession device sessionId :: effects) =
        sessionsIn effects + 1 := fun _ _ => List.countP_cons_of_pos rfl
    rw [hcreate, sessionsIn_append, sessionsIn_sendToDevice, sessionsIn_sendToDevice]

lemma connected_of_comesUp {state : LinkState} (hup : comesUp state = true) (env : Surroundings) :
    ((onTightPeerEvent g device state env).1.board.entry device).data.connected = true := by
  rw [(onTightPeerEvent_leaves g device state env).entry, entry_modify_self, linkChange, hup,
    Bool.true_and]
  split
  · rfl
  · next hon => simpa using hon

/-- A device that is connected stays so, unless it says goodbye or times out. -/
lemma connected_of_undisturbed (hstep : gatewayStep limiter g ev = .ok (g', effects))
    (hev : Undisturbed device g ev) (hon : (g.board.entry device).data.connected = true) :
    (g'.board.entry device).data.connected = true := by
  have hleaves : ∀ {n deviceId f}, Leaves g g' n deviceId f →
      (deviceId = device → (f (g.board.entry device)).data.connected = true) →
      (g'.board.entry device).data.connected = true := by
    intro n deviceId f h hf
    rw [h.entry, entry_modify]
    split
    · next heq =>
      rw [← heq]
      exact hf heq.symm
    · exact hon
  cases ev with
  | receive peerId payload env =>
      cases hstep
      refine hleaves (onTightMessage_leaves g peerId payload env) fun _ => ?_
      split <;> exact hon
  | dispatch msg env =>
      obtain rfl : (processOneMessage limiter g msg env).1 = g' :=
        congrArg Prod.fst (Except.ok.inj hstep)
      refine hleaves (processOneMessage_leaves g msg env) fun heq => ?_
      unfold changeOf
      cases htype : msg.type with
      | deviceHello =>
          dsimp only
          split
          · rfl
          · exact hon
      | deviceAudioFrame =>
          dsimp only
          split <;> exact hon
      | deviceBye => exact absurd heq (hev htype)
      | _ => exact hon
  | finish env =>
      obtain rfl : (executePendingIo g env).1 = g' := congrArg Prod.fst (Except.ok.inj hstep)
      rw [(executePendingIo_same ..).entry]
      exact hon
  | link deviceId state env =>
      obtain rfl : (onTightPeerEvent g deviceId state env).1 = g' :=
        congrArg Prod.fst (Except.ok.inj hstep)
      refine hleaves (onTightPeerEvent_leaves g deviceId state env) fun _ => ?_
      unfold linkChange
      split
      · rfl
      · exact hon
  | heartbeat env =>
      cases hstep
      rw [entry_heartbeatCheck, if_neg (Bool.eq_false_iff.mp hev)]
      exact hon
  | cleanup env =>
      cases hstep
      rw [connected_sessionCleanup]
      exact hon

/-! ## Runs -/

lemma along_episode_cons {P : GatewayServer R × Bool → GatewayEvent → Prop}
    {s : GatewayServer R × Bool} (hstep : gatewayStep limiter s.1 ev = .ok (g', effects)) :
    Machine.Along (episodeStep limiter device) P s (ev :: events) ↔
      P s ev ∧
        Machine.Along (episodeStep limiter device) P (g', episodeAfter device s.2 ev) events := by
  have hepisode : episodeStep limiter device s ev =
      .ok ((g', episodeAfter device s.2 ev), effects) := by
    rw [episodeStep, hstep]
  refine and_congr_right fun _ => ⟨fun h => h _ _ hepisode, fun h s' o hs' => ?_⟩
  obtain ⟨rfl, -⟩ := Prod.mk.inj (Except.ok.inj (hepisode.symm.trans hs'))
  exact h

lemma perEpisode_of_comesUp {state : LinkState} {n : ℕ} {history : List (LinkState × ℕ)}
    (hup : comesUp state = true) :
    perEpisode current ((state, n) :: history) =
      perEpisode (some (current.getD 0 + n)) history := by
  cases state <;> first | rfl | cases hup

lemma episodeAfter_of_comesUp {on : Bool} {state : LinkState} {env : Surroundings}
    (hup : comesUp state = true) :
    episodeAfter device on (.link device state env) = true := by
  cases state <;> first | exact if_pos rfl | cases hup

/-- An event that is no link event of the device belongs to no episode. -/
lemma history_of_other (hev : ∀ state env, ev ≠ .link device state env) (events : List GatewayEvent)
    (effects : List Effect) (rest : List (List Effect)) (on : Bool) :
    linkHistory device (ev :: events) (effects :: rest) = linkHistory device events rest ∧
      episodeAfter device on ev = on := by
  cases ev with
  | link deviceId state env =>
      have hne : deviceId ≠ device := fun heq => hev state env (heq ▸ rfl)
      exact ⟨if_neg hne, if_neg hne⟩
  | _ => exact ⟨rfl, rfl⟩

/-- The device is connected while an episode is on, so the count of one does not go beyond one. -/
lemma perEpisode_iff {effects : List (List Effect)}
    (hrun : Machine.run (gatewayStep limiter) g events = .ok (g', effects))
    (hcalm : Machine.Along (gatewayStep limiter) (Undisturbed device) g events)
    (hcurrent : current.isSome = true → (g.board.entry device).data.connected = true) :
    (∀ n ∈ perEpisode current (linkHistory device events effects), n = 1) ↔
      (∀ k ∈ current, k = 1) ∧
        Machine.Along (episodeStep limiter device) (BeginsOff device)
          (g, current.isSome) events := by
  induction events generalizing g effects current with
  | nil =>
      cases hrun
      simp only [linkHistory, perEpisode, Option.mem_toList]
      exact (and_iff_left trivial).symm
  | cons ev events ih =>
      obtain ⟨t, o, os, hstep, hrest, rfl⟩ := Machine.run_cons_ok.mp hrun
      have hcalm' := hcalm.2 t o hstep
      rw [along_episode_cons hstep]
      by_cases hlink : ∃ state env, ev = .link device state env
      · obtain ⟨state, env, rfl⟩ := hlink
        rw [linkHistory, if_pos rfl]
        cases hup : comesUp state with
        | true =>
            obtain ⟨rfl, rfl⟩ : (onTightPeerEvent g device state env).1 = t ∧
                (onTightPeerEvent g device state env).2 = o :=
              Prod.mk.inj (Except.ok.inj hstep)
            rw [perEpisode_of_comesUp hup, episodeAfter_of_comesUp hup,
              ih hrest hcalm' fun _ => connected_of_comesUp hup env,
              sessionsIn_onTightPeerEvent hup, ← and_assoc]
            refine and_congr_left fun _ => ?_
            cases current with
            | none =>
                simp [BeginsOff, hup]
            | some k =>
                rw [if_pos (hcurrent rfl)]
                simp [BeginsOff]
        | false =>
            have hbegins : BeginsOff device (g, current.isSome) (.link device state env) := by
              intro state' env' heq hup'
              cases heq
              exact absurd (hup'.symm.trans hup) (by simp)
            have hon : (g.board.entry device).data.connected = true →
                (t.board.entry device).data.connected = true :=
                  connected_of_undisturbed hstep hcalm.1
            rw [and_iff_right hbegins]
            cases state with
            | closed =>
                have hepisode : episodeAfter device current.isSome (.link device .closed env) =
                    false :=
                  if_pos rfl
                have hnone := @ih t none os hrest hcalm' nofun
                simp only [perEpisode, List.forall_mem_append, Option.mem_toList, hepisode, hnone]
                simp
            | handshake =>
                have hepisode : episodeAfter device current.isSome (.link device .handshake env) =
                    current.isSome := if_pos rfl
                rw [hepisode]
                exact ih hrest hcalm' fun hsome => hon (hcurrent hsome)
            | _ => cases hup
      · have hother : ∀ state env, ev ≠ .link device state env := fun state env heq =>
          hlink ⟨state, env, heq⟩
        obtain ⟨hhistory, hepisode⟩ := history_of_other hother events o os current.isSome
        have hbegins : BeginsOff device (g, current.isSome) ev := fun state env heq =>
          absurd heq (hother state env)
        rw [hhistory, hepisode, and_iff_right hbegins]
        exact ih hrest hcalm' fun hsome => connected_of_undisturbed hstep hcalm.1 (hcurrent hsome)

/-- In a run without a `bye` or a timeout of the device: each episode has exactly one session if and
only if the device is not connected at the beginning of any. -/
theorem one_session_per_episode_iff (limiter : RateLimiter R) (device : Bytes)
    (g g' : GatewayServer R) (events : List GatewayEvent) (effects : List (List Effect))
    (hrun : Machine.run (gatewayStep limiter) g events = .ok (g', effects))
    (hcalm : Machine.Along (gatewayStep limiter) (Undisturbed device) g events) :
    (∀ n ∈ perEpisode none (linkHistory device events effects), n = 1) ↔
      Machine.Along (episodeStep limiter device) (BeginsOff device) (g, false) events := by
  rw [@perEpisode_iff _ _ _ _ _ _ none _ hrun hcalm nofun]
  exact and_iff_right fun k hk => absurd hk (Option.not_mem_none k)

/-- A link that is established, comes online and is closed. -/
theorem one_session_per_episode_once :
    let events : List GatewayEvent :=
      [.link (text "d") .established {}, .link (text "d") .online {}, .link (text "d") .closed {}]
    ∃ g' effects, Machine.run (gatewayStep .ofTokens) .create events = .ok (g', effects) ∧
      ∀ n ∈ perEpisode none (linkHistory (text "d") events effects), n = 1 := by
  intro events
  refine ⟨_, _, rfl, (one_session_per_episode_iff .ofTokens (text "d") .create _ events _ rfl
    ?_).mpr ?_⟩
  · exact ⟨trivial, fun _ _ _ => ⟨trivial, fun _ _ _ => ⟨trivial, fun _ _ _ => trivial⟩⟩⟩
  · refine ⟨fun _ _ _ _ _ => by decide, fun s o h => ?_⟩
    obtain rfl := congrArg Prod.fst (Except.ok.inj h)
    refine ⟨fun _ _ _ _ hoff => absurd hoff (by decide), fun s o h => ?_⟩
    obtain rfl := congrArg Prod.fst (Except.ok.inj h)
    refine ⟨fun state env heq hup => ?_, fun _ _ _ => trivial⟩
    cases heq
    cases hup

/-- The link is closed and comes up again: the second episode has no session. -/
theorem second_episode_has_no_session :
    let events : List GatewayEvent :=
      [.link (text "d") .established {}, .link (text "d") .closed {},
        .link (text "d") .established {}]
    ∃ g' effects, Machine.run (gatewayStep .ofTokens) .create events = .ok (g', effects) ∧
      perEpisode none (linkHistory (text "d") events effects) = [1, 0] :=
  ⟨_, _, rfl, by decide⟩

end Gateway
end Damen
