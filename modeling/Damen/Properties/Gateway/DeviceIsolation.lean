import Damen.Model.Gateway.RateLimit
import Damen.Properties.Gateway.DeviceEntries

/-!
# Devices and the messages of other peers

A message names the device it is about; the peer it comes from is known from the transport.  The
server goes by the name, so a peer can close the session of another's device
(`bye_closes_other_device`) or start a new one.  `devices_isolated_iff` says for every payload when
it leaves the devices of the other peers as they are: if the device it names has no peer yet or the
sender for its peer, or if the listener changes nothing about it.
-/

namespace Damen
namespace Gateway

open SessionManager

variable {R : Type} {limiter : RateLimiter R}

/-- No device of another peer is changed by the message. -/
def Isolated (limiter : RateLimiter R) (g : GatewayServer R) (peerId payload : Bytes)
    (arrival dispatch : Surroundings) : Prop :=
  ∀ x, (g.board.entry x).data.peerId ≠ [] → (g.board.entry x).data.peerId ≠ peerId →
    ((handleUpstream limiter g peerId payload arrival dispatch).1.board.entry x).data =
      (g.board.entry x).data

/-- The listener of a message finds the state of its device as it would leave it, or does not touch
it. -/
def Untouched (limiter : RateLimiter R) (g : GatewayServer R) (msg : GatewayMessage)
    (env : Surroundings) (state : DeviceState) : Prop :=
  match msg.type with
  | .deviceHello =>
      helloAccepted limiter g msg env = false ∨
        (state.deviceId = msg.deviceId ∧
          state.sessionId = generateSessionId msg.deviceId env.sessionMs g.address ∧
          state.connected = true ∧ state.lastActivityMs = env.activityMs)
  | .deviceAudioFrame =>
      audioAccepted limiter g msg env = false ∨
        (UInt64.ofNat msg.payload.length = 0 ∧ state.lastActivityMs = env.activityMs)
  | .deviceBye =>
      state.connected = false ∧ state.status = .idle ∧ state.lastActivityMs = env.activityMs
  | _ => True

/-- The message names a device without a peer, one of the sender, or one it leaves as it is. -/
def Harmless (limiter : RateLimiter R) (g : GatewayServer R) (peerId payload : Bytes)
    (arrival dispatch : Surroundings) : Prop :=
  let msg := parseUpstreamJson peerId payload arrival.unixMs
  let state := (g.board.entry msg.deviceId).data
  state.peerId = [] ∨ state.peerId = peerId ∨ Untouched limiter g msg dispatch state

variable {e : BlackboardEntry DeviceState}

lemma data_createIn_eq_iff {deviceId sessionId : Bytes} {now : UInt64} :
    (createIn deviceId sessionId now e).data = e.data ↔
      e.data.deviceId = deviceId ∧ e.data.sessionId = sessionId ∧ e.data.connected = true ∧
        e.data.lastActivityMs = now := by
  obtain ⟨⟨⟩, _⟩ := e
  simp only [createIn, DeviceState.mk.injEq, and_true, true_and, eq_comm]

lemma data_recordBytesInIn_eq_iff {bytes now : UInt64} :
    (recordBytesInIn bytes now e).data = e.data ↔ bytes = 0 ∧ e.data.lastActivityMs = now := by
  obtain ⟨⟨⟩, _⟩ := e
  simp only [recordBytesInIn, DeviceState.mk.injEq, UInt64.add_eq_left, and_true, true_and]
  rw [eq_comm (a := now)]

lemma data_closeIn_eq_iff {now : UInt64} :
    (closeIn now e).data = e.data ↔
      e.data.connected = false ∧ e.data.status = .idle ∧ e.data.lastActivityMs = now := by
  obtain ⟨⟨⟩, _⟩ := e
  simp only [closeIn, DeviceState.mk.injEq, and_true, true_and, eq_comm]

lemma data_changeOf_eq_iff (g : GatewayServer R) (msg : GatewayMessage) (env : Surroundings)
    (e : BlackboardEntry DeviceState) :
    (changeOf limiter g msg env e).data = e.data ↔ Untouched limiter g msg env e.data := by
  unfold changeOf Untouched
  cases msg.type with
  | deviceHello =>
      cases helloAccepted limiter g msg env with
      | false => simp
      | true => simpa using data_createIn_eq_iff
  | deviceAudioFrame =>
      cases audioAccepted limiter g msg env with
      | false => simp
      | true => simpa using data_recordBytesInIn_eq_iff
  | deviceBye => exact data_closeIn_eq_iff
  | _ => exact iff_of_true rfl trivial

/-- The message reaches its device only, and only with what its listener does. -/
lemma entry_handleUpstream (g : GatewayServer R) (peerId payload : Bytes)
    (arrival dispatch : Surroundings)
    (x : Bytes) :
    let msg := parseUpstreamJson peerId payload arrival.unixMs
    (handleUpstream limiter g peerId payload arrival dispatch).1.board.entry x =
      (g.board.modify msg.deviceId fun e => changeOf limiter g msg dispatch
        (if e.data.peerId = [] then { e with data := { e.data with peerId } } else e)).entry x := by
  intro msg
  have hbatch : (handleUpstream limiter g peerId payload arrival dispatch).1.board.entry x =
      (processOneMessage limiter (onTightMessage g peerId payload arrival) msg
        dispatch).1.board.entry x :=
    (executePendingIo_same ..).entry x
  rw [hbatch, (processOneMessage_leaves _ msg dispatch).entry]
  exact entry_modify_modify g.board msg.deviceId x _ _

/-- Which messages leave the devices of the other peers alone. -/
theorem devices_isolated_iff (limiter : RateLimiter R) (g : GatewayServer R)
    (peerId payload : Bytes) (arrival dispatch : Surroundings) :
    Isolated limiter g peerId payload arrival dispatch ↔
      Harmless limiter g peerId payload arrival dispatch := by
  have hentry := @entry_handleUpstream _ limiter g peerId payload arrival dispatch
  unfold Isolated Harmless
  dsimp only at hentry ⊢
  generalize hmsg : parseUpstreamJson peerId payload arrival.unixMs = msg at hentry ⊢
  constructor
  · intro hisolated
    by_cases hnone : (g.board.entry msg.deviceId).data.peerId = []
    · exact .inl hnone
    by_cases hown : (g.board.entry msg.deviceId).data.peerId = peerId
    · exact .inr (.inl hown)
    have hsame := hisolated msg.deviceId hnone hown
    rw [hentry, entry_modify_self, if_neg hnone] at hsame
    exact .inr (.inr ((data_changeOf_eq_iff ..).mp hsame))
  · intro hharmless x hsome hother
    rw [hentry, entry_modify]
    split
    · next hx =>
      subst hx
      rw [if_neg hsome]
      refine (data_changeOf_eq_iff ..).mpr ?_
      exact (hharmless.resolve_left hsome).resolve_left hother
    · rfl

/-- Peer `a` says goodbye for device `v`, which is connected through peer `v`. -/
theorem bye_closes_other_device :
    let board := ({} : DataBoard).modify (text "v") fun e =>
      { e with data := { e.data with peerId := text "v", connected := true } }
    let g := { GatewayServer.create with board }
    let bye := text "\x7b\"type\":\"bye\",\"device_id\":\"v\"\x7d"
    let after := (handleUpstream .ofTokens g (text "a") bye {} {}).1
    (g.board.entry (text "v")).data.peerId = text "v" ∧
      (g.board.entry (text "v")).data.connected = true ∧
      (after.board.entry (text "v")).data.connected = false := by
  decide

end Gateway
end Damen
