import Damen.Framework.OrderedMap
import Damen.Model.Gateway.Server

/-!
# What the server does to the entries of the devices

Each function of the server, seen from the entry of one device.  Only the device a message names is
touched by its dispatch, and `changeOf` says how (`processOneMessage_leaves`); what is sent later
touches no entry (`executePendingIo_same`); `heartbeat_check` closes the entries that have timed out
(`entry_heartbeatCheck`).

The counter of connections changes only where a `hello` is accepted, at a `bye`, and for each entry
that `heartbeat_check` closes.
-/

namespace Damen
namespace Gateway

open SessionManager Metrics GatewayServer

/-! ## The board -/

lemma entry_modify (board : DataBoard) (deviceId x : Bytes)
    (f : BlackboardEntry DeviceState → BlackboardEntry DeviceState) :
    (board.modify deviceId f).entry x = if x = deviceId then f (board.entry deviceId)
      else board.entry x := by
  unfold DataBoard.entry DataBoard.modify
  rw [Std.ExtTreeMap.getD_eq_getD_getElem?, OrderedMap.getElem?_insert]
  split
  · rfl
  · rw [Std.ExtTreeMap.getD_eq_getD_getElem?]

@[simp] lemma entry_modify_self (board : DataBoard) (deviceId : Bytes)
    (f : BlackboardEntry DeviceState → BlackboardEntry DeviceState) :
    (board.modify deviceId f).entry deviceId = f (board.entry deviceId) := by
  rw [entry_modify, if_pos rfl]

lemma entry_modify_modify (board : DataBoard) (deviceId x : Bytes)
    (f f' : BlackboardEntry DeviceState → BlackboardEntry DeviceState) :
    ((board.modify deviceId f).modify deviceId f').entry x =
      (board.modify deviceId fun e => f' (f e)).entry x := by
  rw [entry_modify, entry_modify_self, entry_modify, entry_modify]
  split <;> rfl

@[simp] lemma entry_device (board : DataBoard) (deviceId x : Bytes) :
    (board.device deviceId).entry x = board.entry x := by
  unfold DataBoard.device
  rw [entry_modify]
  split
  · next hx => rw [hx, id]
  · rfl

/-- What is done to an entry after `device`. -/
lemma modify_device (board : DataBoard) (deviceId : Bytes)
    (f : BlackboardEntry DeviceState → BlackboardEntry DeviceState) :
    (board.device deviceId).modify deviceId f = board.modify deviceId f := by
  unfold DataBoard.modify
  rw [entry_device]
  have hdevices : (board.device deviceId).devices.insert deviceId (f (board.entry deviceId)) =
      board.devices.insert deviceId (f (board.entry deviceId)) := by
    refine Std.ExtTreeMap.ext_getElem? fun key => ?_
    unfold DataBoard.device DataBoard.modify
    simp only [OrderedMap.getElem?_insert]
    split <;> rfl
  rw [hdevices]
  rfl

variable {R : Type} {limiter : RateLimiter R}

/-- `m_active_connections`. -/
def gauge (g : GatewayServer R) : UInt64 := g.board.metrics.activeConnections

/-- The counter and the entries are the same. -/
structure Same (g g' : GatewayServer R) : Prop where
  gauge : gauge g' = gauge g
  entry : ∀ x, g'.board.entry x = g.board.entry x

/-! ## Sending -/

lemma sendToDevice_same (g : GatewayServer R) (deviceId : Bytes) (msg : GatewayMessage)
    (env : Surroundings) :
    Same g (sendToDevice g deviceId msg env).1 := by
  unfold sendToDevice
  dsimp only
  split
  · exact ⟨rfl, fun _ => rfl⟩
  · split <;> split <;> exact ⟨rfl, fun x => entry_device g.board deviceId x⟩

lemma runIos_same (g : GatewayServer R) (env : Surroundings) (ops : List IoOp) :
    Same g (runIos g env ops).1 := by
  induction ops generalizing g with
  | nil => exact ⟨rfl, fun _ => rfl⟩
  | cons op ops ih =>
      have hop : Same g (runIo g op env).1 := by
        cases op with
        | sendToDevice deviceId msg => exact sendToDevice_same g deviceId msg env
        | downstream msg => exact ⟨rfl, fun _ => rfl⟩
      have hops := ih (runIo g op env).1
      exact ⟨hops.gauge.trans hop.gauge, fun x => (hops.entry x).trans (hop.entry x)⟩

lemma executePendingIo_same (g : GatewayServer R) (env : Surroundings) :
    Same g (executePendingIo g env).1 :=
  have h := runIos_same { g with pendingIo := [] } env g.pendingIo
  ⟨h.gauge, h.entry⟩

/-! ## Messages -/

/-- The limiter and the check of the credentials let a `hello` pass. -/
def helloAccepted (limiter : RateLimiter R) (g : GatewayServer R) (msg : GatewayMessage)
    (env : Surroundings) : Bool :=
  let field := extractJsonField msg.payload
  (limiter.check g.ratelimiter env.steady (field "device_name") (text "connection") 1).2.allowed &&
    (doAuthenticate (field "product_id") (field "product_key") (field "product_secret")
      (field "device_name")).ok

/-- The limiter lets an audio frame pass. -/
def audioAccepted (limiter : RateLimiter R) (g : GatewayServer R) (msg : GatewayMessage)
    (env : Surroundings) : Bool :=
  (limiter.check g.ratelimiter env.steady msg.deviceId (text "bandwidth")
    (UInt64.ofNat msg.payload.length)).2.allowed

/-- What the dispatch of a message does to the entry of its device. -/
def changeOf (limiter : RateLimiter R) (g : GatewayServer R) (msg : GatewayMessage)
    (env : Surroundings) : BlackboardEntry DeviceState → BlackboardEntry DeviceState :=
  match msg.type with
  | .deviceHello =>
      if helloAccepted limiter g msg env then
        createIn msg.deviceId (generateSessionId msg.deviceId env.sessionMs g.address)
          env.activityMs
      else id
  | .deviceAudioFrame =>
      if audioAccepted limiter g msg env then
        recordBytesInIn (UInt64.ofNat msg.payload.length) env.activityMs
      else id
  | .deviceBye => closeIn env.activityMs
  | _ => id

/-- `on_connection_close` stops at zero. -/
def lessOne (n : UInt64) : UInt64 := if 0 < n then n - 1 else n

/-- What the dispatch of a message does to the counter of connections. -/
def gaugeAfter (limiter : RateLimiter R) (g : GatewayServer R) (msg : GatewayMessage)
    (env : Surroundings) : UInt64 :=
  match msg.type with
  | .deviceHello => if helloAccepted limiter g msg env then gauge g + 1 else gauge g
  | .deviceBye => lessOne (gauge g)
  | _ => gauge g

/-- A function leaves this counter, and these entries but for a change of one of them. -/
structure Leaves (g g' : GatewayServer R) (n : UInt64) (deviceId : Bytes)
    (f : BlackboardEntry DeviceState → BlackboardEntry DeviceState) : Prop where
  gauge : gauge g' = n
  entry : ∀ x, g'.board.entry x = (g.board.modify deviceId f).entry x

lemma Same.leaves {g g' : GatewayServer R} (h : Same g g') (deviceId : Bytes) :
    Leaves g g' (Gateway.gauge g) deviceId id :=
  ⟨h.gauge, fun x => (h.entry x).trans (entry_device g.board deviceId x).symm⟩

lemma onHello_leaves (g : GatewayServer R) (msg : GatewayMessage) (env : Surroundings)
    (htype : msg.type = .deviceHello) :
    Leaves g (onHello limiter g msg env).1 (gaugeAfter limiter g msg env) msg.deviceId
      (changeOf limiter g msg env) := by
  have hrejected : helloAccepted limiter g msg env = false → ∀ {g'}, Same g g' →
      Leaves g g' (gaugeAfter limiter g msg env) msg.deviceId (changeOf limiter g msg env) := by
    intro h g' hsame
    unfold gaugeAfter changeOf
    simp only [htype, h, if_neg Bool.false_ne_true]
    exact hsame.leaves msg.deviceId
  unfold onHello
  dsimp only
  split
  · next hdenied => exact hrejected (by simp [helloAccepted, hdenied]) ⟨rfl, fun _ => rfl⟩
  · next hallowed =>
    unfold onAuthResult
    dsimp only
    split
    · next hfailed => exact hrejected (by simp [helloAccepted, hfailed]) ⟨rfl, fun _ => rfl⟩
    · next hok =>
      have haccepted : helloAccepted limiter g msg env = true := by
        simp [helloAccepted, not_not.mp hallowed, not_not.mp hok]
      unfold gaugeAfter changeOf
      simp only [htype, haccepted, if_true]
      exact ⟨rfl, fun _ => rfl⟩

lemma onAudioFrame_leaves (g : GatewayServer R) (msg : GatewayMessage) (env : Surroundings)
    (htype : msg.type = .deviceAudioFrame) :
    Leaves g (onAudioFrame limiter g msg env) (gaugeAfter limiter g msg env) msg.deviceId
      (changeOf limiter g msg env) := by
  unfold onAudioFrame gaugeAfter changeOf audioAccepted
  simp only [htype]
  split
  · refine Same.leaves ⟨?_, fun _ => ?_⟩ msg.deviceId <;> rfl
  · next hallowed =>
    rw [if_pos (not_not.mp hallowed)]
    exact ⟨rfl, fun _ => rfl⟩

lemma gauge_onConnectionClose (g : GatewayServer R) :
    gauge (onBoard g onConnectionClose) = lessOne (gauge g) := by
  unfold gauge lessOne onBoard onConnectionClose update
  dsimp only
  split <;> rfl

lemma onBye_leaves (g : GatewayServer R) (msg : GatewayMessage) (env : Surroundings) :
    Leaves g (onBye g msg env) (lessOne (gauge g)) msg.deviceId (closeIn env.activityMs) :=
  ⟨gauge_onConnectionClose (onBoard g (closeSession · msg.deviceId env.activityMs)), fun _ => rfl⟩

lemma processOneMessage_leaves (g : GatewayServer R) (msg : GatewayMessage) (env : Surroundings) :
    Leaves g (processOneMessage limiter g msg env).1 (gaugeAfter limiter g msg env) msg.deviceId
      (changeOf limiter g msg env) := by
  cases htype : msg.type with
  | deviceHello =>
      simp only [processOneMessage, htype]
      exact onHello_leaves g msg env htype
  | deviceAudioFrame =>
      simp only [processOneMessage, htype]
      exact onAudioFrame_leaves g msg env htype
  | deviceBye =>
      simp only [processOneMessage, gaugeAfter, changeOf, htype]
      exact onBye_leaves g msg env
  | _ =>
      simp only [processOneMessage, gaugeAfter, changeOf, htype]
      refine Same.leaves ⟨?_, fun _ => ?_⟩ msg.deviceId <;> rfl

/-! ## The other functions -/

lemma onTightMessage_leaves (g : GatewayServer R) (peerId payload : Bytes) (env : Surroundings) :
    Leaves g (onTightMessage g peerId payload env) (gauge g)
      (parseUpstreamJson peerId payload env.unixMs).deviceId
      fun e => if e.data.peerId = [] then { e with data := { e.data with peerId } } else e :=
  ⟨rfl, fun _ => rfl⟩

/-- The link of a device is up. -/
def comesUp : LinkState → Bool
  | .online | .established => true
  | _ => false

lemma onTightPeerEvent_of_comesUp (g : GatewayServer R) (device : Bytes) {state : LinkState}
    (hup : comesUp state = true) (env : Surroundings) :
    onTightPeerEvent g device state env =
      if (g.board.entry device).data.connected then (onBoard g (DataBoard.device · device), [])
      else
        welcome (onBoard g (DataBoard.modify · device fun e =>
          { e with data := { e.data with connected := true, peerId := device } })) device env := by
  have honline : onTightPeerEvent g device state env = onTightPeerEvent g device .online env := by
    cases state <;> first | rfl | cases hup
  rw [honline, onTightPeerEvent, markConnected]
  cases (g.board.entry device).data.connected <;> rfl

/-- What a link event does to the entry of its device. -/
def linkChange (g : GatewayServer R) (device : Bytes) (state : LinkState) (env : Surroundings) :
    BlackboardEntry DeviceState → BlackboardEntry DeviceState :=
  if comesUp state && !(g.board.entry device).data.connected then
    fun e => createIn device (generateSessionId device env.sessionMs g.address) env.activityMs
      { e with data := { e.data with connected := true, peerId := device } }
  else id

lemma onTightPeerEvent_leaves (g : GatewayServer R) (device : Bytes) (state : LinkState)
    (env : Surroundings) :
    Leaves g (onTightPeerEvent g device state env).1 (gauge g) device
      (linkChange g device state env) := by
  have hsame : ∀ {g'}, Same g g' → linkChange g device state env = id →
      Leaves g g' (gauge g) device (linkChange g device state env) := by
    intro g' hsame hid
    rw [hid]
    exact hsame.leaves device
  cases hstate : comesUp state with
  | false =>
      have hid : linkChange g device state env = id := by simp [linkChange, hstate]
      cases state with
      | closed => exact hsame ⟨rfl, fun _ => rfl⟩ hid
      | handshake => exact hsame ⟨rfl, fun _ => rfl⟩ hid
      | _ => cases hstate
  | true =>
      rw [onTightPeerEvent_of_comesUp g device hstate]
      unfold welcome
      dsimp only
      split
      · next hon =>
        exact hsame ⟨rfl, fun x => entry_device g.board device x⟩ (by simp [linkChange, hon])
      · next hoff =>
        refine ⟨?_, fun x => ?_⟩
        · rw [(sendToDevice_same ..).gauge, (sendToDevice_same ..).gauge]
          rfl
        · rw [(sendToDevice_same ..).entry, (sendToDevice_same ..).entry]
          simp only [linkChange, hstate, hoff]
          exact entry_modify_modify g.board device x _ _

lemma closeSilent_leaves (g : GatewayServer R) (deviceId : Bytes) (env : Surroundings) :
    Leaves g (closeSilent env g deviceId) (lessOne (gauge g)) deviceId (closeIn env.activityMs) :=
  ⟨gauge_onConnectionClose (onBoard g (closeSession · deviceId env.activityMs)), fun _ => rfl⟩

/-! ## The snapshot -/

variable {board : DataBoard}

lemma mem_deviceSnapshot {x : Bytes} {state : DeviceState} (h : (x, state) ∈ board.deviceSnapshot) :
    (board.entry x).data = state := by
  unfold DataBoard.deviceSnapshot at h
  obtain ⟨⟨key, e⟩, hmem, heq⟩ := List.mem_map.mp h
  obtain ⟨rfl, rfl⟩ := Prod.mk.inj heq
  rw [DataBoard.entry, Std.ExtTreeMap.getD_eq_getD_getElem?,
    Std.ExtTreeMap.mem_toList_iff_getElem?_eq_some.mp hmem]
  rfl

/-- A device that is connected is on the board. -/
lemma mem_deviceSnapshot_of_connected {x : Bytes} (h : (board.entry x).data.connected = true) :
    (x, (board.entry x).data) ∈ board.deviceSnapshot := by
  rw [DataBoard.entry, Std.ExtTreeMap.getD_eq_getD_getElem?] at h ⊢
  cases hx : board.devices[x]? with
  | none =>
      rw [hx] at h
      cases h
  | some e =>
      exact List.mem_map.mpr ⟨(x, e), Std.ExtTreeMap.mem_toList_iff_getElem?_eq_some.mpr hx, rfl⟩

lemma nodup_deviceSnapshot (board : DataBoard) : (board.deviceSnapshot.map Prod.fst).Nodup := by
  have hkeys : board.deviceSnapshot.map Prod.fst = board.devices.keys := by
    rw [DataBoard.deviceSnapshot, List.map_map, ← Std.ExtTreeMap.map_fst_toList_eq_keys]
    rfl
  rw [hkeys]
  exact Std.ExtTreeMap.nodup_keys

/-- The entries after the loop of `heartbeat_check`. -/
lemma entry_closeSilents (config : GatewayConfig) (env : Surroundings)
    (l : List (Bytes × DeviceState))
    (g : GatewayServer R) (x : Bytes) :
    (l.foldl (fun g' e => if timedOut config env.unixMs e.2 then closeSilent env g' e.1 else g')
      g).board.entry x =
      if ∃ e ∈ l, e.1 = x ∧ timedOut config env.unixMs e.2 = true then
        closeIn env.activityMs (g.board.entry x)
      else g.board.entry x := by
  induction l generalizing g with
  | nil => simp
  | cons e l ih =>
      rw [List.foldl_cons, ih]
      simp only [List.exists_mem_cons_iff]
      by_cases hout : timedOut config env.unixMs e.2 = true
      · simp only [if_pos hout, (closeSilent_leaves g e.1 env).entry, entry_modify]
        by_cases hx : e.1 = x
        · -- closing twice is closing once
          subst hx
          simp only [hout, and_self, true_or, if_true]
          split <;> rfl
        · simp only [hx, Ne.symm hx, false_and, false_or, if_false]
      · simp only [hout, Bool.false_eq_true, if_false, and_false, false_or]

lemma entry_heartbeatCheck (g : GatewayServer R) (env : Surroundings) (x : Bytes) :
    (heartbeatCheck g env).board.entry x =
      if timedOut g.config env.unixMs (g.board.entry x).data then
        closeIn env.activityMs (g.board.entry x)
      else g.board.entry x := by
  have hsnapshot : (∃ e ∈ g.board.deviceSnapshot, e.1 = x ∧
      timedOut g.config env.unixMs e.2 = true) ↔
      timedOut g.config env.unixMs (g.board.entry x).data = true := by
    constructor
    · rintro ⟨⟨_, state⟩, hmem, rfl, hout⟩
      rw [mem_deviceSnapshot hmem]
      exact hout
    · intro hout
      have hon : (g.board.entry x).data.connected = true := (Bool.and_eq_true_iff.mp hout).1
      exact ⟨_, mem_deviceSnapshot_of_connected hon, rfl, hout⟩
  unfold heartbeatCheck
  rw [entry_closeSilents]
  simp only [hsnapshot]

/-- `session_cleanup` removes only devices that are not connected. -/
lemma connected_sessionCleanup (g : GatewayServer R) (env : Surroundings) (x : Bytes) :
    ((sessionCleanup g env).board.entry x).data.connected = (g.board.entry x).data.connected := by
  have hdevices : ∀ (l : List (Bytes × BlackboardEntry DeviceState)) (g' : GatewayServer R),
      ((l.map fun e => (e.1, e.2.data)).foldl (fun g' e =>
        if expired g.config env.unixMs e.2 then onBoard g' (DataBoard.removeDevice · e.1)
        else g') g').board.devices =
      l.foldl (fun m e => if expired g.config env.unixMs e.2.data then m.erase e.1 else m)
        g'.board.devices := by
    intro l
    induction l with
    | nil => exact fun _ => rfl
    | cons e l ih =>
        intro g'
        rw [List.map_cons, List.foldl_cons, ih, List.foldl_cons]
        split <;> rfl
  have hget : (sessionCleanup g env).board.devices[x]? =
      g.board.devices[x]?.filter fun e => ¬ expired g.config env.unixMs e.data = true := by
    unfold sessionCleanup DataBoard.deviceSnapshot
    rw [hdevices, OrderedMap.getElem?_eraseAll]
  unfold DataBoard.entry
  rw [Std.ExtTreeMap.getD_eq_getD_getElem?, hget, Std.ExtTreeMap.getD_eq_getD_getElem?]
  cases g.board.devices[x]? with
  | none => rfl
  | some e =>
      cases hexpired : expired g.config env.unixMs e.data with
      | false => simp [Option.filter, hexpired]
      | true =>
          have hoff : e.data.connected = false := by
            simpa using (Bool.and_eq_true_iff.mp hexpired).1
          simp [Option.filter, hexpired, hoff]

lemma gauge_sessionCleanup (g : GatewayServer R) (env : Surroundings) :
    gauge (sessionCleanup g env) = gauge g := by
  unfold sessionCleanup
  generalize g.board.deviceSnapshot = l
  have hloop : ∀ g' : GatewayServer R, gauge (l.foldl (fun g' e =>
      if expired g.config env.unixMs e.2 then onBoard g' (DataBoard.removeDevice · e.1)
      else g') g') =
        gauge g' := by
    induction l with
    | nil => exact fun _ => rfl
    | cons e l ih =>
        intro g'
        rw [List.foldl_cons, ih]
        split <;> rfl
  exact hloop g

end Gateway
end Damen
