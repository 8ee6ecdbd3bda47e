import Damen.Model.Gateway.Board
import Damen.Model.Outbound

/-!
# The gateway server

`gateway/gateway_server.hpp` with the built-in listeners of `hello_listener.hpp`,
`audio_listener.hpp`, `device_listener.hpp` and `forward_listener.hpp`: what the callbacks of the
transport do, the dispatch of a message to its listener, the work the listeners leave for the end of
a batch, and the periodic checks.

The rate limiter is a parameter, as listeners know it: a state and `check`.  What a call finds
outside the gateway is in `Surroundings`.  What it does outside is a list of `Effect`s, in order;
log lines are left out.  Listeners of the application are left out, and the downstream callback is
taken to be set.
-/

namespace Damen
namespace Gateway

open SessionManager Metrics

/-! ## Parts -/

/-- The fields of `GatewayConfig` that are read once the server runs. -/
structure GatewayConfig where
  heartbeatSeconds : UInt32 := 60
  /-- `session_timeout`, in seconds. -/
  sessionTimeout : UInt64 := 3600

structure RateLimitResult where
  allowed : Bool := true
  errorCode : Bytes := []

/-- `RateLimiter::check`: time, device, dimension and cost. -/
structure RateLimiter (R : Type) where
  check : R → TimePoint → Bytes → Bytes → UInt64 → R × RateLimitResult

structure AuthResult where
  ok : Bool := false
  errorCode : Bytes := []

/-- The clocks, and whether the transport takes a message for a peer. -/
structure Surroundings where
  /-- The steady clock, for the rate limiter. -/
  steady : TimePoint := 0
  /-- `unix_millis`. -/
  unixMs : UInt64 := 0
  /-- The time of day as it gets into a session id. -/
  sessionMs : UInt64 := 0
  /-- The time of day as it is noted for an activity. -/
  activityMs : UInt64 := 0
  accepts : Bytes → Bytes → Bool := fun _ _ => true

inductive Effect
  /-- A text is handed to the transport. -/
  | send (peerId wire : Bytes)
  /-- The downstream callback. -/
  | downstream (msg : GatewayMessage)
  /-- `create_session` is called. -/
  | createSession (deviceId sessionId : Bytes)
  deriving DecidableEq

/-- What `m_schedule_io` puts off. -/
inductive IoOp
  | sendToDevice (deviceId : Bytes) (msg : GatewayMessage)
  | downstream (msg : GatewayMessage)

/-- `CopyChannel`, up to the waiting: a queue like `BlockingQueue`. -/
abbrev CopyChannel (α : Type) := BlockingQueue α

/-- `swap_out`: everything at once. -/
def CopyChannel.swapOut {α : Type} (channel : CopyChannel α) : CopyChannel α × List α :=
  ({ channel with items := [] }, channel.items)

structure GatewayServer (R : Type) where
  config : GatewayConfig := {}
  board : DataBoard := {}
  ratelimiter : R
  /-- The address of the session manager, which gets into session ids. -/
  address : UInt64 := 0
  inbox : CopyChannel GatewayMessage := { capacity := 32768 }
  pendingIo : List IoOp := []

variable {R : Type}

namespace GatewayServer

/-- A change of the board. -/
def onBoard (g : GatewayServer R) (f : DataBoard → DataBoard) : GatewayServer R :=
  { g with board := f g.board }

def scheduleIo (g : GatewayServer R) (op : IoOp) : GatewayServer R :=
  { g with pendingIo := g.pendingIo ++ [op] }

/-- `create_session`, with the session id. -/
def createSession (g : GatewayServer R) (deviceId : Bytes) (env : Surroundings) :
    GatewayServer R × Bytes :=
  let (board, sessionId) :=
    SessionManager.createSession g.board deviceId g.address env.sessionMs env.activityMs
  ({ g with board }, sessionId)

end GatewayServer

open GatewayServer (onBoard scheduleIo createSession)

/-- `send_to_device`: a device without a peer is addressed by its id. -/
def sendToDevice (g : GatewayServer R) (deviceId : Bytes) (msg : GatewayMessage)
    (env : Surroundings) : GatewayServer R × List Effect :=
  let wire := formatDownstreamJson msg
  if wire = [] then (g, [])
  else
    let g := onBoard g (DataBoard.device · deviceId)
    let peerId := (g.board.entry deviceId).data.peerId
    let peerId := if peerId = [] then deviceId else peerId
    if env.accepts peerId wire then
      -- the text was moved into the call, so its size is zero here
      (onBoard (onBoard g onMessageOut) (onBytesOut · 0), [.send peerId wire])
    else (g, [.send peerId wire])

/-! ## Listeners -/

/-- `do_authenticate`: the credentials have to be there. -/
def doAuthenticate (productId productKey _productSecret deviceName : Bytes) : AuthResult :=
  if productId = [] ∨ productKey = [] ∨ deviceName = [] then
    { ok := false, errorCode := text "AUTH_FAILED" }
  else { ok := true }

/-- The answer to a rejected `hello`. -/
def helloErr (g : GatewayServer R) (deviceId errorCode : Bytes) : GatewayServer R :=
  scheduleIo g (.sendToDevice deviceId
    { type := .toDeviceHelloErr, direction := .gatewayToDevice, deviceId, payload := errorCode })

/-- `HelloListener::on_auth_result`. -/
def onAuthResult (g : GatewayServer R) (msg : GatewayMessage) (result : AuthResult)
    (env : Surroundings) : GatewayServer R × List Effect :=
  let deviceId := msg.deviceId
  if ¬ result.ok then (helloErr (onBoard g onAuthFailure) deviceId result.errorCode, [])
  else
    let g := onBoard (onBoard g onAuthSuccess) onConnectionOpen
    let (g, sessionId) := createSession g deviceId env
    let g := scheduleIo g (.sendToDevice deviceId
      { type := .toDeviceHelloAck, direction := .gatewayToDevice, deviceId, sessionId })
    let g := scheduleIo g (.downstream
      { type := .deviceHello, direction := .downstreamOut, deviceId, sessionId,
        payload := msg.payload })
    (g, [.createSession deviceId sessionId])

/-- `HelloListener::on_hello`. -/
def onHello (limiter : RateLimiter R) (g : GatewayServer R) (msg : GatewayMessage)
    (env : Surroundings) : GatewayServer R × List Effect :=
  let productId := extractJsonField msg.payload "product_id"
  let productKey := extractJsonField msg.payload "product_key"
  let productSecret := extractJsonField msg.payload "product_secret"
  let deviceName := extractJsonField msg.payload "device_name"
  let (ratelimiter, rl) := limiter.check g.ratelimiter env.steady deviceName (text "connection") 1
  let g := { g with ratelimiter }
  if ¬ rl.allowed then (helloErr (onBoard g onRatelimitHit) deviceName rl.errorCode, [])
  else onAuthResult g msg (doAuthenticate productId productKey productSecret deviceName) env

/-- `AudioListener::on_audio_frame`. -/
def onAudioFrame (limiter : RateLimiter R) (g : GatewayServer R) (msg : GatewayMessage)
    (env : Surroundings) : GatewayServer R :=
  let size := UInt64.ofNat msg.payload.length
  let (ratelimiter, rl) :=
    limiter.check g.ratelimiter env.steady msg.deviceId (text "bandwidth") size
  let g := { g with ratelimiter }
  if ¬ rl.allowed then onBoard g onRatelimitHit
  else
    scheduleIo (onBoard g (recordBytesIn · msg.deviceId size env.activityMs)) (.downstream msg)

/-- `DeviceListener::on_bye`. -/
def onBye (g : GatewayServer R) (msg : GatewayMessage) (env : Surroundings) : GatewayServer R :=
  let g := onBoard g (closeSession · msg.deviceId env.activityMs)
  scheduleIo (onBoard g onConnectionClose) (.downstream msg)

/-- `DeviceListener::on_ping`. -/
def onPing (g : GatewayServer R) (msg : GatewayMessage) : GatewayServer R :=
  scheduleIo g (.sendToDevice msg.deviceId
    { type := .toDevicePong, direction := .gatewayToDevice, deviceId := msg.deviceId
      sessionId := msg.sessionId })

/-- `on_audio_boundary`, `on_config_update` and `on_function_call_output`. -/
def forward (g : GatewayServer R) (msg : GatewayMessage) : GatewayServer R :=
  scheduleIo g (.downstream msg)

/-- `process_one_message` with the built-in listeners. -/
def processOneMessage (limiter : RateLimiter R) (g : GatewayServer R) (msg : GatewayMessage)
    (env : Surroundings) : GatewayServer R × List Effect :=
  match msg.type with
  | .deviceHello => onHello limiter g msg env
  | .deviceAudioFrame => (onAudioFrame limiter g msg env, [])
  | .deviceBye => (onBye g msg env, [])
  | .devicePing => (onPing g msg, [])
  | .internalRateLimit => (onBoard g onRatelimitHit, [])
  | .deviceAudioBoundary | .deviceConfigUpdate | .deviceFunctionCallOutput => (forward g msg, [])
  | _ => (g, [])

/-- One operation that was put off. -/
def runIo (g : GatewayServer R) (op : IoOp) (env : Surroundings) : GatewayServer R × List Effect :=
  match op with
  | .sendToDevice deviceId msg => sendToDevice g deviceId msg env
  | .downstream msg => (g, [.downstream msg])

/-- The loop of `execute_pending_io`. -/
def runIos (g : GatewayServer R) (env : Surroundings) : List IoOp → GatewayServer R × List Effect
  | [] => (g, [])
  | op :: ops =>
      let (g, effects) := runIo g op env
      let (g, rest) := runIos g env ops
      (g, effects ++ rest)

def executePendingIo (g : GatewayServer R) (env : Surroundings) : GatewayServer R × List Effect :=
  runIos { g with pendingIo := [] } env g.pendingIo

/-- The loop of `process_message_batch`. -/
def processEach (limiter : RateLimiter R) (g : GatewayServer R) (env : Surroundings) :
    List GatewayMessage → GatewayServer R × List Effect
  | [] => (g, [])
  | msg :: batch =>
      let (g, effects) := processOneMessage limiter g msg env
      let (g, rest) := processEach limiter g env batch
      (g, effects ++ rest)

def processMessageBatch (limiter : RateLimiter R) (g : GatewayServer R)
    (batch : List GatewayMessage) (env : Surroundings) : GatewayServer R × List Effect :=
  let (g, effects) := processEach limiter g env batch
  let (g, rest) := executePendingIo g env
  (g, effects ++ rest)

/-! ## Callbacks of the transport -/

/-- `on_tight_message`: a device without a peer gets the sender for its peer. -/
def onTightMessage (g : GatewayServer R) (peerId payload : Bytes) (env : Surroundings) :
    GatewayServer R :=
  let msg := parseUpstreamJson peerId payload env.unixMs
  let g := onBoard g (DataBoard.modify · msg.deviceId fun e =>
    if e.data.peerId = [] then { e with data := { e.data with peerId } } else e)
  let g := onBoard (onBoard g onMessageIn) (onBytesIn · (UInt64.ofNat payload.length))
  { g with inbox := (g.inbox.tryPush msg).1 }

/-- A message from its arrival to the end of its batch, with what is found around the server at the
arrival and at the dispatch.  What else waits in the inbox is left there. -/
def handleUpstream (limiter : RateLimiter R) (g : GatewayServer R) (peerId payload : Bytes)
    (arrival dispatch : Surroundings) : GatewayServer R × List Effect :=
  processMessageBatch limiter (onTightMessage g peerId payload arrival)
    [parseUpstreamJson peerId payload arrival.unixMs] dispatch

/-- A message to a device about its own state. -/
def notice (type : GatewayMessageType) (deviceId : Bytes) (word : String) : GatewayMessage :=
  { type, direction := .gatewayToDevice, deviceId, payload := text word }

/-- The locked section of `on_tight_peer_event`, with `is_new`. -/
def markConnected (g : GatewayServer R) (id : Bytes) : GatewayServer R × Bool :=
  if (g.board.entry id).data.connected then (onBoard g (DataBoard.device · id), false)
  else
    (onBoard g (DataBoard.modify · id fun e =>
      { e with data := { e.data with connected := true, peerId := id } }), true)

/-- What `on_tight_peer_event` does behind it for a device that is new. -/
def welcome (g : GatewayServer R) (id : Bytes) (env : Surroundings) :
    GatewayServer R × List Effect :=
  let (g, sessionId) := createSession g id env
  let (g, event) := sendToDevice g id (notice .toDeviceEvent id "connected") env
  let (g, status) := sendToDevice g id (notice .toDeviceStatus id "idle") env
  (g, .createSession id sessionId :: (event ++ status))

/-- `on_tight_peer_event`. -/
def onTightPeerEvent (g : GatewayServer R) (id : Bytes) (state : LinkState) (env : Surroundings) :
    GatewayServer R × List Effect :=
  match state with
  | .online | .established =>
      let (g, isNew) := markConnected g id
      if isNew then welcome g id env else (g, [])
  | .closed => (onBoard g (DataBoard.markChanged · (deviceKey id)), [])
  | .handshake => (g, [])

/-! ## Periodic checks -/

/-- The device has been silent for longer than twice the heartbeat; the difference is unsigned. -/
def timedOut (config : GatewayConfig) (now : UInt64) (state : DeviceState) : Bool :=
  state.connected && decide (config.heartbeatSeconds.toUInt64 * 2000 < now - state.lastActivityMs)

/-- `heartbeat_check` for one device of the snapshot. -/
def closeSilent (env : Surroundings) (g : GatewayServer R) (deviceId : Bytes) : GatewayServer R :=
  let g := onBoard g (closeSession · deviceId env.activityMs)
  let g := onBoard g onConnectionClose
  onBoard g (DataBoard.markChanged · (deviceKey deviceId))

def heartbeatCheck (g : GatewayServer R) (env : Surroundings) : GatewayServer R :=
  g.board.deviceSnapshot.foldl
    (fun g' e => if timedOut g.config env.unixMs e.2 then closeSilent env g' e.1 else g') g

/-- The device is off and has been silent for longer than the session timeout. -/
def expired (config : GatewayConfig) (now : UInt64) (state : DeviceState) : Bool :=
  !state.connected && decide (config.sessionTimeout * 1000 < now - state.lastActivityMs)

def sessionCleanup (g : GatewayServer R) (env : Surroundings) : GatewayServer R :=
  g.board.deviceSnapshot.foldl
    (fun g' e => if expired g.config env.unixMs e.2 then
      onBoard g' (DataBoard.removeDevice · e.1) else g') g

/-! ## Runs -/

/-- What happens at the server.  A message is received by one thread and dispatched by another, so
other events may come in between. -/
inductive GatewayEvent
  | receive (peerId payload : Bytes) (env : Surroundings)
  | dispatch (msg : GatewayMessage) (env : Surroundings)
  /-- `execute_pending_io`. -/
  | finish (env : Surroundings)
  | link (deviceId : Bytes) (state : LinkState) (env : Surroundings)
  | heartbeat (env : Surroundings)
  | cleanup (env : Surroundings)

def gatewayStep (limiter : RateLimiter R) (g : GatewayServer R) :
    GatewayEvent → Except Empty (GatewayServer R × List Effect)
  | .receive peerId payload env => .ok (onTightMessage g peerId payload env, [])
  | .dispatch msg env => .ok (processOneMessage limiter g msg env)
  | .finish env => .ok (executePendingIo g env)
  | .link deviceId state env => .ok (onTightPeerEvent g deviceId state env)
  | .heartbeat env => .ok (heartbeatCheck g env, [])
  | .cleanup env => .ok (sessionCleanup g env, [])

end Gateway
end Damen
