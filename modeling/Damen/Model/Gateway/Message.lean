import Damen.Model.Wire

/-!
# The gateway's messages

`gateway/gateway_types.hpp`, and the functions of `gateway/gateway_server.hpp` that read a message
from the text a device sends and write the text for a device.  Strings are byte lists.

The text is searched for quoted words; there is no parser.  `parse_upstream_json` never fails, so
the message is its result.
-/

namespace Damen
namespace Gateway

inductive MessageDirection
  | deviceToGateway
  | gatewayToDevice
  | downstreamIn
  | downstreamOut
  deriving DecidableEq

inductive GatewayMessageType
  | deviceHello
  | deviceConfigUpdate
  | deviceFunctionCallOutput
  | deviceAudioFrame
  | deviceAudioBoundary
  | deviceBye
  | devicePing
  | toDeviceHelloAck
  | toDeviceHelloErr
  | toDeviceStatus
  | toDeviceEvent
  | toDeviceText
  | toDeviceFunctionCall
  | toDeviceConfigAck
  | toDeviceConfigErr
  | toDeviceAudioChunk
  | toDevicePong
  | internalSessionCreated
  | internalSessionClosed
  | internalRateLimit
  | internalAuthResult
  | internalHeartbeatTick
  deriving DecidableEq

structure GatewayMessage where
  type : GatewayMessageType := .deviceHello
  direction : MessageDirection := .deviceToGateway
  deviceId : Bytes := []
  sessionId : Bytes := []
  payload : Bytes := []
  timestampMs : UInt64 := 0
  deriving DecidableEq

/-- The bytes of a literal. -/
def text (s : String) : Bytes := s.toUTF8.data.toList

/-- `std::string::find`. -/
def find (needle : Bytes) : Bytes → Option ℕ
  | [] => if needle = [] then some 0 else none
  | b :: rest =>
      if needle.isPrefixOf (b :: rest) then some 0 else (find needle rest).map (· + 1)

/-- `json.find(word) != npos` for a quoted word. -/
def mentions (json : Bytes) (word : String) : Bool :=
  (find (text "\"" ++ text word ++ text "\"") json).isSome

/-- What stands between the place behind `search` and the next quote. -/
def fieldBehind (json search : Bytes) : Option Bytes :=
  (find search json).map fun pos =>
    let rest := json.drop (pos + search.length)
    match find (text "\"") rest with
    | none => []
    | some stop => rest.take stop

/-- `extract_json_field`: the value is looked for with and without a blank behind the colon. -/
def extractJsonField (json : Bytes) (key : String) : Bytes :=
  match fieldBehind json (text "\"" ++ text key ++ text "\":\"") with
  | some value => value
  | none => (fieldBehind json (text "\"" ++ text key ++ text "\": \"")).getD []

/-- The types other than `hello`, in the order they are tried, by the word that announces them. -/
def announcedType (json : Bytes) : Option GatewayMessageType :=
  if mentions json "config_update" then some .deviceConfigUpdate
  else if mentions json "function_call_output" then some .deviceFunctionCallOutput
  else if mentions json "audio_boundary" then some .deviceAudioBoundary
  else if mentions json "bye" then some .deviceBye
  else if mentions json "ping" then some .devicePing
  else none

/-- `parse_upstream_json`.  What announces no type is audio. -/
def parseUpstreamJson (peerId payload : Bytes) (timestampMs : UInt64) : GatewayMessage :=
  if mentions payload "hello" ∨ mentions payload "product_id" then
    let name := extractJsonField payload "device_name"
    { type := .deviceHello, deviceId := if name = [] then peerId else name, payload, timestampMs }
  else
    match announcedType payload with
    | some type => { type, deviceId := extractJsonField payload "device_id", payload, timestampMs }
    | none => { type := .deviceAudioFrame, deviceId := peerId, payload, timestampMs }

/-- `format_downstream_json`. -/
def formatDownstreamJson (msg : GatewayMessage) : Bytes :=
  let session := text ",\"session_id\":\"" ++ msg.sessionId ++ text "\"\x7d"
  match msg.type with
  | .toDeviceHelloAck =>
      text "\x7b\"type\":\"hello_ack\",\"device_id\":\"" ++ msg.deviceId ++ text "\"" ++ session
  | .toDeviceHelloErr =>
      text "\x7b\"type\":\"hello_err\",\"device_id\":\"" ++ msg.deviceId
        ++ text "\",\"body\":\x7b\"code\":\"" ++ msg.payload ++ text "\"\x7d\x7d"
  | .toDeviceStatus =>
      text "\x7b\"type\":\"status\",\"status\":\"" ++ msg.payload ++ text "\"" ++ session
  | .toDeviceEvent =>
      text "\x7b\"type\":\"event\",\"event\":\"" ++ msg.payload ++ text "\"" ++ session
  | .toDeviceText =>
      text "\x7b\"type\":\"text\",\"content\":\"" ++ msg.payload ++ text "\"" ++ session
  | .toDeviceFunctionCall => text "\x7b\"type\":\"function_call\"," ++ msg.payload ++ session
  | .toDeviceConfigAck => text "\x7b\"type\":\"config_update_ack\",\"result\":\"ok\"" ++ session
  | .toDeviceConfigErr =>
      text "\x7b\"type\":\"config_update_err\",\"code\":\"" ++ msg.payload ++ text "\"" ++ session
  | .toDevicePong => text "\x7b\"type\":\"pong\"" ++ session
  | _ => msg.payload

end Gateway
end Damen
