import Damen.Properties.Gateway.TextSearch

/-!
# Text for a device, read back

`format_downstream_json` copies the payload and the session id between quotes and escapes nothing.
Read back by `extract_json_field`, both come out as they went in exactly if neither holds a quote
(`downstream_fields_survive_iff`).
-/

namespace Damen
namespace Gateway

open FlatJson (quote)

/-- The key under which a message carries its payload as text. -/
def payloadKey : GatewayMessageType → Option String
  | .toDeviceStatus => some "status"
  | .toDeviceEvent => some "event"
  | .toDeviceText => some "content"
  | _ => none

/-- What stands between the quotes of a message behind its opening brace. -/
def downstreamPieces (typeName key : String) (payload sessionId : Bytes) : List Bytes :=
  [text "type", text ":", text typeName, text ",", text key, text ":", payload, text ",",
    text "session_id", text ":", sessionId, text "\x7d"]

variable {key : String}

lemma payloadKey_eq_some {type : GatewayMessageType} (h : payloadKey type = some key) :
    type = .toDeviceStatus ∧ key = "status" ∨ type = .toDeviceEvent ∧ key = "event" ∨
      type = .toDeviceText ∧ key = "content" := by
  cases type <;> simp_all [payloadKey]

lemma formatDownstreamJson_eq {msg : GatewayMessage} (h : payloadKey msg.type = some key) :
    ∃ typeName, quote ∉ text typeName ∧ formatDownstreamJson msg =
      text "\x7b" ++ pieces (downstreamPieces typeName key msg.payload msg.sessionId) := by
  rcases payloadKey_eq_some h with ⟨htype, rfl⟩ | ⟨htype, rfl⟩ | ⟨htype, rfl⟩ <;>
    simp only [formatDownstreamJson, htype, List.append_assoc]
  · exact ⟨"status", by decide, rfl⟩
  · exact ⟨"event", by decide, rfl⟩
  · exact ⟨"text", by decide, rfl⟩

/-- The payload and the session id are found under their keys.  A payload or type name that reads
like a key is no match, since no colon follows it. -/
lemma fieldAmong_downstreamPieces (typeName : String)
    (hkey : text key ∉ [text "type", text ":", text ",", text "session_id"])
    (payload sessionId : Bytes) :
    fieldAmong (text key) (downstreamPieces typeName key payload sessionId) = some payload ∧
      fieldAmong (text "session_id") (downstreamPieces typeName key payload sessionId) =
        some sessionId := by
  simp only [List.mem_cons, List.not_mem_nil, or_false, not_or] at hkey
  have hcomma : text "," ≠ text ":" := by decide
  have htype : text "type" ≠ text "session_id" := by decide
  have hcolon' : text ":" ≠ text "session_id" := by decide
  have hcomma' : text "," ≠ text "session_id" := by decide
  constructor
  · simp [fieldAmong, downstreamPieces, hcomma, Ne.symm hkey.1, Ne.symm hkey.2.1,
      Ne.symm hkey.2.2.1]
  · simp [fieldAmong, downstreamPieces, hcomma, htype, hcolon', hcomma', hkey.2.2.2]

lemma quote_notMem_downstreamPieces {typeName : String} {payload sessionId : Bytes}
    (htype : quote ∉ text typeName) (hkey : quote ∉ text key) (hpayload : quote ∉ payload)
    (hsession : quote ∉ sessionId) :
    ∀ p ∈ downstreamPieces typeName key payload sessionId, quote ∉ p := by
  have hfixed : ∀ p ∈ [text "type", text ":", text ",", text "session_id", text "\x7d"],
      quote ∉ p := by
    decide
  simp_all [downstreamPieces]

/-- What is written between quotes without escapes is read back exactly if it holds no quote. -/
theorem downstream_fields_survive_iff (msg : GatewayMessage) (key : String)
    (hkey : payloadKey msg.type = some key) :
    extractJsonField (formatDownstreamJson msg) key = msg.payload ∧
        extractJsonField (formatDownstreamJson msg) "session_id" = msg.sessionId ↔
      quote ∉ msg.payload ∧ quote ∉ msg.sessionId := by
  constructor
  · rintro ⟨hpayload, hsession⟩
    rw [← hpayload, ← hsession]
    exact ⟨quote_notMem_extractJsonField _ _, quote_notMem_extractJsonField _ _⟩
  · rintro ⟨hpayload, hsession⟩
    have hword : quote ∉ text key ∧ text key ∉ [text "type", text ":", text ",",
        text "session_id"] := by
      rcases payloadKey_eq_some hkey with ⟨-, rfl⟩ | ⟨-, rfl⟩ | ⟨-, rfl⟩ <;> decide
    obtain ⟨typeName, hname, heq⟩ := formatDownstreamJson_eq hkey
    have hps := quote_notMem_downstreamPieces hname hword.1 hpayload hsession
    obtain ⟨hfound, hfoundSession⟩ :=
      fieldAmong_downstreamPieces typeName hword.2 msg.payload msg.sessionId
    rw [heq]
    exact ⟨extractJsonField_pieces hword.1 (by decide) hps hfound,
      extractJsonField_pieces (by decide) (by decide) hps hfoundSession⟩

theorem downstream_fields_survive_iff_session_id :
    let msg : GatewayMessage :=
      { type := .toDeviceText, payload := text "session_id", sessionId := text "s1" }
    extractJsonField (formatDownstreamJson msg) "content" = text "session_id" ∧
      extractJsonField (formatDownstreamJson msg) "session_id" = text "s1" :=
  (downstream_fields_survive_iff
    { type := .toDeviceText, payload := text "session_id",
      sessionId := text "s1" } "content" rfl).mpr
    (by decide)

/-- Of a payload with a quotation only the part in front of it comes back. -/
theorem downstream_quotation_cut :
    let msg : GatewayMessage :=
      { type := .toDeviceText, payload := text "say \"hi\"", sessionId := text "s1" }
    extractJsonField (formatDownstreamJson msg) "content" = text "say " ∧
      extractJsonField (formatDownstreamJson msg) "content" ≠ msg.payload := by
  decide

end Gateway
end Damen
