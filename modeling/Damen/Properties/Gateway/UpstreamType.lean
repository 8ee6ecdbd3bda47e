import Damen.Properties.Gateway.TextSearch

/-!
# The type of a message from a device

`parse_upstream_json` does not read the field `type`.  It takes the first type, in a fixed order,
whose word stands in quotes anywhere in the text.  For a flat JSON object (`FlatJson.Object`) the
type it finds is the one of the field exactly if no name and no value announces a type tried
earlier, and the word itself is not hidden behind escapes (`upstream_type_follows_iff`).
-/

namespace Damen
namespace Gateway

/-- The types a device announces in a field `type`. -/
inductive UpstreamKind
  | hello
  | configUpdate
  | functionCallOutput
  | audioBoundary
  | bye
  | ping

namespace UpstreamKind

def word : UpstreamKind → String
  | hello => "hello"
  | configUpdate => "config_update"
  | functionCallOutput => "function_call_output"
  | audioBoundary => "audio_boundary"
  | bye => "bye"
  | ping => "ping"

def messageType : UpstreamKind → GatewayMessageType
  | hello => .deviceHello
  | configUpdate => .deviceConfigUpdate
  | functionCallOutput => .deviceFunctionCallOutput
  | audioBoundary => .deviceAudioBoundary
  | bye => .deviceBye
  | ping => .devicePing

/-- The words by which a type is recognised. -/
def words : UpstreamKind → List String
  | hello => ["hello", "product_id"]
  | kind => [kind.word]

/-- The words that are looked for before those of a type. -/
def earlier : UpstreamKind → List String
  | hello => []
  | configUpdate => ["hello", "product_id"]
  | functionCallOutput => ["hello", "product_id", "config_update"]
  | audioBoundary => ["hello", "product_id", "config_update", "function_call_output"]
  | bye => ["hello", "product_id", "config_update", "function_call_output", "audio_boundary"]
  | ping =>
      ["hello", "product_id", "config_update", "function_call_output", "audio_boundary", "bye"]

lemma word_mem_words (kind : UpstreamKind) : kind.word ∈ kind.words := by
  cases kind <;> simp [word, words]

lemma isWord_words (kind : UpstreamKind) : ∀ w ∈ kind.words, FlatJson.IsWord (text w) := by
  cases kind <;> decide

lemma isWord_earlier (kind : UpstreamKind) : ∀ w ∈ kind.earlier, FlatJson.IsWord (text w) := by
  cases kind <;> decide

end UpstreamKind

lemma type_parseUpstreamJson (peerId payload : Bytes) (timestampMs : UInt64) :
    (parseUpstreamJson peerId payload timestampMs).type =
      if mentions payload "hello" ∨ mentions payload "product_id" then .deviceHello
      else (announcedType payload).getD .deviceAudioFrame := by
  rw [parseUpstreamJson]
  split
  · rfl
  · cases announcedType payload <;> rfl

/-- The first word that is found decides. -/
lemma type_eq_messageType_iff (kind : UpstreamKind) (peerId payload : Bytes)
    (timestampMs : UInt64) :
    (parseUpstreamJson peerId payload timestampMs).type = kind.messageType ↔
      (∃ w ∈ kind.words, mentions payload w) ∧ ∀ w ∈ kind.earlier, ¬ mentions payload w := by
  rw [type_parseUpstreamJson, announcedType]
  cases kind <;>
    simp only [UpstreamKind.messageType, UpstreamKind.words, UpstreamKind.word,
      UpstreamKind.earlier, List.mem_cons, List.not_mem_nil, or_false, exists_eq_or_imp,
      exists_eq_left, forall_eq_or_imp, forall_eq] <;>
    grind

/-- A name or a value of the object ends in the word. -/
def Announces (o : FlatJson.Object) (word : String) : Prop :=
  ∃ s ∈ o.strings, FlatJson.EndsIn (text word) s

instance (o : FlatJson.Object) (word : String) : Decidable (Announces o word) :=
  inferInstanceAs (Decidable (∃ s ∈ o.strings, FlatJson.quote :: text word <:+
    FlatJson.quote :: FlatJson.written s))

lemma mentions_written_iff {word : String} (hword : FlatJson.IsWord (text word))
    (o : FlatJson.Object) :
    mentions o.written word ↔ Announces o word := by
  rw [mentions_iff, FlatJson.quoted_infix_iff hword, Announces]

/-- A field of the object named `type` that carries the word of the kind. -/
structure TypeField (o : FlatJson.Object) (f : FlatJson.Field) (kind : UpstreamKind) : Prop where
  mem : f ∈ o.fields
  name : FlatJson.value f.name = text "type"
  value : FlatJson.value f.value = text kind.word

/-- The word is found where the field writes it without escapes. -/
lemma TypeField.announces {o : FlatJson.Object} {f : FlatJson.Field} {kind : UpstreamKind}
    (h : TypeField o f kind) (hplain : FlatJson.Plain f.value) : Announces o kind.word :=
  (o.exists_mem_strings).mpr ⟨f, h.mem, .inr (h.value ▸ hplain.endsIn)⟩

/-- The type a message gets is the one of its field `type` exactly if no name and no value announces
a type that is tried earlier; a word written with escapes is not seen. -/
theorem upstream_type_follows_iff (o : FlatJson.Object) (f : FlatJson.Field) (kind : UpstreamKind)
    (h : TypeField o f kind) (peerId : Bytes) (timestampMs : UInt64) :
    (parseUpstreamJson peerId o.written timestampMs).type = kind.messageType ↔
      (FlatJson.Plain f.value ∨ ∃ w ∈ kind.words, Announces o w) ∧
        ∀ w ∈ kind.earlier, ¬ Announces o w := by
  have hseen : (∃ w ∈ kind.words, mentions o.written w) ↔
      FlatJson.Plain f.value ∨ ∃ w ∈ kind.words, Announces o w := by
    constructor
    · rintro ⟨w, hw, hfound⟩
      exact .inr ⟨w, hw, (mentions_written_iff (kind.isWord_words w hw) o).mp hfound⟩
    · rintro (hplain | ⟨w, hw, hannounced⟩)
      · exact ⟨kind.word, kind.word_mem_words,
          (mentions_written_iff (kind.isWord_words _ kind.word_mem_words) o).mpr
            (h.announces hplain)⟩
      · exact ⟨w, hw, (mentions_written_iff (kind.isWord_words w hw) o).mpr hannounced⟩
  have hearlier : (∀ w ∈ kind.earlier, ¬ mentions o.written w) ↔
      ∀ w ∈ kind.earlier, ¬ Announces o w :=
    forall₂_congr fun w hw => (mentions_written_iff (kind.isWord_earlier w hw) o).not
  rw [type_eq_messageType_iff, hseen, hearlier]

/-- A field written without blanks and escapes. -/
def plainField (name value : String) (hname : FlatJson.NeedsNoEscape (text name))
    (hvalue : FlatJson.NeedsNoEscape (text value)) : FlatJson.Field where
  name := FlatJson.plainString (text name) hname
  value := FlatJson.plainString (text value) hvalue

theorem upstream_type_follows_iff_ping :
    let typeField := plainField "type" "ping" (by decide) (by decide)
    let o : FlatJson.Object :=
      { first := typeField, others := [plainField "device_id" "d" (by decide) (by decide)] }
    o.written = text "\x7b\"type\":\"ping\",\"device_id\":\"d\"\x7d" ∧
      (parseUpstreamJson [] o.written 0).type = .devicePing :=
  ⟨by decide, (upstream_type_follows_iff _ (plainField "type" "ping" (by decide) (by decide)) .ping
    ⟨List.mem_cons_self, by decide, by decide⟩ [] 0).mpr ⟨.inl (FlatJson.plain_plainString _), by
      decide⟩⟩

/-- A goodbye whose text says hello is taken for a hello. -/
theorem goodbye_taken_for_hello :
    let typeField := plainField "type" "bye" (by decide) (by decide)
    let o : FlatJson.Object :=
      { first := typeField, others := [plainField "text" "hello" (by decide) (by decide)] }
    TypeField o typeField .bye ∧ (∀ f ∈ o.fields, FlatJson.value f.name ≠ text "product_id") ∧
      o.written = text "\x7b\"type\":\"bye\",\"text\":\"hello\"\x7d" ∧
      (parseUpstreamJson [] o.written 0).type = .deviceHello :=
  ⟨⟨List.mem_cons_self, by decide, by decide⟩, by decide, by decide, by decide⟩

end Gateway
end Damen
