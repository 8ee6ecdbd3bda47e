import Mathlib.Data.List.Infix

/-!
# Flat JSON objects

A JSON object whose values are strings, as it is written: with blanks where the grammar allows them,
and every character of a string in one of the ways it can be written.  `value` is the text a string
stands for.

A program that looks for a quoted word in the text of such an object finds it in three ways: as a
name, as a value, and at the end of a name or value behind an escaped quote (`quoted_infix_iff`).
-/

namespace FlatJson

/-! ## Strings -/

def quote : UInt8 := 0x22

def backslash : UInt8 := 0x5C

inductive Blank
  | space
  | tab
  | lineFeed
  | carriageReturn

def Blank.byte : Blank → UInt8
  | space => 0x20
  | tab => 0x09
  | lineFeed => 0x0A
  | carriageReturn => 0x0D

/-- What may stand behind a backslash, apart from `u`. -/
inductive Escape
  | quote
  | backslash
  | slash
  | backspace
  | formFeed
  | lineFeed
  | carriageReturn
  | tab

def Escape.letter : Escape → UInt8
  | quote => 0x22
  | backslash => 0x5C
  | slash => 0x2F
  | backspace => 0x62
  | formFeed => 0x66
  | lineFeed => 0x6E
  | carriageReturn => 0x72
  | tab => 0x74

/-- The byte an escape stands for. -/
def Escape.byte : Escape → UInt8
  | quote => 0x22
  | backslash => 0x5C
  | slash => 0x2F
  | backspace => 0x08
  | formFeed => 0x0C
  | lineFeed => 0x0A
  | carriageReturn => 0x0D
  | tab => 0x09

structure HexDigit where
  byte : UInt8
  hex : (0x30 ≤ byte ∧ byte ≤ 0x39) ∨ (0x41 ≤ byte ∧ byte ≤ 0x46) ∨ (0x61 ≤ byte ∧ byte ≤ 0x66)

def HexDigit.digit (d : HexDigit) : ℕ :=
  if d.byte ≤ 0x39 then d.byte.toNat - 0x30
  else if d.byte ≤ 0x46 then d.byte.toNat - 0x41 + 10
  else d.byte.toNat - 0x61 + 10

/-- A character of a string, as it is written. -/
inductive Symbol
  | plain (b : UInt8) (h : 0x20 ≤ b ∧ b ≠ quote ∧ b ≠ backslash)
  | escape (e : Escape)
  | unicode (a b c d : HexDigit)

def Symbol.written : Symbol → List UInt8
  | plain b _ => [b]
  | escape e => [backslash, e.letter]
  | unicode a b c d => [backslash, 0x75, a.byte, b.byte, c.byte, d.byte]

abbrev JsonString := List Symbol

/-- The text between the quotes. -/
def written (s : JsonString) : List UInt8 := s.flatMap Symbol.written

/-- The string literal. -/
def literal (s : JsonString) : List UInt8 := quote :: (written s ++ [quote])

/-- The bytes of a code point; a lone surrogate stands for the replacement character. -/
def utf8 (code : ℕ) : List UInt8 :=
  String.utf8EncodeChar (if code.isValidChar then Char.ofNat code else Char.ofNat 0xFFFD)

def codeUnit (a b c d : HexDigit) : ℕ := ((a.digit * 16 + b.digit) * 16 + c.digit) * 16 + d.digit

/-- The bytes a string stands for.  Two escapes that are a surrogate pair make one character. -/
def value : JsonString → List UInt8
  | [] => []
  | .plain b _ :: s => b :: value s
  | .escape e :: s => e.byte :: value s
  | .unicode a b c d :: .unicode a' b' c' d' :: s =>
      let high := codeUnit a b c d
      let low := codeUnit a' b' c' d'
      if 0xD800 ≤ high ∧ high < 0xDC00 ∧ 0xDC00 ≤ low ∧ low < 0xE000 then
        utf8 (0x10000 + (high - 0xD800) * 0x400 + (low - 0xDC00)) ++ value s
      else utf8 high ++ value (.unicode a' b' c' d' :: s)
  | .unicode a b c d :: s => utf8 (codeUnit a b c d) ++ value s

/-- Written without escapes. -/
def Plain (s : JsonString) : Prop := ∀ c ∈ s, ∃ b h, c = Symbol.plain b h

lemma Plain.value_eq_written {s : JsonString} (h : Plain s) : value s = written s := by
  induction s with
  | nil => rfl
  | cons c s ih =>
      obtain ⟨⟨b, hb, rfl⟩, hs⟩ := List.forall_mem_cons.mp h
      rw [value, ih hs]
      rfl

/-- A text without quotes, backslashes and control characters. -/
def NeedsNoEscape (w : List UInt8) : Prop := ∀ b ∈ w, 0x20 ≤ b ∧ b ≠ quote ∧ b ≠ backslash

instance (w : List UInt8) : Decidable (NeedsNoEscape w) := List.decidableBAll _ _

/-- The text, written as it is. -/
def plainString (w : List UInt8) (h : NeedsNoEscape w) : JsonString := w.pmap Symbol.plain h

lemma plain_plainString {w : List UInt8} (h : NeedsNoEscape w) : Plain (plainString w h) := by
  intro c hc
  obtain ⟨b, hb, rfl⟩ := List.mem_pmap.mp hc
  exact ⟨b, h b hb, rfl⟩

/-! ## Objects -/

structure Field where
  beforeName : List Blank := []
  name : JsonString
  afterName : List Blank := []
  beforeValue : List Blank := []
  value : JsonString
  afterValue : List Blank := []

def blanks (l : List Blank) : List UInt8 := l.map Blank.byte

def Field.written (f : Field) : List UInt8 :=
  blanks f.beforeName ++ literal f.name ++ blanks f.afterName ++ [0x3A] ++ blanks f.beforeValue ++
    literal f.value ++ blanks f.afterValue

/-- An object with at least one field. -/
structure Object where
  before : List Blank := []
  first : Field
  others : List Field
  after : List Blank := []

def Object.fields (o : Object) : List Field := o.first :: o.others

def Object.written (o : Object) : List UInt8 :=
  blanks o.before ++ [0x7B] ++ o.first.written ++ (o.others.flatMap fun f => 0x2C :: f.written) ++
    [0x7D] ++ blanks o.after

/-- The strings of an object, names and values. -/
def Object.strings (o : Object) : List JsonString := o.fields.flatMap fun f => [f.name, f.value]

lemma Object.exists_mem_strings {P : JsonString → Prop} (o : Object) :
    (∃ s ∈ o.strings, P s) ↔ ∃ f ∈ o.fields, P f.name ∨ P f.value := by
  simp only [Object.strings, List.mem_flatMap, List.mem_cons, List.not_mem_nil, or_false]
  constructor
  · rintro ⟨s, ⟨f, hf, rfl | rfl⟩, hs⟩
    · exact ⟨f, hf, .inl hs⟩
    · exact ⟨f, hf, .inr hs⟩
  · rintro ⟨f, hf, hs | hs⟩
    · exact ⟨f.name, ⟨f, hf, .inl rfl⟩, hs⟩
    · exact ⟨f.value, ⟨f, hf, .inr rfl⟩, hs⟩

/-! ## Quoted words in the text of an object -/

/-- A word: lower-case letters and underscores. -/
def IsWord (w : List UInt8) : Prop := ∀ b ∈ w, b = 0x5F ∨ 0x61 ≤ b ∧ b ≤ 0x7A

instance (w : List UInt8) : Decidable (IsWord w) := List.decidableBAll _ _

/-- The quoted word. -/
def quoted (w : List UInt8) : List UInt8 := quote :: (w ++ [quote])

/-- The string as written is the word, or ends in the word behind an escaped quote. -/
def EndsIn (w : List UInt8) (s : JsonString) : Prop := quote :: w <:+ quote :: written s

/-- What stands between the strings of an object. -/
def IsSeparator (b : UInt8) : Prop :=
  (∃ blank : Blank, b = blank.byte) ∨ b ∈ [0x2C, 0x3A, 0x7B, 0x7D]

/-- The text ends, or goes on with a separator. -/
def Separated (rest : List UInt8) : Prop := ∀ b ∈ rest.head?, IsSeparator b

variable {w : List UInt8}

lemma IsWord.ne_backslash (hw : IsWord w) : backslash ∉ w := by
  intro h
  have := hw _ h
  revert this
  decide

variable {b : UInt8} {rest : List UInt8}

lemma IsWord.not_separator (hw : IsWord w) (hb : b ∈ w ++ [quote]) : ¬ IsSeparator b := by
  have hchars : b ∈ w → b = 0x5F ∨ 0x61 ≤ b ∧ b ≤ 0x7A := hw b
  rintro (⟨blank, rfl⟩ | hsep)
  · cases blank <;> grind [Blank.byte, quote]
  · grind [quote]

lemma quoted_infix_cons (hb : b ≠ quote) (rest : List UInt8) :
    quoted w <:+: b :: rest ↔ quoted w <:+: rest := by
  rw [List.infix_cons_iff, quoted, List.cons_prefix_cons]
  simp [hb.symm]

lemma suffix_cons_of_ne (hb : b ≠ quote) (rest : List UInt8) :
    quote :: w <:+ b :: rest ↔ quote :: w <:+ rest := by
  rw [List.suffix_cons_iff, List.cons.injEq]
  simp [hb.symm]

lemma HexDigit.ne_quote (d : HexDigit) : d.byte ≠ quote := by
  have := d.hex
  grind [quote]

/-- Behind an opening quote stands the quoted word exactly if the string is the word. -/
lemma word_prefix_iff (hw : IsWord w) (s : JsonString) (rest : List UInt8) :
    w ++ [quote] <+: written s ++ quote :: rest ↔ w = written s := by
  induction s generalizing w with
  | nil =>
      cases w with
      | nil => simp [written]
      | cons a w =>
          have ha : a ≠ quote := by
            rintro rfl
            exact absurd (hw _ List.mem_cons_self) (by decide)
          simp [written, ha]
  | cons c s ih =>
      cases w with
      | nil =>
          -- no way to write a character starts with a quote
          cases c with
          | plain b hb => simp [written, Symbol.written, hb.2.1.symm]
          | escape e => simp [written, Symbol.written, show quote ≠ backslash by decide]
          | unicode a b c d => simp [written, Symbol.written, show quote ≠ backslash by decide]
      | cons a w =>
          have ha : a ≠ backslash := fun h => hw.ne_backslash (h ▸ List.mem_cons_self)
          have ih := ih fun b hb => hw b (List.mem_cons_of_mem _ hb)
          cases c with
          | plain b hb => simpa [written, Symbol.written] using fun _ => ih
          | escape e => simp [written, Symbol.written, ha]
          | unicode a b c d => simp [written, Symbol.written, ha]

/-- Inside a string the quoted word starts at an escaped quote, and ends where the string does. -/
lemma quoted_infix_written (hw : IsWord w) (s : JsonString) (rest : List UInt8) :
    quoted w <:+: written s ++ quote :: rest ↔
      quote :: w <:+ written s ∨ quoted w <:+: quote :: rest := by
  induction s with
  | nil => simp [written]
  | cons c s ih =>
      have hcons : written (c :: s) = c.written ++ written s := List.flatMap_cons
      have hback : backslash ≠ quote := by decide
      rw [hcons]
      cases c with
      | plain b hb =>
          simp only [Symbol.written, List.cons_append, List.nil_append]
          rw [quoted_infix_cons hb.2.1, suffix_cons_of_ne hb.2.1, ih]
      | escape e =>
          simp only [Symbol.written, List.cons_append, List.nil_append]
          rw [quoted_infix_cons hback, suffix_cons_of_ne hback]
          by_cases he : e.letter = quote
          · rw [he, List.infix_cons_iff, List.suffix_cons_iff, ih, quoted, List.cons_prefix_cons,
              word_prefix_iff hw, List.cons.injEq, or_assoc]
          · rw [quoted_infix_cons he, suffix_cons_of_ne he, ih]
      | unicode a b c d =>
          have hu : (0x75 : UInt8) ≠ quote := by decide
          simp only [Symbol.written, List.cons_append, List.nil_append]
          simp only [quoted_infix_cons, suffix_cons_of_ne, ne_eq, hback, hu, HexDigit.ne_quote,
            not_false_eq_true, ih]

/-- A string that a separator follows. -/
lemma quoted_infix_literal (hw : IsWord w) (s : JsonString) (hrest : Separated rest) :
    quoted w <:+: literal s ++ rest ↔ EndsIn w s ∨ quoted w <:+: rest := by
  have hclosing : quoted w <:+: quote :: rest ↔ quoted w <:+: rest := by
    rw [List.infix_cons_iff, or_iff_right]
    -- what follows the closing quote starts neither a word nor a quote
    intro h
    have h := (List.cons_prefix_cons.mp h).2
    cases rest with
    | nil => simp at h
    | cons b rest =>
        obtain ⟨a, v, hv⟩ := List.exists_cons_of_ne_nil (List.append_ne_nil_of_right_ne_nil w
          (List.cons_ne_nil quote []))
        rw [hv, List.cons_prefix_cons] at h
        exact hw.not_separator (hv ▸ List.mem_cons_self) (h.1 ▸ hrest b rfl)
  have hassoc : literal s ++ rest = quote :: (written s ++ quote :: rest) := by
    simp [literal]
  rw [hassoc, List.infix_cons_iff, quoted_infix_written hw, hclosing, EndsIn, List.suffix_cons_iff,
    quoted, List.cons_prefix_cons, word_prefix_iff hw, List.cons.injEq, or_assoc]

lemma quoted_infix_separators {seps : List UInt8} (hseps : ∀ b ∈ seps, IsSeparator b)
    (rest : List UInt8) : quoted w <:+: seps ++ rest ↔ quoted w <:+: rest := by
  induction seps with
  | nil => rfl
  | cons b seps ih =>
      obtain ⟨hb, hseps⟩ := List.forall_mem_cons.mp hseps
      have hne : b ≠ quote := by
        rintro rfl
        have hnil : IsWord [] := by decide
        exact hnil.not_separator (List.mem_cons_self) hb
      rw [List.cons_append, quoted_infix_cons hne, ih hseps]

lemma separator_blanks (l : List Blank) : ∀ b ∈ blanks l, IsSeparator b := by
  intro b hb
  obtain ⟨blank, -, rfl⟩ := List.mem_map.mp hb
  exact .inl ⟨blank, rfl⟩

lemma Separated.blanks (hrest : Separated rest) (l : List Blank) :
    Separated (FlatJson.blanks l ++ rest) := by
  cases l with
  | nil => exact hrest
  | cons blank l =>
      intro b hb
      exact .inl ⟨blank, (Option.some.inj hb).symm⟩

lemma separated_cons (hb : b ∈ [0x2C, 0x3A, 0x7B, 0x7D]) (rest : List UInt8) :
    Separated (b :: rest) := by
  intro a ha
  exact .inr (Option.some.inj ha ▸ hb)

lemma quoted_infix_field (hw : IsWord w) (f : Field) (hrest : Separated rest) :
    quoted w <:+: f.written ++ rest ↔
      EndsIn w f.name ∨ EndsIn w f.value ∨ quoted w <:+: rest := by
  have hcolon : Separated (0x3A :: (blanks f.beforeValue ++ (literal f.value ++
      (blanks f.afterValue ++ rest)))) := separated_cons (by decide) _
  simp only [Field.written, List.append_assoc, List.cons_append, List.nil_append]
  rw [quoted_infix_separators (separator_blanks _), quoted_infix_literal hw _ (hcolon.blanks _),
    quoted_infix_separators (separator_blanks _), quoted_infix_cons (by decide),
    quoted_infix_separators (separator_blanks _), quoted_infix_literal hw _ (hrest.blanks _),
    quoted_infix_separators (separator_blanks _)]

lemma Separated.others (hrest : Separated rest) (fields : List Field) :
    Separated ((fields.flatMap fun f => 0x2C :: f.written) ++ rest) := by
  cases fields with
  | nil => exact hrest
  | cons f fields => exact separated_cons (by decide) _

/-- The fields behind the first, each behind its comma. -/
lemma quoted_infix_others (hw : IsWord w) (fields : List Field) (hrest : Separated rest) :
    quoted w <:+: (fields.flatMap fun f => 0x2C :: f.written) ++ rest ↔
      (∃ f ∈ fields, EndsIn w f.name ∨ EndsIn w f.value) ∨ quoted w <:+: rest := by
  induction fields with
  | nil => simp
  | cons f fields ih =>
      rw [List.flatMap_cons, List.cons_append, List.cons_append, List.append_assoc,
        quoted_infix_cons (by decide), quoted_infix_field hw f (hrest.others fields), ih]
      simp only [List.mem_cons, exists_eq_or_imp, or_assoc]

/-- A quoted word stands in the text of an object exactly if a name or a value ends in it. -/
theorem quoted_infix_iff (hw : IsWord w) (o : Object) :
    quoted w <:+: o.written ↔ ∃ s ∈ o.strings, EndsIn w s := by
  have hend : Separated (0x7D :: blanks o.after) := separated_cons (by decide) _
  have hnot : ¬ quoted w <:+: blanks o.after := by
    rw [← List.append_nil (blanks o.after), quoted_infix_separators (separator_blanks _)]
    simp [quoted]
  simp only [Object.written, List.append_assoc, List.cons_append, List.nil_append]
  rw [quoted_infix_separators (separator_blanks _), quoted_infix_cons (by decide),
    quoted_infix_field hw _ (hend.others _), quoted_infix_others hw _ hend,
    quoted_infix_cons (by decide), or_iff_left hnot, o.exists_mem_strings]
  simp only [Object.fields, List.mem_cons, exists_eq_or_imp, or_assoc]

lemma Plain.endsIn {s : JsonString} (h : Plain s) : EndsIn (value s) s := by
  rw [EndsIn, h.value_eq_written]

end FlatJson
