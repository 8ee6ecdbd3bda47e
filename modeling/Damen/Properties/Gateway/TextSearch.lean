import Damen.Framework.FlatJson
import Damen.Model.Gateway.Message

/-!
# The text search of the gateway

What the searches of `gateway/gateway_server.hpp` find.  A quoted word is found exactly if it stands
in the text (`mentions_iff`).  A text is cut by its quotes into pieces, and `extract_json_field`
returns the piece that follows the key and a colon (`fieldBehind_pieces`), whatever the pieces are
in a JSON reading of the text.
-/

namespace Damen
namespace Gateway

open FlatJson (quote)

lemma find_append (needle rest : Bytes) : find needle (needle ++ rest) = some 0 := by
  cases h : needle ++ rest with
  | nil => simp [find, (List.append_eq_nil_iff.mp h).1]
  | cons b tail =>
      have hprefix : needle.isPrefixOf (b :: tail) := by
        rw [List.isPrefixOf_iff_prefix, ← h]
        exact List.prefix_append needle rest
      rw [find, if_pos hprefix]

lemma find_cons {needle rest : Bytes} {b : UInt8} (h : ¬ needle <+: b :: rest) :
    find needle (b :: rest) = (find needle rest).map (· + 1) := by
  rw [find, if_neg (by rwa [List.isPrefixOf_iff_prefix])]

lemma find_isSome_iff (needle json : Bytes) : (find needle json).isSome ↔ needle <:+: json := by
  induction json with
  | nil =>
      by_cases h : needle = []
      · simp [find, h]
      · simp [find, h]
  | cons b rest ih =>
      rw [List.infix_cons_iff]
      by_cases h : needle <+: b :: rest
      · obtain ⟨tail, htail⟩ := h
        rw [← htail, find_append]
        simp
      · rw [find_cons h, Option.isSome_map, ih, or_iff_right h]

lemma mentions_iff (json : Bytes) (word : String) :
    mentions json word ↔ FlatJson.quoted (text word) <:+: json := by
  have hquoted : text "\"" ++ text word ++ text "\"" = FlatJson.quoted (text word) := rfl
  rw [mentions, hquoted, find_isSome_iff]

/-! ## The next quote -/

lemma find_quote {v : Bytes} (hv : quote ∉ v) (rest : Bytes) :
    find (text "\"") (v ++ quote :: rest) = some v.length := by
  induction v with
  | nil => exact find_append [quote] rest
  | cons b v ih =>
      obtain ⟨hb, hv⟩ := not_or.mp (List.mem_cons.not.mp hv)
      have hne : ¬ text "\"" <+: b :: (v ++ quote :: rest) :=
        fun h => hb (List.cons_prefix_cons.mp h).1
      rw [List.cons_append, find_cons hne, ih hv]
      rfl

/-- What is read up to the next quote holds none. -/
lemma notMem_take_find {json : Bytes} {stop : ℕ} (h : find (text "\"") json = some stop) :
    quote ∉ json.take stop := by
  induction json generalizing stop with
  | nil => simp
  | cons b rest ih =>
      by_cases hb : b = quote
      · subst hb
        rw [show find (text "\"") (quote :: rest) = some 0 from find_append [quote] rest] at h
        simp [← Option.some.inj h]
      · have hne : ¬ text "\"" <+: b :: rest := fun h => hb (List.cons_prefix_cons.mp h).1.symm
        rw [find_cons hne] at h
        obtain ⟨stop, hstop, rfl⟩ := Option.map_eq_some_iff.mp h
        simp [Ne.symm hb, ih hstop]

lemma quote_notMem_fieldBehind {json search value : Bytes}
    (h : fieldBehind json search = some value) : quote ∉ value := by
  obtain ⟨pos, -, rfl⟩ := Option.map_eq_some_iff.mp h
  dsimp only
  split
  · exact List.not_mem_nil
  · next hstop => exact notMem_take_find hstop

lemma quote_notMem_extractJsonField (json : Bytes) (key : String) :
    quote ∉ extractJsonField json key := by
  rw [extractJsonField]
  split
  · next h => exact quote_notMem_fieldBehind h
  · cases h : fieldBehind json (text "\"" ++ text key ++ text "\": \"") with
    | none => exact List.not_mem_nil
    | some value => exact quote_notMem_fieldBehind h

/-! ## Fields -/

lemma fieldBehind_cons {search rest : Bytes} {b : UInt8} (h : ¬ search <+: b :: rest) :
    fieldBehind (b :: rest) search = fieldBehind rest search := by
  rw [fieldBehind, find_cons h, Option.map_map, fieldBehind]
  refine congrArg (fun f => (find search rest).map f) (funext fun pos => ?_)
  simp [Nat.add_right_comm pos 1]

lemma fieldBehind_skip {skipped : Bytes} (h : quote ∉ skipped) (search rest : Bytes) :
    fieldBehind (skipped ++ rest) (quote :: search) = fieldBehind rest (quote :: search) := by
  induction skipped with
  | nil => rfl
  | cons b skipped ih =>
      obtain ⟨hb, hskipped⟩ := not_or.mp (List.mem_cons.not.mp h)
      rw [List.cons_append, fieldBehind_cons fun h => hb (List.cons_prefix_cons.mp h).1,
        ih hskipped]

/-- Two texts up to their first quote. -/
lemma prefix_quote_iff {a b : Bytes} (ha : quote ∉ a) (hb : quote ∉ b) (x y : Bytes) :
    a ++ quote :: x <+: b ++ quote :: y ↔ a = b ∧ x <+: y := by
  induction a generalizing b with
  | nil =>
      cases b with
      | nil => simp
      | cons c b => simp [(not_or.mp (List.mem_cons.not.mp hb)).1]
  | cons c a ih =>
      obtain ⟨hc, ha⟩ := not_or.mp (List.mem_cons.not.mp ha)
      cases b with
      | nil => simp [Ne.symm hc]
      | cons d b => simp [ih ha (not_or.mp (List.mem_cons.not.mp hb)).2, and_assoc]

/-- A text given by its pieces, each behind a quote. -/
def pieces (ps : List Bytes) : Bytes := ps.flatMap (quote :: ·)

/-- The piece that follows the key and a colon.  A piece that no quote ends is not returned. -/
def fieldAmong (key : Bytes) : List Bytes → Option Bytes
  | name :: colon :: value :: rest =>
      if name = key ∧ colon = text ":" then some (if rest = [] then [] else value)
      else fieldAmong key (colon :: value :: rest)
  | _ => none

/-- What `extract_json_field` looks for first. -/
def searchFor (key : Bytes) : Bytes := quote :: (key ++ quote :: (text ":" ++ [quote]))

lemma not_prefix_of_notMem {a x b : Bytes} (hb : quote ∉ b) : ¬ a ++ quote :: x <+: b :=
  fun h => hb (h.subset (List.mem_append_right a List.mem_cons_self))

variable {key : Bytes} {ps : List Bytes}

/-- The search matches at a piece that is the key and has a colon and a further piece behind it. -/
lemma searchFor_prefix_iff (hkey : quote ∉ key) {name : Bytes} (hps : ∀ p ∈ name :: ps, quote ∉ p) :
    searchFor key <+: pieces (name :: ps) ↔
      ∃ value rest, ps = text ":" :: value :: rest ∧ name = key := by
  obtain ⟨hname, hps⟩ := List.forall_mem_cons.mp hps
  simp only [searchFor, pieces, List.flatMap_cons, List.cons_append,
    List.cons_prefix_cons, true_and]
  match ps, hps with
  | [], _ => simpa using not_prefix_of_notMem hname
  | colon :: ps, hps =>
      obtain ⟨hcolon, hps⟩ := List.forall_mem_cons.mp hps
      rw [List.flatMap_cons, List.cons_append, prefix_quote_iff hkey hname]
      cases ps with
      | nil => simpa using fun _ => not_prefix_of_notMem hcolon
      | cons value rest =>
          rw [List.flatMap_cons, List.cons_append, prefix_quote_iff (by decide) hcolon]
          simp [eq_comm, and_comm]

lemma fieldBehind_searchFor {value : Bytes} (hvalue : quote ∉ value) (rest : List Bytes) :
    fieldBehind (pieces (key :: text ":" :: value :: rest)) (searchFor key) =
      some (if rest = [] then [] else value) := by
  have hsplit : pieces (key :: text ":" :: value :: rest) =
      searchFor key ++ (value ++ pieces rest) := by
    simp [pieces, searchFor]
  rw [hsplit, fieldBehind, find_append]
  simp only [Option.map_some, zero_add, List.drop_left, Option.some.injEq]
  cases rest with
  | nil =>
      have hnone : find (text "\"") value = none := by
        rw [← Option.not_isSome_iff_eq_none, find_isSome_iff]
        exact fun h => hvalue (h.subset List.mem_cons_self)
      simp [pieces, hnone]
  | cons next rest =>
      simp [pieces, find_quote hvalue]

lemma fieldAmong_cons {name : Bytes}
    (h : ¬ ∃ value rest, ps = text ":" :: value :: rest ∧ name = key) :
    fieldAmong key (name :: ps) = fieldAmong key ps := by
  match ps with
  | [] | [_] => rfl
  | colon :: value :: rest =>
      rw [fieldAmong, if_neg]
      rintro ⟨rfl, rfl⟩
      exact h ⟨value, rest, rfl, rfl⟩

lemma fieldBehind_pieces (hkey : quote ∉ key) (hps : ∀ p ∈ ps, quote ∉ p) :
    fieldBehind (pieces ps) (searchFor key) = fieldAmong key ps := by
  induction ps with
  | nil => rfl
  | cons name ps ih =>
      have hmatch := searchFor_prefix_iff hkey hps
      obtain ⟨hname, hrest⟩ := List.forall_mem_cons.mp hps
      by_cases hfound : searchFor key <+: pieces (name :: ps)
      · obtain ⟨value, rest, rfl, rfl⟩ := hmatch.mp hfound
        rw [fieldBehind_searchFor (hps value (by simp)), fieldAmong]
        exact (if_pos ⟨rfl, rfl⟩).symm
      · have hcut : pieces (name :: ps) = quote :: (name ++ pieces ps) := rfl
        rw [hcut] at hfound
        rw [fieldAmong_cons (hmatch.not.mp hfound), hcut, fieldBehind_cons hfound, searchFor,
          fieldBehind_skip hname, ← searchFor, ih hrest]

/-- A text that starts in front of its first quote. -/
theorem extractJsonField_pieces {key : String} (hkey : quote ∉ text key) {front : Bytes}
    (hfront : quote ∉ front) (hps : ∀ p ∈ ps, quote ∉ p) {value : Bytes}
    (hvalue : fieldAmong (text key) ps = some value) :
    extractJsonField (front ++ pieces ps) key = value := by
  have hsearch : text "\"" ++ text key ++ text "\":\"" = searchFor (text key) := by
    rw [List.append_assoc]
    rfl
  have hfield : fieldBehind (front ++ pieces ps) (searchFor (text key)) = some value := by
    rw [← hvalue, ← fieldBehind_pieces hkey hps, searchFor, fieldBehind_skip hfront]
  rw [extractJsonField, hsearch, hfield]

end Gateway
end Damen
