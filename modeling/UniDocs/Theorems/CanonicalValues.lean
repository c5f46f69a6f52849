import UniDocs.Lemmas.SValueSame
import UniDocs.Theorems.SValueRoundTrip

/-!
# Canonical encoding of values

Equal values have equal bytes and equal references, and values with equal bytes are equal, whatever the order in which the
properties of their objects were defined. A JavaScript object lists its integer-like keys first; a library that sorts the
keys again is not misled by that.
-/

namespace UniDocs.SValueCodec

open Lib Lib.Cbor UniDocs.Cas UniDocs.Codec

/-- Two encoded values have the same bytes exactly when they are the same value; they then have the same refs; and the refs
are the hashes of the tagged byte strings in the bytes, in order. -/
theorem encoding_canonical {cborg : Cborg} (hrfc : cborg.Rfc8949) {v w : SValue} (hv : v.DistinctKeys)
    (hw : w.DistinctKeys) {options options' : SValueCodecOptions} {encoded encoded' : EncodedSValue}
    (h : encodeSValueWithRefs cborg v options = .ok encoded) (h' : encodeSValueWithRefs cborg w options' = .ok encoded') :
    (encoded.data = encoded'.data ↔ v.Same w) ∧ (v.Same w → encoded.refs = encoded'.refs) ∧
      blobHashes encoded.data = some encoded.refs := by
  rw [encodeSValueWithRefs, bind_ok_iff] at h h'
  obtain ⟨limits, hlimits, hdetailed⟩ := h
  obtain ⟨limits', hlimits', hdetailed'⟩ := h'
  have hsafe := codecLimits_safe hlimits
  have hsafe' := codecLimits_safe hlimits'
  obtain ⟨henc, rfl⟩ := (encodeDetailed_ok_iff hrfc hsafe hv).mp hdetailed
  obtain ⟨henc', rfl⟩ := (encodeDetailed_ok_iff hrfc hsafe' hw).mp hdetailed'
  have hvalid := (v.canonical cborg).tokens_valid hsafe 0 henc.fits
  have hvalid' := (w.canonical cborg).tokens_valid hsafe' 0 henc'.fits
  have hsame := v.canonical_eq_iff hrfc hsafe w 0 hv hw henc.fits henc'.fits
  refine ⟨⟨fun hdata => ?_, fun heq => ?_⟩, fun heq => ?_, ?_⟩
  · have hitem := item_eq_of_encode hvalid hvalid' hdata
    exact hsame.mp ((v.canonical cborg).item_inj (w.canonical cborg) 0 henc.fits henc'.fits hitem)
  · simp only [hsame.mpr heq]
  · simp only [hsame.mpr heq]
  · have htags := (v.canonical cborg).taggedHashes_tokens []
    rw [List.append_nil, taggedHashes, List.append_nil] at htags
    simp only [blobHashes, tokensOf_encodeTokens hvalid, Option.map_some, htags]

/-! ## A library behind JavaScript objects -/

/-- The number that some digits spell. -/
def digitsValue (digits : List Char) : Nat := digits.foldl (fun n c => 10 * n + (c.toNat - 48)) 0

/-- The array index that a key spells in decimal digits, without a leading zero. -/
def arrayIndex (key : String) : Option Nat :=
  match key.toList with
  | [] => none
  | first :: digits =>
    if (first :: digits).all Char.isDigit && (first != '0' || digits.isEmpty) &&
        (digitsValue (first :: digits)).blt 4294967295 then some (digitsValue (first :: digits))
    else none

/-- The own keys of an object whose properties were defined in some order: the array indices, ascending, then the others. -/
def ownKeys {α : Type} (properties : List (String × α)) : List (String × α) :=
  (properties.filter fun property => (arrayIndex property.1).isSome).insertionSort
      (fun property property' => (arrayIndex property.1).getD 0 ≤ (arrayIndex property'.1).getD 0) ++
    properties.filter fun property => !(arrayIndex property.1).isSome

theorem ownKeys_perm {α : Type} (properties : List (String × α)) : (ownKeys properties).Perm properties := by
  have hsort := List.perm_insertionSort
    (fun property property' : String × α => (arrayIndex property.1).getD 0 ≤ (arrayIndex property'.1).getD 0)
    (properties.filter fun property => (arrayIndex property.1).isSome)
  exact (hsort.append_right _).trans (List.filter_append_perm _ _)

/-- A library that is given an object, meets its own keys in the order of JavaScript, and sorts them. -/
def jsCborg : Cborg := { rfcCborg with encode := fun item => encodeTokens (item.reorder ownKeys).sort.tokens }

/-- The order in which JavaScript lists the keys does not matter to a library that sorts them. -/
theorem jsCborg_rfc8949 : jsCborg.Rfc8949 where
  encode_canonical item hcanonical _ := by
    simp only [jsCborg, Item.sort_reorder ownKeys_perm item hcanonical]
  next_token := rfcCborg_rfc8949.next_token
  decode_error := rfcCborg_rfc8949.decode_error
  decode_ok := rfcCborg_rfc8949.decode_ok

/-- An object with an integer-like key behind another one; the keys are sorted the other way. -/
def indexLast : SValue := .object [("b", .number .negativeZero), ("10", .sblob someHash)]

/-- The same object, with its properties in the other order. -/
def indexFirst : SValue := .object [("10", .sblob someHash), ("b", .number (.integral 0))]

theorem indexLast_same : indexLast.Same indexFirst := by
  refine ⟨fun key => ?_, fun value hmem => ?_, fun value hmem => ?_, trivial⟩
  · exact (List.Perm.swap "10" "b" []).mem_iff
  · rcases List.mem_cons.mp hmem with h | h
    · exact absurd (congrArg Prod.fst h) (by decide : "b" ≠ "10")
    · rw [(Prod.mk.inj (List.mem_singleton.mp h)).2]
      rfl
  · rcases List.mem_cons.mp hmem with h | h
    · rw [(Prod.mk.inj h).2]
      rfl
    · exact absurd (congrArg Prod.fst (List.mem_singleton.mp h)) (by decide : "10" ≠ "b")

/-- Both orders of definition are encoded to the same bytes, which hold the one reference. -/
theorem encoding_canonical_indexed :
    ∃ encoded encoded', encodeSValueWithRefs jsCborg indexLast {} = .ok encoded ∧
      encodeSValueWithRefs jsCborg indexFirst {} = .ok encoded' ∧ encoded.data = encoded'.data ∧
        encoded.refs = encoded'.refs ∧ blobHashes encoded.data = some encoded.refs := by
  have hkeys : indexLast.DistinctKeys := ⟨by decide, trivial, trivial, trivial⟩
  have hkeys' : indexFirst.DistinctKeys := ⟨by decide, trivial, trivial, trivial⟩
  have hsame := indexLast_same
  cases h : encodeSValueWithRefs jsCborg indexLast {} with
  | error e =>
    have hok : (encodeSValueWithRefs jsCborg indexLast {}).isOk = true := by decide
    rw [h] at hok
    cases hok
  | ok encoded =>
    cases h' : encodeSValueWithRefs jsCborg indexFirst {} with
    | error e =>
      have hok : (encodeSValueWithRefs jsCborg indexFirst {}).isOk = true := by decide
      rw [h'] at hok
      cases hok
    | ok encoded' =>
      obtain ⟨hdata, hrefs, hbytes⟩ := encoding_canonical jsCborg_rfc8949 hkeys hkeys' h h'
      exact ⟨encoded, encoded', rfl, rfl, hdata.mpr hsame, hrefs hsame, hbytes⟩

end UniDocs.SValueCodec
