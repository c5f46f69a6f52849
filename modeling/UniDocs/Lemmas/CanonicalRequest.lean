import UniDocs.Lib.CborReader
import UniDocs.Lib.Bytes
import UniDocs.Auth.PlatformHmac

/-!
# The canonical request

The bytes that are signed determine every field that is signed, whatever texts the fields hold, as long as the digest does
not collide on the bodies and the credentials.
-/

namespace UniDocs.Auth

open Lib UniDocs.Codec UniDocs.Cas

theorem textEncode_injective : Function.Injective textEncode := by
  intro a b h
  exact Cbor.utf8_injective h

theorem textEncode_append (a b : String) : textEncode (a ++ b) = textEncode a ++ textEncode b := by
  simp only [textEncode, utf8, String.toList_append, List.flatMap_append]

theorem textEncode_toString (n : Nat) : textEncode (toString n) = decimalBytes n := by
  rw [textEncode, utf8, Nat.toString_eq_repr, Nat.toList_repr, decimalBytes]

theorem textEncode_lengthPrefixed (field : String) : textEncode (lengthPrefixed field) = frame (textEncode field) := by
  have hcolon : textEncode ":" = [0x3a] := by decide
  rw [lengthPrefixed, textEncode_append, textEncode_append, textEncode_toString, hcolon, frame, List.append_assoc,
    List.singleton_append]

section

variable {Key : Type} (platform : Platform Key)

theorem canonicalRequest_eq (f : SignedFields) :
    canonicalRequest platform f = ((canonicalFields platform f).map textEncode).flatMap frame := by
  rw [canonicalRequest, textEncode, utf8, String.toList_ofList, List.flatMap_assoc, List.flatMap_map]
  refine List.flatMap_congr fun field _ => ?_
  rw [← textEncode_lengthPrefixed]
  rfl

variable {platform}

theorem canonicalFields_of_request {f f' : SignedFields} (h : canonicalRequest platform f = canonicalRequest platform f') :
    canonicalFields platform f = canonicalFields platform f' := by
  rw [canonicalRequest_eq, canonicalRequest_eq] at h
  have hframes := frames_inj (by simp [canonicalFields]) h
  exact List.map_injective_iff.mpr textEncode_injective hframes

/-! ## The fields -/

theorem role_text_injective : Function.Injective ServiceRole.text := by
  intro a b h
  cases a <;> cases b <;> simp_all [ServiceRole.text]

theorem toString_injective {n m : Nat} (h : toString n = toString m) : n = m := by
  have hlist := congrArg String.toList h
  simp only [Nat.toString_eq_repr, Nat.toList_repr] at hlist
  exact toDigits_injective hlist

theorem minus_not_digit {n m : Nat} : toString n ≠ "-" ++ toString m := by
  intro h
  have hlist := congrArg String.toList h
  simp only [Nat.toString_eq_repr, Nat.toList_repr, String.toList_append] at hlist
  have hmem : '-' ∈ Nat.toDigits 10 n := by
    rw [hlist]
    simp
  exact absurd (mem_toDigits_isDigit hmem) (by decide)

theorem decimal_injective : Function.Injective decimal := by
  intro a b h
  cases a with
  | ofNat n =>
    cases b with
    | ofNat m => exact congrArg Int.ofNat (toString_injective h)
    | negSucc m => exact absurd h minus_not_digit
  | negSucc n =>
    cases b with
    | ofNat m => exact absurd h.symm minus_not_digit
    | negSucc m =>
      have htail : toString (n + 1) = toString (m + 1) := by
        have hlist := congrArg String.toList h
        simp only [decimal, String.toList_append] at hlist
        exact String.toList_injective (List.append_cancel_left hlist)
      exact congrArg Int.negSucc (Nat.succ.inj (toString_injective htail))

theorem digest_eq_iff {bytes bytes' : Bytes} : digest platform bytes = digest platform bytes' ↔
    platform.sha256 bytes = platform.sha256 bytes' := by
  constructor
  · intro h
    have hchars := congrArg hexBytes (String.ofList_injective h)
    rwa [hexBytes_flatMap_byteHex, hexBytes_flatMap_byteHex] at hchars
  · intro h
    rw [digest, digest, h]

theorem digest_ne_absent (bytes : Bytes) : digest platform bytes ≠ "absent" := by
  intro h
  have hmem : 's' ∈ (platform.sha256 bytes).flatMap byteHex := by
    have hlist := congrArg String.toList h
    rw [digest, String.toList_ofList] at hlist
    rw [hlist]
    decide
  obtain ⟨b, _, hb⟩ := List.mem_flatMap.mp hmem
  have hlower := byteHex_lower b 's' hb
  exact absurd hlower (by decide)

/-- The bytes whose digests are signed. -/
def digestedBytes (f : SignedFields) : List Bytes :=
  f.body :: (f.casAuthorization.toList ++ f.platformAuthorization.toList).map textEncode

/-- The digest does not collide on what two requests have digested. -/
def NoCollision (platform : Platform Key) (f f' : SignedFields) : Prop :=
  ∀ x ∈ digestedBytes f, ∀ y ∈ digestedBytes f', platform.sha256 x = platform.sha256 y → x = y

theorem credentialField_inj {value value' : Option String} (h : credentialField platform value = credentialField platform value')
    (hsha : ∀ text ∈ value, ∀ text' ∈ value', platform.sha256 (textEncode text) = platform.sha256 (textEncode text') →
      textEncode text = textEncode text') : value = value' := by
  cases value with
  | none =>
    cases value' with
    | none => rfl
    | some text' => exact absurd h.symm (digest_ne_absent _)
  | some text =>
    cases value' with
    | none => exact absurd h (digest_ne_absent _)
    | some text' => rw [textEncode_injective (hsha text rfl text' rfl (digest_eq_iff.mp h))]

theorem canonicalRequest_inj {f f' : SignedFields} (hsha : NoCollision platform f f')
    (h : canonicalRequest platform f = canonicalRequest platform f') : f = f' := by
  have hfields := canonicalFields_of_request h
  simp only [canonicalFields, List.cons.injEq, true_and, and_true] at hfields
  obtain ⟨hkey, hplatform, henvironment, hservice, hrole, horigin, hpath, hbody, hissued, hexpires, hnonce, hcas, hdelegation⟩ :=
    hfields
  have hbody' : f.body = f'.body :=
    hsha _ List.mem_cons_self _ List.mem_cons_self (digest_eq_iff.mp hbody)
  have hcas' : f.casAuthorization = f'.casAuthorization := by
    refine credentialField_inj hcas fun text ht text' ht' => hsha _ ?_ _ ?_
    · exact List.mem_cons_of_mem _ (List.mem_map_of_mem (List.mem_append_left _ (Option.mem_toList.mpr ht)))
    · exact List.mem_cons_of_mem _ (List.mem_map_of_mem (List.mem_append_left _ (Option.mem_toList.mpr ht')))
  have hdelegation' : f.platformAuthorization = f'.platformAuthorization := by
    refine credentialField_inj hdelegation fun text ht text' ht' => hsha _ ?_ _ ?_
    · exact List.mem_cons_of_mem _ (List.mem_map_of_mem (List.mem_append_right _ (Option.mem_toList.mpr ht)))
    · exact List.mem_cons_of_mem _ (List.mem_map_of_mem (List.mem_append_right _ (Option.mem_toList.mpr ht')))
  have hauthentication : f.authentication = f'.authentication := by
    obtain ⟨⟨⟨_, _, _, _, _, _, _, _⟩, _, _, _⟩, _, _⟩ := f
    obtain ⟨⟨⟨_, _, _, _, _, _, _, _⟩, _, _, _⟩, _, _⟩ := f'
    simp only [Authentication.mk.injEq]
    exact ⟨hkey, hplatform, henvironment, hservice, role_text_injective hrole, decimal_injective hissued,
      decimal_injective hexpires, hnonce⟩
  obtain ⟨⟨_, _, _, _⟩, _, _⟩ := f
  obtain ⟨⟨_, _, _, _⟩, _, _⟩ := f'
  simp only at hauthentication hbody' hcas' hdelegation' horigin hpath
  subst hauthentication hbody' hcas' hdelegation' horigin hpath
  rfl

end

end UniDocs.Auth
