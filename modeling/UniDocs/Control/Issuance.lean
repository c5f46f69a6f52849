import UniDocs.Control.Console
import UniDocs.Control.Registry

/-!
# The registry of issuers

What the tables of issuers are for: at most one external issuer for a stack, which stays pending until an inspection of it is
consumed under a proof of possession, and is then left as it is. The transitions say what each batch needs and does; membership
of a stack is lost by a removal only.
-/

namespace UniDocs.Control

open Lib

/-- External issuers, their inspections and the keys of these. -/
structure Issuance where
  issuer : String → Option OAuthIssuer
  inspection : String → Option Inspection
  key : String × String → Option InspectionKey

/-- What the tables of issuers hold. -/
def ConsoleDb.issuance (d : ConsoleDb) : Issuance := ⟨d.oauthIssuers.lookup, d.inspections.lookup, d.inspectionKeys.lookup⟩

/-- An issuer record and an inspection have the same contents. -/
structure Matches (inspection : Inspection) (row : OAuthIssuer) : Prop where
  metadata : inspection.metadata = row.metadata
  audience : inspection.audience = row.audience
  jwksDigest : inspection.jwksDigest = row.jwksDigest
  lifetime : inspection.capabilityMaxLifetimeSeconds = row.capabilityMaxLifetimeSeconds

/-- A key of an inspection has signed the text whose hash the inspection has. -/
def Attested (sha256Hex : String → String) (signed : String → String → Prop) (r : Issuance) (inspectionId : String)
    (inspection : Inspection) : Prop :=
  ∃ kid key challenge, r.key (inspectionId, kid) = some key ∧ signed key.publicJwk challenge
    ∧ sha256Hex challenge = inspection.challengeHash

/-- An issuer record after its activation. -/
def OAuthIssuer.activated (row : OAuthIssuer) (now : Int) : OAuthIssuer :=
  { row with status := .active, verifiedAt := some now, revision := row.revision + 1 }

/-- An inspection after it was consumed. -/
def Inspection.consumed (inspection : Inspection) (now : Int) : Inspection :=
  { inspection with usedAt := some now, revision := inspection.revision + 1 }

section Transitions

variable (sha256Hex : String → String) (signed : String → String → Prop)

/-- What a batch needs of the issuers and does to them. -/
inductive IssuanceStep : ConsoleEntry → Issuance → Issuance → Prop
  | control (e : Entry) (r : Issuance) : IssuanceStep (.control e) r r
  | managedPatched (stackId : String) (enabled : Bool) (r : Issuance) : IssuanceStep (.managedPatched stackId enabled) r r
  | inspected {stackId inspectionId : String} {row : OAuthIssuer} {inspection : Inspection} {r : Issuance}
      {key : String × String → Option InspectionKey}
      (hfree : ∀ id other, r.issuer id = some other → other.metadata.issuer = row.metadata.issuer → id = stackId)
      (hold : ∀ old, r.issuer stackId = some old → old.status ≠ .active ∧ old.revision < row.revision)
      (hpending : row.status = .pending) (hnew : r.inspection inspectionId = none) (hunused : inspection.usedAt = none)
      (hstack : inspection.stackId = stackId)
      (hkey : ∀ k old, r.key k = some old → key k = some old) :
      IssuanceStep (.inspected stackId inspectionId row inspection) r
        ⟨Function.update r.issuer stackId (some row), Function.update r.inspection inspectionId (some inspection), key⟩
  | activated {stackId inspectionId : String} {now : Int} {row : OAuthIssuer} {inspection : Inspection} {r : Issuance}
      (hrow : r.issuer stackId = some row) (hpending : row.status = .pending)
      (hinspection : r.inspection inspectionId = some inspection) (hstack : inspection.stackId = stackId)
      (hunused : inspection.usedAt = none) (hlive : now < inspection.expiresAt) (hmatches : Matches inspection row)
      (hattested : Attested sha256Hex signed r inspectionId inspection) :
      IssuanceStep (.activated stackId inspectionId now) r
        ⟨Function.update r.issuer stackId (some (row.activated now)),
          Function.update r.inspection inspectionId (some (inspection.consumed now)), r.key⟩

/-- What a batch of the console needs and does: members are lost by a removal only. -/
structure ConsoleStep (e : ConsoleEntry) (d d' : ConsoleDb) : Prop where
  issuance : IssuanceStep sha256Hex signed e d.issuance d'.issuance
  members : ∀ k, k ∈ d.control.members → k ∈ d'.control.members ∨ e = .control (.removed k.1 k.2)

end Transitions

/-! ## Laws of the transitions -/

namespace Issuance

variable {sha256Hex : String → String} {signed : String → String → Prop} {e : ConsoleEntry} {r r' : Issuance}

/-- No two stacks hold the same issuer. -/
def Unique (r : Issuance) : Prop :=
  ∀ stackId stackId' row row', r.issuer stackId = some row → r.issuer stackId' = some row' →
    row.metadata.issuer = row'.metadata.issuer → stackId = stackId'

theorem unique_of_step (h : IssuanceStep sha256Hex signed e r r') (hr : r.Unique) : r'.Unique := by
  cases h with
  | control => exact hr
  | managedPatched => exact hr
  | inspected hfree hold hpending hnew hunused hstack hkey =>
    intro s s' row row' hrow hrow' hissuer
    rcases Registry.update_cases hrow with ⟨rfl, rfl⟩ | hold₁
    · rcases Registry.update_cases hrow' with ⟨rfl, _⟩ | hold₂
      · rfl
      · exact (hfree s' row' hold₂ hissuer.symm).symm
    · rcases Registry.update_cases hrow' with ⟨rfl, rfl⟩ | hold₂
      · exact hfree s row hold₁ hissuer
      · exact hr s s' row row' hold₁ hold₂ hissuer
  | activated hold hpending hinspection hstack hunused hlive hmatches hattested =>
    rename_i id inspectionId now old inspection
    -- an activation leaves the issuer of the record as it was
    have hback : ∀ {s : String} {row : OAuthIssuer}, Function.update r.issuer id (some (old.activated now)) s = some row →
        ∃ before, r.issuer s = some before ∧ before.metadata = row.metadata := by
      intro s row hrow
      rcases Registry.update_cases hrow with ⟨rfl, rfl⟩ | hsame
      · exact ⟨old, hold, rfl⟩
      · exact ⟨row, hsame, rfl⟩
    intro s s' row row' hrow hrow' hissuer
    obtain ⟨before, hold₁, hsame⟩ := hback hrow
    obtain ⟨before', hold₂, hsame'⟩ := hback hrow'
    exact hr s s' before before' hold₁ hold₂ (by rw [hsame, hsame']; exact hissuer)

/-- An active record stays as it is. -/
theorem active_kept (h : IssuanceStep sha256Hex signed e r r') {stackId : String} {row : OAuthIssuer}
    (hrow : r.issuer stackId = some row) (hactive : row.status = .active) : r'.issuer stackId = some row := by
  cases h with
  | control => exact hrow
  | managedPatched => exact hrow
  | inspected hfree hold hpending hnew hunused hstack hkey =>
    rename_i id inspectionId new inspection key
    have hne : stackId ≠ id := by
      rintro rfl
      exact (hold row hrow).1 hactive
    simpa [Function.update_of_ne hne] using hrow
  | activated hold hpending hinspection hstack hunused hlive hmatches hattested =>
    rename_i id inspectionId now old inspection
    have hne : stackId ≠ id := by
      rintro rfl
      rw [Option.some.inj (hold.symm.trans hrow)] at hpending
      rw [hpending] at hactive
      cases hactive
    simpa [Function.update_of_ne hne] using hrow

/-- A record that was read: it is there as it was, or with a higher revision. -/
def RecordSince (stackId : String) (row : OAuthIssuer) (r : Issuance) : Prop :=
  ∃ row', r.issuer stackId = some row' ∧ (row' = row ∨ row.revision < row'.revision)

theorem recordSince_of_step (h : IssuanceStep sha256Hex signed e r r') {stackId : String} {row : OAuthIssuer}
    (hrow : r.RecordSince stackId row) : r'.RecordSince stackId row := by
  obtain ⟨row', hrow', hcases⟩ := hrow
  have hle : row.revision ≤ row'.revision := by
    rcases hcases with rfl | hlt
    · exact Nat.le_refl _
    · exact Nat.le_of_lt hlt
  cases h with
  | control => exact ⟨row', hrow', hcases⟩
  | managedPatched => exact ⟨row', hrow', hcases⟩
  | inspected hfree hold hpending hnew hunused hstack hkey =>
    rename_i id inspectionId new inspection key
    by_cases hid : stackId = id
    · subst hid
      have hlt := (hold row' hrow').2
      exact ⟨new, Function.update_self .., .inr (by omega)⟩
    · exact ⟨row', by simpa [Function.update_of_ne hid] using hrow', hcases⟩
  | activated hold hpending hinspection hstack hunused hlive hmatches hattested =>
    rename_i id inspectionId now old inspection
    by_cases hid : stackId = id
    · subst hid
      obtain rfl : old = row' := Option.some.inj (hold.symm.trans hrow')
      refine ⟨_, Function.update_self .., .inr ?_⟩
      simp only [OAuthIssuer.activated]
      omega
    · exact ⟨row', by simpa [Function.update_of_ne hid] using hrow', hcases⟩

/-- An inspection that was read: it is there as it was, up to its use. -/
def InspectionSince (inspectionId : String) (inspection : Inspection) (r : Issuance) : Prop :=
  ∃ usedAt revision, r.inspection inspectionId = some { inspection with usedAt := usedAt, revision := revision }

theorem inspectionSince_of_step (h : IssuanceStep sha256Hex signed e r r') {inspectionId : String} {inspection : Inspection}
    (hsince : r.InspectionSince inspectionId inspection) : r'.InspectionSince inspectionId inspection := by
  obtain ⟨usedAt, revision, hrow⟩ := hsince
  cases h with
  | control => exact ⟨usedAt, revision, hrow⟩
  | managedPatched => exact ⟨usedAt, revision, hrow⟩
  | inspected hfree hold hpending hnew hunused hstack hkey =>
    rename_i id newId new inspection' key
    have hne : inspectionId ≠ newId := by
      rintro rfl
      rw [hnew] at hrow
      cases hrow
    exact ⟨usedAt, revision, by simpa [Function.update_of_ne hne] using hrow⟩
  | activated hold hpending hinspection hstack hunused hlive hmatches hattested =>
    rename_i id usedId now old used
    by_cases hid : inspectionId = usedId
    · subst hid
      obtain rfl := Option.some.inj (hinspection.symm.trans hrow)
      exact ⟨some now, revision + 1, Function.update_self ..⟩
    · exact ⟨usedAt, revision, by simpa [Function.update_of_ne hid] using hrow⟩

theorem key_kept (h : IssuanceStep sha256Hex signed e r r') {k : String × String} {key : InspectionKey}
    (hkey : r.key k = some key) : r'.key k = some key := by
  cases h with
  | control => exact hkey
  | managedPatched => exact hkey
  | inspected hfree hold hpending hnew hunused hstack hkeys => exact hkeys k key hkey
  | activated => exact hkey

theorem attested_of_step {inspectionId : String} {inspection : Inspection} (h : IssuanceStep sha256Hex signed e r r')
    (hattested : Attested sha256Hex signed r inspectionId inspection) : Attested sha256Hex signed r' inspectionId inspection := by
  obtain ⟨kid, key, challenge, hkey, hsigned, hhash⟩ := hattested
  exact ⟨kid, key, challenge, key_kept h hkey, hsigned, hhash⟩

/-- An inspection has been consumed. -/
def Used (inspectionId : String) (r : Issuance) : Prop :=
  ∃ inspection, r.inspection inspectionId = some inspection ∧ inspection.usedAt ≠ none

/-- A consumed inspection stays as it is. -/
theorem used_kept (h : IssuanceStep sha256Hex signed e r r') {inspectionId : String} {inspection : Inspection}
    (hrow : r.inspection inspectionId = some inspection) (hused : inspection.usedAt ≠ none) :
    r'.inspection inspectionId = some inspection := by
  cases h with
  | control => exact hrow
  | managedPatched => exact hrow
  | inspected hfree hold hpending hnew hunused hstack hkey =>
    rename_i id newId new inspection' key
    have hne : inspectionId ≠ newId := by
      rintro rfl
      rw [hnew] at hrow
      cases hrow
    simpa [Function.update_of_ne hne] using hrow
  | activated hold hpending hinspection hstack hunused hlive hmatches hattested =>
    rename_i id usedId now old used
    have hne : inspectionId ≠ usedId := by
      rintro rfl
      rw [Option.some.inj (hinspection.symm.trans hrow)] at hunused
      exact hused hunused
    simpa [Function.update_of_ne hne] using hrow

/-- The consumed inspection of an active record. -/
structure Activation (sha256Hex : String → String) (signed : String → String → Prop) (r : Issuance) (stackId : String)
    (row : OAuthIssuer) (inspectionId : String) (inspection : Inspection) (now : Int) : Prop where
  found : r.inspection inspectionId = some inspection
  stackId : inspection.stackId = stackId
  used : inspection.usedAt = some now
  live : now < inspection.expiresAt
  verified : row.verifiedAt = some now
  contents : Matches inspection row
  attested : Attested sha256Hex signed r inspectionId inspection

/-- Every active record has been activated. -/
def Activated (sha256Hex : String → String) (signed : String → String → Prop) (r : Issuance) : Prop :=
  ∀ stackId row, r.issuer stackId = some row → row.status = .active →
    ∃ inspectionId inspection now, Activation sha256Hex signed r stackId row inspectionId inspection now

theorem activated_of_step (h : IssuanceStep sha256Hex signed e r r') (hr : Activated sha256Hex signed r) :
    Activated sha256Hex signed r' := by
  -- a record that was active before
  have hbefore : ∀ stackId row, r.issuer stackId = some row → row.status = .active →
      ∃ inspectionId inspection now, Activation sha256Hex signed r' stackId row inspectionId inspection now := by
    intro stackId row hrow hactive
    obtain ⟨inspectionId, inspection, now, hfound, hstack, hused, hlive, hverified, hcontents, hattested⟩ :=
      hr stackId row hrow hactive
    have hkept : r'.inspection inspectionId = some inspection := used_kept h hfound (by rw [hused]; nofun)
    exact ⟨inspectionId, inspection, now, hkept, hstack, hused, hlive, hverified, hcontents, attested_of_step h hattested⟩
  intro stackId row hrow hactive
  by_cases hold : r.issuer stackId = some row
  · exact hbefore stackId row hold hactive
  · cases h with
    | control => exact absurd hrow hold
    | managedPatched => exact absurd hrow hold
    | inspected hfree hold' hpending hnew hunused hstack hkey =>
      rcases Registry.update_cases hrow with ⟨rfl, rfl⟩ | hrow
      · rw [hpending] at hactive
        cases hactive
      · exact absurd hrow hold
    | activated hold' hpending hinspection hstack hunused hlive hmatches hattested =>
      rename_i id inspectionId now old inspection
      rcases Registry.update_cases hrow with ⟨rfl, rfl⟩ | hrow
      · refine ⟨inspectionId, inspection.consumed now, now, Function.update_self .., hstack, rfl, hlive, rfl, ?_, hattested⟩
        exact ⟨hmatches.metadata, hmatches.audience, hmatches.jwksDigest, hmatches.lifetime⟩
      · exact absurd hrow hold

end Issuance

end UniDocs.Control
