import UniDocs.Lemmas.ConsolePrograms
import UniDocs.Lib.Digest

/-!
# Activation of external issuers

Over any interleaving of the reads and batches of the console: no two stacks hold the same external issuer; an active record
has the contents of an inspection of its stack that was consumed once, before its expiry, under a proof of possession of one of
its keys; and an active record stays as it is.
-/

namespace UniDocs.Control

open Lib Lib.Trace

/-- A call consumes an inspection. -/
abbrev Consumes (inspectionId : String) (x : Traced ConsoleDb Nat ConsoleEntry × Traced ConsoleDb Nat ConsoleEntry) : Prop :=
  Proof.Turns (fun s => s.db.issuance.Used inspectionId) x

/-- What makes a record active, as of a point of a run. -/
structure ActivatedBy (ports : ConsolePorts) (signed : String → String → Prop) (p : ConsolePool) (stackId : String)
    (row : OAuthIssuer) (inspectionId : String) (inspection : Inspection) : Prop where
  found : p.state.db.inspections.lookup inspectionId = some inspection
  ofStack : inspection.stackId = stackId
  /-- Issuer, endpoints, audience, JWKS digest and lifetime are those of the record. -/
  contents : Matches inspection row
  /-- An activation of the stack has consumed it, before its expiry. -/
  consumed : ∃ i ctx proof ifMatch x, p.Made i (.activateOAuthIssuer ctx stackId inspectionId proof ifMatch) x
    ∧ Consumes inspectionId x ∧ inspection.usedAt = some (ports.now i 0) ∧ ports.now i 0 < inspection.expiresAt
  /-- A listed key has signed the challenge of the call that has made the inspection. -/
  attested : ∃ i ctx text issuer audience discovered x kid key, p.Made i (.inspectOAuthIssuer ctx stackId text) x
    ∧ x.1.db.inspections.lookup inspectionId = none
    ∧ x.2.db.inspections.lookup inspectionId = some (newInspection ports i stackId issuer audience discovered)
    ∧ inspection = { newInspection ports i stackId issuer audience discovered with
        usedAt := inspection.usedAt, revision := inspection.revision }
    ∧ p.state.db.inspectionKeys.lookup (inspectionId, kid) = some key
    ∧ signed key.publicJwk
        (buildOAuthIssuerInspectionChallenge (inspectionChallenge ports i stackId issuer audience discovered))

/-- The laws of external issuers, as of a point of a run. -/
structure IssuerSafety (ports : ConsolePorts) (signed : String → String → Prop) (p : ConsolePool) : Prop where
  /-- No two stacks hold the same issuer. -/
  unique : ∀ stackId stackId' row row', p.state.db.oauthIssuers.lookup stackId = some row →
    p.state.db.oauthIssuers.lookup stackId' = some row' → row.metadata.issuer = row'.metadata.issuer → stackId = stackId'
  /-- An active record has been activated under a proof. -/
  active : ∀ stackId row, p.state.db.oauthIssuers.lookup stackId = some row → row.status = .active →
    ∃ inspectionId inspection, ActivatedBy ports signed p stackId row inspectionId inspection
  /-- An inspection is consumed by at most one call of at most one operation. -/
  once : ∀ i j t t' (a b : Nat) x y inspectionId, p.thread i = some t → p.thread j = some t' → t.steps[a]? = some x →
    t'.steps[b]? = some y → Consumes inspectionId x → Consumes inspectionId y → i = j ∧ a = b
  /-- No call changes an active record. -/
  kept : ∀ i q x stackId row, p.Made i q x → x.1.db.oauthIssuers.lookup stackId = some row → row.status = .active →
    x.2.db.oauthIssuers.lookup stackId = some row
  /-- An active record stays for the rest of the run. -/
  stays : ∀ p', (console ports).Reach Machine.anyCall p p' → ∀ stackId row, p.state.db.oauthIssuers.lookup stackId = some row →
    row.status = .active → p'.state.db.oauthIssuers.lookup stackId = some row

/-! ## Paths -/

section Paths

variable {sha256Hex : String → String} {signed : String → String → Prop} {es : List (Nat × ConsoleEntry)} {d d' : ConsoleDb}
  {e : ConsoleEntry}

theorem IssuanceStep.inspection_cases {r r' : Issuance} (h : IssuanceStep sha256Hex signed e r r') {inspectionId : String}
    {inspection : Inspection} (hrow : r'.inspection inspectionId = some inspection) :
    r.inspection inspectionId = some inspection
    ∨ (∃ stackId row, e = .inspected stackId inspectionId row inspection ∧ inspection.usedAt = none)
    ∨ ∃ now old, e = .activated old.stackId inspectionId now ∧ r.inspection inspectionId = some old
        ∧ inspection = old.consumed now := by
  cases h with
  | control => exact .inl hrow
  | managedPatched => exact .inl hrow
  | inspected hfree hold hpending hnew hunused hstack hkey =>
    rcases Registry.update_cases hrow with ⟨rfl, rfl⟩ | hrow
    · exact .inr (.inl ⟨_, _, rfl, hunused⟩)
    · exact .inl hrow
  | activated hold hpending hinspection hstack hunused hlive hmatches hattested =>
    rename_i stackId usedId now row old
    rcases Registry.update_cases hrow with ⟨rfl, rfl⟩ | hrow
    · exact .inr (.inr ⟨now, old, by rw [hstack], hinspection, rfl⟩)
    · exact .inl hrow

theorem inspection_entry (h : Path (ConsoleStep sha256Hex signed) ConsoleDb.empty es d) : ∀ {inspectionId : String}
    {inspection : Inspection}, d.inspections.lookup inspectionId = some inspection →
    (∃ i stackId row first, (i, ConsoleEntry.inspected stackId inspectionId row first) ∈ es
      ∧ inspection = { first with usedAt := inspection.usedAt, revision := inspection.revision })
    ∧ ∀ now, inspection.usedAt = some now → ∃ i, (i, ConsoleEntry.activated inspection.stackId inspectionId now) ∈ es := by
  induction h with
  | nil =>
    intro inspectionId inspection hrow
    simp [ConsoleDb.empty] at hrow
  | snoc i e hpath hs ih =>
    intro inspectionId inspection hrow
    rcases hs.issuance.inspection_cases hrow with hold | ⟨stackId, row, rfl, hunused⟩ | ⟨now, old, rfl, hold, rfl⟩
    · obtain ⟨⟨j, stackId, row, first, hmem, hfirst⟩, hused⟩ := ih hold
      refine ⟨⟨j, stackId, row, first, List.mem_append_left _ hmem, hfirst⟩, fun now hnow => ?_⟩
      obtain ⟨j, hj⟩ := hused now hnow
      exact ⟨j, List.mem_append_left _ hj⟩
    · refine ⟨⟨i, stackId, row, inspection, by simp, rfl⟩, fun now hnow => ?_⟩
      rw [hunused] at hnow
      cases hnow
    · obtain ⟨⟨j, stackId, row, first, hmem, hfirst⟩, _⟩ := ih hold
      refine ⟨⟨j, stackId, row, first, List.mem_append_left _ hmem, ?_⟩, fun now' hnow => ?_⟩
      · rw [hfirst]
        rfl
      · obtain rfl : now = now' := Option.some.inj hnow
        exact ⟨i, by simp [Inspection.consumed]⟩

theorem issuance_laws (h : Path (ConsoleStep sha256Hex signed) ConsoleDb.empty es d) :
    d.issuance.Unique ∧ Issuance.Activated sha256Hex signed d.issuance := by
  constructor
  · refine h.rule (P := fun d => d.issuance.Unique) (fun _ _ _ hs hr => Issuance.unique_of_step hs.issuance hr) ?_
    intro _ _ _ _ hrow
    simp [ConsoleDb.issuance, ConsoleDb.empty] at hrow
  · refine h.rule (P := fun d => Issuance.Activated sha256Hex signed d.issuance)
      (fun _ _ _ hs hr => Issuance.activated_of_step hs.issuance hr) ?_
    intro _ _ hrow
    simp [ConsoleDb.issuance, ConsoleDb.empty] at hrow

end Paths

/-! ## The laws -/

section Laws

variable {ports : ConsolePorts} {signed : String → String → Prop} {p : ConsolePool}

theorem consumed_of_entry (hserves : Serves (consoleSystem ports signed) .storage (consoleServe ports) fun _ _ _ _ => True)
    (h : (console ports).Reach Machine.anyCall (DbPool.initial ConsoleDb.empty) p) {i : Nat} {stackId inspectionId : String}
    {now : Int} (hm : (i, ConsoleEntry.activated stackId inspectionId now) ∈ p.state.trace) :
    now = ports.now i 0 ∧ ∃ ctx proof ifMatch x, p.Made i (.activateOAuthIssuer ctx stackId inspectionId proof ifMatch) x
      ∧ Consumes inspectionId x := by
  obtain ⟨q, x, _, hx, _, hstep, hmay, _⟩ := made_of_entry hserves rfl h hm
  cases q with
  | activateOAuthIssuer ctx stackId' inspectionId' proof ifMatch =>
    obtain ⟨rfl, rfl, hnow⟩ := hmay
    refine ⟨hnow, ctx, proof, ifMatch, x, hx, ?_⟩
    have hissuance := hstep.issuance
    generalize hr : x.1.db.issuance = r at hissuance
    generalize hr' : x.2.db.issuance = r' at hissuance
    cases hissuance with
    | activated hold hpending hinspection hstack hunused hlive hmatches hattested =>
      rename_i row inspection
      constructor
      · rintro ⟨other, hother, hused⟩
        rw [hr] at hother
        obtain rfl := Option.some.inj (hinspection.symm.trans hother)
        exact hused hunused
      · refine ⟨inspection.consumed now, ?_, by simp [Inspection.consumed]⟩
        rw [hr']
        exact Function.update_self ..
  | _ => exact absurd hmay id

theorem inspected_of_entry (hserves : Serves (consoleSystem ports signed) .storage (consoleServe ports) fun _ _ _ _ => True)
    (h : (console ports).Reach Machine.anyCall (DbPool.initial ConsoleDb.empty) p) {i : Nat} {stackId inspectionId : String}
    {row : OAuthIssuer} {first : Inspection} (hm : (i, ConsoleEntry.inspected stackId inspectionId row first) ∈ p.state.trace) :
    ∃ ctx text issuer audience discovered x, p.Made i (.inspectOAuthIssuer ctx stackId text) x
      ∧ first = newInspection ports i stackId issuer audience discovered ∧ inspectionId = ports.generateOAuthInspectionId i
      ∧ x.1.db.inspections.lookup inspectionId = none ∧ x.2.db.inspections.lookup inspectionId = some first := by
  obtain ⟨q, x, _, hx, _, hstep, hmay, _⟩ := made_of_entry hserves rfl h hm
  cases q with
  | inspectOAuthIssuer ctx stackId' text =>
    obtain ⟨rfl, hid, issuer, audience, discovered, hfirst⟩ := hmay
    have hissuance := hstep.issuance
    have hold : x.1.db.issuance.inspection inspectionId = none ∧ x.2.db.issuance.inspection inspectionId = some first := by
      generalize x.1.db.issuance = r at hissuance
      generalize x.2.db.issuance = r' at hissuance
      cases hissuance with
      | inspected hfree hold hpending hnew hunused hstack hkey => exact ⟨hnew, Function.update_self ..⟩
    exact ⟨ctx, text, issuer, audience, discovered, x, hx, hfirst, hid, hold.1, hold.2⟩
  | _ => exact absurd hmay id

theorem activatedBy_of_reach (hsha : Function.Injective ports.sha256Hex)
    (hserves : Serves (consoleSystem ports signed) .storage (consoleServe ports) fun _ _ _ _ => True)
    (h : (console ports).Reach Machine.anyCall (DbPool.initial ConsoleDb.empty) p) {stackId : String} {row : OAuthIssuer}
    (hrow : p.state.db.oauthIssuers.lookup stackId = some row) (hactive : row.status = .active) :
    ∃ inspectionId inspection, ActivatedBy ports signed p stackId row inspectionId inspection := by
  obtain ⟨d, rfl, hpath⟩ := inv_of_reach hserves rfl h
  obtain ⟨inspectionId, inspection, now, hfound, hstack, hused, hlive, _, hcontents, kid, key, challenge, hkey, hsigned,
    hhash⟩ := (issuance_laws hpath).2 stackId row hrow hactive
  obtain ⟨⟨i, stackId', row', first, hfirst, hsame⟩, huses⟩ := inspection_entry hpath hfound
  obtain ⟨j, hj⟩ := huses now hused
  rw [hstack] at hj
  obtain ⟨rfl, ctx, proof, ifMatch, x, hx, hconsumes⟩ := consumed_of_entry hserves h hj
  obtain ⟨ctx', text, issuer, audience, discovered, y, hy, rfl, hid, hnew, hmade⟩ := inspected_of_entry hserves h hfirst
  have hstackId : stackId' = stackId := by
    rw [← hstack, hsame]
    rfl
  subst hstackId
  refine ⟨inspectionId, inspection, hfound, hstack, hcontents, ⟨j, ctx, proof, ifMatch, x, hx, hconsumes, hused, hlive⟩, ?_⟩
  refine ⟨i, ctx', text, issuer, audience, discovered, y, kid, key, hy, hnew, hmade, hsame, hkey, ?_⟩
  -- the signed text has the hash of the challenge, so it is the challenge
  have hchallenge : challenge = buildOAuthIssuerInspectionChallenge
      (inspectionChallenge ports i stackId' issuer audience discovered) := by
    refine hsha ?_
    rw [hhash, hsame]
    rfl
  rw [← hchallenge]
  exact hsigned

end Laws

/-- External issuers are safe: with an injective digest and proofs that only the holder of a key can make, the laws hold at every
point of every interleaving of the operations of the console, whatever the identities, the clock, the generators, what
discovery answers, and the failures of the database. -/
theorem oauth_issuers_safe (ports : ConsolePorts) (signed : String → String → Prop)
    (hsha : Function.Injective ports.sha256Hex)
    (hverify : ∀ proof jwk algorithm payload kid, ports.compactVerify proof jwk algorithm = some (payload, kid) →
      signed jwk payload) (p : ConsolePool)
    (h : (console ports).Reach Machine.anyCall (DbPool.initial ConsoleDb.empty) p) : IssuerSafety ports signed p where
  unique := by
    obtain ⟨d, rfl, hpath⟩ := inv_of_reach (console_serves hverify) rfl h
    exact (issuance_laws hpath).1
  active stackId row hrow hactive := activatedBy_of_reach hsha (console_serves hverify) h hrow hactive
  once i j t t' a b x y inspectionId ht ht' hx hy hcx hcy := by
    refine turns_once (console_serves hverify) rfl h (P := fun d => d.issuance.Used inspectionId) ?_ i j t t' a b x y ht ht'
      hx hy hcx hcy
    rintro e d d' hs ⟨inspection, hrow, hused⟩
    exact ⟨inspection, Issuance.used_kept hs.issuance hrow hused, hused⟩
  kept i q x stackId row hx hrow hactive := by
    rcases effect_of_made (console_serves hverify) rfl h hx with heq | ⟨e, hstep, _⟩
    · rw [heq]
      exact hrow
    · exact Issuance.active_kept hstep.issuance hrow hactive
  stays p' h' stackId row hrow hactive := by
    obtain ⟨es, _, hpath⟩ := path_of_reach (console_serves hverify) rfl h h'
    exact hpath.rule (P := fun d => d.issuance.issuer stackId = some row)
      (fun _ _ _ hs hold => Issuance.active_kept hs.issuance hold hactive) hrow

section Sample

/-- The metadata and the key that discovery finds. -/
def discoveredIssuer : OAuthDiscoveryResult where
  metadata := ⟨"https://a", "https://a/m", .oauth, "https://a/au", "https://a/t", "https://a/j", none, [], ["S256"]⟩
  metadataDigest := "m"
  jwksDigest := "j"
  keys := [⟨"k", "ES256", "K"⟩]

/-- The challenge of the first inspection. -/
def sampleChallenge : String :=
  buildOAuthIssuerInspectionChallenge ⟨"n", "i", "cas_s", "https://a", "o/stacks/cas_s", "m", "j", 1800, 1000⟩

/-- The challenge of the second one. -/
def secondChallenge : String :=
  buildOAuthIssuerInspectionChallenge ⟨"n'", "i'", "cas_s", "https://a", "o/stacks/cas_s", "m", "j", 1800, 1000⟩

/-- The proof that the holder of the key has made of the first challenge. -/
def sampleProof : String := "h." ++ sampleChallenge ++ ".s"

/-- Ports with one stack and one issuer, whose key has signed one challenge. -/
def issuerPorts : ConsolePorts where
  now _ _ := 0
  generateStackId _ := "cas_s"
  generateInvitationId _ := "inv_i"
  generateInvitationToken _ := "token"
  generateEventId i := String.ofList (List.replicate i 'e')
  sha256Hex := assign
    [("\x7b\"displayName\":\"docs\"\x7d", "dd86af3e336ae4b6cc316a118f87322484dbb0ab31d40e18925909494fddaef6"),
      (sampleChallenge, "6534ee7e272c070c10689ea13aefad5b3dbc2ad9b3c6a1e83b3c8f5752d0d3cf"),
      (secondChallenge, "5120dd7bb51dd65c7085a1c294d9907b1bba5f165779912dfe011250e1025365")]
  toLowerCase := id
  canonicalJson field value :=
    "\x7b\"" ++ field ++ "\":" ++ ((value.map fun text => "\"" ++ text ++ "\"").getD "null") ++ "\x7d"
  managedOAuthIssuer := none
  invitationTtlMs := 1000
  parseUrl _ := some ⟨"https:", "", "", "a", "", ""⟩
  encodeURIComponent := id
  oauthDiscovery := some fun _ _ => .ok discoveredIssuer
  oauthResourceOrigin := some "o"
  oauthInspectionTtlMs := 1000
  generateOAuthInspectionId i := if i = 1 then "i" else "i'"
  generateNonce i := if i = 1 then "n" else "n'"
  decodeBase64Url := some
  decodeProtectedHeader _ := some (some "k", some "ES256")
  compactVerify proof jwk _ := if proof = sampleProof ∧ jwk = "K" then some (sampleChallenge, some "k") else none
  jwkKid _ := some "k"
  number text := if text = "1800" then some 1800 else if text = "1000" then some 1000 else none

/-- What the holder of the key has signed. -/
def issuerSigned (jwk challenge : String) : Prop := jwk = "K" ∧ challenge = sampleChallenge

def founder : Context := ⟨⟨"issuer", "ann"⟩, none, none, none, none, none, none⟩

/-- Ann creates a stack, inspects an issuer, starts to inspect it again, and activates it before the second inspection
commits. -/
def issuerRun : List (Label Nat ConsoleRequest Empty) :=
  [.start 0 (.control (.createStack founder "docs" none)), .run 0 .none,
    .start 1 (.inspectOAuthIssuer founder "cas_s" "https://a"), .run 1 .none, .run 1 .none, .run 1 .none, .run 1 .none,
    .start 2 (.inspectOAuthIssuer founder "cas_s" "https://a"), .run 2 .none, .run 2 .none, .run 2 .none,
    .start 3 (.activateOAuthIssuer founder "cas_s" "i" sampleProof (some "\"1\"")), .run 3 .none, .run 3 .none, .run 3 .none,
    .run 3 .none, .run 3 .none, .run 2 .none]

/-- The issuer is active, and the inspection that was in flight has changed nothing. -/
theorem oauth_issuers_safe_in_flight : ∃ p row, (console issuerPorts).exec? issuerRun (DbPool.initial ConsoleDb.empty) = some p
    ∧ p.result 2 = some (.ok (.admin (.error .revisionMismatch "OAuth issuer resource revision has changed")))
    ∧ p.state.db.oauthIssuers.lookup "cas_s" = some row ∧ row.status = .active ∧ IssuerSafety issuerPorts issuerSigned p := by
  have hrun : ((console issuerPorts).exec? issuerRun (DbPool.initial ConsoleDb.empty)).any (fun p =>
      decide (p.result 2 = some (.ok (.admin (.error .revisionMismatch "OAuth issuer resource revision has changed"))))
        && (p.state.db.oauthIssuers.lookup "cas_s").any fun row => decide (row.status = .active)) = true := by
    with_unfolding_all decide
  obtain ⟨p, hp, hchecks⟩ := Option.any_eq_true .. |>.mp hrun
  simp only [Bool.and_eq_true, decide_eq_true_eq] at hchecks
  obtain ⟨row, hrow, hactive⟩ := Option.any_eq_true .. |>.mp hchecks.2
  refine ⟨p, row, hp, hchecks.1, hrow, of_decide_eq_true hactive, ?_⟩
  refine oauth_issuers_safe issuerPorts issuerSigned (assign _).injective ?_ p (Machine.reach_of_exec? _ .init hp)
  intro proof jwk algorithm payload kid hverify
  simp only [issuerPorts] at hverify
  split at hverify
  · rename_i hproof
    cases hverify
    exact ⟨hproof.2, rfl⟩
  · cases hverify

end Sample

end UniDocs.Control
