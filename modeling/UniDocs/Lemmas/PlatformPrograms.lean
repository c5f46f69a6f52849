import UniDocs.Platform.Ledger

/-!
# Platform documents, call by call

Every transaction of the object makes the transition that its label names, and a root is retained before the version that needs
it. What a program has learnt of the ledger stays true while others run, because a ledger only grows. The hashes are those of a
function that gives hashes and does not take two state hashes to one digest.
-/

namespace UniDocs.Platform

open Lib Lib.Trace Lib.Sql

/-! ## Request ids -/

theorem isHash_chars {text : String} (h : isHash text = true) :
    text.toList.length = 64 ∧ ∀ c ∈ text.toList, c.isAlphanum = true := by
  simp only [isHash, Bool.and_eq_true, decide_eq_true_eq, List.all_eq_true, Bool.or_eq_true] at h
  refine ⟨h.1, fun c hc => ?_⟩
  rcases h.2 c hc with hdigit | ⟨hlo, hhi⟩
  · simp [Char.isAlphanum, hdigit]
  · have hlower : c.isLower = true := by
      have hf : 'f'.val ≤ 'z'.val := by decide
      exact Bool.and_eq_true_iff.mpr ⟨decide_eq_true hlo, decide_eq_true (UInt32.le_trans hhi hf)⟩
    have halpha : c.isAlpha = true := Bool.or_eq_true_iff.mpr (.inr hlower)
    simp [Char.isAlphanum, halpha]

theorem isOperationId_requestId {front : String} {digest : String} (hfront : front.toList.length = 16)
    (hchars : (front.toList.all fun c => c.isAlphanum || c = '_' || c = '-') = true) (h : isHash digest = true) :
    isOperationId (front ++ digest ++ "-root") = true := by
  obtain ⟨hlength, halnum⟩ := isHash_chars h
  simp only [isOperationId, String.toList_append, List.length_append, hfront, hlength, Bool.and_eq_true, decide_eq_true_eq,
    List.all_append]
  exact ⟨by decide, ⟨hchars, List.all_eq_true.mpr fun c hc => by simp [halnum c hc]⟩, by decide⟩

theorem isOperationId_createRequestId {digest : String} (h : isHash digest = true) : isOperationId (createRequestId digest) = true :=
  isOperationId_requestId (by decide) (by decide) h

theorem isOperationId_commitRequestId {digest : String} (h : isHash digest = true) : isOperationId (commitRequestId digest) = true :=
  isOperationId_requestId (by decide) (by decide) h

theorem createRequestId_inj {a b : String} (h : createRequestId a = createRequestId b) : a = b := by
  have hlist := congrArg String.toList h
  simp only [createRequestId, String.toList_append] at hlist
  exact String.toList_injective (List.append_cancel_left (List.append_cancel_right hlist))

theorem commitRequestId_inj {a b : String} (h : commitRequestId a = commitRequestId b) : a = b := by
  have hlist := congrArg String.toList h
  simp only [commitRequestId, String.toList_append] at hlist
  exact String.toList_injective (List.append_cancel_left (List.append_cancel_right hlist))

theorem createRequestId_ne {a b : String} : createRequestId a ≠ commitRequestId b := by
  intro h
  have hlist := congrArg (fun text => text.toList.take 11) h
  simp only [createRequestId, commitRequestId, String.toList_append, List.append_assoc] at hlist
  rw [List.take_append_of_le_length (by decide), List.take_append_of_le_length (by decide)] at hlist
  exact absurd hlist (by decide)

/-! ## What programs learn of the ledger -/

/-- Hashes are hashes, and no digest is that of two states. -/
structure Ports.Lawful (ports : Ports) : Prop where
  creation : ∀ identity stateHash, isHash stateHash = true → isHash (ports.digestCreation identity stateHash) = true
  candidate : ∀ identity candidate, candidate.Checked → isHash (ports.digestCandidate identity candidate) = true
  creation_inj : ∀ a b h k, isHash h = true → isHash k = true → ports.digestCreation a h = ports.digestCreation b k → h = k
  candidate_inj : ∀ a b (c d : Candidate), c.Checked → d.Checked → ports.digestCandidate a c = ports.digestCandidate b d →
    c.stateHash = d.stateHash

namespace Ledger

/-- The document is there, or its creation has begun. -/
def Opened (l : Ledger) : Prop := l.identity ≠ none ∨ ∃ row, l.creation = some row

/-- An operation has been offered, for a root under a digest. -/
def Knows (l : Ledger) (operationId requestDigest stateHash : String) : Prop :=
  ∃ row, l.intent operationId = some row ∧ row.requestDigest = requestDigest ∧ row.stateHash = stateHash

/-- An operation has been offered with a candidate. -/
def Offered (l : Ledger) (candidate : Candidate) : Prop :=
  ∃ row, l.intent candidate.operationId = some row ∧ row.candidate candidate.operationId = candidate

/-- What an operation was told is its receipt, or was before its commit. -/
def Told (l : Ledger) (operationId : String) (receipt : Receipt) : Prop :=
  ∃ row, l.intent operationId = some row ∧
    (row.receipt = receipt ∨ receipt.outcome = .pending ∧ row.receipt = receipt.commit operationId)

/-- What an operation was told is the last receipt it will have. -/
def Settled (l : Ledger) (operationId : String) (receipt : Receipt) : Prop :=
  receipt.outcome ≠ .pending ∧ ∃ row, l.intent operationId = some row ∧ row.receipt = receipt

variable {l l' : Ledger}

theorem Opened.grow (hg : l.Grows l') (h : l.Opened) : l'.Opened := by
  rcases h with h | ⟨row, hrow⟩
  · obtain ⟨identity, hidentity⟩ := Option.ne_none_iff_exists'.mp h
    exact .inl (by rw [hg.identity identity hidentity]; simp)
  · rcases hg.creation row hrow with hkept | hdone
    · exact .inr ⟨row, hkept⟩
    · exact .inl hdone

theorem Knows.grow {op digest hash : String} (hg : l.Grows l') (h : l.Knows op digest hash) : l'.Knows op digest hash := by
  obtain ⟨row, hrow, hdigest, hhash⟩ := h
  obtain ⟨row', hrow', hlater⟩ := hg.intent op row hrow
  obtain ⟨-, h2, h3⟩ := hlater.fields
  exact ⟨row', hrow', h2.trans hdigest, h3.trans hhash⟩

theorem Offered.grow {candidate : Candidate} (hg : l.Grows l') (h : l.Offered candidate) : l'.Offered candidate := by
  obtain ⟨row, hrow, hcandidate⟩ := h
  obtain ⟨row', hrow', hlater⟩ := hg.intent _ row hrow
  obtain ⟨h1, -, h3⟩ := hlater.fields
  refine ⟨row', hrow', ?_⟩
  rw [← hcandidate]
  simp only [IntentRow.candidate, h1, h3]

theorem Told.grow {op : String} {receipt : Receipt} (hg : l.Grows l') (h : l.Told op receipt) : l'.Told op receipt := by
  obtain ⟨row, hrow, htold⟩ := h
  obtain ⟨row', hrow', rfl | ⟨hpending, rfl⟩⟩ := hg.intent op row hrow
  · exact ⟨row', hrow', htold⟩
  · refine ⟨_, hrow', ?_⟩
    rcases htold with rfl | ⟨_, hcommit⟩
    · exact .inr ⟨hpending, rfl⟩
    · rw [hcommit] at hpending
      cases hpending

theorem Settled.grow {op : String} {receipt : Receipt} (hg : l.Grows l') (h : l.Settled op receipt) : l'.Settled op receipt := by
  obtain ⟨hterminal, row, hrow, rfl⟩ := h
  obtain ⟨row', hrow', hlater⟩ := hg.intent op row hrow
  exact ⟨hterminal, row', hrow', by rw [hlater.terminal hterminal]⟩

theorem Settled.told {op : String} {receipt : Receipt} (h : l.Settled op receipt) : l.Told op receipt := by
  obtain ⟨_, row, hrow, heq⟩ := h
  exact ⟨row, hrow, .inl heq⟩

end Ledger

/-- The transitions of an object, whatever calls fail or lose their answers. -/
def system (ports : Ports) : System Db PlatformError Nat Entry Request where
  step e d d' := Change ports e d.ledger d'.ledger
  start d := d = Db.empty
  may _ _ _ := True
  allowed := Machine.anyCall

section Rules

variable {ports : Ports} {i : Nat} {q : Request} {d d' : Db} {s : Traced Db Nat Entry} {es : List (Nat × Entry)}

theorem path_valid (hv : d.ledger.Valid ports) (h : Path (system ports).step d es d') :
    d'.ledger.Valid ports ∧ d.ledger.Grows d'.ledger := by
  refine h.rule (P := fun d' => d'.ledger.Valid ports ∧ d.ledger.Grows d'.ledger) ?_ ⟨hv, .refl _⟩
  rintro e d₁ d₂ hs ⟨hvalid, hg⟩
  exact ⟨Change.valid hvalid hs, hg.trans (Change.grows hvalid hs)⟩

theorem inv_valid (h : (system ports).Inv s) : s.db.ledger.Valid ports := by
  obtain ⟨d, rfl, hpath⟩ := h
  exact (path_valid valid_empty hpath).1

theorem stable_ledger {P : Ledger → Prop} (hP : ∀ l l', l.Grows l' → P l → P l') :
    Stable ((system ports).spec .storage i q) fun s => P s.db.ledger := by
  rintro s s' hi _ ⟨es, _, _, hpath⟩ h
  exact hP _ _ (path_valid (inv_valid hi) hpath).2 h

end Rules

/-! ## The transactions -/

section Transactions

variable {ports : Ports} {d d' : Db}

theorem ledger_identity_some {row : DocumentRow} (h : d.document = some row) :
    d.ledger.identity = some row.identity ∧ d.ledger.head = row.headVersion := by
  simp [Db.ledger, h]

theorem ledger_identity_none (h : d.document = none) : d.ledger.identity = none := by
  simp [Db.ledger, h]

theorem version_ok {v : Nat} {found : DocumentVersion} (h : d.version v = .ok found) :
    found.version = v ∧ d.ledger.version v = some ⟨found.stateHash, found.createdAt⟩ := by
  unfold Db.version at h
  split at h
  · rename_i row hrow
    cases h
    exact ⟨rfl, hrow⟩
  · cases h

theorem parseReceipt_ok {receipt receipt' : Receipt} (h : parseReceipt receipt = .ok receipt') : receipt' = receipt := by
  unfold parseReceipt at h
  obtain ⟨_, _, h⟩ := bind_ok_iff.mp h
  obtain ⟨_, _, h⟩ := bind_ok_iff.mp h
  obtain ⟨_, h⟩ := check_ok_iff.mp h
  split at h
  · cases h
    rfl
  · split at h
    · cases h
      rfl
    · cases h
  · split at h
    · cases h
      rfl
    · cases h

variable {t : Option (Entry × Db)} {identity : IdentityObject} {stateHash : String}

theorem beginCreateTx_ok {creation : Creation}
    (h : beginCreateTx ports identity stateHash d = .ok (creation, t)) :
    creation = ⟨identity, stateHash, ports.digestCreation identity.fields stateHash⟩ ∧
      ((t = none ∧ d.ledger.Opened) ∨
        ∃ d', t = some (.begun identity stateHash, d') ∧ Change ports (.begun identity stateHash) d.ledger d'.ledger ∧
          d'.ledger.Opened) := by
  unfold beginCreateTx at h
  split at h
  · rename_i existing hdocument
    obtain ⟨_, h⟩ := check_ok_iff.mp h
    obtain ⟨first, _, h⟩ := bind_ok_iff.mp h
    obtain ⟨_, h⟩ := check_ok_iff.mp h
    cases h
    exact ⟨rfl, .inl ⟨rfl, .inl (by rw [(ledger_identity_some hdocument).1]; simp)⟩⟩
  · rename_i hdocument
    split at h
    · rename_i pending hpending
      dsimp only at h
      split at h
      · cases h
      · cases h
        exact ⟨rfl, .inl ⟨rfl, .inr ⟨pending, hpending⟩⟩⟩
    · rename_i hcreation
      cases h
      exact ⟨rfl, .inr ⟨_, rfl, ⟨ledger_identity_none hdocument, hcreation, rfl⟩, .inr ⟨_, rfl⟩⟩⟩

theorem createRetainedTx_ok {createdAt : Int}
    {result : IdentityObject × DocumentVersion}
    (hretained : d.ledger.CreateRetained ports identity.fields stateHash)
    (h : createRetainedTx identity stateHash createdAt d = .ok (result, t)) :
    result.1 = identity ∧ result.2.version = 1 ∧ result.2.stateHash = stateHash ∧
      ((t = none ∧ d.ledger.identity = some identity.fields ∧ d.ledger.head = 1 ∧
          d.ledger.version 1 = some ⟨stateHash, result.2.createdAt⟩) ∨
        ∃ d', t = some (.created identity stateHash, d') ∧ Change ports (.created identity stateHash) d.ledger d'.ledger ∧
          d'.ledger.identity = some identity.fields ∧ d'.ledger.version 1 = some ⟨stateHash, result.2.createdAt⟩) := by
  unfold createRetainedTx at h
  split at h
  · rename_i existing hdocument
    obtain ⟨hidentity, h⟩ := check_ok_iff.mp h
    obtain ⟨head, hhead, h⟩ := bind_ok_iff.mp h
    obtain ⟨hfirst, h⟩ := check_ok_iff.mp h
    cases h
    obtain ⟨hledger, hledgerHead⟩ := ledger_identity_some hdocument
    obtain ⟨hversion, hrow⟩ := version_ok hhead
    simp only [not_or, not_not] at hfirst hidentity
    obtain ⟨hone, rfl⟩ := hfirst
    have hv : existing.headVersion = 1 := hversion.symm.trans hone
    rw [hv] at hrow
    exact ⟨rfl, hone, rfl, .inl ⟨rfl, by rw [hledger, hidentity], by rw [hledgerHead, hv], hrow⟩⟩
  · rename_i hdocument
    split at h
    · cases h
    · rename_i pending hpending
      obtain ⟨hsame, h⟩ := check_ok_iff.mp h
      obtain ⟨versions, hversions, h⟩ := bind_ok_iff.mp h
      cases h
      obtain ⟨_, rfl⟩ := insertInto_ok hversions
      simp only [not_or, not_not] at hsame
      refine ⟨rfl, rfl, rfl, .inr ⟨_, rfl, ⟨ledger_identity_none hdocument, hretained, ⟨pending, hpending, hsame.1⟩, createdAt, ?_⟩, rfl, ?_⟩⟩
      · simp only [Db.ledger, AList.lookup_insert_update, Option.map_some, Option.getD_some]
      · simp [Db.ledger, AList.lookup_insert_update]

theorem beginCommitTx_ok {requestDigest : String} {candidate : Candidate} {receipt : Receipt}
    {identity : Identity} (hchecked : candidate.Checked)
    (hidentity : d.ledger.identity = some identity) (hdigest : requestDigest = ports.digestCandidate identity candidate)
    (h : beginCommitTx requestDigest candidate d = .ok (receipt, t)) :
    (t = none ∧ d.ledger.Offered candidate ∧ d.ledger.Told candidate.operationId receipt) ∨
      ∃ d', t = some (.offered candidate, d') ∧ Change ports (.offered candidate) d.ledger d'.ledger ∧
        d'.ledger.Offered candidate ∧ d'.ledger.Told candidate.operationId receipt := by
  unfold beginCommitTx at h
  split at h
  · cases h
  · rename_i document hdocument
    obtain ⟨hledger, hhead⟩ := ledger_identity_some hdocument
    split at h
    · rename_i existing hexisting
      obtain ⟨hsame, h⟩ := check_ok_iff.mp h
      obtain ⟨receipt', hparse, h⟩ := bind_ok_iff.mp h
      cases h
      have hreceipt := parseReceipt_ok hparse
      simp only [not_or, not_not] at hsame
      refine .inl ⟨rfl, ⟨existing, hexisting, ?_⟩, existing, hexisting, .inl hreceipt.symm⟩
      simp only [IntentRow.candidate, hsame.2.1, hsame.2.2]
    · rename_i hfree
      obtain ⟨_, hguard, h⟩ := bind_ok_iff.mp h
      obtain ⟨intents, hinsert, h⟩ := bind_ok_iff.mp h
      cases h
      obtain ⟨_, rfl⟩ := insertInto_ok hinsert
      have hindex := guardRow_ok hguard
      refine .inr ⟨_, rfl, ⟨identity, hidentity, hfree, hchecked, ?_, ?_⟩, ⟨_, AList.lookup_insert _, rfl⟩,
        ⟨_, AList.lookup_insert _, .inl rfl⟩⟩
      · intro hbase op row hrow hpending
        have hnew : (candidate.intent requestDigest document.headVersion).state = .pending := by
          simp [Candidate.intent, Candidate.receipt, Outcome.state, hbase, hhead]
        have hhas : d.intents.has (fun _ other => other.state = .pending) = true :=
          AList.has_iff.mpr ⟨op, row, hrow, by simp [hpending]⟩
        simp [pendingFree, hnew, hhas] at hindex
      · simp only [Db.ledger, AList.lookup_insert_update, hdocument, Option.map_some, Option.getD_some, ← hdigest]

theorem commitRetainedTx_ok {operationId requestDigest stateHash : String} {committedAt : Int} {receipt : Receipt}
    (hknows : d.ledger.Knows operationId requestDigest stateHash)
    (hroot : d.ledger.root (commitRequestId requestDigest) = some stateHash)
    (h : commitRetainedTx operationId committedAt d = .ok (receipt, t)) :
    (t = none ∧ d.ledger.Settled operationId receipt) ∨
      ∃ d', t = some (.committed operationId, d') ∧ Change ports (.committed operationId) d.ledger d'.ledger ∧
        d'.ledger.Settled operationId receipt := by
  unfold commitRetainedTx at h
  split at h
  · cases h
  · rename_i document hdocument
    obtain ⟨hledger, hhead⟩ := ledger_identity_some hdocument
    split at h
    · cases h
    · rename_i intent hintent
      obtain ⟨parsed, hparse, h⟩ := bind_ok_iff.mp h
      have hreceipt := parseReceipt_ok hparse
      subst hreceipt
      split at h
      · rename_i hterminal
        cases h
        exact .inl ⟨rfl, hterminal, intent, hintent, rfl⟩
      · rename_i hpending
        obtain ⟨hsame, h⟩ := check_ok_iff.mp h
        obtain ⟨versions, hversions, h⟩ := bind_ok_iff.mp h
        cases h
        obtain ⟨_, rfl⟩ := insertInto_ok hversions
        obtain ⟨row, hrow, rfl, rfl⟩ := hknows
        cases hrow.symm.trans hintent
        simp only [not_not] at hpending hsame
        refine .inr ⟨_, rfl, ⟨intent, hintent, hpending, by rw [hhead, hsame], hroot, committedAt, ?_⟩, nofun, _,
          AList.lookup_insert _, rfl⟩
        simp only [Db.ledger, AList.lookup_insert_update, hdocument, Option.map_some, Option.getD_some]

theorem retainTx_ok {requestId stateHash : String} {u : Unit}
    (hnamed : Named ports d.ledger requestId stateHash) (h : retainTx requestId stateHash d = .ok (u, t)) :
    (t = none ∧ d.ledger.root requestId = some stateHash) ∨
      ∃ d', t = some (.retained requestId stateHash, d') ∧ Change ports (.retained requestId stateHash) d.ledger d'.ledger ∧
        d'.ledger.root requestId = some stateHash := by
  unfold retainTx at h
  split at h
  · rename_i applied happlied
    split at h
    · rename_i hsame
      cases h
      exact .inl ⟨rfl, hsame ▸ happlied⟩
    · cases h
  · rename_i hfree
    cases h
    refine .inr ⟨_, rfl, ⟨hfree, hnamed, ?_⟩, AList.lookup_insert _⟩
    simp only [Db.ledger, AList.lookup_insert_update]

/-! ## Where they fail -/

/-- The errors that a caller can meet: of its arguments, of what it has asked for before, of another commit that is pending, of
an editor, and of a call that failed. -/
def PlatformError.Expected (e : PlatformError) : Prop :=
  e ∈ [.invalidIdentity, .invalidBaseVersion, .invalidOperationId, .invalidStateHash, .invalidTimestamp, .createConflict,
    .identityConflict, .documentNotFound, .payloadConflict, .constraint, .storage] ∨ ∃ message, e = .capture message

theorem Ledger.Valid.parse (hlawful : ports.Lawful) (hvalid : d.ledger.Valid ports) {operationId : String} {row : IntentRow}
    (hrow : d.ledger.intent operationId = some row) : parseReceipt row.receipt = .ok row.receipt := by
  have hfits := hvalid.fits operationId row hrow
  obtain ⟨hid, hbase, hsafe, -⟩ := hfits.checked.bounds
  obtain ⟨identity, hidentity, hdigest⟩ := hfits.digest
  have hhash : isHash row.requestDigest = true := by
    rw [hdigest]
    exact hlawful.candidate identity _ hfits.checked
  have hhead := (hvalid.present identity hidentity).2
  have hbase : 1 ≤ row.baseVersion := hbase
  have hsafe : row.baseVersion < maxSafeInteger := hsafe
  have hid : isOperationId operationId = true := hid
  have hrange : ¬ (row.baseVersion < 1 ∨ maxSafeInteger < row.baseVersion) := by omega
  rw [hfits.receipt]
  cases hout : row.receipt.outcome with
  | pending =>
    simp only [parseReceipt, requireOperationId, requireHash, hid, hhash, if_true, if_neg hrange]
    rfl
  | committed v =>
    have hv := (hfits.committed v hout).1
    simp only [parseReceipt, requireOperationId, requireHash, hid, hhash, if_true, if_neg hrange, if_pos hv]
    rfl
  | rejected head =>
    obtain ⟨h1, h2, -⟩ := hfits.rejected head hout
    have hle : 1 ≤ head ∧ head ≤ maxSafeInteger := ⟨h1, le_trans h2 hhead⟩
    simp only [parseReceipt, requireOperationId, requireHash, hid, hhash, if_true, if_neg hrange, if_pos hle]
    rfl

theorem Ledger.Valid.version_exists (hvalid : d.ledger.Valid ports) {v : Nat} (h1 : 1 ≤ v) (hv : v ≤ d.ledger.head) :
    ∃ row, d.versions.lookup v = some row ∧ d.version v = .ok ⟨v, row.stateHash, row.createdAt⟩ := by
  obtain ⟨row, hrow⟩ := (hvalid.numbered v).mpr ⟨h1, hv⟩
  have hlookup : d.versions.lookup v = some row := hrow
  exact ⟨row, hlookup, by simp [Db.version, hlookup]⟩

theorem beginCreateTx_error {e : PlatformError}
    (hvalid : d.ledger.Valid ports) (h : beginCreateTx ports identity stateHash d = .error e) : e = .createConflict := by
  unfold beginCreateTx at h
  split at h
  · rename_i existing hdocument
    obtain ⟨row, _, hversion⟩ := hvalid.version_exists (le_refl 1) (hvalid.present _ (ledger_identity_some hdocument).1).1
    rw [hversion] at h
    split at h
    · cases h
      rfl
    · obtain h | ⟨_, hok, h⟩ := bind_error_iff.mp h
      · cases h
      · cases hok
        split at h <;> cases h
        rfl
  · split at h
    · dsimp only at h
      split at h <;> cases h
      rfl
    · cases h

theorem createRetainedTx_error {createdAt : Int} {e : PlatformError}
    (hvalid : d.ledger.Valid ports) (hopened : d.ledger.Opened) (h : createRetainedTx identity stateHash createdAt d = .error e) :
    e = .identityConflict ∨ e = .createConflict := by
  unfold createRetainedTx at h
  split at h
  · rename_i existing hdocument
    obtain ⟨hledger, hhead⟩ := ledger_identity_some hdocument
    have hpresent := (hvalid.present _ hledger).1
    rw [hhead] at hpresent
    obtain ⟨row, _, hversion⟩ := hvalid.version_exists hpresent (le_of_eq hhead.symm)
    rw [hversion] at h
    split at h
    · cases h
      exact .inl rfl
    · obtain h | ⟨_, hok, h⟩ := bind_error_iff.mp h
      · cases h
      · cases hok
        split at h <;> cases h
        exact .inr rfl
  · rename_i hdocument
    have hnone := ledger_identity_none hdocument
    split at h
    · rename_i hcreation
      rcases hopened with hsome | ⟨row, hrow⟩
      · exact absurd hnone hsome
      · rw [show d.ledger.creation = none from hcreation] at hrow
        cases hrow
    · split at h
      · cases h
        exact .inr rfl
      · have hfree : d.versions.lookup 1 = none :=
          hvalid.version_none (by rw [(hvalid.absent hnone).1]; exact Nat.one_pos)
        have hinsert : ∀ row : VersionRow, insertInto PlatformError.constraint 1 row d.versions = .ok (d.versions.insert 1 row) :=
          fun row => by simp [insertInto, AList.insertNew, AList.lookup_eq_none.mp hfree]
        rw [hinsert] at h
        cases h

theorem beginCommitTx_error (hlawful : ports.Lawful) {requestDigest : String} {candidate : Candidate} {e : PlatformError}
    (hvalid : d.ledger.Valid ports) (h : beginCommitTx requestDigest candidate d = .error e) :
    e = .documentNotFound ∨ e = .payloadConflict ∨ e = .constraint := by
  unfold beginCommitTx at h
  split at h
  · cases h
    exact .inl rfl
  · split at h
    · rename_i existing hexisting
      rw [hvalid.parse hlawful hexisting] at h
      split at h
      · cases h
        exact .inr (.inl rfl)
      · cases h
    · obtain h | ⟨_, _, h⟩ := bind_error_iff.mp h
      · unfold guardRow at h
        split at h <;> cases h
        exact .inr (.inr rfl)
      · obtain h | ⟨_, _, h⟩ := bind_error_iff.mp h
        · unfold insertInto at h
          split at h <;> cases h
          exact .inr (.inr rfl)
        · cases h

theorem commitRetainedTx_some (hlawful : ports.Lawful) {operationId requestDigest stateHash : String} (committedAt : Int)
    (hvalid : d.ledger.Valid ports) (hknows : d.ledger.Knows operationId requestDigest stateHash) :
    ∃ r, commitRetainedTx operationId committedAt d = .ok r := by
  obtain ⟨row, hrow, -, -⟩ := hknows
  obtain ⟨identity, hidentity⟩ := hvalid.absent_of_intent hrow
  obtain ⟨document, hdocument, -⟩ := Option.map_eq_some_iff.mp hidentity
  have hhead := (ledger_identity_some hdocument).2
  have hlookup : d.intents.lookup operationId = some row := hrow
  have hfits := hvalid.fits operationId row hrow
  have hbase : row.receipt.baseVersion = row.baseVersion := by rw [hfits.receipt]
  simp only [commitRetainedTx, hdocument, hlookup, hvalid.parse hlawful hrow]
  by_cases hpending : row.receipt.outcome = .pending
  · have hon : document.headVersion = row.receipt.baseVersion := by rw [← hhead, hbase, hfits.pending hpending]
    have hfree : d.versions.lookup (row.receipt.baseVersion + 1) = none := hvalid.version_none (by omega)
    exact ⟨_, by simp [hpending, hon, insertInto, AList.insertNew, AList.lookup_eq_none.mp hfree, bind, Except.bind]; rfl⟩
  · exact ⟨_, by simp [hpending, bind, Except.bind]; rfl⟩

theorem retainTx_some {requestId stateHash : String} (hclash : ∀ other, d.ledger.root requestId = some other → other = stateHash) :
    ∃ r, retainTx requestId stateHash d = .ok r := by
  unfold retainTx
  split
  · rename_i applied happlied
    rw [if_pos (hclash applied happlied)]
    exact ⟨_, rfl⟩
  · exact ⟨_, rfl⟩

theorem create_clash (hlawful : ports.Lawful) (hvalid : d.ledger.Valid ports) {identity : Identity} {stateHash other : String}
    (hhash : isHash stateHash = true)
    (h : d.ledger.root (createRequestId (ports.digestCreation identity stateHash)) = some other) : other = stateHash := by
  rcases hvalid.named _ _ h with ⟨identity', hother, hid⟩ | ⟨_, _, _, _, _, hid⟩
  · exact hlawful.creation_inj _ _ _ _ hother hhash (createRequestId_inj hid).symm
  · exact absurd hid createRequestId_ne

theorem commit_clash (hlawful : ports.Lawful) (hvalid : d.ledger.Valid ports) {operationId requestDigest stateHash other : String}
    (hknows : d.ledger.Knows operationId requestDigest stateHash)
    (h : d.ledger.root (commitRequestId requestDigest) = some other) : other = stateHash := by
  obtain ⟨row, hrow, rfl, rfl⟩ := hknows
  have hfits := hvalid.fits operationId row hrow
  obtain ⟨identity, _, hdigest⟩ := hfits.digest
  rcases hvalid.named _ _ h with ⟨_, _, hid⟩ | ⟨identity', candidate, _, hchecked, rfl, hid⟩
  · exact absurd hid.symm createRequestId_ne
  · rw [hdigest] at hid
    exact hlawful.candidate_inj _ _ _ _ hchecked hfits.checked (commitRequestId_inj hid).symm

/-- The root of an operation that was offered may be retained for it. -/
theorem knows_named (hlawful : ports.Lawful) (hvalid : d.ledger.Valid ports) {operationId requestDigest stateHash : String}
    (hknows : d.ledger.Knows operationId requestDigest stateHash) : (isHash requestDigest = true ∧ isHash stateHash = true) ∧
      Named ports d.ledger (commitRequestId requestDigest) stateHash := by
  obtain ⟨row, hrow, rfl, rfl⟩ := hknows
  have hfits := hvalid.fits operationId row hrow
  obtain ⟨identity, hidentity, hdigest⟩ := hfits.digest
  refine ⟨⟨?_, hfits.checked.bounds.2.2.2⟩, .inr ⟨identity, _, hidentity, hfits.checked, rfl, by rw [hdigest]⟩⟩
  rw [hdigest]
  exact hlawful.candidate _ _ hfits.checked

end Transactions

/-! ## The programs -/

section Programs

variable {ports : Ports} {i : Nat} {q : Request} {α β : Type}

/-- What a program needs of the ledger and what it has learnt of it when it ends; its errors are expected. -/
abbrev Does (ports : Ports) (i : Nat) (q : Request) (P : Ledger → Prop) (p : PlatformProg α) (Q : α → Ledger → Prop) : Prop :=
  Triple ((system ports).spec .storage i q) (fun s => P s.db.ledger) p (fun a s => Q a s.db.ledger) fun e _ => e.Expected

/-- What is kept while a ledger grows. -/
def Lasts (P : Ledger → Prop) : Prop := ∀ l l' : Ledger, l.Grows l' → P l → P l'

theorem Lasts.const (p : Prop) : Lasts fun _ => p := fun _ _ _ h => h

theorem Lasts.and {P Q : Ledger → Prop} (hP : Lasts P) (hQ : Lasts Q) : Lasts fun l => P l ∧ Q l :=
  fun l l' hg h => ⟨hP l l' hg h.1, hQ l l' hg h.2⟩

variable {P : Ledger → Prop}

theorem Lasts.imp {p : Prop} (hP : Lasts P) : Lasts fun l => p → P l :=
  fun l l' hg h hp => hP l l' hg (h hp)

theorem Lasts.identity (identity : Identity) : Lasts fun l => l.identity = some identity :=
  fun _ _ hg h => hg.identity identity h

theorem Lasts.root (requestId stateHash : String) : Lasts fun l => l.root requestId = some stateHash :=
  fun _ _ hg h => hg.root requestId stateHash h

theorem Lasts.version (v : Nat) (row : VersionRow) : Lasts fun l => l.version v = some row :=
  fun _ _ hg h => hg.version v row h

/-- The rule of a transaction. -/
theorem does_batch {f : Db → Except PlatformError (Committed β)} {Q : β → Ledger → Prop}
    (hQ : ∀ b, Lasts (Q b))
    (hok : ∀ d b t, d.ledger.Valid ports → P d.ledger → f d = .ok (b, t) → (t = none ∧ Q b d.ledger) ∨
      ∃ e d', t = some (e, d') ∧ Change ports e d.ledger d'.ledger ∧ Q b d'.ledger)
    (herr : ∀ d e, d.ledger.Valid ports → P d.ledger → f d = .error e → e.Expected) : Does ports i q P (batch i f) Q := by
  have hstorage : PlatformError.storage.Expected := .inl (by decide)
  refine System.batch_rule (fun b => stable_ledger (hQ b)) (fun e => Stable.const _) ?_ ?_ ?_ (fun _ _ _ => hstorage)
    (fun _ _ _ _ _ _ _ _ => hstorage)
  · intro s b hi hp hf
    rcases hok s.db b none (inv_valid hi) hp hf with ⟨_, h⟩ | ⟨e, d', ht, _⟩
    · exact h
    · cases ht
  · intro s b e d hi hp hf
    rcases hok s.db b _ (inv_valid hi) hp hf with ⟨ht, _⟩ | ⟨e', d', ht, hchange, h⟩
    · cases ht
    · cases ht
      exact ⟨hchange, trivial, h⟩
  · exact fun s e hi hp hf => herr s.db e (inv_valid hi) hp hf

theorem does_read {f : Db → β} {Q : β → Ledger → Prop} (hQ : ∀ b, Lasts (Q b))
    (h : ∀ d : Db, d.ledger.Valid ports → P d.ledger → Q (f d) d.ledger) : Does ports i q P (read f) Q :=
  System.read_rule (fun b => stable_ledger (hQ b)) (Stable.const _) (fun s hi hp => h s.db (inv_valid hi) hp)
    fun _ _ _ => .inl (by decide)

variable {Q : α → Ledger → Prop}

/-- A check, and what follows where it passes. -/
theorem does_check {r : Except PlatformError β} {g : β → PlatformProg α}
    (herr : ∀ e, r = .error e → e.Expected) (hg : ∀ b, r = .ok b → Does ports i q P (g b) Q) :
    Does ports i q P (evaluate r >>= g) Q := by
  refine Triple.bind (System.evaluate_rule fun e _ hr _ _ => herr e hr) fun b => ?_
  exact Triple.of_pure fun hr => hg b hr

/-- A computation whose value is known. -/
theorem does_known {r : Except PlatformError β} (b : β) {g : β → PlatformProg α}
    (hr : ∀ l, P l → r = .ok b) (hg : Does ports i q P (g b) Q) : Does ports i q P (evaluate r >>= g) Q := by
  intro s hi hp
  have hvalue := hr _ hp
  subst hvalue
  exact hg s hi hp

variable {p : PlatformProg α}

theorem does_bind {g : α → PlatformProg β}
    {R : β → Ledger → Prop} (hp : Does ports i q P p Q) (hg : ∀ a, Does ports i q (Q a) (g a) R) :
    Does ports i q P (p >>= g) R := Triple.bind hp hg

theorem does_pure {a : α} (h : ∀ l, P l → Q a l) :
    Does ports i q P (pure a) Q := Triple.pure fun _ _ hp => h _ hp

theorem does_pre {P P' : Ledger → Prop} (h : Does ports i q P p Q)
    (hP : ∀ l, P' l → P l) : Does ports i q P' p Q := Triple.pre h fun _ _ hp => hP _ hp

theorem does_post {Q Q' : α → Ledger → Prop} (h : Does ports i q P p Q)
    (hQ : ∀ a l, Q a l → Q' a l) : Does ports i q P p Q' := Triple.post h fun a _ _ hq => hQ a _ hq

/-- What lasts is carried along. -/
theorem does_carry {P R : Ledger → Prop} (hR : Lasts R) (h : Does ports i q P p Q) :
    Does ports i q (fun l => R l ∧ P l) p fun a l => R l ∧ Q a l := by
  refine Triple.conseq (Triple.carry (F := fun s : Traced Db Nat Entry => R s.db.ledger) ?_ ?_ h) (fun _ _ hp => hp)
    (fun _ _ _ hq => hq) fun _ _ _ he => he.2
  · intro s s' hi hacts hr
    obtain ⟨es, _, hpath⟩ := hacts.path
    exact hR _ _ (path_valid (inv_valid hi) hpath).2 hr
  · rintro s s' hi ⟨es, _, _, hpath⟩ hr
    exact hR _ _ (path_valid (inv_valid hi) hpath).2 hr

variable {e : PlatformError}

theorem requireIdentity_error {identity : IdentityObject} (h : requireIdentity identity = .error e) :
    e.Expected := by
  unfold requireIdentity at h
  dsimp only at h
  split at h <;> cases h
  exact .inl (by decide)

theorem requireHash_error {hash : String} (h : requireHash hash = .error e) : e.Expected := by
  unfold requireHash at h
  split at h <;> cases h
  exact .inl (by decide)

theorem requireHash_ok {hash : String} {u : Unit} (h : requireHash hash = .ok u) : isHash hash = true := by
  unfold requireHash at h
  split at h
  · assumption
  · cases h

theorem requireTimestamp_error {timestamp : Int} (h : requireTimestamp timestamp = .error e) :
    e.Expected := by
  unfold requireTimestamp at h
  split at h <;> cases h
  exact .inl (by decide)

theorem requireOperationId_error {operationId : String} (h : requireOperationId operationId = .error e) :
    e.Expected := by
  unfold requireOperationId at h
  split at h <;> cases h
  exact .inl (by decide)

theorem requireCandidate_error {candidate : Candidate} (h : requireCandidate candidate = .error e) :
    e.Expected := by
  unfold requireCandidate at h
  obtain h | ⟨_, _, h⟩ := bind_error_iff.mp h
  · exact requireOperationId_error h
  · split at h
    · cases h
      exact .inl (by decide)
    · exact requireHash_error h

/-! ### Creation -/

theorem does_beginCreate (identity : IdentityObject) (stateHash : String) :
    Does ports i q (fun _ => True) (beginCreate ports i identity stateHash) fun creation l =>
      (creation = ⟨identity, stateHash, ports.digestCreation identity.fields stateHash⟩ ∧ isHash stateHash = true) ∧ l.Opened := by
  refine does_check (fun _ => requireIdentity_error) fun _ _ => does_check (fun _ => requireHash_error) fun _ hhash => ?_
  refine does_batch (fun creation => (Lasts.const _).and fun _ _ => Ledger.Opened.grow) ?_ ?_
  · intro d creation t _ _ hf
    obtain ⟨rfl, ⟨rfl, hopened⟩ | ⟨d', rfl, hchange, hopened⟩⟩ := beginCreateTx_ok hf
    · exact .inl ⟨rfl, ⟨rfl, requireHash_ok hhash⟩, hopened⟩
    · exact .inr ⟨_, d', rfl, hchange, ⟨rfl, requireHash_ok hhash⟩, hopened⟩
  · intro d e hvalid _ hf
    rw [beginCreateTx_error hvalid hf]
    exact .inl (by decide)

theorem does_retainRoot {requestId stateHash : String} (hP : Lasts P) (hid : isOperationId requestId = true)
    (hhash : isHash stateHash = true) (hnamed : ∀ l : Ledger, P l → Named ports l requestId stateHash)
    (hclash : ∀ d : Db, d.ledger.Valid ports → P d.ledger → ∀ other, d.ledger.root requestId = some other → other = stateHash) :
    Does ports i q P (retainRoot i requestId stateHash) fun _ l => P l ∧ l.root requestId = some stateHash := by
  refine does_check (fun e he => ?_) fun _ _ => ?_
  · rw [hid, hhash] at he
    cases he
  · refine does_batch (fun _ => hP.and (Lasts.root _ _)) ?_ ?_
    · intro d u t hvalid hp hf
      rcases retainTx_ok (hnamed _ hp) hf with ⟨rfl, hroot⟩ | ⟨d', rfl, hchange, hroot⟩
      · exact .inl ⟨rfl, hp, hroot⟩
      · exact .inr ⟨_, d', rfl, hchange, hP _ _ (Change.grows hvalid hchange) hp, hroot⟩
    · intro d e hvalid hp hf
      obtain ⟨r, hr⟩ := retainTx_some (hclash d hvalid hp)
      rw [hr] at hf
      cases hf

/-- What a creation has made. -/
def Made (identity : IdentityObject) (stateHash : String) (result : IdentityObject × DocumentVersion) (l : Ledger) : Prop :=
  (result.1 = identity ∧ result.2.version = 1 ∧ result.2.stateHash = stateHash) ∧ l.identity = some identity.fields ∧
    l.version 1 = some ⟨stateHash, result.2.createdAt⟩

theorem Made.lasts {identity : IdentityObject} {stateHash : String} {result : IdentityObject × DocumentVersion} :
    Lasts (Made identity stateHash result) :=
  (Lasts.const _).and ((Lasts.identity _).and (Lasts.version _ _))

theorem does_createRetained (identity : IdentityObject) (stateHash : String) (createdAt : Int) :
    Does ports i q (fun l => l.Opened ∧ l.CreateRetained ports identity.fields stateHash)
      (createRetained i identity stateHash createdAt) (Made identity stateHash) := by
  refine does_check (fun _ => requireIdentity_error) fun _ _ => does_check (fun _ => requireHash_error) fun _ _ => ?_
  refine does_check (fun _ => requireTimestamp_error) fun _ _ => does_batch (fun _ => Made.lasts) ?_ ?_
  · intro d result t _ hp hf
    obtain ⟨h1, h2, h3, ⟨rfl, hidentity, _, hversion⟩ | ⟨d', rfl, hchange, hidentity, hversion⟩⟩ := createRetainedTx_ok hp.2 hf
    · exact .inl ⟨rfl, ⟨h1, h2, h3⟩, hidentity, hversion⟩
    · exact .inr ⟨_, d', rfl, hchange, ⟨h1, h2, h3⟩, hidentity, hversion⟩
  · intro d e hvalid hp hf
    rcases createRetainedTx_error hvalid hp.1 hf with rfl | rfl <;> exact .inl (by decide)

theorem does_createPlatformDocument (hlawful : ports.Lawful) (identity : IdentityObject) (stateHash : String) (createdAt : Int) :
    Does ports i q (fun _ => True) (createPlatformDocument ports i identity stateHash createdAt) (Made identity stateHash) := by
  refine does_bind (does_beginCreate identity stateHash) fun creation => Triple.of_pure ?_
  rintro ⟨rfl, hhash⟩
  refine does_bind (Q := fun _ l => l.Opened ∧ l.CreateRetained ports identity.fields stateHash) ?_ fun _ =>
    does_createRetained identity stateHash createdAt
  refine does_retainRoot (fun _ _ => Ledger.Opened.grow) ?_ hhash (fun l _ => .inl ⟨_, hhash, rfl⟩) fun d hvalid _ other =>
    create_clash hlawful hvalid hhash
  exact isOperationId_createRequestId (hlawful.creation _ _ hhash)

/-! ### Commits -/

theorem does_requireDocument : Does ports i q (fun _ => True) requireDocument fun document l =>
    l.identity = some document.identity := by
  refine does_bind (does_read (Q := fun (document : Option DocumentRow) l => ∀ row, document = some row → l.identity = some row.identity)
    (fun _ _ _ hg h row hrow => hg.identity _ (h row hrow)) fun d _ _ row hrow => (ledger_identity_some hrow).1) fun document => ?_
  cases document with
  | none => exact Triple.throw fun _ _ _ => .inl (by decide)
  | some document => exact does_pure fun l hp => hp document rfl

/-- What an operation that was offered with a candidate was told. -/
def Begun (candidate : Candidate) (receipt : Receipt) (l : Ledger) : Prop :=
  l.Offered candidate ∧ l.Told candidate.operationId receipt

theorem Begun.lasts {candidate : Candidate} {receipt : Receipt} : Lasts (Begun candidate receipt) :=
  fun _ _ hg h => ⟨h.1.grow hg, h.2.grow hg⟩

theorem does_beginCommit (hlawful : ports.Lawful) (candidate : Candidate) :
    Does ports i q (fun _ => True) (beginCommit ports i candidate) (Begun candidate) := by
  refine does_check (fun _ => requireCandidate_error) fun _ hchecked => does_bind does_requireDocument fun document => ?_
  refine does_batch (fun _ => Begun.lasts) ?_ ?_
  · intro d receipt t _ hidentity hf
    rcases beginCommitTx_ok hchecked hidentity rfl hf with ⟨rfl, h1, h2⟩ | ⟨d', rfl, hchange, h1, h2⟩
    · exact .inl ⟨rfl, h1, h2⟩
    · exact .inr ⟨_, d', rfl, hchange, h1, h2⟩
  · intro d e hvalid _ hf
    rcases beginCommitTx_error hlawful hvalid hf with rfl | rfl | rfl <;> exact .inl (by decide)

theorem does_commitRetained (hlawful : ports.Lawful) (operationId requestDigest stateHash : String) (committedAt : Int) :
    Does ports i q
      (fun l => l.Knows operationId requestDigest stateHash ∧ l.root (commitRequestId requestDigest) = some stateHash)
      (commitRetained i operationId committedAt) fun receipt l => l.Settled operationId receipt := by
  refine does_check (fun _ => requireOperationId_error) fun _ _ => does_check (fun _ => requireTimestamp_error) fun _ _ => ?_
  refine does_batch (fun _ _ _ => Ledger.Settled.grow) ?_ ?_
  · intro d receipt t _ hp hf
    rcases commitRetainedTx_ok hp.1 hp.2 hf with ⟨rfl, h⟩ | ⟨d', rfl, hchange, h⟩
    · exact .inl ⟨rfl, h⟩
    · exact .inr ⟨_, d', rfl, hchange, h⟩
  · intro d e hvalid hp hf
    obtain ⟨r, hr⟩ := commitRetainedTx_some hlawful committedAt hvalid hp.1
    rw [hr] at hf
    cases hf

/-- What a look at an operation shows: nothing, or what it was told. -/
def Seen (operationId : String) (receipt : Option Receipt) (l : Ledger) : Prop :=
  ∀ r, receipt = some r → l.Told operationId r

/-- An operation is there. -/
def Known (operationId : String) (l : Ledger) : Prop := ∃ row, l.intent operationId = some row

theorem Known.lasts {operationId : String} : Lasts (Known operationId) := by
  rintro l l' hg ⟨row, hrow⟩
  obtain ⟨row', hrow', _⟩ := hg.intent operationId row hrow
  exact ⟨row', hrow'⟩

/-- An operation is there, and no longer pending. -/
def Terminal (operationId : String) (l : Ledger) : Prop := ∃ row, l.intent operationId = some row ∧ row.receipt.outcome ≠ .pending

theorem Terminal.lasts {operationId : String} : Lasts (Terminal operationId) := by
  rintro l l' hg ⟨row, hrow, hterminal⟩
  obtain ⟨row', hrow', hlater⟩ := hg.intent operationId row hrow
  exact ⟨row', hrow', by rw [hlater.terminal hterminal]; exact hterminal⟩

theorem does_commitStatus (hlawful : ports.Lawful) (operationId : String) :
    Does ports i q P (commitStatus operationId) fun receipt l => Seen operationId receipt l ∧
      (∃ l₀, P l₀ ∧ receipt = (l₀.intent operationId).map (·.receipt)) ∧
        ∀ r, receipt = some r → r.outcome ≠ .pending → l.Settled operationId r := by
  refine does_check (fun _ => requireOperationId_error) fun _ _ => ?_
  refine does_bind (does_read (Q := fun (intent : Option IntentRow) l =>
    (∃ l₀, P l₀ ∧ l₀.intent operationId = intent) ∧ ∀ row, intent = some row →
      parseReceipt row.receipt = .ok row.receipt ∧ l.Told operationId row.receipt ∧
        (row.receipt.outcome ≠ .pending → l.Settled operationId row.receipt)) ?_ ?_) fun intent => ?_
  · refine fun intent => (Lasts.const _).and ?_
    intro l l' hg h row hrow
    obtain ⟨h1, h2, h3⟩ := h row hrow
    exact ⟨h1, h2.grow hg, fun hterminal => (h3 hterminal).grow hg⟩
  · refine fun d hvalid hp => ⟨⟨_, hp, rfl⟩, fun row hrow => ?_⟩
    exact ⟨hvalid.parse hlawful hrow, ⟨row, hrow, .inl rfl⟩, fun hterminal => ⟨hterminal, row, hrow, rfl⟩⟩
  · cases intent with
    | none =>
      refine does_pure fun l hp => ⟨nofun, ?_, nofun⟩
      obtain ⟨l₀, hp₀, hintent⟩ := hp.1
      exact ⟨l₀, hp₀, by rw [hintent]; rfl⟩
    | some row =>
      refine does_known row.receipt (fun l hp => (hp.2 row rfl).1) (does_pure fun l hp => ?_)
      obtain ⟨_, htold, hsettled⟩ := hp.2 row rfl
      obtain ⟨l₀, hp₀, hintent⟩ := hp.1
      refine ⟨?_, ⟨l₀, hp₀, by rw [hintent]; rfl⟩, ?_⟩
      · rintro r ⟨⟩
        exact htold
      · rintro r ⟨⟩
        exact hsettled

theorem does_pendingCommit (hlawful : ports.Lawful) (operationId : String) (hP : Lasts P) :
    Does ports i q P (pendingCommit operationId) fun pending l =>
      P l ∧ (∀ c, pending = some c → l.Knows operationId c.receipt.requestDigest c.candidate.stateHash) ∧
        (pending = none → (∃ l₀, P l₀ ∧ l₀.intent operationId = none) ∨ Terminal operationId l) := by
  refine does_check (fun _ => requireOperationId_error) fun _ _ => ?_
  refine does_bind (does_read (Q := fun (intent : Option IntentRow) l => P l ∧
    (intent = none → ∃ l₀, P l₀ ∧ l₀.intent operationId = none) ∧ ∀ row, intent = some row →
      parseReceipt row.receipt = .ok row.receipt ∧ l.Knows operationId row.receipt.requestDigest row.stateHash ∧
        (row.receipt.outcome ≠ .pending → Terminal operationId l)) ?_ ?_) fun intent => ?_
  · refine fun intent => hP.and ((Lasts.const _).and ?_)
    intro l l' hg h row hrow
    obtain ⟨h1, h2, h3⟩ := h row hrow
    exact ⟨h1, h2.grow hg, fun hterminal => Terminal.lasts _ _ hg (h3 hterminal)⟩
  · refine fun d hvalid hp => ⟨hp, fun hnone => ⟨_, hp, hnone⟩, fun row hrow => ?_⟩
    have hfits := hvalid.fits operationId row hrow
    exact ⟨hvalid.parse hlawful hrow, ⟨row, hrow, by rw [hfits.receipt], rfl⟩, fun hterminal => ⟨row, hrow, hterminal⟩⟩
  · cases intent with
    | none => exact does_pure fun l hp => ⟨hp.1, nofun, fun _ => .inl (hp.2.1 rfl)⟩
    | some row =>
      refine does_known row.receipt (fun l hp => (hp.2.2 row rfl).1) ?_
      split
      · rename_i hterminal
        exact does_pure fun l hp => ⟨hp.1, nofun, fun _ => .inr ((hp.2.2 row rfl).2.2 hterminal)⟩
      · refine does_pure fun l hp => ⟨hp.1, ?_, nofun⟩
        rintro c ⟨⟩
        exact (hp.2.2 row rfl).2.1

theorem does_retainCommit (hlawful : ports.Lawful) (operationId requestDigest stateHash : String) :
    Does ports i q (fun l => l.Knows operationId requestDigest stateHash)
      (retainRoot i (commitRequestId requestDigest) stateHash) fun _ l =>
        l.Knows operationId requestDigest stateHash ∧ l.root (commitRequestId requestDigest) = some stateHash := by
  have hsplit : Triple ((system ports).spec .storage i q)
      (fun s => (isHash requestDigest = true ∧ isHash stateHash = true) ∧
        (s.db.ledger.Knows operationId requestDigest stateHash ∧ Named ports s.db.ledger (commitRequestId requestDigest) stateHash))
      (retainRoot i (commitRequestId requestDigest) stateHash)
      (fun _ s => s.db.ledger.Knows operationId requestDigest stateHash ∧
        s.db.ledger.root (commitRequestId requestDigest) = some stateHash) fun e _ => e.Expected := by
    refine Triple.of_pure ?_
    rintro ⟨hdigest, hhash⟩
    refine Triple.post (does_retainRoot (P := fun l => l.Knows operationId requestDigest stateHash ∧
      Named ports l (commitRequestId requestDigest) stateHash) ?_ ?_ hhash (fun l hp => hp.2) ?_) fun _ s _ hp => ⟨hp.1.1, hp.2⟩
    · exact fun l l' hg hp => ⟨hp.1.grow hg, hp.2.grow hg⟩
    · exact isOperationId_commitRequestId hdigest
    · exact fun d hvalid hp other => commit_clash hlawful hvalid hp.1
  refine hsplit.pre fun s hi hknows => ?_
  obtain ⟨hhashes, hnamed⟩ := knows_named hlawful (inv_valid hi) hknows
  exact ⟨hhashes, hknows, hnamed⟩

theorem does_resumePlatformCommit (hlawful : ports.Lawful) (operationId : String) (committedAt : Int) (known : Bool) :
    Does ports i q (fun l => known = true → Known operationId l) (resumePlatformCommit i operationId committedAt)
      fun receipt l => Seen operationId receipt l ∧ (known = true → ∃ r, receipt = some r ∧ l.Settled operationId r) := by
  have hknown : Lasts fun l => known = true → Known operationId l := Known.lasts.imp
  have habsent : ∀ l₀ : Ledger, (known = true → Known operationId l₀) → l₀.intent operationId = none → known ≠ true := by
    intro l₀ h hnone hk
    obtain ⟨row, hrow⟩ := h hk
    rw [hnone] at hrow
    cases hrow
  refine does_bind (does_pendingCommit hlawful operationId hknown) fun pending => ?_
  cases pending with
  | none =>
    -- what was there is settled, and the status shows it
    refine (does_commitStatus hlawful operationId (P := fun l => known = true → Terminal operationId l)).conseq ?_ ?_
      fun _ _ _ h => h
    · rintro s _ ⟨_, -, hnone⟩ hk
      rcases hnone rfl with ⟨l₀, hl₀, habs⟩ | hterminal
      · exact absurd hk (habsent l₀ hl₀ habs)
      · exact hterminal
    · rintro receipt s _ ⟨hseen, ⟨l₀, hl₀, hshown⟩, hsettled⟩
      refine ⟨hseen, fun hk => ?_⟩
      obtain ⟨row, hrow, hout⟩ := hl₀ hk
      rw [hrow] at hshown
      exact ⟨row.receipt, hshown, hsettled _ hshown hout⟩
  | some c =>
    refine does_bind (does_pre (does_retainCommit hlawful operationId c.receipt.requestDigest c.candidate.stateHash)
      fun l hp => hp.2.1 c rfl) fun _ => ?_
    refine does_bind (does_commitRetained hlawful operationId _ _ committedAt) fun receipt => ?_
    refine does_pure fun l hsettled => ⟨?_, fun _ => ⟨receipt, rfl, hsettled⟩⟩
    rintro r ⟨⟩
    exact hsettled.told

theorem does_commitPlatformDocument (hlawful : ports.Lawful) (candidate : Candidate) (committedAt : Int) :
    Does ports i q (fun _ => True) (commitPlatformDocument ports i candidate committedAt) fun receipt l =>
      l.Offered candidate ∧ l.Settled candidate.operationId receipt := by
  refine does_bind (does_beginCommit hlawful candidate) fun receipt => ?_
  split
  · rename_i hterminal
    refine does_pure fun l ⟨hoffered, row, hrow, htold⟩ => ⟨hoffered, hterminal, row, hrow, ?_⟩
    rcases htold with heq | ⟨hpending, _⟩
    · exact heq
    · exact absurd hpending hterminal
  · have hresume := does_carry (R := fun l => l.Offered candidate) (fun _ _ => Ledger.Offered.grow)
      (@does_resumePlatformCommit ports i q hlawful candidate.operationId committedAt true)
    refine does_bind (does_pre hresume fun l hp => ⟨hp.1, fun _ => ?_⟩) fun resumed => ?_
    · obtain ⟨row, hrow, _⟩ := hp.1
      exact ⟨row, hrow⟩
    · cases resumed with
      | none =>
        refine Triple.throw fun s _ hp => ?_
        obtain ⟨r, hr, _⟩ := hp.2.2 rfl
        cases hr
      | some resumed =>
        refine does_pure fun l ⟨hoffered, _, hsettled⟩ => ?_
        obtain ⟨r, hr, h⟩ := hsettled rfl
        cases hr
        exact ⟨hoffered, h⟩

theorem does_commitPlatformEditorSnapshot (hlawful : ports.Lawful) (operationId : String) (baseVersion : Nat) (committedAt : Int) :
    Does ports i q (fun _ => True) (commitPlatformEditorSnapshot ports i operationId baseVersion committedAt) fun receipt l =>
      ∃ r, receipt = some r ∧ l.Settled operationId r := by
  refine does_bind (does_commitStatus hlawful operationId (P := fun _ => True)) fun status => ?_
  cases status with
  | none =>
    refine does_check (fun e he => ?_) fun stateHash _ => ?_
    · cases hsnapshot : ports.snapshot i with
      | ok hash =>
        rw [hsnapshot] at he
        cases he
      | error message =>
        rw [hsnapshot] at he
        cases he
        exact .inr ⟨message, rfl⟩
    · refine does_bind (does_pre (does_commitPlatformDocument hlawful _ committedAt) fun _ _ => trivial) fun receipt => ?_
      exact does_pure fun l hp => ⟨receipt, rfl, hp.2⟩
  | some receipt =>
    dsimp only
    split
    · refine does_post (does_pre (does_resumePlatformCommit hlawful operationId committedAt true) fun l hp _ => ?_)
        fun _ l hp => hp.2 rfl
      obtain ⟨row, hrow, _⟩ := hp.1 receipt rfl
      exact ⟨row, hrow⟩
    · rename_i hterminal
      exact does_pure fun l hp => ⟨receipt, rfl, hp.2.2 receipt rfl hterminal⟩

/-! ## The requests -/

/-- What holds when a request has ended. -/
def Answered (q : Request) (r : Except PlatformError Response) (l : Ledger) : Prop :=
  match q, r with
  | _, .error e => e.Expected
  | .create identity stateHash _, .ok (.created identity' head) => Made identity stateHash (identity', head) l
  | .commit candidate _, .ok (.receipt receipt) => ∃ r, receipt = some r ∧ l.Offered candidate ∧ l.Settled candidate.operationId r
  | .snapshot operationId _ _, .ok (.receipt receipt) => ∃ r, receipt = some r ∧ l.Settled operationId r
  | .resume operationId _, .ok (.receipt receipt) | .status operationId, .ok (.receipt receipt) => Seen operationId receipt l
  | .read, .ok (.document document) => ∀ identity head, document = some (identity, head) →
      l.identity = some identity ∧ l.version head.version = some ⟨head.stateHash, head.createdAt⟩
  | _, .ok _ => False

theorem does_readDocument : Does ports i q (fun _ => True) readDocument fun document l => ∀ identity head,
    document = some (identity, head) → l.identity = some identity ∧ l.version head.version = some ⟨head.stateHash, head.createdAt⟩ := by
  refine does_bind (does_read (Q := fun (row : Option (Identity × Except PlatformError DocumentVersion)) l =>
    ∀ identity head, row = some (identity, head) → l.identity = some identity ∧ ∃ found, head = .ok found ∧
      l.version found.version = some ⟨found.stateHash, found.createdAt⟩) ?_ ?_) fun row => ?_
  · intro row l l' hg h identity head hrow
    obtain ⟨hidentity, found, hfound, hversion⟩ := h identity head hrow
    exact ⟨hg.identity _ hidentity, found, hfound, hg.version _ _ hversion⟩
  · intro d hvalid _ identity head hrow
    obtain ⟨document, hdocument, heq⟩ := Option.map_eq_some_iff.mp hrow
    cases heq
    obtain ⟨hledger, hhead⟩ := ledger_identity_some hdocument
    obtain ⟨row, hlookup, hversion⟩ := hvalid.version_exists (hhead ▸ (hvalid.present _ hledger).1) (le_of_eq hhead.symm)
    exact ⟨hledger, _, hversion, hlookup⟩
  · cases row with
    | none => exact does_pure fun l _ => nofun
    | some row =>
      obtain ⟨identity, head⟩ := row
      cases head with
      | error e =>
        refine Triple.bind (Q := fun _ _ => False) (fun s _ hp => ?_) fun _ _ _ hfalse => hfalse.elim
        obtain ⟨_, found, hfound, _⟩ := hp identity _ rfl
        cases hfound
      | ok found =>
        refine does_pure fun l hp => ?_
        rintro identity' head' ⟨⟩
        obtain ⟨hidentity, found', hfound, hversion⟩ := hp identity _ rfl
        cases hfound
        exact ⟨hidentity, hversion⟩

theorem serves (hlawful : ports.Lawful) : Serves (system ports) .storage (serve ports) fun _ q r s => Answered q r s.db.ledger := by
  intro i q
  suffices hserve : Does ports i q (fun _ => True) (serve ports i q) fun response l => Answered q (.ok response) l from
    hserve.conseq (fun _ _ _ => trivial) (fun _ _ _ h => h) fun e _ _ he => by cases q <;> exact he
  cases q with
  | create identity stateHash createdAt =>
    exact does_bind (does_createPlatformDocument hlawful identity stateHash createdAt) fun result => does_pure fun l hp => hp
  | commit candidate committedAt =>
    refine does_bind (does_commitPlatformDocument hlawful candidate committedAt) fun receipt => ?_
    exact does_pure fun l hp => ⟨receipt, rfl, hp⟩
  | resume operationId committedAt =>
    refine does_bind (does_pre (does_resumePlatformCommit hlawful operationId committedAt false) fun _ _ => nofun) fun receipt => ?_
    exact does_pure fun l hp => hp.1
  | snapshot operationId baseVersion committedAt =>
    exact does_bind (does_commitPlatformEditorSnapshot hlawful operationId baseVersion committedAt) fun receipt => does_pure fun l hp => hp
  | status operationId =>
    exact does_bind (does_commitStatus hlawful operationId) fun receipt => does_pure fun l hp => hp.1
  | read => exact does_bind does_readDocument fun document => does_pure fun l hp => hp

end Programs

end UniDocs.Platform
