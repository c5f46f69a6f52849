import UniDocs.Lemmas.PlatformPrograms
import UniDocs.Lib.Digest

/-!
# Platform commits

Over any interleaving of creations, commits, resumed commits and editor snapshots of one platform document, with calls that fail
or lose their answers at any point and programs that stop anywhere: the versions are those from one to the head, each of them
retained before it was there and, past the first, owned by one operation; receipts change from pending to committed only; and
what a request was answered stays true. A commit can be sent again at any time. A creation can be sent again only until the first
commit.
-/

namespace UniDocs.Platform

open Lib Lib.Trace

/-- The laws of a platform document, as of a point of a run. -/
structure DocumentSafety (ports : Ports) (d : Db) : Prop where
  /-- The version rows are those from one to the head, and there is none before the creation. -/
  numbered : ∀ v, (∃ row, d.versions.lookup v = some row) ↔ 1 ≤ v ∧ v ≤ d.ledger.head
  /-- At most one operation is pending, and it is based on the head. -/
  pending : ∀ op row, d.intents.lookup op = some row → row.state = .pending → row.baseVersion = d.ledger.head ∧
    ∀ op' row', d.intents.lookup op' = some row' → row'.state = .pending → op' = op
  /-- The root of the first version is retained for the creation. -/
  first : ∀ document, d.document = some document → ∃ row, d.versions.lookup 1 = some row ∧
    d.retained.lookup (createRequestId (ports.digestCreation document.identity row.stateHash)) = some row.stateHash
  /-- A committed operation owns the version after its base, with its own state, whose root is retained for it. -/
  owned : ∀ op row v, d.intents.lookup op = some row → row.receipt.outcome = .committed v → v = row.baseVersion + 1 ∧
    d.retained.lookup (commitRequestId row.requestDigest) = some row.stateHash ∧
    ∃ committedAt, d.versions.lookup v = some ⟨row.stateHash, committedAt⟩
  /-- Every version but the first is owned by one operation. -/
  owner : ∀ v, 2 ≤ v → v ≤ d.ledger.head →
    ∃ op, (∃ row, d.intents.lookup op = some row ∧ row.receipt.outcome = .committed v) ∧
      ∀ op' row', d.intents.lookup op' = some row' → row'.receipt.outcome = .committed v → op' = op
  /-- A rejected operation was based on another version than the head of its time. -/
  rejected : ∀ op row head, d.intents.lookup op = some row → row.receipt.outcome = .rejected head →
    row.baseVersion ≠ head ∧ 1 ≤ head ∧ head ≤ d.ledger.head
  /-- The row of an operation and its receipt agree, and the digest is that of its candidate. -/
  stored : ∀ op row, d.intents.lookup op = some row → row.state = row.receipt.outcome.state ∧
    row.receipt.operationId = op ∧ row.receipt.baseVersion = row.baseVersion ∧ row.receipt.requestDigest = row.requestDigest ∧
    ∃ document, d.document = some document ∧
      row.requestDigest = ports.digestCandidate document.identity (row.candidate op)

/-- What later points of a run keep. -/
structure HistoryKept (d d' : Db) : Prop where
  /-- The identity of the document does not change. -/
  identity : ∀ document, d.document = some document → ∃ document', d'.document = some document' ∧
    document'.identity = document.identity ∧ document.headVersion ≤ document'.headVersion
  /-- A version row does not change. -/
  version : ∀ v row, d.versions.lookup v = some row → d'.versions.lookup v = some row
  /-- A receipt changes from pending to committed only, and nothing else of an operation does. -/
  receipt : ∀ op row, d.intents.lookup op = some row → ∃ row', d'.intents.lookup op = some row' ∧
    (row' = row ∨ row.receipt.outcome = .pending ∧ row' = row.commit op)
  /-- A root that is retained stays retained. -/
  retained : ∀ requestId stateHash, d.retained.lookup requestId = some stateHash → d'.retained.lookup requestId = some stateHash

section Safety

variable {ports : Ports} {d d' : Db} {p p' : PlatformPool}

theorem IntentRow.Fits.pending_iff {l : Ledger} {op : String} {row : IntentRow} (h : row.Fits ports l op) :
    row.state = .pending ↔ row.receipt.outcome = .pending := by
  rw [h.state]
  cases row.receipt.outcome <;> simp [Outcome.state]

theorem Ledger.Valid.safety (h : d.ledger.Valid ports) : DocumentSafety ports d where
  numbered v := h.numbered v
  pending op row hrow hstate := by
    have hfits := h.fits op row hrow
    have hpending := hfits.pending_iff.mp hstate
    refine ⟨hfits.pending hpending, fun op' row' hrow' hstate' => ?_⟩
    exact h.one op' op row' row hrow' hrow ((h.fits op' row' hrow').pending_iff.mp hstate') hpending
  first document hdocument := by
    have hidentity := (ledger_identity_some hdocument).1
    obtain ⟨row, hrow⟩ := (h.numbered 1).mpr ⟨le_refl 1, (h.present _ hidentity).1⟩
    exact ⟨row, hrow, h.first _ row hidentity hrow⟩
  owned op row v hrow hv := by
    obtain ⟨heq, _, hretained, hversion⟩ := (h.fits op row hrow).committed v hv
    exact ⟨heq, hretained, hversion⟩
  owner v h2 hv := by
    obtain ⟨op, row, hrow, hout⟩ := h.owner v h2 hv
    exact ⟨op, ⟨row, hrow, hout⟩, fun op' row' hrow' hout' => h.alone op' op row' row v hrow' hrow hout' hout⟩
  rejected op row head hrow hhead := by
    obtain ⟨h1, h2, h3⟩ := (h.fits op row hrow).rejected head hhead
    exact ⟨h3, h1, h2⟩
  stored op row hrow := by
    have hfits := h.fits op row hrow
    obtain ⟨identity, hidentity, hdigest⟩ := hfits.digest
    obtain ⟨document, hdocument, rfl⟩ := Option.map_eq_some_iff.mp hidentity
    exact ⟨hfits.state, by rw [hfits.receipt], by rw [hfits.receipt], by rw [hfits.receipt], document, hdocument, hdigest⟩

theorem Ledger.Grows.kept (h : d.ledger.Grows d'.ledger) : HistoryKept d d' where
  identity document hdocument := by
    obtain ⟨hidentity, hhead⟩ := ledger_identity_some hdocument
    obtain ⟨document', hdocument', heq⟩ := Option.map_eq_some_iff.mp (h.identity _ hidentity)
    have hle := h.head
    rw [hhead, (ledger_identity_some hdocument').2] at hle
    exact ⟨document', hdocument', heq, hle⟩
  version := h.version
  receipt := h.intent
  retained := h.root

theorem valid_of_reach (hlawful : ports.Lawful)
    (h : (platform ports).Reach Machine.anyCall (DbPool.initial Db.empty) p) : p.state.db.ledger.Valid ports :=
  inv_valid (inv_of_reach (serves hlawful) rfl h)

theorem grows_of_reach (hlawful : ports.Lawful) (h : (platform ports).Reach Machine.anyCall (DbPool.initial Db.empty) p)
    (h' : (platform ports).Reach Machine.anyCall p p') : p.state.db.ledger.Grows p'.state.db.ledger := by
  obtain ⟨es, _, hpath⟩ := path_of_reach (serves hlawful) rfl h h'
  exact (path_valid (valid_of_reach hlawful h) hpath).2

/-- At every point of every run the document is safe, and later points keep its history. -/
theorem document_safe (hlawful : ports.Lawful) (h : (platform ports).Reach Machine.anyCall (DbPool.initial Db.empty) p)
    (h' : (platform ports).Reach Machine.anyCall p p') :
    DocumentSafety ports p.state.db ∧ HistoryKept p.state.db p'.state.db :=
  ⟨(valid_of_reach hlawful h).safety, (grows_of_reach hlawful h h').kept⟩

/-! ## Answers -/

theorem Answered.grow {q : Request} {r : Except PlatformError Response} {l l' : Ledger} (hg : l.Grows l') (h : Answered q r l) :
    Answered q r l' := by
  have hseen : ∀ operationId receipt, Seen operationId receipt l → Seen operationId receipt l' :=
    fun _ _ h r hr => (h r hr).grow hg
  cases r with
  | error e => cases q <;> exact h
  | ok response =>
    cases q with
    | create identity stateHash createdAt =>
      cases response with
      | created identity' head => exact Made.lasts l l' hg h
      | receipt _ => exact h
      | document _ => exact h
    | commit candidate committedAt =>
      cases response with
      | receipt receipt =>
        obtain ⟨r, hr, hoffered, hsettled⟩ := h
        exact ⟨r, hr, hoffered.grow hg, hsettled.grow hg⟩
      | created _ _ => exact h
      | document _ => exact h
    | resume operationId committedAt =>
      cases response with
      | receipt receipt => exact hseen _ _ h
      | created _ _ => exact h
      | document _ => exact h
    | snapshot operationId baseVersion committedAt =>
      cases response with
      | receipt receipt =>
        obtain ⟨r, hr, hsettled⟩ := h
        exact ⟨r, hr, hsettled.grow hg⟩
      | created _ _ => exact h
      | document _ => exact h
    | status operationId =>
      cases response with
      | receipt receipt => exact hseen _ _ h
      | created _ _ => exact h
      | document _ => exact h
    | read =>
      cases response with
      | document document =>
        intro identity head hdocument
        obtain ⟨hidentity, hversion⟩ := h identity head hdocument
        exact ⟨hg.identity _ hidentity, hg.version _ _ hversion⟩
      | created _ _ => exact h
      | receipt _ => exact h

/-- What a request was answered stays true, and its error is one that a caller can meet: the object never finds that the head of
a pending commit has changed, that a stored receipt is not well-formed, or that a row it needs is missing. -/
theorem requests_answered (hlawful : ports.Lawful) (h : (platform ports).Reach Machine.anyCall (DbPool.initial Db.empty) p)
    {i : Nat} {q : Request} {r : Except PlatformError Response} (hr : p.Returned i q r)
    (h' : (platform ports).Reach Machine.anyCall p p') : Answered q r p'.state.db.ledger :=
  (ended (serves hlawful) rfl h hr).grow (grows_of_reach hlawful h h')

/-! ## Sent again -/

theorem alone_retainRoot {i : Nat} {requestId stateHash : String} (hid : isOperationId requestId = true)
    (hhash : isHash stateHash = true) {t : Option (Entry × Db)} (h : retainTx requestId stateHash d = .ok ((), t)) :
    alone (retainRoot i requestId stateHash) d = (.ok (), (t.map Prod.snd).getD d) := by
  unfold retainRoot
  rw [alone_bind (alone_evaluate (by rw [hid, hhash]; rfl) d), alone_batch h]

theorem Ledger.Valid.first_root (h : d.ledger.Valid ports) {document : DocumentRow} {first : VersionRow}
    (hdocument : d.document = some document) (hfirst : d.versions.lookup 1 = some first) : isHash first.stateHash = true ∧
      d.retained.lookup (createRequestId (ports.digestCreation document.identity first.stateHash)) = some first.stateHash := by
  have hroot := h.first _ first (ledger_identity_some hdocument).1 hfirst
  refine ⟨?_, hroot⟩
  rcases h.named _ _ hroot with ⟨_, hhash, _⟩ | ⟨_, candidate, _, hchecked, heq, _⟩
  · exact hhash
  · exact heq ▸ hchecked.bounds.2.2.2

section Present

variable {document : DocumentRow} {first : VersionRow} (hdocument : d.document = some document)
  (hfirst : d.versions.lookup 1 = some first) {identity : IdentityObject} {stateHash : String}
include hdocument hfirst

theorem beginCreateTx_present : beginCreateTx ports identity stateHash d =
    if identity.fields = document.identity ∧ stateHash = first.stateHash then
      .ok (⟨identity, stateHash, ports.digestCreation identity.fields stateHash⟩, none)
    else .error .createConflict := by
  unfold beginCreateTx
  by_cases hfields : identity.fields = document.identity
  · by_cases hstate : stateHash = first.stateHash
    · simp [hdocument, Db.version, hfirst, hfields, hstate, bind, Except.bind, pure, Except.pure]
    · simp [hdocument, Db.version, hfirst, hfields, hstate, Ne.symm hstate, bind, Except.bind]
      rfl
  · simp [hdocument, hfields, Ne.symm hfields, bind, Except.bind]
    rfl

theorem createRetainedTx_present (hvalid : d.ledger.Valid ports) (hfields : identity.fields = document.identity) (createdAt : Int) :
    createRetainedTx identity first.stateHash createdAt d =
      if document.headVersion = 1 then .ok ((identity, ⟨1, first.stateHash, first.createdAt⟩), none)
      else .error .createConflict := by
  unfold createRetainedTx
  by_cases hhead : document.headVersion = 1
  · have hversion : d.version 1 = .ok ⟨1, first.stateHash, first.createdAt⟩ := by
      simp [Db.version, hfirst]
    simp [hdocument, hversion, hfields, hhead, bind, Except.bind, pure, Except.pure]
  · obtain ⟨hledger, hledgerHead⟩ := ledger_identity_some hdocument
    obtain ⟨row, _, hversion⟩ := hvalid.version_exists (hledgerHead ▸ (hvalid.present _ hledger).1) (le_of_eq hledgerHead.symm)
    simp [hdocument, hversion, hfields, hhead, bind, Except.bind]
    rfl

theorem alone_create (hlawful : ports.Lawful) (hvalid : d.ledger.Valid ports) {i : Nat} {createdAt : Int}
    (hidentity : requireIdentity identity = .ok ()) (hhash : requireHash stateHash = .ok ())
    (htime : requireTimestamp createdAt = .ok ()) : alone (createPlatformDocument ports i identity stateHash createdAt) d =
      (if identity.fields = document.identity ∧ stateHash = first.stateHash ∧ document.headVersion = 1 then
        .ok (identity, ⟨1, first.stateHash, first.createdAt⟩) else .error .createConflict, d) := by
  obtain ⟨hfirstHash, hroot⟩ := hvalid.first_root hdocument hfirst
  have hbegin : beginCreate ports i identity stateHash = batch i (beginCreateTx ports identity stateHash) := by
    unfold beginCreate
    rw [hidentity, hhash]
    rfl
  have hbegun : beginCreateTx ports identity stateHash d = _ := beginCreateTx_present hdocument hfirst
  unfold createPlatformDocument
  rw [hbegin]
  by_cases hsame : identity.fields = document.identity ∧ stateHash = first.stateHash
  · rw [if_pos hsame] at hbegun
    obtain ⟨hfields, rfl⟩ := hsame
    have hretained : retainTx (createRequestId (ports.digestCreation identity.fields first.stateHash)) first.stateHash d =
        .ok ((), none) := by
      rw [← hfields] at hroot
      simp [retainTx, hroot]
    have hid : isOperationId (createRequestId (ports.digestCreation identity.fields first.stateHash)) = true :=
      isOperationId_createRequestId (hlawful.creation _ _ hfirstHash)
    have hend : createRetained i identity first.stateHash createdAt =
        batch i (createRetainedTx identity first.stateHash createdAt) := by
      unfold createRetained
      rw [hidentity, hhash, htime]
      rfl
    have hended := createRetainedTx_present hdocument hfirst hvalid hfields createdAt
    rw [alone_bind (alone_batch hbegun)]
    dsimp only [Option.map_none, Option.getD_none]
    rw [alone_bind (alone_retainRoot hid hfirstHash hretained), hend]
    dsimp only [Option.map_none, Option.getD_none]
    by_cases hhead : document.headVersion = 1
    · rw [if_pos hhead] at hended
      rw [alone_batch hended, if_pos ⟨hfields, rfl, hhead⟩]
      rfl
    · rw [if_neg hhead] at hended
      rw [alone_batch_error hended, if_neg fun h => hhead h.2.2]
  · rw [if_neg hsame] at hbegun
    rw [alone_bind_error (alone_batch_error hbegun), if_neg fun h => hsame ⟨h.1, h.2.1⟩]

end Present

/-- A creation that arrives when the document is there changes nothing, and succeeds when it is the creation of the document and
no commit has followed. -/
theorem creation_resent (hlawful : ports.Lawful) (h : (platform ports).Reach Machine.anyCall (DbPool.initial Db.empty) p)
    {document : DocumentRow} {first : VersionRow} (hdocument : p.state.db.document = some document)
    (hfirst : p.state.db.versions.lookup 1 = some first) {i : Nat} (hfree : p.thread i = none) {identity : IdentityObject}
    {stateHash : String} {createdAt : Int} (hidentity : requireIdentity identity = .ok ()) (hhash : requireHash stateHash = .ok ())
    (htime : requireTimestamp createdAt = .ok ()) :
    ∃ p', (platform ports).Reach Machine.anyCall p p' ∧ p'.state.db = p.state.db ∧
      p'.Returned i (.create identity stateHash createdAt)
        (if identity.fields = document.identity ∧ stateHash = first.stateHash ∧ document.headVersion = 1 then
          .ok (.created identity ⟨1, first.stateHash, first.createdAt⟩)
        else .error .createConflict) := by
  obtain ⟨p', hreach, hreturned, hdb⟩ := alone_reach .storage (serve ports) Machine.anyCall
    (fun _ _ _ => trivial) hfree (.create identity stateHash createdAt)
  have hcreate := alone_create hdocument hfirst hlawful (valid_of_reach hlawful h) (i := i) hidentity hhash htime
  suffices halone : alone (serve ports i (.create identity stateHash createdAt)) p.state.db =
      (if identity.fields = document.identity ∧ stateHash = first.stateHash ∧ document.headVersion = 1 then
        .ok (.created identity ⟨1, first.stateHash, first.createdAt⟩) else .error .createConflict, p.state.db) by
    rw [halone] at hreturned hdb
    exact ⟨p', hreach, hdb, hreturned⟩
  unfold serve
  split at hcreate
  · rename_i hon
    rw [alone_bind hcreate, if_pos hon]
    rfl
  · rename_i hnot
    rw [alone_bind_error hcreate, if_neg hnot]

section Known

variable {candidate : Candidate} {row : IntentRow}

theorem beginCommitTx_present (hlawful : ports.Lawful) (hvalid : d.ledger.Valid ports) {document : DocumentRow}
    (hdocument : d.document = some document) (hrow : d.intents.lookup candidate.operationId = some row) :
    beginCommitTx (ports.digestCandidate document.identity candidate) candidate d =
      if row.candidate candidate.operationId = candidate then .ok (row.receipt, none) else .error .payloadConflict := by
  obtain ⟨identity, hidentity, hdigest⟩ := (hvalid.fits _ row hrow).digest
  rw [(ledger_identity_some hdocument).1] at hidentity
  cases hidentity
  have hparse := hvalid.parse hlawful hrow
  unfold beginCommitTx
  rw [hdocument]
  dsimp only
  rw [hrow]
  dsimp only
  by_cases hsame : row.candidate candidate.operationId = candidate
  · have hbase : row.baseVersion = candidate.baseVersion := congrArg Candidate.baseVersion hsame
    have hhash : row.stateHash = candidate.stateHash := congrArg Candidate.stateHash hsame
    rw [hsame] at hdigest
    simp [hsame, hbase, hhash, hdigest, hparse, bind, Except.bind, pure, Except.pure]
  · have hother : row.baseVersion ≠ candidate.baseVersion ∨ row.stateHash ≠ candidate.stateHash := by
      by_contra hboth
      simp only [not_or, not_not] at hboth
      exact hsame (by rw [IntentRow.candidate, hboth.1, hboth.2])
    rw [if_neg hsame, if_pos (.inr hother)]
    rfl

theorem alone_beginCommit (hlawful : ports.Lawful) (hvalid : d.ledger.Valid ports) {i : Nat}
    (hchecked : requireCandidate candidate = .ok ()) (hrow : d.intents.lookup candidate.operationId = some row) :
    alone (beginCommit ports i candidate) d =
      (if row.candidate candidate.operationId = candidate then .ok row.receipt else .error .payloadConflict, d) := by
  obtain ⟨identity, hidentity⟩ := hvalid.absent_of_intent hrow
  obtain ⟨document, hdocument, -⟩ := Option.map_eq_some_iff.mp hidentity
  have hbegun := beginCommitTx_present hlawful hvalid hdocument hrow
  have hrequired : alone requireDocument d = (.ok document, d) := by
    unfold requireDocument
    rw [alone_bind (alone_read (fun d : Db => d.document) d), hdocument]
    rfl
  unfold beginCommit
  rw [alone_bind (alone_evaluate hchecked d), alone_bind hrequired]
  split at hbegun
  · rename_i hsame
    rw [alone_batch hbegun, if_pos hsame]
    rfl
  · rename_i hother
    rw [alone_batch_error hbegun, if_neg hother]

theorem alone_pendingCommit (hlawful : ports.Lawful) (hvalid : d.ledger.Valid ports) {operationId : String}
    (hrow : d.intents.lookup operationId = some row) (hpending : row.receipt.outcome = .pending) :
    alone (pendingCommit operationId) d = (.ok (some ⟨row.candidate operationId, row.receipt⟩), d) := by
  have hid : requireOperationId operationId = .ok () := by
    rw [requireOperationId, if_pos (show isOperationId operationId = true from (hvalid.fits _ row hrow).checked.bounds.1)]
  unfold pendingCommit
  rw [alone_bind (alone_evaluate hid d), alone_bind (alone_read (fun d : Db => d.intents.lookup operationId) d), hrow]
  dsimp only
  rw [alone_bind (alone_evaluate (hvalid.parse hlawful hrow) d), if_neg (not_not.mpr hpending)]
  rfl

theorem alone_resumePlatformCommit (hlawful : ports.Lawful) (hvalid : d.ledger.Valid ports) {i : Nat} {operationId : String}
    {committedAt : Int} (htime : requireTimestamp committedAt = .ok ()) (hrow : d.intents.lookup operationId = some row)
    (hpending : row.receipt.outcome = .pending) :
    ∃ receipt d', alone (resumePlatformCommit i operationId committedAt) d = (.ok (some receipt), d') := by
  have hfits := hvalid.fits operationId row hrow
  have hdigest : row.receipt.requestDigest = row.requestDigest := by rw [hfits.receipt]
  have hknows : d.ledger.Knows operationId row.requestDigest row.stateHash := ⟨row, hrow, rfl, rfl⟩
  obtain ⟨⟨hhash, hstate⟩, hnamed⟩ := knows_named hlawful hvalid hknows
  have hid : isOperationId (commitRequestId row.requestDigest) = true := isOperationId_commitRequestId hhash
  have hop : requireOperationId operationId = .ok () := by
    rw [requireOperationId, if_pos (show isOperationId operationId = true from hfits.checked.bounds.1)]
  obtain ⟨⟨_, t⟩, hretain⟩ := retainTx_some fun other hother => commit_clash hlawful hvalid hknows hother
  have hretained := alone_retainRoot (i := i) hid hstate hretain
  -- the root is there or is retained now, and the ledger is well-formed still
  have hafter : ((t.map Prod.snd).getD d).ledger.Valid ports ∧
      ((t.map Prod.snd).getD d).ledger.Knows operationId row.requestDigest row.stateHash := by
    rcases retainTx_ok hnamed hretain with ⟨rfl, _⟩ | ⟨d', rfl, hchange, _⟩
    · exact ⟨hvalid, hknows⟩
    · exact ⟨hchange.valid hvalid, hknows.grow (hchange.grows hvalid)⟩
  obtain ⟨⟨receipt, t'⟩, hcommit⟩ := commitRetainedTx_some hlawful committedAt hafter.1 hafter.2
  refine ⟨receipt, (t'.map Prod.snd).getD ((t.map Prod.snd).getD d), ?_⟩
  unfold resumePlatformCommit
  rw [alone_bind (alone_pendingCommit hlawful hvalid hrow hpending)]
  dsimp only [IntentRow.candidate]
  rw [hdigest, alone_bind hretained]
  have hend : alone (commitRetained i operationId committedAt) ((t.map Prod.snd).getD d) =
      (.ok receipt, (t'.map Prod.snd).getD ((t.map Prod.snd).getD d)) := by
    unfold commitRetained
    rw [alone_bind (alone_evaluate hop _), alone_bind (alone_evaluate htime _), alone_batch hcommit]
  rw [alone_bind hend]
  rfl

end Known

/-- The row of an operation once its commit has been sent again. -/
def IntentRow.settle (operationId : String) (row : IntentRow) : IntentRow :=
  if row.receipt.outcome = .pending then row.commit operationId else row

theorem IntentRow.Later.settle {op : String} {row row' : IntentRow} (h : row.Later op row')
    (hterminal : row'.receipt.outcome ≠ .pending) : row' = row.settle op := by
  unfold IntentRow.settle
  rcases h with rfl | ⟨hpending, rfl⟩
  · rw [if_neg hterminal]
  · rw [if_pos hpending]

/-- A commit of an operation that is there can be sent again at any time. With another candidate it changes nothing; otherwise it
ends with the receipt that the operation has, or with that of its commit, where it was pending. -/
theorem commit_resent (hlawful : ports.Lawful) (h : (platform ports).Reach Machine.anyCall (DbPool.initial Db.empty) p)
    {i : Nat} (hfree : p.thread i = none) {candidate : Candidate} {committedAt : Int}
    (hchecked : requireCandidate candidate = .ok ()) (htime : requireTimestamp committedAt = .ok ()) {row : IntentRow}
    (hrow : p.state.db.intents.lookup candidate.operationId = some row) :
    ∃ p', (platform ports).Reach Machine.anyCall p p' ∧
      if row.candidate candidate.operationId = candidate then
        p'.Returned i (.commit candidate committedAt) (.ok (.receipt (some (row.settle candidate.operationId).receipt))) ∧
          p'.state.db.intents.lookup candidate.operationId = some (row.settle candidate.operationId)
      else p'.Returned i (.commit candidate committedAt) (.error .payloadConflict) ∧ p'.state.db = p.state.db := by
  have hvalid := valid_of_reach hlawful h
  obtain ⟨p', hreach, hreturned, hdb⟩ := alone_reach .storage (serve ports) Machine.anyCall
    (fun _ _ _ => trivial) hfree (.commit candidate committedAt)
  refine ⟨p', hreach, ?_⟩
  have hbegun := alone_beginCommit hlawful hvalid (i := i) hchecked hrow
  by_cases hsame : row.candidate candidate.operationId = candidate
  · rw [if_pos hsame] at hbegun ⊢
    -- it ends with a receipt, which is the last one of the operation
    obtain ⟨receipt, d', hended⟩ : ∃ receipt d',
        alone (commitPlatformDocument ports i candidate committedAt) p.state.db = (.ok receipt, d') := by
      unfold commitPlatformDocument
      rw [alone_bind hbegun]
      by_cases hpending : row.receipt.outcome = .pending
      · obtain ⟨receipt, d', hresumed⟩ := alone_resumePlatformCommit hlawful hvalid (i := i) htime hrow hpending
        rw [if_neg (not_not.mpr hpending), alone_bind hresumed]
        exact ⟨receipt, d', rfl⟩
      · rw [if_pos hpending]
        exact ⟨row.receipt, p.state.db, rfl⟩
    have halone : alone (serve ports i (.commit candidate committedAt)) p.state.db = (.ok (.receipt (some receipt)), d') := by
      unfold serve
      rw [alone_bind hended]
      rfl
    rw [halone] at hreturned
    obtain ⟨_, heq, -, hterminal, row', hrow', rfl⟩ := ended (serves hlawful) rfl (h.trans hreach) hreturned
    cases heq
    obtain ⟨row'', hrow'', hlater⟩ := (grows_of_reach hlawful h hreach).intent _ row hrow
    cases hrow'.symm.trans hrow''
    rw [← hlater.settle hterminal]
    exact ⟨hreturned, hrow'⟩
  · rw [if_neg hsame] at hbegun ⊢
    have halone : alone (serve ports i (.commit candidate committedAt)) p.state.db = (.error .payloadConflict, p.state.db) := by
      unfold serve commitPlatformDocument
      rw [alone_bind_error (alone_bind_error hbegun)]
    rw [halone] at hreturned hdb
    exact ⟨hreturned, hdb⟩

end Safety

section Sample

def sampleHash (c : Char) : String := String.ofList (List.replicate 64 c)

/-- The digest of the creation below. -/
def creationDigest : String := "cc5188b8b83b5ef7a93621fc0e30e59ab871325063a51956020fee80b9c5a742"

/-- The digest of the commit below. -/
def commitDigest : String := "1774a6eff90b768fe8428d123236b926d25d43af5822b0cde50824d853e97635"

/-- Digests without collisions that have those of the creation and the commit below. -/
def samplePorts : Ports where
  digestCreation _ stateHash := assign [(sampleHash 'a', creationDigest)] stateHash
  digestCandidate _ candidate := assign [(sampleHash 'b', commitDigest)] candidate.stateHash
  snapshot _ := .ok (sampleHash 'd')

theorem isHash_assign {input digest h : String} (hinput : isHash input = true) (hdigest : isHash digest = true) (hh : isHash h = true) :
    isHash (assign [(input, digest)] h) = true := by
  simp only [assign, Equiv.trans_apply, Equiv.refl_apply, Equiv.swap_apply_def]
  split_ifs
  · exact hdigest
  · exact hinput
  · exact hh

theorem samplePorts_lawful : samplePorts.Lawful where
  creation _ _ h := isHash_assign (by decide) (by decide) h
  candidate _ _ h := isHash_assign (by decide) (by decide) h.bounds.2.2.2
  creation_inj _ _ _ _ _ _ h := (assign _).injective h
  candidate_inj _ _ _ _ _ _ h := (assign _).injective h

def sampleIdentity : IdentityObject :=
  ⟨⟨"tenant", "doc", "markdown", "ann", "1"⟩,
    "\x7b\"tenantId\":\"tenant\",\"docId\":\"doc\",\"docType\":\"markdown\"," ++
      "\"ownerActorId\":\"ann\",\"schemaVersion\":\"1\"\x7d"⟩

def sampleCommit : Candidate := ⟨"op", 1, sampleHash 'b'⟩

def sampleIntent : IntentRow := sampleCommit.intent commitDigest 1

/-- A document is created, and a commit is offered whose program then stops. -/
def offered : List (Label Nat Request Empty) :=
  [.start 0 (.create sampleIdentity (sampleHash 'a') 5), .run 0 .none, .run 0 .none, .run 0 .none,
    .start 1 (.commit sampleCommit 6), .run 1 .none, .run 1 .none]

/-- Another request resumes it, with an answer lost. -/
def resumed : List (Label Nat Request Empty) :=
  [.start 2 (.resume "op" 7), .run 2 .none, .run 2 .none, .run 2 .lost, .start 3 (.resume "op" 8), .run 3 .none,
    .run 3 .none]

theorem offered_reached : ∃ p, (platform samplePorts).Reach Machine.anyCall (DbPool.initial Db.empty) p ∧
    p.Returned 0 (.create sampleIdentity (sampleHash 'a') 5) (.ok (.created sampleIdentity ⟨1, sampleHash 'a', 5⟩)) ∧
      p.state.db.document = some ⟨sampleIdentity.fields, 1⟩ ∧
      p.state.db.versions.lookup 1 = some ⟨sampleHash 'a', 5⟩ ∧ p.state.db.intents.lookup "op" = some sampleIntent ∧
      p.thread 2 = none ∧
      ∃ p', (platform samplePorts).Reach Machine.anyCall p p' ∧
        p'.state.db.intents.lookup "op" = some (sampleIntent.commit "op") := by
  have hrun : ((platform samplePorts).exec? offered (DbPool.initial Db.empty)).any (fun p =>
      ((p.thread 0).any fun t => decide (t.req = .create sampleIdentity (sampleHash 'a') 5) && match t.prog with
        | .ret r => decide (r = .ok (.created sampleIdentity ⟨1, sampleHash 'a', 5⟩))
        | .call _ _ => false) &&
      decide (p.state.db.document = some ⟨sampleIdentity.fields, 1⟩) &&
      decide (p.state.db.versions.lookup 1 = some ⟨sampleHash 'a', 5⟩) &&
      decide (p.state.db.intents.lookup "op" = some sampleIntent) && (p.thread 2).isNone &&
      ((platform samplePorts).exec? resumed p).any fun p' =>
        decide (p'.state.db.intents.lookup "op" = some (sampleIntent.commit "op"))) = true := by
    decide
  obtain ⟨p, hp, hchecks⟩ := Option.any_eq_true .. |>.mp hrun
  simp only [Bool.and_eq_true, decide_eq_true_eq, Option.isNone_iff_eq_none] at hchecks
  obtain ⟨⟨⟨⟨⟨hthread, hdocument⟩, hversion⟩, hintent⟩, hfree⟩, hresumed⟩ := hchecks
  obtain ⟨⟨q, prog, steps⟩, hthread, hreturned⟩ := Option.any_eq_true .. |>.mp hthread
  obtain ⟨p', hp', hcommitted⟩ := Option.any_eq_true .. |>.mp hresumed
  simp only [Bool.and_eq_true, decide_eq_true_eq] at hreturned
  obtain ⟨rfl, hreturned⟩ := hreturned
  cases prog with
  | call _ _ => cases hreturned
  | ret r =>
    obtain rfl := of_decide_eq_true hreturned
    exact ⟨p, Machine.reach_of_exec? _ .init hp, ⟨steps, hthread⟩, hdocument, hversion, hintent, hfree, p',
      Machine.reach_of_exec? _ .init hp', of_decide_eq_true hcommitted⟩

/-- A commit that its program has left is resumed, and the version is the one after its base. -/
theorem document_safe_resumed : ∃ p p', (platform samplePorts).Reach Machine.anyCall (DbPool.initial Db.empty) p ∧
    (platform samplePorts).Reach Machine.anyCall p p' ∧ p.state.db.intents.lookup "op" = some sampleIntent ∧
      p'.state.db.intents.lookup "op" = some (sampleIntent.commit "op") ∧
      DocumentSafety samplePorts p.state.db ∧ HistoryKept p.state.db p'.state.db := by
  obtain ⟨p, hp, -, -, -, hintent, -, p', hp', hcommitted⟩ := offered_reached
  exact ⟨p, p', hp, hp', hintent, hcommitted, document_safe samplePorts_lawful hp hp'⟩

/-- The creation stays what it was after the commit. -/
theorem requests_answered_resumed : ∃ p', p'.state.db.intents.lookup "op" = some (sampleIntent.commit "op") ∧
    Answered (.create sampleIdentity (sampleHash 'a') 5) (.ok (.created sampleIdentity ⟨1, sampleHash 'a', 5⟩))
      (p' : PlatformPool).state.db.ledger := by
  obtain ⟨p, hp, hreturned, -, -, -, -, p', hp', hcommitted⟩ := offered_reached
  exact ⟨p', hcommitted, requests_answered samplePorts_lawful hp hreturned hp'⟩

/-- While the commit is pending the creation can be sent again, at a later time. -/
theorem creation_resent_offered : ∃ p p', (platform samplePorts).Reach Machine.anyCall p p' ∧ p'.state.db = p.state.db ∧
    p'.Returned 2 (.create sampleIdentity (sampleHash 'a') 9) (.ok (.created sampleIdentity ⟨1, sampleHash 'a', 5⟩)) := by
  obtain ⟨p, hp, -, hdocument, hversion, -, hfree, -⟩ := offered_reached
  obtain ⟨p', hreach, hdb, hreturned⟩ := creation_resent samplePorts_lawful hp hdocument hversion hfree
    (show requireIdentity sampleIdentity = .ok () by decide)
    (show requireHash (sampleHash 'a') = .ok () by decide) (show requireTimestamp 9 = .ok () by decide)
  rw [if_pos ⟨rfl, rfl, rfl⟩] at hreturned
  exact ⟨p, p', hreach, hdb, hreturned⟩

/-- The commit that was left is sent again, and is the second version. -/
theorem commit_resent_offered : ∃ p p', (platform samplePorts).Reach Machine.anyCall p p' ∧
    p.state.db.intents.lookup "op" = some sampleIntent ∧
      p'.Returned 2 (.commit sampleCommit 9) (.ok (.receipt (some ⟨"op", 1, commitDigest, .committed 2⟩))) := by
  obtain ⟨p, hp, -, -, -, hintent, hfree, -⟩ := offered_reached
  obtain ⟨p', hreach, hend⟩ := commit_resent samplePorts_lawful hp hfree
    (show requireCandidate sampleCommit = .ok () by decide) (show requireTimestamp 9 = .ok () by decide) hintent
  rw [if_pos (show sampleIntent.candidate sampleCommit.operationId = sampleCommit from rfl)] at hend
  exact ⟨p, p', hreach, hintent, hend.1⟩

end Sample

end UniDocs.Platform
