import UniDocs.Platform.Document

/-!
# The ledger of a platform document

What a platform document is for: an identity, a sequence of versions, for each operation what has become of it, and the roots that
are retained. The transitions say what each kind of change needs and does. A well-formed ledger has the versions from one to its
head, a pending operation only on its head, and a committed one for every version but the first.
-/

namespace UniDocs.Platform

open Lib

/-- A document with its operations and the roots that are retained for it. -/
structure Ledger where
  identity : Option Identity
  head : Nat
  version : Nat → Option VersionRow
  creation : Option CreationRow
  intent : String → Option IntentRow
  root : String → Option String

/-- The ledger that the tables hold. -/
def Db.ledger (d : Db) : Ledger where
  identity := d.document.map (·.identity)
  head := (d.document.map (·.headVersion)).getD 0
  version := d.versions.lookup
  creation := d.creation
  intent := d.intents.lookup
  root := d.retained.lookup

/-- The candidate that an intent is for. -/
def IntentRow.candidate (operationId : String) (row : IntentRow) : Candidate := ⟨operationId, row.baseVersion, row.stateHash⟩

/-- The checks of a candidate. -/
def Candidate.Checked (candidate : Candidate) : Prop := requireCandidate candidate = .ok ()

/-- A root that is retained for the creation of a document or for one of its operations. -/
def Named (ports : Ports) (l : Ledger) (requestId stateHash : String) : Prop :=
  (∃ identity, isHash stateHash = true ∧ requestId = createRequestId (ports.digestCreation identity stateHash)) ∨
    ∃ identity candidate, l.identity = some identity ∧ candidate.Checked ∧ candidate.stateHash = stateHash ∧
      requestId = commitRequestId (ports.digestCandidate identity candidate)

/-- The root of a creation is retained. -/
def Ledger.CreateRetained (ports : Ports) (l : Ledger) (identity : Identity) (stateHash : String) : Prop :=
  l.root (createRequestId (ports.digestCreation identity stateHash)) = some stateHash

/-- The root of an operation is retained. -/
def Ledger.CommitRetained (l : Ledger) (row : IntentRow) : Prop :=
  l.root (commitRequestId row.requestDigest) = some row.stateHash

/-- What a change needs and does. -/
def Change (ports : Ports) : Entry → Ledger → Ledger → Prop
  | .begun identity stateHash, l, l' =>
    l.identity = none ∧ l.creation = none ∧
      l' = { l with creation := some ⟨identity.text, stateHash, ports.digestCreation identity.fields stateHash⟩ }
  | .created identity stateHash, l, l' =>
    l.identity = none ∧ l.CreateRetained ports identity.fields stateHash ∧
      (∃ pending, l.creation = some pending ∧ pending.identity = identity.text) ∧ ∃ createdAt,
      l' = { l with
        identity := some identity.fields, head := 1, creation := none
        version := Function.update l.version 1 (some ⟨stateHash, createdAt⟩) }
  | .offered candidate, l, l' =>
    ∃ identity, l.identity = some identity ∧ l.intent candidate.operationId = none ∧ candidate.Checked ∧
      (candidate.baseVersion = l.head → ∀ op row, l.intent op = some row → row.state ≠ .pending) ∧
      l' = { l with
        intent := Function.update l.intent candidate.operationId
          (some (candidate.intent (ports.digestCandidate identity candidate) l.head)) }
  | .committed operationId, l, l' =>
    ∃ row, l.intent operationId = some row ∧ row.receipt.outcome = .pending ∧ l.head = row.receipt.baseVersion ∧
      l.CommitRetained row ∧ ∃ committedAt,
      l' = { l with
        head := row.receipt.baseVersion + 1
        version := Function.update l.version (row.receipt.baseVersion + 1) (some ⟨row.stateHash, committedAt⟩)
        intent := Function.update l.intent operationId (some (row.commit operationId)) }
  | .retained requestId stateHash, l, l' =>
    l.root requestId = none ∧ Named ports l requestId stateHash ∧
      l' = { l with root := Function.update l.root requestId (some stateHash) }

/-! ## Growth -/

/-- A row of an intent, or the row after its commit. -/
def IntentRow.Later (operationId : String) (row row' : IntentRow) : Prop :=
  row' = row ∨ row.receipt.outcome = .pending ∧ row' = row.commit operationId

/-- What no change takes away: the identity, the versions, the roots, and the intents, which change by their commit only. -/
structure Ledger.Grows (l l' : Ledger) : Prop where
  identity : ∀ identity, l.identity = some identity → l'.identity = some identity
  head : l.head ≤ l'.head
  version : ∀ v row, l.version v = some row → l'.version v = some row
  root : ∀ requestId stateHash, l.root requestId = some stateHash → l'.root requestId = some stateHash
  intent : ∀ op row, l.intent op = some row → ∃ row', l'.intent op = some row' ∧ row.Later op row'
  creation : ∀ row, l.creation = some row → l'.creation = some row ∨ l'.identity ≠ none

theorem IntentRow.Later.refl {op : String} {row : IntentRow} : row.Later op row := .inl rfl

theorem IntentRow.Later.trans {op : String} {row row' row'' : IntentRow} (h : row.Later op row') (h' : row'.Later op row'') :
    row.Later op row'' := by
  rcases h with rfl | ⟨hpending, rfl⟩
  · exact h'
  · rcases h' with rfl | ⟨hpending', -⟩
    · exact .inr ⟨hpending, rfl⟩
    · cases hpending'

/-- What a commit leaves of an intent. -/
theorem IntentRow.Later.fields {op : String} {row row' : IntentRow} (h : row.Later op row') :
    row'.baseVersion = row.baseVersion ∧ row'.requestDigest = row.requestDigest ∧ row'.stateHash = row.stateHash := by
  rcases h with rfl | ⟨-, rfl⟩
  · exact ⟨rfl, rfl, rfl⟩
  · exact ⟨rfl, rfl, rfl⟩

theorem IntentRow.Later.terminal {op : String} {row row' : IntentRow} (h : row.Later op row')
    (hterminal : row.receipt.outcome ≠ .pending) : row' = row := by
  rcases h with rfl | ⟨hpending, -⟩
  · rfl
  · exact absurd hpending hterminal

theorem Ledger.Grows.refl (l : Ledger) : l.Grows l where
  identity _ h := h
  head := le_refl _
  version _ _ h := h
  root _ _ h := h
  intent _ row h := ⟨row, h, .refl⟩
  creation _ h := .inl h

theorem Ledger.Grows.trans {l l' l'' : Ledger} (h : l.Grows l') (h' : l'.Grows l'') : l.Grows l'' where
  identity identity hi := h'.identity identity (h.identity identity hi)
  head := le_trans h.head h'.head
  version v row hv := h'.version v row (h.version v row hv)
  root id hash hr := h'.root id hash (h.root id hash hr)
  intent op row hrow := by
    obtain ⟨row', hrow', hlater⟩ := h.intent op row hrow
    obtain ⟨row'', hrow'', hlater'⟩ := h'.intent op row' hrow'
    exact ⟨row'', hrow'', hlater.trans hlater'⟩
  creation row hrow := by
    rcases h.creation row hrow with hkept | hdone
    · exact h'.creation row hkept
    · obtain ⟨identity, hidentity⟩ := Option.ne_none_iff_exists'.mp hdone
      exact .inr (by rw [h'.identity identity hidentity]; simp)

/-! ## Well-formed ledgers -/

/-- What the intent of an operation says, in a ledger. -/
structure IntentRow.Fits (ports : Ports) (l : Ledger) (operationId : String) (row : IntentRow) : Prop where
  receipt : row.receipt = ⟨operationId, row.baseVersion, row.requestDigest, row.receipt.outcome⟩
  state : row.state = row.receipt.outcome.state
  checked : (row.candidate operationId).Checked
  digest : ∃ identity, l.identity = some identity ∧ row.requestDigest = ports.digestCandidate identity (row.candidate operationId)
  pending : row.receipt.outcome = .pending → row.baseVersion = l.head
  committed : ∀ v, row.receipt.outcome = .committed v → v = row.baseVersion + 1 ∧ v ≤ l.head ∧ l.CommitRetained row ∧
    ∃ committedAt, l.version v = some ⟨row.stateHash, committedAt⟩
  rejected : ∀ head, row.receipt.outcome = .rejected head → 1 ≤ head ∧ head ≤ l.head ∧ row.baseVersion ≠ head

/-- A well-formed ledger. -/
structure Ledger.Valid (ports : Ports) (l : Ledger) : Prop where
  absent : l.identity = none → l.head = 0 ∧ ∀ op, l.intent op = none
  present : ∀ identity, l.identity = some identity → 1 ≤ l.head ∧ l.head ≤ maxSafeInteger
  numbered : ∀ v, (∃ row, l.version v = some row) ↔ 1 ≤ v ∧ v ≤ l.head
  first : ∀ identity row, l.identity = some identity → l.version 1 = some row → l.CreateRetained ports identity row.stateHash
  fits : ∀ op row, l.intent op = some row → row.Fits ports l op
  one : ∀ op op' row row', l.intent op = some row → l.intent op' = some row' → row.receipt.outcome = .pending →
    row'.receipt.outcome = .pending → op = op'
  owner : ∀ v, 2 ≤ v → v ≤ l.head → ∃ op row, l.intent op = some row ∧ row.receipt.outcome = .committed v
  alone : ∀ op op' row row' v, l.intent op = some row → l.intent op' = some row' → row.receipt.outcome = .committed v →
    row'.receipt.outcome = .committed v → op = op'
  named : ∀ requestId stateHash, l.root requestId = some stateHash → Named ports l requestId stateHash

/-! ## Every change keeps a well-formed ledger -/

section Valid

variable {ports : Ports} {e : Entry} {l l' : Ledger} {op : String} {row : IntentRow}

theorem Candidate.Checked.bounds {candidate : Candidate} (h : candidate.Checked) :
    isOperationId candidate.operationId = true ∧ 1 ≤ candidate.baseVersion ∧ candidate.baseVersion < maxSafeInteger ∧
      isHash candidate.stateHash = true := by
  unfold Candidate.Checked requireCandidate at h
  obtain ⟨_, hop, h⟩ := bind_ok_iff.mp h
  obtain ⟨hbase, h⟩ := check_ok_iff.mp h
  have hid : isOperationId candidate.operationId = true := by
    unfold requireOperationId at hop
    split at hop
    · assumption
    · cases hop
  have hhash : isHash candidate.stateHash = true := by
    unfold requireHash at h
    split at h
    · assumption
    · cases h
  exact ⟨hid, by omega, by omega, hhash⟩

theorem Ledger.Valid.version_none (h : l.Valid ports) {v : Nat} (hv : l.head < v) : l.version v = none := by
  cases hrow : l.version v with
  | none => rfl
  | some row =>
    have := ((h.numbered v).mp ⟨row, hrow⟩).2
    omega

theorem Ledger.Valid.absent_of_intent (h : l.Valid ports) (hrow : l.intent op = some row) :
    ∃ identity, l.identity = some identity := by
  obtain ⟨identity, hidentity, -⟩ := (h.fits op row hrow).digest
  exact ⟨identity, hidentity⟩

theorem Change.grows (hvalid : l.Valid ports) (h : Change ports e l l') : l.Grows l' := by
  cases e with
  | begun identity stateHash =>
    obtain ⟨_, hnone, rfl⟩ := h
    refine ⟨fun _ h => h, le_refl _, fun _ _ h => h, fun _ _ h => h, fun _ row h => ⟨row, h, .refl⟩, fun row hrow => ?_⟩
    rw [hnone] at hrow
    cases hrow
  | created identity stateHash =>
    obtain ⟨hnone, _, _, createdAt, rfl⟩ := h
    obtain ⟨hhead, hintent⟩ := hvalid.absent hnone
    refine ⟨fun identity' h => ?_, by simp [hhead], fun v row hrow => ?_, fun _ _ h => h, fun op row hrow => ?_,
      fun _ _ => .inr nofun⟩
    · rw [hnone] at h
      cases h
    · have := ((hvalid.numbered v).mp ⟨row, hrow⟩)
      omega
    · rw [hintent op] at hrow
      cases hrow
  | offered candidate =>
    obtain ⟨identity, _, hfree, _, _, rfl⟩ := h
    refine ⟨fun _ h => h, le_refl _, fun _ _ h => h, fun _ _ h => h, fun op row hrow => ⟨row, ?_, .refl⟩, fun _ h => .inl h⟩
    have hne : op ≠ candidate.operationId := by
      rintro rfl
      rw [hfree] at hrow
      cases hrow
    simp only [Function.update_of_ne hne, hrow]
  | committed operationId =>
    obtain ⟨row, hrow, hpending, hhead, _, committedAt, rfl⟩ := h
    refine ⟨fun _ h => h, by simp [hhead], fun v other hother => ?_, fun _ _ h => h, fun op other hother => ?_, fun _ h => .inl h⟩
    · have hle := ((hvalid.numbered v).mp ⟨other, hother⟩).2
      have hne : v ≠ row.receipt.baseVersion + 1 := by omega
      simp only [Function.update_of_ne hne, hother]
    · by_cases hop : op = operationId
      · subst hop
        cases hrow.symm.trans hother
        exact ⟨_, by simp only [Function.update_self], .inr ⟨hpending, rfl⟩⟩
      · exact ⟨other, by simp only [Function.update_of_ne hop, hother], .refl⟩
  | retained requestId stateHash =>
    obtain ⟨hfree, _, rfl⟩ := h
    refine ⟨fun _ h => h, le_refl _, fun _ _ h => h, fun id hash hroot => ?_, fun _ row h => ⟨row, h, .refl⟩, fun _ h => .inl h⟩
    have hne : id ≠ requestId := by
      rintro rfl
      rw [hfree] at hroot
      cases hroot
    simp only [Function.update_of_ne hne, hroot]

theorem IntentRow.Fits.grow (h : row.Fits ports l op) (hg : l.Grows l')
    (hpending : row.receipt.outcome = .pending → row.baseVersion = l'.head) : row.Fits ports l' op where
  receipt := h.receipt
  state := h.state
  checked := h.checked
  digest := by
    obtain ⟨identity, hidentity, hdigest⟩ := h.digest
    exact ⟨identity, hg.identity identity hidentity, hdigest⟩
  pending := hpending
  committed v hv := by
    obtain ⟨heq, hle, hroot, committedAt, hversion⟩ := h.committed v hv
    exact ⟨heq, le_trans hle hg.head, hg.root _ _ hroot, committedAt, hg.version _ _ hversion⟩
  rejected head hhead := by
    obtain ⟨h1, h2, h3⟩ := h.rejected head hhead
    exact ⟨h1, le_trans h2 hg.head, h3⟩

theorem Named.grow {requestId stateHash : String} (h : Named ports l requestId stateHash) (hg : l.Grows l') :
    Named ports l' requestId stateHash := by
  rcases h with h | ⟨identity, candidate, hidentity, hcandidate⟩
  · exact .inl h
  · exact .inr ⟨identity, candidate, hg.identity identity hidentity, hcandidate⟩

theorem Candidate.intent_cases (candidate : Candidate) (requestDigest : String) (headVersion : Nat) :
    candidate.baseVersion = headVersion ∧ (candidate.intent requestDigest headVersion).receipt.outcome = .pending ∨
      candidate.baseVersion ≠ headVersion ∧
        (candidate.intent requestDigest headVersion).receipt.outcome = .rejected headVersion := by
  by_cases h : candidate.baseVersion = headVersion
  · exact .inl ⟨h, by simp [Candidate.intent, Candidate.receipt, h]⟩
  · exact .inr ⟨h, by simp [Candidate.intent, Candidate.receipt, h]⟩

/-- A ledger of which only the creation or a root is new is as well-formed as before. -/
theorem Ledger.Valid.side (h : l.Valid ports) (hg : l.Grows l') (hidentity : l'.identity = l.identity) (hhead : l'.head = l.head)
    (hversion : l'.version = l.version) (hintent : l'.intent = l.intent)
    (hroot : ∀ id hash, l'.root id = some hash → Named ports l' id hash) : l'.Valid ports where
  absent hnone := by
    rw [hhead, hintent]
    exact h.absent (hidentity ▸ hnone)
  present identity hi := by
    rw [hhead]
    exact h.present identity (hidentity ▸ hi)
  numbered v := by rw [hhead, hversion]; exact h.numbered v
  first identity row hi hrow := hg.root _ _ (h.first identity row (hidentity ▸ hi) (hversion ▸ hrow))
  fits op row hrow := by
    have hfits := h.fits op row (hintent ▸ hrow)
    exact hfits.grow hg fun hpending => by rw [hhead]; exact hfits.pending hpending
  one op op' row row' hrow hrow' := h.one op op' row row' (hintent ▸ hrow) (hintent ▸ hrow')
  owner v h2 hv := by
    rw [hintent]
    exact h.owner v h2 (hhead ▸ hv)
  alone op op' row row' v hrow hrow' := h.alone op op' row row' v (hintent ▸ hrow) (hintent ▸ hrow')
  named := hroot

theorem valid_created {identity : IdentityObject} {stateHash : String} (h : l.Valid ports)
    (hc : Change ports (.created identity stateHash) l l') : l'.Valid ports := by
  have hg := hc.grows h
  obtain ⟨hnone, hretained, _, createdAt, rfl⟩ := hc
  obtain ⟨hhead, hintent⟩ := h.absent hnone
  have hold : ∀ v, l.version v = none := by
    intro v
    cases hrow : l.version v with
    | none => rfl
    | some row =>
      have := (h.numbered v).mp ⟨row, hrow⟩
      omega
  have hnot : ∀ op row, l.intent op ≠ some row := by
    intro op row hrow
    rw [hintent op] at hrow
    cases hrow
  exact {
    absent := nofun
    present := fun _ _ => ⟨le_refl 1, by simp [maxSafeInteger]⟩
    numbered := fun v => by
      by_cases hv : v = 1
      · subst hv
        simp
      · simp only [Function.update_of_ne hv, hold v]
        constructor
        · rintro ⟨row, hrow⟩
          cases hrow
        · rintro ⟨h1, h2⟩
          omega
    first := fun _ row hi hrow => by
      simp only [Option.some.injEq] at hi
      simp only [Function.update_self, Option.some.injEq] at hrow
      subst hi hrow
      exact hretained
    fits := fun op row hrow => absurd hrow (hnot op row)
    one := fun op _ row _ hrow => absurd hrow (hnot op row)
    owner := fun v h2 hv => by
      have h1 : v ≤ 1 := hv
      omega
    alone := fun op _ row _ _ hrow => absurd hrow (hnot op row)
    named := fun id hash hroot => (h.named id hash hroot).grow hg }

theorem valid_offered {candidate : Candidate} (h : l.Valid ports) (hc : Change ports (.offered candidate) l l') :
    l'.Valid ports := by
  have hg := hc.grows h
  obtain ⟨identity, hidentity, hfree, hchecked, hpending, rfl⟩ := hc
  obtain ⟨hhead, hsafe⟩ := h.present identity hidentity
  -- a row is one of before or the new one, which is pending only on the head
  have hrows : ∀ op row, Function.update l.intent candidate.operationId
      (some (candidate.intent (ports.digestCandidate identity candidate) l.head)) op = some row →
      (op = candidate.operationId ∧ row = candidate.intent (ports.digestCandidate identity candidate) l.head) ∨
        op ≠ candidate.operationId ∧ l.intent op = some row := by
    intro op row hrow
    by_cases hop : op = candidate.operationId
    · subst hop
      simp only [Function.update_self, Option.some.injEq] at hrow
      exact .inl ⟨rfl, hrow.symm⟩
    · rw [Function.update_of_ne hop] at hrow
      exact .inr ⟨hop, hrow⟩
  have hnew := candidate.intent_cases (ports.digestCandidate identity candidate) l.head
  have hstate : ∀ op row, l.intent op = some row → row.receipt.outcome = .pending → row.state = .pending := by
    intro op row hrow hp
    rw [(h.fits op row hrow).state, hp]
    rfl
  exact {
    absent := fun hnone => by rw [show l.identity = none from hnone] at hidentity; cases hidentity
    present := h.present
    numbered := h.numbered
    first := h.first
    fits := fun op row hrow => by
      rcases hrows op row hrow with ⟨rfl, rfl⟩ | ⟨-, hold⟩
      · refine ⟨?_, rfl, ?_, ⟨identity, hidentity, ?_⟩, fun hp => ?_, fun v hv => ?_, fun head hr => ?_⟩
        · simp [Candidate.intent, Candidate.receipt]
        · exact hchecked
        · rfl
        · rcases hnew with ⟨hbase, -⟩ | ⟨-, hrejected⟩
          · exact hbase
          · rw [hrejected] at hp
            cases hp
        · rcases hnew with ⟨-, hout⟩ | ⟨-, hout⟩ <;> (rw [hout] at hv; cases hv)
        · rcases hnew with ⟨-, hout⟩ | ⟨hbase, hout⟩
          · rw [hout] at hr
            cases hr
          · rw [hout] at hr
            cases hr
            exact ⟨hhead, le_refl _, hbase⟩
      · have hfits := h.fits op row hold
        exact hfits.grow hg hfits.pending
    one := fun op op' row row' hrow hrow' hp hp' => by
      rcases hrows op row hrow with ⟨rfl, rfl⟩ | ⟨-, hold⟩ <;> rcases hrows op' row' hrow' with ⟨rfl, rfl⟩ | ⟨-, hold'⟩
      · rfl
      · rcases hnew with ⟨hbase, -⟩ | ⟨-, hout⟩
        · exact absurd (hstate op' row' hold' hp') (hpending hbase op' row' hold')
        · rw [hout] at hp
          cases hp
      · rcases hnew with ⟨hbase, -⟩ | ⟨-, hout⟩
        · exact absurd (hstate op row hold hp) (hpending hbase op row hold)
        · rw [hout] at hp'
          cases hp'
      · exact h.one op op' row row' hold hold' hp hp'
    owner := fun v h2 hv => by
      obtain ⟨op, row, hrow, hout⟩ := h.owner v h2 hv
      have hne : op ≠ candidate.operationId := by
        rintro rfl
        rw [hfree] at hrow
        cases hrow
      exact ⟨op, row, by simp only [Function.update_of_ne hne, hrow], hout⟩
    alone := fun op op' row row' v hrow hrow' hv hv' => by
      have hnot : (candidate.intent (ports.digestCandidate identity candidate) l.head).receipt.outcome ≠ .committed v := by
        rcases hnew with ⟨-, hout⟩ | ⟨-, hout⟩ <;> (rw [hout]; nofun)
      rcases hrows op row hrow with ⟨rfl, rfl⟩ | ⟨-, hold⟩
      · exact absurd hv hnot
      · rcases hrows op' row' hrow' with ⟨rfl, rfl⟩ | ⟨-, hold'⟩
        · exact absurd hv' hnot
        · exact h.alone op op' row row' v hold hold' hv hv'
    named := fun id hash hroot => (h.named id hash hroot).grow hg }

theorem valid_committed {operationId : String} (h : l.Valid ports) (hc : Change ports (.committed operationId) l l') :
    l'.Valid ports := by
  have hg := hc.grows h
  obtain ⟨row, hrow, hpending, hhead, hretained, committedAt, rfl⟩ := hc
  have hfits := h.fits operationId row hrow
  obtain ⟨identity, hidentity⟩ := h.absent_of_intent hrow
  have hbase : row.receipt.baseVersion = row.baseVersion := by rw [hfits.receipt]
  have hdigest : row.receipt.requestDigest = row.requestDigest := by rw [hfits.receipt]
  obtain ⟨-, -, hsafe, -⟩ := hfits.checked.bounds
  have hsafe : row.baseVersion < maxSafeInteger := hsafe
  -- a row is one of before, which is not pending, or the committed one
  have hrows : ∀ op other, Function.update l.intent operationId (some (row.commit operationId)) op = some other →
      (op = operationId ∧ other = row.commit operationId) ∨
        op ≠ operationId ∧ l.intent op = some other ∧ other.receipt.outcome ≠ .pending := by
    intro op other hother
    by_cases hop : op = operationId
    · subst hop
      simp only [Function.update_self, Option.some.injEq] at hother
      exact .inl ⟨rfl, hother.symm⟩
    · rw [Function.update_of_ne hop] at hother
      exact .inr ⟨hop, hother, fun hp => hop (h.one op operationId other row hother hrow hp hpending)⟩
  -- versions of committed operations are not past the head of before
  have hle : ∀ op other v, l.intent op = some other → other.receipt.outcome = .committed v → v ≤ l.head :=
    fun op other v hother hv => ((h.fits op other hother).committed v hv).2.1
  exact {
    absent := fun hnone => by rw [show l.identity = none from hnone] at hidentity; cases hidentity
    present := fun _ _ => ⟨by simp, by simp only [hbase]; omega⟩
    numbered := fun v => by
      by_cases hv : v = row.receipt.baseVersion + 1
      · subst hv
        simp
      · simp only [Function.update_of_ne hv, h.numbered v]
        omega
    first := fun identity' row' hi hrow' => by
      have h1 : 1 ≤ l.head := (h.present identity hidentity).1
      have hne : 1 ≠ row.receipt.baseVersion + 1 := by omega
      simp only [Function.update_of_ne hne] at hrow'
      exact h.first identity' row' hi hrow'
    fits := fun op other hother => by
      rcases hrows op other hother with ⟨rfl, rfl⟩ | ⟨-, hold, hterminal⟩
      · refine ⟨?_, rfl, hfits.checked, hfits.digest, nofun, fun v hv => ?_, nofun⟩
        · simp only [IntentRow.commit, Receipt.commit, hbase, hdigest]
        · cases hv
          exact ⟨by simp [IntentRow.commit, hbase], le_refl _, hretained, committedAt, by simp [IntentRow.commit]⟩
      · exact (h.fits op other hold).grow hg fun hp => absurd hp hterminal
    one := fun op op' other other' hother hother' hp hp' => by
      rcases hrows op other hother with ⟨rfl, rfl⟩ | ⟨-, _, hterminal⟩
      · cases hp
      · exact absurd hp hterminal
    owner := fun v h2 hv => by
      by_cases hnew : v = row.receipt.baseVersion + 1
      · subst hnew
        exact ⟨operationId, row.commit operationId, by simp only [Function.update_self], rfl⟩
      · have hv' : v ≤ row.receipt.baseVersion + 1 := hv
        obtain ⟨op, other, hother, hout⟩ := h.owner v h2 (by omega)
        have hne : op ≠ operationId := by
          rintro rfl
          cases hrow.symm.trans hother
          rw [hpending] at hout
          cases hout
        exact ⟨op, other, by simp only [Function.update_of_ne hne, hother], hout⟩
    alone := fun op op' other other' v hother hother' hv hv' => by
      rcases hrows op other hother with ⟨rfl, rfl⟩ | ⟨-, hold, -⟩ <;>
        rcases hrows op' other' hother' with ⟨rfl, rfl⟩ | ⟨-, hold', -⟩
      · rfl
      · cases hv
        have := hle op' other' _ hold' hv'
        omega
      · cases hv'
        have := hle op other _ hold hv
        omega
      · exact h.alone op op' other other' v hold hold' hv hv'
    named := fun id hash hroot => (h.named id hash hroot).grow hg }

theorem Change.valid (h : l.Valid ports) (hc : Change ports e l l') : l'.Valid ports := by
  have hg := hc.grows h
  cases e with
  | begun identity stateHash =>
    obtain ⟨_, _, rfl⟩ := hc
    exact h.side hg rfl rfl rfl rfl h.named
  | created identity stateHash => exact valid_created h hc
  | offered candidate => exact valid_offered h hc
  | committed operationId => exact valid_committed h hc
  | retained requestId stateHash =>
    obtain ⟨_, hnamed, rfl⟩ := hc
    refine h.side hg rfl rfl rfl rfl fun id hash hroot => ?_
    by_cases hid : id = requestId
    · subst hid
      simp only [Function.update_self, Option.some.injEq] at hroot
      subst hroot
      exact hnamed
    · simp only [Function.update_of_ne hid] at hroot
      exact (h.named id hash hroot).grow hg

/-- Before anything has happened. -/
theorem valid_empty : Db.empty.ledger.Valid ports where
  absent _ := ⟨rfl, fun _ => rfl⟩
  present identity h := by cases h
  numbered v := by
    constructor
    · rintro ⟨row, hrow⟩
      cases hrow
    · rintro ⟨h1, h2⟩
      have h0 : v ≤ 0 := h2
      omega
  first identity row h := by cases h
  fits op row h := by cases h
  one op op' row row' h := by cases h
  owner v h1 h2 := by
    have h0 : v ≤ 0 := h2
    omega
  alone op op' row row' v h := by cases h
  named requestId stateHash h := by cases h

end Valid

end UniDocs.Platform
