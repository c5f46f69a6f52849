import UniDocs.Lemmas.DocumentCatalog
import UniDocs.Lib.Result

/-!
# The operations on document types, call by call

Each batch that commits is a transition of the catalog. An update that enables a type has found a contract that its parts
support, and contracts are not removed, so that the contract is still there when the batch commits.
-/

namespace UniDocs.DocumentTypes

open Lib Lib.Trace
open UniDocs.Administrators (AdminContext)

/-! ## Batches -/

theorem guardRow_ok {condition : Bool} {u : Unit} (h : guardRow condition = .ok u) : condition = true := by
  cases condition with
  | true => rfl
  | false => cases h

theorem insertInto_ok {κ ρ : Type} [DecidableEq κ] {k : κ} {row : ρ} {t t' : Table κ ρ} (h : insertInto k row t = .ok t') :
    t.lookup k = none ∧ t' = t.insert k row := by
  unfold insertInto at h
  split at h
  · rename_i t₁ ht
    cases h
    exact AList.lookup_insertNew ht
  · cases h

theorem createBatch_ok {command : Command} {registration : Registration} {auditId : String} {now : Int} {d : Db} {u : Unit}
    {t : Option (Entry × Db)} (h : createBatch command registration auditId now d = .ok (u, t)) :
    ∃ d', t = some (.created registration, d') ∧ d.catalog.type registration.representation.documentType = none
      ∧ d'.catalog.contract = d.catalog.contract
      ∧ d'.catalog.type = Function.update d.catalog.type registration.representation.documentType
        (some ⟨registration.representation.internalName, registration.representation.enabled, registration,
          registration.representation.updatedAt, -1⟩) := by
  obtain ⟨others, _, h⟩ := bind_ok_iff.mp h
  obtain ⟨documentTypes, hinsert, h⟩ := bind_ok_iff.mp h
  cases h
  obtain ⟨hnone, rfl⟩ := insertInto_ok hinsert
  exact ⟨_, rfl, hnone, rfl, AList.lookup_insert_update ..⟩

theorem updateBatch_ok {command : Command} {expectedEtag : String} {base registration : Registration}
    {audits : List (String × Audit)} {now : Int} {d : Db} {u : Unit} {t : Option (Entry × Db)}
    (h : updateBatch command expectedEtag base registration audits now d = .ok (u, t)) :
    ∃ old d', t = some (.updated expectedEtag base registration old, d')
      ∧ d.catalog.type registration.representation.documentType = some old ∧ old.registration.etag = expectedEtag
      ∧ d'.catalog.contract = d.catalog.contract
      ∧ d'.catalog.type = Function.update d.catalog.type registration.representation.documentType
        (some (old.withRegistration registration)) := by
  obtain ⟨others, _, h⟩ := bind_ok_iff.mp h
  split at h
  · cases h
  · rename_i old hold
    obtain ⟨_, hguard, h⟩ := bind_ok_iff.mp h
    cases h
    exact ⟨old, _, rfl, hold, of_decide_eq_true (guardRow_ok hguard), rfl, AList.lookup_insert_update ..⟩

theorem appendBatch_ok {command : Command} {lastContractIdx : Int} {current registration : Registration}
    {record : DocumentContractRecord} {audit : String × Audit} {now : Int} {d : Db} {u : Unit} {t : Option (Entry × Db)}
    (h : appendBatch command lastContractIdx current registration record audit now d = .ok (u, t)) :
    ∃ old d', t = some (.appended current registration record old, d') ∧ d.catalog.type record.documentType = some old
      ∧ old.lastContractIdx = lastContractIdx ∧ old.registration.etag = current.etag
      ∧ d.catalog.contract (record.documentType, record.documentContractIdx) = none
      ∧ (∀ n other, d.catalog.contract (record.documentType, n) = some other → other.contractHash ≠ record.contractHash)
      ∧ d'.catalog.contract = Function.update d.catalog.contract (record.documentType, record.documentContractIdx)
        (some ⟨record.contractHash, record, command.occurredAt⟩)
      ∧ d'.catalog.type = Function.update d.catalog.type record.documentType
        (some { old.withRegistration registration with lastContractIdx := record.documentContractIdx }) := by
  obtain ⟨others, _, h⟩ := bind_ok_iff.mp h
  split at h
  · cases h
  · rename_i old hold
    obtain ⟨_, hguard, h⟩ := bind_ok_iff.mp h
    obtain ⟨_, hunique, h⟩ := bind_ok_iff.mp h
    obtain ⟨documentContracts, hinsert, h⟩ := bind_ok_iff.mp h
    cases h
    have hchecks := guardRow_ok hguard
    simp only [Bool.and_eq_true, decide_eq_true_eq] at hchecks
    obtain ⟨hnone, rfl⟩ := insertInto_ok hinsert
    refine ⟨old, _, rfl, hold, hchecks.1, hchecks.2, hnone, ?_, AList.lookup_insert_update .., AList.lookup_insert_update ..⟩
    intro n other hother hhash
    have hhas : d.documentContracts.has (fun k contract => k.1 = record.documentType &&
        contract.contractHash = record.contractHash) = true :=
      AList.has_iff.mpr ⟨(record.documentType, n), other, hother, by simp [hhash]⟩
    have hfree := guardRow_ok hunique
    rw [hhas] at hfree
    cases hfree

/-! ## What requests may do -/

/-- The time of an append. -/
def appendTime (ports : Ports) (i : Nat) : Int := ports.clock i / 1000 * 1000

/-- What the call of a request may do. -/
def May (ports : Ports) (i : Nat) : Request → Entry → Prop
  | .create _ _ _ _, .created _ => True
  | .update _ documentType request _ expectedEtag _, .updated expectedEtag' base registration _ =>
    expectedEtag' = expectedEtag ∧ ∃ selection,
      registration = ports.register (request.apply selection documentType (ports.clock i) base.representation)
  | .append _ documentType request _ _, .appended base registration record _ =>
    (∃ idx, record = contractRecord ports documentType request (appendTime ports i) idx)
      ∧ registration = buildRegistration ports (appendTime ports i) base record
  | .elsewhere _, .elsewhere => True
  | _, _ => False

/-- The transitions of the tables, from empty ones, whatever calls fail or lose their answers. -/
def system (ports : Ports) : System Db PortalError Nat Entry Request where
  step e d d' := Transition ports e d.catalog d'.catalog
  start d := d.documentTypes = ∅ ∧ d.documentContracts = ∅
  may := May ports
  allowed := Machine.anyCall

variable {ports : Ports} {i : Nat} {q : Request}

abbrev Lawful (ports : Ports) (i : Nat) (q : Request) {α : Type} (p : AdminProg α) : Prop :=
  (system ports).Lawful .storage i q p

abbrev LawfulFrom (ports : Ports) (i : Nat) (q : Request) (P : Db → Prop) {α : Type} (p : AdminProg α) : Prop :=
  (system ports).LawfulFrom .storage i q P p

/-- The etags of the registrations that are stored. -/
theorem tagged_of_inv {s : Traced Db Nat Entry} (h : (system ports).Inv s) : s.db.catalog.Tagged ports := by
  obtain ⟨d, ⟨htypes, _⟩, hpath⟩ := h
  refine hpath.rule (P := fun d : Db => d.catalog.Tagged ports) (fun _ _ _ hs ht => ht.transition hs) ?_
  intro documentType row hrow
  simp only [Db.catalog, htypes] at hrow
  cases hrow

theorem lawful_authorize (k : Nat) (context : AdminContext) : Lawful ports i q (authorize ports i k context) :=
  .bind (.read _) fun _ => .evaluate _

theorem lawful_replay (k : Nat) (command : Command) (operation : Operation) :
    Lawful ports i q (replay ports i k command operation) := by
  refine .bind (lawful_authorize k _) fun _ => .bind (.read _) fun receipt => ?_
  cases receipt with
  | none => exact .pure _
  | some receipt => exact .bind (.evaluate _) fun _ => .pure _

theorem does_getRow (documentType : String) : Triple ((system ports).spec .storage i q) (fun _ => True)
    (getRow documentType : AdminProg (Option DocumentType))
    (fun row _ => ∀ r, row = some r → r.registration.etag = ports.resourceEtag r.registration.representation)
    (fun _ _ => True) :=
  System.read_rule (fun _ => Stable.const _) (Stable.const True)
    (fun _ hi _ r hr => tagged_of_inv hi documentType r hr) (fun _ _ _ => trivial)

theorem does_getRegistration (k : Nat) (context : AdminContext) (documentType : String) :
    Triple ((system ports).spec .storage i q) (fun _ => True) (getRegistration ports i k context documentType)
      (fun registration _ => ∀ r, registration = some r → r.etag = ports.resourceEtag r.representation) (fun _ _ => True) := by
  refine Triple.bind (lawful_authorize k context) fun _ => ?_
  refine Triple.bind (does_getRow documentType) fun row => ?_
  refine Triple.pure fun _ _ hrow r hr => ?_
  obtain ⟨row', hrow', rfl⟩ := Option.map_eq_some_iff.mp hr
  exact hrow row' hrow'

/-! ## Creation -/

theorem lawful_create (context : AdminContext) (internalName key requestId : String) :
    Lawful ports i (.create context internalName key requestId) (create ports i context internalName key requestId) := by
  refine .bind (.evaluate _) fun _ => ?_
  refine .bind (lawful_authorize _ _) fun _ => .bind (lawful_replay _ _ _) fun previous => ?_
  cases previous with
  | some previous => exact .pure _
  | none =>
    refine .tryCatch (.bind (.batch ?_) fun _ => .pure _) fun e => .bind (lawful_replay _ _ _) fun concurrent => ?_
    · intro d u e d' hf
      obtain ⟨d₁, ht, hnone, hcontract, htype⟩ := createBatch_ok hf
      cases ht
      exact ⟨⟨hnone, rfl, rfl, rfl, hcontract, _, htype⟩, trivial⟩
    · cases concurrent with
      | some concurrent => exact .pure _
      | none => exact .throw _

/-! ## Updates -/

theorem lawful_resolve {ρ : Type} (k : Nat) (context : AdminContext) (documentType : String)
    (table : Others → Table (String × String) ρ) (candidateId : Option String) :
    Lawful ports i q (resolve ports i k context documentType table candidateId) := by
  cases candidateId with
  | none => exact .pure _
  | some candidateId =>
    refine .bind (lawful_authorize _ _) fun _ => .bind (.read _) fun record => ?_
    cases record with
    | none => exact .throw _
    | some record => exact .pure _

theorem lawful_resolveOperator (k : Nat) (context : AdminContext) (documentType : String) (operatorId : Option (Option String)) :
    Lawful ports i q (resolveOperator ports i k context documentType operatorId) := by
  cases operatorId with
  | none => exact .pure _
  | some operatorId =>
    cases operatorId with
    | none => exact .pure _
    | some operatorId => exact .bind (lawful_resolve _ _ _ _ _) fun _ => .pure _

/-- A representation that is enabled can be used. -/
def EnabledUsable (documentType : String) (representation : Representation) (d : Db) : Prop :=
  representation.enabled = true → d.catalog.Usable documentType representation

theorem EnabledUsable.transition {documentType : String} {representation : Representation} :
    ∀ e d d', (system ports).step e d d' → EnabledUsable documentType representation d →
      EnabledUsable documentType representation d' :=
  fun _ _ _ hs hu henabled => (hu henabled).transition hs

theorem enabledParts_some {current representation : Representation} {parts : Option (ViewBundleRecord × OperatorRecord)}
    (h : enabledParts current representation = .ok parts) (henabled : representation.enabled = true) :
    ∃ card view operator, representation.typeCardBundle = some card ∧ representation.viewBundle = some view
      ∧ representation.builtinOperator = some operator ∧ parts = some (view, operator) := by
  unfold enabledParts at h
  rw [if_pos henabled] at h
  split at h
  · rename_i contract card view operator hcontract hcard hview hoperator
    cases h
    exact ⟨card, view, operator, hcard, hview, hoperator, rfl⟩
  · cases h

theorem does_checkEnabled {current representation : Representation} {parts : Option (ViewBundleRecord × OperatorRecord)}
    (hparts : enabledParts current representation = .ok parts) (k : Nat) (context : AdminContext) (documentType : String) :
    Triple ((system ports).spec .storage i q) (fun _ => True) (checkEnabled ports i k context documentType parts)
      (fun _ s => EnabledUsable documentType representation s.db) (fun _ _ => True) := by
  cases parts with
  | none =>
    refine Triple.pure fun s _ _ henabled => ?_
    obtain ⟨_, _, _, _, _, _, hnone⟩ := enabledParts_some hparts henabled
    cases hnone
  | some parts =>
    obtain ⟨view, operator⟩ := parts
    refine Triple.bind (lawful_authorize k context) fun _ => ?_
    refine Triple.bind (Q := fun contractIdxs s => hasCommonIdx documentType view operator contractIdxs = true →
      EnabledUsable documentType representation s.db) ?_ fun contractIdxs => ?_
    · refine System.read_rule (fun _ => Stable.imp fun _ => System.stable_db EnabledUsable.transition) (Stable.const True) ?_
        (fun _ _ _ => trivial)
      intro s _ _ hcommon henabled
      obtain ⟨card, _, _, hcard, hview, hoperator, heq⟩ := enabledParts_some hparts henabled
      cases heq
      obtain ⟨idx, hidx, hsupports⟩ := List.any_eq_true.mp hcommon
      simp only [Bool.and_eq_true, List.contains_eq_mem, decide_eq_true_eq] at hsupports
      obtain ⟨⟨⟨name, n⟩, contract⟩, hrow, hn⟩ := List.mem_map.mp hidx
      obtain ⟨hlookup, hname⟩ := AList.mem_rows.mp hrow
      obtain rfl : n = idx := hn
      obtain rfl : name = documentType := of_decide_eq_true hname
      exact ⟨card, view, operator, n, contract, hcard, hview, hoperator, hsupports.1, hsupports.2, hlookup⟩
    · refine (System.evaluate_rule fun _ _ _ _ _ => trivial).post fun _ s _ h => h.2 ?_
      have hok := h.1
      split at hok
      · rename_i hcommon
        exact hcommon
      · cases hok

theorem lawful_updateDocumentType {context : AdminContext} {documentType key expectedEtag requestId : String}
    {request : UpdateRequest} {base : Registration} (hbase : base.etag = ports.resourceEtag base.representation)
    (selection : Selection) (k : Nat) (command : Command) (audits : List (String × Audit)) :
    LawfulFrom ports i (.update context documentType request key expectedEtag requestId)
      (EnabledUsable documentType (request.apply selection documentType (ports.clock i) base.representation))
      (updateDocumentType ports i k command expectedEtag base
        (ports.register (request.apply selection documentType (ports.clock i) base.representation)) audits) := by
  refine .bind EnabledUsable.transition (lawful_authorize _ _) fun _ => ?_
  refine .bind EnabledUsable.transition (lawful_replay _ _ _) fun previous => ?_
  cases previous with
  | some previous => exact System.Lawful.weaken (.pure _)
  | none =>
    refine .tryCatch (.then (.batch ?_) fun _ => .pure _) fun e => .bind (lawful_replay _ _ _) fun concurrent => ?_
    · intro d u e d' husable hf
      obtain ⟨old, d₁, ht, hold, hetag, hcontract, htype⟩ := updateBatch_ok hf
      cases ht
      exact ⟨⟨hold, hetag, hbase, rfl, rfl, husable, hcontract, htype⟩, rfl, selection, rfl⟩
    · cases concurrent with
      | some concurrent => exact .pure _
      | none =>
        refine .bind ((does_getRegistration _ _ _).forget) fun current => ?_
        cases current with
        | none => exact .throw _
        | some current => exact .throw _

theorem lawful_update (context : AdminContext) (documentType : String) (request : UpdateRequest)
    (key expectedEtag requestId : String) : Lawful ports i (.update context documentType request key expectedEtag requestId)
      (update ports i context documentType request key expectedEtag requestId) := by
  refine .bind (.evaluate _) fun fingerprint => ?_
  refine Triple.bind (does_getRegistration 0 context documentType) fun current => ?_
  cases current with
  | none => exact Triple.throw fun _ _ _ => trivial
  | some current =>
    refine Triple.pre (P := fun _ => current.etag = ports.resourceEtag current.representation ∧ True) ?_
      fun _ _ h => ⟨h current rfl, trivial⟩
    refine Triple.of_pure fun hbase => ?_
    refine System.Lawful.bind (lawful_resolve _ _ _ _ _) fun typeCardBundle => ?_
    refine System.Lawful.bind (lawful_resolve _ _ _ _ _) fun viewBundle => ?_
    refine System.Lawful.bind (lawful_resolveOperator _ _ _ _) fun builtinOperator => ?_
    refine System.Lawful.evaluate_bind fun parts hparts => ?_
    refine Triple.bind (does_checkEnabled hparts 4 context documentType) fun _ => ?_
    exact lawful_updateDocumentType hbase ⟨typeCardBundle, viewBundle, builtinOperator⟩ 5 _ _

/-! ## Contracts -/

theorem lawful_afterAttempt (k : Nat) (command : Command) (documentType contractHash : String) (row : DocumentType)
    (e : PortalError) : Lawful ports i q (afterAttempt ports i k command documentType contractHash row e) := by
  refine .bind (lawful_replay _ _ _) fun concurrent => ?_
  cases concurrent with
  | some concurrent => exact .pure _
  | none =>
    refine .bind (.read _) fun duplicate => .bind (.evaluate _) fun _ => .bind (.read _) fun latest => ?_
    cases latest with
    | none => exact .throw _
    | some latest => exact .evaluate _

theorem lawful_appendAttempts {context : AdminContext} {documentType key requestId : String} {request : AppendRequest}
    (command : Command) (htime : command.occurredAt = appendTime ports i) (remaining : Nat) :
    Lawful ports i (.append context documentType request key requestId)
      (appendAttempts ports i command documentType request remaining) := by
  induction remaining with
  | zero => exact .throw _
  | succ remaining ih =>
    refine Triple.bind (does_getRow documentType) fun row => ?_
    cases row with
    | none => exact Triple.throw fun _ _ _ => trivial
    | some row =>
      refine Triple.pre (P := fun _ => row.registration.etag = ports.resourceEtag row.registration.representation ∧ True) ?_
        fun _ _ h => ⟨h row rfl, trivial⟩
      refine Triple.of_pure fun hbase => ?_
      refine System.Lawful.bind (.tryCatch (.bind (.batch ?_) fun _ => .pure _) fun e => lawful_afterAttempt _ _ _ _ _ _)
        fun outcome => ?_
      · intro d u e d' hf
        obtain ⟨old, d₁, ht, hold, hlast, hetag, hnone, hhash, hcontract, htype⟩ := appendBatch_ok hf
        cases ht
        refine ⟨⟨hold, hetag, hbase, ?_, ⟨_, rfl⟩, hnone, hhash, ⟨_, hcontract⟩, htype⟩, ⟨row.lastContractIdx + 1, ?_⟩, ?_⟩
        · rw [hlast]
          rfl
        · rw [htime]
        · rw [htime]
      · cases outcome with
        | some outcome => exact .pure _
        | none => exact ih

theorem lawful_append (context : AdminContext) (documentType : String) (request : AppendRequest) (key requestId : String) :
    Lawful ports i (.append context documentType request key requestId)
      (append ports i context documentType request key requestId) := by
  refine .bind (.evaluate _) fun _ => ?_
  refine .bind (lawful_authorize _ _) fun _ => .bind (lawful_replay _ _ _) fun previous => ?_
  cases previous with
  | some previous => exact .pure _
  | none => exact lawful_appendAttempts _ rfl 16

theorem serves (ports : Ports) : Serves (system ports) .storage (serve ports) (fun _ _ _ _ => True) := by
  intro i q
  cases q with
  | create context internalName key requestId =>
    exact ((lawful_create context internalName key requestId).bind fun _ => .pure _).pre fun _ _ _ => trivial
  | update context documentType request key expectedEtag requestId =>
    exact ((lawful_update context documentType request key expectedEtag requestId).bind fun _ => .pure _).pre fun _ _ _ => trivial
  | append context documentType request key requestId =>
    exact ((lawful_append context documentType request key requestId).bind fun _ => .pure _).pre fun _ _ _ => trivial
  | elsewhere others =>
    refine Triple.pre (P := fun _ => True) (System.Lawful.bind (.batch ?_) fun _ => .pure _) fun _ _ _ => trivial
    rintro d u e d' ⟨⟩
    exact ⟨rfl, trivial⟩

end UniDocs.DocumentTypes
