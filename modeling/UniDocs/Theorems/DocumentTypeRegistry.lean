import UniDocs.Lemmas.DocumentPrograms

/-!
# The registry of document types

Over any interleaving of the reads and batches of updates and appends, the registry is consistent in every run in which each
update that commits was computed from a registration with the etag that its request expects. The service does not compare the
two, as its siblings do: it reads the registration, computes the new one from it, and the batch compares the etag of the request
with the one that is stored then (`document_types_consistent_false`).
-/

namespace UniDocs.DocumentTypes

open Lib Lib.Trace
open UniDocs.Administrators (AdminContext)

/-- The laws of the registry, as of a point of a run. -/
structure RegistryConsistency (ports : Ports) (p : PortalPool) : Prop where
  /-- The contracts of a type are numbered from 0 to the last index. -/
  indexes : ∀ documentType row, p.state.db.documentTypes.lookup documentType = some row → ∀ n,
    (documentType, n) ∈ p.state.db.documentContracts ↔ 0 ≤ n ∧ n ≤ row.lastContractIdx
  /-- No two contracts of a type have the same hash. -/
  hashes : ∀ documentType m n a b, p.state.db.documentContracts.lookup (documentType, m) = some a →
    p.state.db.documentContracts.lookup (documentType, n) = some b → a.contractHash = b.contractHash → m = n
  /-- The latest contract of a registration is the record at the last index, where there is one. -/
  latest : ∀ documentType row, p.state.db.documentTypes.lookup documentType = some row →
    row.registration.representation.latestDocumentContract =
      (p.state.db.documentContracts.lookup (documentType, row.lastContractIdx)).map (·.record)
  /-- The etag of a registration is that of its other fields. -/
  etag : ∀ documentType row, p.state.db.documentTypes.lookup documentType = some row →
    row.registration.etag = ports.resourceEtag row.registration.representation
  /-- An enabled type has a type card, a view bundle and an operator, which support a contract that exists. -/
  enabled : ∀ documentType row, p.state.db.documentTypes.lookup documentType = some row →
    row.enabled = true ∨ row.registration.representation.enabled = true → ∃ card view operator idx,
      row.registration.representation.typeCardBundle = some card ∧ row.registration.representation.viewBundle = some view
        ∧ row.registration.representation.builtinOperator = some operator ∧ idx ∈ view.supportedDocumentContractIdxs
        ∧ idx ∈ operator.contractIdxs documentType ∧ (documentType, idx) ∈ p.state.db.documentContracts
  /-- A row changes only by an update or an append of its type, which is applied to the registration it replaces. -/
  computed : ∀ i q x documentType row row', p.Made i q x → x.1.db.documentTypes.lookup documentType = some row →
    x.2.db.documentTypes.lookup documentType = some row' → row' = row
    ∨ (∃ context request key expectedEtag requestId selection,
      q = .update context documentType request key expectedEtag requestId ∧ row'.registration.representation =
        request.apply selection documentType (ports.clock i) row.registration.representation)
    ∨ ∃ context request key requestId record, q = .append context documentType request key requestId
      ∧ record = contractRecord ports documentType request (appendTime ports i) (row.lastContractIdx + 1)
      ∧ row'.registration.representation = { row.registration.representation with
        latestDocumentContract := some record, updatedAt := appendTime ports i }

/-- The digests of the registration that was read and of the one that is replaced tell them apart. -/
def Entry.NoCollision (ports : Ports) : Entry → Prop
  | .updated _ base _ old | .appended base _ _ old =>
    ports.resourceEtag base.representation = ports.resourceEtag old.registration.representation →
      base.representation = old.registration.representation
  | _ => True

instance (ports : Ports) (e : Entry) : Decidable (e.NoCollision ports) :=
  match e with
  | .created _ => inferInstanceAs (Decidable True)
  | .updated _ _ _ _ => inferInstanceAs (Decidable (_ → _))
  | .appended _ _ _ _ => inferInstanceAs (Decidable (_ → _))
  | .elsewhere => inferInstanceAs (Decidable True)

/-- An update was computed from a registration with the etag that its request expects. -/
def Entry.Expected : Entry → Prop
  | .updated expectedEtag base _ _ => base.etag = expectedEtag
  | _ => True

instance (e : Entry) : Decidable e.Expected :=
  match e with
  | .created _ => inferInstanceAs (Decidable True)
  | .updated expectedEtag base _ _ => inferInstanceAs (Decidable (base.etag = expectedEtag))
  | .appended _ _ _ _ => inferInstanceAs (Decidable True)
  | .elsewhere => inferInstanceAs (Decidable True)

/-- The tables before the first type is created. -/
def Db.initial (others : Others) : Db := ⟨∅, ∅, others⟩

/-! ## The laws -/

section Laws

variable {ports : Ports} {others : Others} {p : PortalPool} {e : Entry} {c c' : Catalog}

/-- An update or append that compares etags is fresh where the digests do not collide. -/
theorem fresh_of_transition (h : Transition ports e c c') (hc : c.Consistent ports) (hhash : e.NoCollision ports)
    (hexpected : e.Expected) : e.Fresh := by
  cases e with
  | created registration => trivial
  | updated expectedEtag base registration old =>
    obtain ⟨hold, hetag, hbase, _⟩ := h
    refine hhash ?_
    calc ports.resourceEtag base.representation = base.etag := hbase.symm
      _ = expectedEtag := hexpected
      _ = old.registration.etag := hetag.symm
      _ = _ := hc.etag _ old hold
  | appended base registration record old =>
    obtain ⟨hold, hetag, hbase, _⟩ := h
    refine hhash ?_
    calc ports.resourceEtag base.representation = base.etag := hbase.symm
      _ = old.registration.etag := hetag.symm
      _ = _ := hc.etag _ old hold
  | elsewhere => trivial

theorem consistent_of_inv {s : Traced Db Nat Entry} (h : (system ports).Inv s)
    (htrace : ∀ i e, (i, e) ∈ s.trace → e.NoCollision ports ∧ e.Expected) : s.db.catalog.Consistent ports := by
  obtain ⟨d, ⟨htypes, hcontracts⟩, hpath⟩ := h
  refine hpath.rule_of (P := fun d : Db => d.catalog.Consistent ports)
    (C := fun e => e.NoCollision ports ∧ e.Expected) ?_ htrace ?_
  · intro e d d' he hs hc
    exact hc.transition (fresh_of_transition hs hc he.1 he.2) hs
  · have hnone : ∀ documentType, d.catalog.type documentType = none := by
      intro documentType
      simp only [Db.catalog, htypes]
      rfl
    have hnone' : ∀ k, d.catalog.contract k = none := by
      intro k
      simp only [Db.catalog, hcontracts]
      rfl
    constructor <;> simp [hnone, hnone']

theorem computed_of_made (h : (portal ports).Reach Machine.anyCall (DbPool.initial (Db.initial others)) p)
    (htrace : ∀ i e, (i, e) ∈ p.state.trace → e.NoCollision ports ∧ e.Expected) {i : Nat} {q : Request}
    {x : Traced Db Nat Entry × Traced Db Nat Entry} {documentType : String} {row row' : DocumentType} (hx : p.Made i q x)
    (hrow : x.1.db.catalog.type documentType = some row) (hrow' : x.2.db.catalog.type documentType = some row') : row' = row
    ∨ (∃ context request key expectedEtag requestId selection,
      q = .update context documentType request key expectedEtag requestId ∧ row'.registration.representation =
        request.apply selection documentType (ports.clock i) row.registration.representation)
    ∨ ∃ context request key requestId record, q = .append context documentType request key requestId
      ∧ record = contractRecord ports documentType request (appendTime ports i) (row.lastContractIdx + 1)
      ∧ row'.registration.representation = { row.registration.representation with
        latestDocumentContract := some record, updatedAt := appendTime ports i } := by
  rcases effect_of_made (serves ports) ⟨rfl, rfl⟩ h hx with heq | ⟨e, hstep, hmay, hinv, hmem, htrace'⟩
  · rw [heq] at hrow'
    exact .inl (Option.some.inj (hrow'.symm.trans hrow))
  · have hc := consistent_of_inv hinv fun j e' hm => htrace j e' (htrace' _ hm)
    have hfresh := fresh_of_transition hstep hc (htrace i e hmem).1 (htrace i e hmem).2
    cases e with
    | created registration =>
      obtain ⟨hnone, _, _, _, _, _, htype⟩ := hstep
      rw [htype] at hrow'
      rcases update_cases hrow' with ⟨rfl, _⟩ | ⟨_, hrow'⟩
      · rw [hrow] at hnone
        cases hnone
      · exact .inl (Option.some.inj (hrow'.symm.trans hrow))
    | updated expectedEtag base registration old =>
      obtain ⟨hold, _, _, _, _, _, _, htype⟩ := hstep
      rw [htype] at hrow'
      rcases update_cases hrow' with ⟨rfl, rfl⟩ | ⟨_, hrow'⟩
      · cases hrow.symm.trans hold
        cases q with
        | update context documentType request key expectedEtag' requestId =>
          obtain ⟨rfl, selection, rfl⟩ := hmay
          refine .inr (.inl ⟨context, request, key, expectedEtag, requestId, selection, rfl, ?_⟩)
          rw [← hfresh]
          rfl
        | _ => exact absurd hmay id
      · exact .inl (Option.some.inj (hrow'.symm.trans hrow))
    | appended base registration record old =>
      obtain ⟨hold, _, _, hidx, _, _, _, _, htype⟩ := hstep
      rw [htype] at hrow'
      rcases update_cases hrow' with ⟨rfl, rfl⟩ | ⟨_, hrow'⟩
      · cases hrow.symm.trans hold
        cases q with
        | append context documentType request key requestId =>
          obtain ⟨⟨idx, rfl⟩, rfl⟩ := hmay
          obtain rfl : idx = row.lastContractIdx + 1 := hidx
          refine .inr (.inr ⟨context, request, key, requestId, _, rfl, rfl, ?_⟩)
          rw [← hfresh]
          rfl
        | _ => exact absurd hmay id
      · exact .inl (Option.some.inj (hrow'.symm.trans hrow))
    | elsewhere =>
      rw [show x.2.db.catalog = x.1.db.catalog from hstep] at hrow'
      exact .inl (Option.some.inj (hrow'.symm.trans hrow))

end Laws

/-- The registry is consistent at every point of every interleaving in which each update that commits was computed from a
registration with the etag that its request expects. -/
theorem document_types_consistent (ports : Ports) (others : Others) (p : PortalPool)
    (h : (portal ports).Reach Machine.anyCall (DbPool.initial (Db.initial others)) p)
    (hhash : ∀ i e, (i, e) ∈ p.state.trace → e.NoCollision ports) (hexpected : ∀ i e, (i, e) ∈ p.state.trace → e.Expected) :
    RegistryConsistency ports p := by
  have htrace : ∀ i e, (i, e) ∈ p.state.trace → e.NoCollision ports ∧ e.Expected := fun i e hm => ⟨hhash i e hm, hexpected i e hm⟩
  have hc := consistent_of_inv (inv_of_reach (serves ports) ⟨rfl, rfl⟩ h) htrace
  constructor
  case indexes =>
    intro documentType row hrow n
    rw [AList.mem_iff_lookup]
    exact hc.indexes documentType row hrow n
  case hashes => exact hc.hashes
  case latest => exact hc.latest
  case etag => exact hc.etag
  case enabled =>
    intro documentType row hrow henabled
    have hregistered : row.registration.representation.enabled = true := by
      rcases henabled with henabled | henabled
      · rw [← (hc.columns documentType row hrow).2]
        exact henabled
      · exact henabled
    obtain ⟨card, view, operator, idx, contract, hcard, hview, hoperator, hidx, hidx', hcontract⟩ :=
      hc.enabled documentType row hrow hregistered
    exact ⟨card, view, operator, idx, hcard, hview, hoperator, hidx, hidx', AList.mem_of_lookup hcontract⟩
  case computed => exact fun i q x documentType row row' hx hrow hrow' => computed_of_made h htrace hx hrow hrow'

section Sample

/-- A digest of the name and of the number of contracts, in the form of an etag. -/
def sampleEtag (name : String) (contracts : Nat) : String :=
  let text := name.toList ++ List.replicate contracts 'x'
  String.ofList ("\"sha256-".toList ++ text ++ List.replicate (43 - text.length) '_' ++ ['"'])

/-- Ports whose clocks stand still. -/
def samplePorts : Ports where
  now _ _ := 5
  clock _ := 5000
  id i k := String.ofList (List.replicate i 'a' ++ 'b' :: List.replicate k 'c')
  schemaHash
    | .createRequest name => name
    | .updateRequest _ etag _ => etag
    | .appendRequest _ body => body.reason
    | .schema text => text
    | .contract _ _ snapshot location => snapshot ++ location
  resourceEtag r := sampleEtag r.internalName (match r.latestDocumentContract with
    | none => 0
    | some record => record.documentContractIdx.toNat + 1)

def sampleContext : AdminContext := ⟨"ann", ⟨"google", "ann", "ann@x.y", none, none, none⟩, .bearer, none, (none, none, none)⟩

/-- Ann is an administrator. -/
def sampleOthers : Others :=
  ⟨{ Administrators.Db.empty with
      administrators := (∅ : Table String Administrators.Administrator).insert "ann"
        ⟨"ann@x.y", some ("google", "ann"), true, 0, "bootstrap", 0, 0⟩ }, ∅, ∅, ∅, ∅, ∅⟩

/-- A type is created; while its first contract is appended, an update is asked for the registration with that contract. -/
def sampleRequests (expectedEtag : String) : List (Label Nat Request Empty) :=
  [.start 0 (.create sampleContext "a" "k0" "r0"), .run 0 .none, .run 0 .none, .run 0 .none, .run 0 .none,
    .start 1 (.append sampleContext "dt-b" ⟨1, "s", "l", "first"⟩ "k1" "r1"),
    .start 2 (.update sampleContext "dt-b" ⟨some "c", none, none, none, none, none⟩ "k2" expectedEtag "r2")]

/-- The update reads the registration, the contract is appended, and the update commits. -/
def staleRun : List (Label Nat Request Empty) :=
  sampleRequests (sampleEtag "a" 1) ++
    [.run 2 .none, .run 2 .none, .run 1 .none, .run 1 .none, .run 1 .none, .run 1 .none, .run 1 .none,
      .run 2 .none, .run 2 .none, .run 2 .none, .run 2 .none]

/-- The contract is appended, and then the update reads and commits. -/
def currentRun : List (Label Nat Request Empty) :=
  sampleRequests (sampleEtag "a" 1) ++
    [.run 1 .none, .run 1 .none, .run 1 .none, .run 1 .none, .run 1 .none, .run 2 .none, .run 2 .none, .run 2 .none,
      .run 2 .none, .run 2 .none, .run 2 .none]

/-- An update that finds the registration with the contract keeps it. -/
theorem document_types_consistent_current : ∃ p,
    (portal samplePorts).exec? currentRun (DbPool.initial (Db.initial sampleOthers)) = some p
      ∧ p.result 2 = some (.ok (some (.type "dt-b" (sampleEtag "c" 1)))) ∧ RegistryConsistency samplePorts p := by
  have hrun : ((portal samplePorts).exec? currentRun (DbPool.initial (Db.initial sampleOthers))).any (fun p =>
      decide (p.result 2 = some (.ok (some (.type "dt-b" (sampleEtag "c" 1)))))
      && p.state.trace.all (fun x => decide (x.2.NoCollision samplePorts) && decide x.2.Expected)) = true := by
    with_unfolding_all decide
  obtain ⟨p, hp, hchecks⟩ := Option.any_eq_true .. |>.mp hrun
  simp only [Bool.and_eq_true, decide_eq_true_eq, List.all_eq_true] at hchecks
  exact ⟨p, hp, hchecks.1, document_types_consistent samplePorts sampleOthers p (Machine.reach_of_exec? _ .init hp)
    (fun i e hm => (hchecks.2 (i, e) hm).1) (fun i e hm => (hchecks.2 (i, e) hm).2)⟩

/-- An update that has read the registration before the contract was appended writes the old latest contract back, although
its request expects the registration with the new one and no digests collide. -/
theorem document_types_consistent_false : ∃ p,
    (portal samplePorts).Reach Machine.anyCall (DbPool.initial (Db.initial sampleOthers)) p
      ∧ (∀ i e, (i, e) ∈ p.state.trace → e.NoCollision samplePorts) ∧ ¬ RegistryConsistency samplePorts p := by
  have hrun : ((portal samplePorts).exec? staleRun (DbPool.initial (Db.initial sampleOthers))).any (fun p =>
      (p.state.db.documentTypes.lookup "dt-b").any (fun row =>
        decide (row.registration.representation.latestDocumentContract = none)
        && decide ((p.state.db.documentContracts.lookup ("dt-b", row.lastContractIdx)).isSome))
      && p.state.trace.all (fun x => decide (x.2.NoCollision samplePorts))) = true := by
    with_unfolding_all decide
  obtain ⟨p, hp, hchecks⟩ := Option.any_eq_true .. |>.mp hrun
  simp only [Bool.and_eq_true, decide_eq_true_eq, List.all_eq_true] at hchecks
  obtain ⟨row, hrow, hstate⟩ := Option.any_eq_true .. |>.mp hchecks.1
  simp only [Bool.and_eq_true, decide_eq_true_eq] at hstate
  refine ⟨p, Machine.reach_of_exec? _ .init hp, fun i e hm => hchecks.2 (i, e) hm, fun hconsistent => ?_⟩
  have hlatest := hconsistent.latest "dt-b" row hrow
  rw [hstate.1] at hlatest
  obtain ⟨contract, hcontract⟩ := Option.isSome_iff_exists.mp hstate.2
  rw [hcontract] at hlatest
  cases hlatest

end Sample

end UniDocs.DocumentTypes
