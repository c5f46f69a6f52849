import UniDocs.Lib.Bytes
import UniDocs.Retention.SnapshotRetention

/-!
# Retained snapshots

In every run, each version counts at most one reference to its snapshot, is recorded as retained only once the reference is
applied, and is due for the sweep after the grace period while it is recorded as neither. That it is never recorded as both, and
never as lost when its reference is applied, holds exactly as long as no worker has a version retained between the 404 of another
worker and its bookkeeping, or after it: the guard of `record` looks at `snapshot_retained_at` alone
(`snapshots_kept_false`).
-/

namespace UniDocs.Retention

open Lib

/-! ## The laws -/

/-- The versions that count a reference to a blob. -/
def State.references (s : State) (tenantId hash : String) (k : VersionKey) (row : VersionRow) : Bool :=
  k.tenantId == tenantId && row.snapshotBlobHash == hash && s.applied k

structure SnapshotsKept (s : State) : Prop where
  /-- Each version whose reference is applied counts once, and nothing else counts. -/
  once : ∀ tenantId hash, (s.rootRefs tenantId hash : Int) = s.versions.count (s.references tenantId hash)
  /-- A version is recorded as retained only if its reference is applied. -/
  retained : ∀ k row, s.versions.lookup k = some row → row.snapshotRetainedAt.isSome = true → s.applied k = true
  /-- No version is recorded both as retained and as lost. -/
  exclusive : ∀ k row, s.versions.lookup k = some row → row.snapshotRetainedAt = none ∨ row.snapshotLostAt = none
  /-- A version recorded as neither is selected once the grace period has passed. -/
  due : ∀ k row (graceSeconds : Nat), s.versions.lookup k = some row → row.snapshotRetainedAt = none → row.snapshotLostAt = none →
    row.waitsSince + graceSeconds ≤ s.now → (k, row) ∈ dueRows s.versions (s.now - graceSeconds)
  /-- No version whose reference is applied is recorded as lost. -/
  kept : ∀ k row, s.versions.lookup k = some row → s.applied k = true → row.snapshotLostAt = none

/-! ## Request identifiers -/

theorem toList_versionText (start documentId : String) (versionIdx : Nat) :
    (start ++ documentId ++ ":" ++ toString versionIdx).toList =
      start.toList ++ (documentId.toList ++ ':' :: Nat.toDigits 10 versionIdx) := by
  have hcolon : ":".toList = [':'] := rfl
  simp only [String.toList_append, Nat.toString_eq_repr, Nat.toList_repr, hcolon, List.append_assoc, List.singleton_append]

/-- The version is what follows the last colon. -/
theorem versionText_injective {start documentId documentId' : String} {versionIdx versionIdx' : Nat}
    (h : start ++ documentId ++ ":" ++ toString versionIdx = start ++ documentId' ++ ":" ++ toString versionIdx') :
    documentId = documentId' ∧ versionIdx = versionIdx' := by
  have hlist := congrArg String.toList h
  rw [toList_versionText, toList_versionText] at hlist
  have hreverse := congrArg List.reverse (List.append_cancel_left hlist)
  simp only [List.reverse_append, List.reverse_cons, List.append_assoc, List.singleton_append] at hreverse
  have hcolon : ∀ n, ':' ∉ (Nat.toDigits 10 n).reverse := by
    intro n hm
    exact absurd (mem_toDigits_isDigit (List.mem_reverse.mp hm)) (by decide)
  obtain ⟨hidx, hdocument⟩ := split_inj (hcolon _) (hcolon _) hreverse
  exact ⟨String.toList_inj.mp (List.reverse_injective hdocument), toDigits_injective (List.reverse_injective hidx)⟩

theorem requestId_injective {k k' : VersionKey} (htenant : k.tenantId = k'.tenantId) (h : k.requestId = k'.requestId) : k = k' := by
  obtain ⟨hdocument, hidx⟩ := versionText_injective h
  cases k
  cases k'
  simp_all

/-! ## The invariant -/

/-- The rows that a worker has selected and not yet recorded. -/
def Worker.rows : Worker → List Selected
  | .retaining row rest _ _ => row :: rest
  | .recording row _ rest _ _ => row :: rest
  | .ended _ _ => []

/-- What holds of every run. -/
structure Sound (s : State) : Prop where
  request : ∀ tenantId id hash, (s.casOf tenantId).requests.lookup id = some hash →
    ∃ k row, s.versions.lookup k = some row ∧ k.tenantId = tenantId ∧ k.requestId = id ∧ row.snapshotBlobHash = hash
  refs : ∀ tenantId hash, (s.rootRefs tenantId hash : Int) = s.versions.count (s.references tenantId hash)
  retained : ∀ k row, s.versions.lookup k = some row → row.snapshotRetainedAt.isSome = true → s.applied k = true
  selected : ∀ i w, s.workers.lookup i = some w → ∀ r ∈ w.rows, ∃ row, s.versions.lookup r.key = some row ∧ row.snapshotBlobHash = r.hash
  accepted : ∀ i r rest retained failed, s.workers.lookup i = some (.recording r .snapshotRetainedAt rest retained failed) →
    s.applied r.key = true

/-- What the condition adds. -/
def Kept (s : State) : Prop := ∀ k row, s.versions.lookup k = some row → s.applied k = true → row.snapshotLostAt = none

theorem mem_dueRows {versions : Table VersionKey VersionRow} {before : Int} {k : VersionKey} {row : VersionRow} :
    (k, row) ∈ dueRows versions before ↔ versions.lookup k = some row ∧ row.isOpen = true ∧ row.waitsSince ≤ before := by
  simp [dueRows, AList.mem_rows, List.mem_mergeSort]

theorem Sound.snapshotsKept {s : State} (h : Sound s) (hk : Kept s) : SnapshotsKept s where
  once := h.refs
  retained := h.retained
  exclusive k row hrow := by
    rcases hret : row.snapshotRetainedAt with - | t
    · exact .inl rfl
    · exact .inr (hk k row hrow (h.retained k row hrow (by rw [hret]; rfl)))
  due k row graceSeconds hrow hret hlost hwait :=
    mem_dueRows.mpr ⟨hrow, by simp [VersionRow.isOpen, hret, hlost], by omega⟩
  kept := hk

section Steps

variable {s : State} {i : Nat} {tenantId hash : String}

theorem casOf_setCas (c : Cas) (t : String) : (s.setCas tenantId c).casOf t = if t = tenantId then c else s.casOf t := by
  rw [State.casOf, State.setCas, AList.lookup_insert_eq]
  split <;> rfl

theorem Sound.start (now : Int) : Sound (.start now) where
  request _ _ _ h := by simp [State.start, State.casOf] at h
  refs _ _ := rfl
  retained _ _ h := by simp [State.start] at h
  selected _ _ h := by simp [State.start] at h
  accepted _ _ _ _ _ h := by simp [State.start] at h

theorem Sound.setWorker {w : Worker} (h : Sound s)
    (hrows : ∀ r ∈ w.rows, ∃ row, s.versions.lookup r.key = some row ∧ row.snapshotBlobHash = r.hash)
    (haccepted : ∀ r rest retained failed, w = .recording r .snapshotRetainedAt rest retained failed → s.applied r.key = true) :
    Sound (s.setWorker i w) where
  request := h.request
  refs := h.refs
  retained := h.retained
  selected j x hx := by
    rw [State.setWorker, AList.lookup_insert_eq] at hx
    split at hx
    · cases hx
      exact hrows
    · exact h.selected j x hx
  accepted j r rest retained failed hx := by
    rw [State.setWorker, AList.lookup_insert_eq] at hx
    split at hx
    · exact haccepted r rest retained failed (Option.some.inj hx)
    · exact h.accepted j r rest retained failed hx

theorem Sound.next {rows : List Selected} {retained failed : Nat} (h : Sound s)
    (hrows : ∀ r ∈ rows, ∃ row, s.versions.lookup r.key = some row ∧ row.snapshotBlobHash = r.hash) :
    Sound (s.setWorker i (.next retained failed rows)) := by
  cases rows with
  | nil => exact h.setWorker (fun _ hr => absurd hr List.not_mem_nil) (by rintro _ _ _ _ ⟨⟩)
  | cons row rest => exact h.setWorker hrows (by rintro _ _ _ _ ⟨⟩)

/-- Blobs change while their references and the requests stay. -/
theorem Sound.setCas {c : Cas} (h : Sound s) (hrequests : c.requests = (s.casOf tenantId).requests)
    (hrefs : ∀ hash, ((c.blobs.lookup hash).map (·.rootRefs)).getD 0 = s.rootRefs tenantId hash) :
    Sound (s.setCas tenantId c) ∧ ∀ k, (s.setCas tenantId c).applied k = s.applied k := by
  have hreq : ∀ t, ((s.setCas tenantId c).casOf t).requests = (s.casOf t).requests := by
    intro t
    rw [casOf_setCas]
    split
    · rename_i heq
      rw [heq, hrequests]
    · rfl
  have happlied : ∀ k, (s.setCas tenantId c).applied k = s.applied k := by
    intro k
    rw [State.applied, hreq, State.applied]
  refine ⟨⟨fun t id hash hl => h.request t id hash (hreq t ▸ hl), fun t hash => ?_, fun k row hrow hret => ?_, h.selected,
    fun j r rest retained failed hx => ?_⟩, happlied⟩
  · have hrefs' : (s.setCas tenantId c).rootRefs t hash = s.rootRefs t hash := by
      rw [State.rootRefs, casOf_setCas]
      split
      · rename_i heq
        rw [heq]
        exact hrefs hash
      · rfl
    have hpred : (s.setCas tenantId c).references t hash = s.references t hash := by
      funext k row
      rw [State.references, happlied, State.references]
    rw [hrefs', hpred]
    exact h.refs t hash
  · rw [happlied]
    exact h.retained k row hrow hret
  · rw [happlied]
    exact h.accepted j r rest retained failed hx

theorem Sound.applied_new {k : VersionKey} (h : Sound s) (hnew : s.versions.lookup k = none) : s.applied k = false := by
  rw [State.applied]
  cases hl : (s.casOf k.tenantId).requests.lookup k.requestId with
  | none => rfl
  | some hash =>
    obtain ⟨k', row, hrow, htenant, hid, -⟩ := h.request _ _ _ hl
    rw [requestId_injective htenant hid, hnew] at hrow
    cases hrow

/-- A row is written anew: that of a new version, or one that keeps its hash. -/
theorem Sound.setRow {k : VersionKey} {row : VersionRow} (h : Sound s)
    (hrow : (s.versions.lookup k = none) ∨ ∃ old, s.versions.lookup k = some old ∧ old.snapshotBlobHash = row.snapshotBlobHash)
    (hret : row.snapshotRetainedAt.isSome = true → s.applied k = true) :
    Sound { s with versions := s.versions.insert k row } := by
  have hkeeps : ∀ k' old, s.versions.lookup k' = some old →
      ∃ new, (s.versions.insert k row).lookup k' = some new ∧ new.snapshotBlobHash = old.snapshotBlobHash := by
    intro k' old hold
    rw [AList.lookup_insert_eq]
    split
    · rename_i heq
      subst heq
      rcases hrow with hnone | ⟨old', hold', hhash⟩
      · rw [hnone] at hold
        cases hold
      · rw [hold'] at hold
        cases hold
        exact ⟨row, rfl, hhash.symm⟩
    · exact ⟨old, hold, rfl⟩
  refine ⟨fun t id hash hl => ?_, fun t hash => ?_, fun k' new hnew hsome => ?_, fun j w hw r hr => ?_, h.accepted⟩
  · obtain ⟨k', old, hold, htenant, hid, hhash⟩ := h.request t id hash hl
    obtain ⟨new, hnew, hsame⟩ := hkeeps k' old hold
    exact ⟨k', new, hnew, htenant, hid, hsame.trans hhash⟩
  · show (s.rootRefs t hash : Int) = (s.versions.insert k row).count (s.references t hash)
    have hpart : (if s.references t hash k row then (1 : Int) else 0) =
        s.versions.part (fun k row => if s.references t hash k row then 1 else 0) k := by
      rcases hrow with hnone | ⟨old, hold, hhash⟩
      · rw [AList.part_of_none hnone, State.references, h.applied_new hnone, Bool.and_false]
        rfl
      · rw [AList.part_of_lookup hold, State.references, State.references, hhash]
    rw [h.refs, AList.count, AList.count, AList.total_insert, hpart]
    omega
  · replace hnew : (s.versions.insert k row).lookup k' = some new := hnew
    rw [AList.lookup_insert_eq] at hnew
    split at hnew
    · rename_i heq
      subst heq
      cases hnew
      exact hret hsome
    · exact h.retained k' new hnew hsome
  · obtain ⟨old, hold, hhash⟩ := h.selected j w hw r hr
    obtain ⟨new, hnew, hsame⟩ := hkeeps r.key old hold
    exact ⟨new, hnew, hsame.trans hhash⟩

/-- The reference of a version is applied for the first time. -/
theorem Sound.apply {r : Selected} {row : VersionRow} {blob : CasBlob} (h : Sound s) (hrow : s.versions.lookup r.key = some row)
    (hhash : row.snapshotBlobHash = r.hash) (hnew : (s.casOf r.key.tenantId).requests.lookup r.key.requestId = none)
    (hblob : (s.casOf r.key.tenantId).blobs.lookup r.hash = some blob) :
    let c := s.casOf r.key.tenantId
    let s' := s.setCas r.key.tenantId
      ⟨c.blobs.insert r.hash { blob with rootRefs := blob.rootRefs + 1 }, c.requests.insert r.key.requestId r.hash⟩
    Sound s' ∧ ∀ k, s'.applied k = (decide (k = r.key) || s.applied k) := by
  intro c s'
  have happlied : ∀ k, s'.applied k = (decide (k = r.key) || s.applied k) := by
    intro k
    rw [State.applied, State.applied, casOf_setCas]
    by_cases htenant : k.tenantId = r.key.tenantId
    · rw [if_pos htenant, AList.lookup_insert_eq]
      by_cases hid : k.requestId = r.key.requestId
      · rw [if_pos hid, decide_eq_true (requestId_injective htenant hid)]
        rfl
      · have hne : k ≠ r.key := fun heq => hid (heq ▸ rfl)
        rw [if_neg hid, decide_eq_false hne, Bool.false_or, htenant]
    · have hne : k ≠ r.key := fun heq => htenant (heq ▸ rfl)
      rw [if_neg htenant, decide_eq_false hne, Bool.false_or]
  have hunapplied : s.applied r.key = false := by rw [State.applied, hnew]; rfl
  have hgrows : ∀ k, s.applied k = true → s'.applied k = true := by
    intro k hk
    rw [happlied, hk, Bool.or_true]
  refine ⟨⟨fun t id hash hl => ?_, fun t hash => ?_, fun k new hk hret => hgrows k (h.retained k new hk hret), h.selected,
    fun j r' rest retained failed hw => hgrows _ (h.accepted j r' rest retained failed hw)⟩, happlied⟩
  · rw [casOf_setCas] at hl
    split at hl
    · rename_i htenant
      rw [AList.lookup_insert_eq] at hl
      split at hl
      · rename_i hid
        cases hl
        exact ⟨r.key, row, hrow, htenant.symm, hid.symm, hhash⟩
      · exact h.request t id hash (htenant ▸ hl)
    · exact h.request t id hash hl
  · have hcount : s'.versions.count (s'.references t hash) = s.versions.count (s.references t hash) +
        if t = r.key.tenantId ∧ hash = r.hash then 1 else 0 := by
      rw [AList.count, AList.count, AList.total_eq_part _ r.key, AList.total_eq_part _ r.key s.versions,
        AList.part_of_lookup hrow, AList.part_of_lookup (t := s'.versions) hrow]
      have hothers : (s'.versions.erase r.key).total (fun k row => if s'.references t hash k row = true then 1 else 0) =
          (s.versions.erase r.key).total (fun k row => if s.references t hash k row = true then (1 : Int) else 0) := by
        refine AList.total_congr fun k row' hk => ?_
        have hne : k ≠ r.key := by
          rintro rfl
          rw [AList.lookup_erase] at hk
          cases hk
        rw [State.references, State.references, happlied, decide_eq_false hne, Bool.false_or]
      rw [hothers, State.references, State.references, happlied, decide_eq_true rfl, hunapplied, hhash]
      by_cases ht : t = r.key.tenantId
      · by_cases hh : hash = r.hash
        · simp [ht, hh, add_comm]
        · simp [ht, hh, Ne.symm hh]
      · simp [ht, Ne.symm ht]
    have hrefs : (s'.rootRefs t hash : Int) = s.rootRefs t hash + if t = r.key.tenantId ∧ hash = r.hash then 1 else 0 := by
      rw [State.rootRefs, State.rootRefs, casOf_setCas]
      by_cases ht : t = r.key.tenantId
      · rw [if_pos ht, AList.lookup_insert_eq, ht]
        by_cases hh : hash = r.hash
        · rw [if_pos hh, hh, hblob]
          simp
        · rw [if_neg hh]
          simp [hh, c]
      · rw [if_neg ht, if_neg (fun hc => ht hc.1)]
        simp
    rw [hrefs, hcount, h.refs]

/-- The call of UniCAS, whatever it answers. -/
theorem Sound.retainRow {r : Selected} {rest : List Selected} {retained failed : Nat} {fault : Fault} (h : Sound s)
    (hworker : s.workers.lookup i = some (.retaining r rest retained failed)) :
    Sound (s.retainRow i r rest retained failed fault) := by
  have hrows := h.selected i _ hworker
  have hother : ∀ s' column, Sound s' → s'.versions = s.versions → column ≠ .snapshotRetainedAt →
      Sound (s'.setWorker i (.recording r column rest retained failed)) := by
    intro s' column h' hversions hne
    refine h'.setWorker (fun r' hr' => hversions ▸ hrows r' hr') ?_
    rintro _ _ _ _ ⟨⟩
    exact absurd rfl hne
  rw [State.retainRow]
  split
  · exact hother s _ h rfl (by decide)
  · rename_i hfault
    have hanswer : ∀ s', Sound s' → s'.versions = s.versions → s'.applied r.key = true →
        Sound (s'.setWorker i (.recording r (if fault = Fault.none then Answer.accepted else .unavailable).column rest retained failed)) := by
      intro s' h' hversions happlied
      refine h'.setWorker (fun r' hr' => hversions ▸ hrows r' hr') ?_
      rintro r' _ _ _ hw
      obtain rfl : r = r' := (Worker.recording.inj hw).1
      exact happlied
    have hsame : ∀ answer : Answer, answer ≠ .accepted → Sound ((s.setCas r.key.tenantId (s.casOf r.key.tenantId)).setWorker i
        (.recording r (if fault = Fault.none then answer else .unavailable).column rest retained failed)) := by
      intro answer hne
      refine hother _ _ (h.setCas rfl fun _ => rfl).1 rfl ?_
      split
      · cases answer <;> simp_all [Answer.column]
      · decide
    rw [Cas.retain]
    cases hrequest : (s.casOf r.key.tenantId).requests.lookup r.key.requestId with
    | some hash =>
      by_cases heq : hash = r.hash
      · simp only [if_pos heq]
        refine hanswer _ (h.setCas rfl fun _ => rfl).1 rfl ?_
        rw [(h.setCas rfl fun _ => rfl).2, State.applied, hrequest]
        rfl
      · simp only [if_neg heq]
        exact hsame _ (by decide)
    | none =>
      cases hblob : (s.casOf r.key.tenantId).blobs.lookup r.hash with
      | none => exact hsame _ (by decide)
      | some blob =>
        obtain ⟨row, hrow, hhash⟩ := hrows r List.mem_cons_self
        obtain ⟨h', happlied⟩ := h.apply hrow hhash hrequest hblob
        exact hanswer _ h' rfl (by rw [happlied, decide_eq_true rfl, Bool.true_or])

theorem record_cases (column : Column) (now : Int) (row : VersionRow) :
    (row.record column now).snapshotBlobHash = row.snapshotBlobHash ∧
      ((row.record column now).snapshotRetainedAt.isSome = true → column = .snapshotRetainedAt ∨ row.snapshotRetainedAt.isSome = true) ∧
      ((row.record column now).snapshotLostAt = row.snapshotLostAt ∨
        column = .snapshotLostAt ∧ row.snapshotRetainedAt = none ∧ (row.record column now).snapshotLostAt = some now) := by
  rw [VersionRow.record.eq_def]
  split
  · rename_i hnone
    cases column <;> simp_all
  · exact ⟨rfl, .inr, .inl rfl⟩

theorem Sound.recordColumn {key : VersionKey} {column : Column} (h : Sound s)
    (haccepted : column = .snapshotRetainedAt → s.applied key = true) : Sound (s.recordColumn key column) := by
  rw [State.recordColumn]
  split
  · rename_i row hrow
    obtain ⟨hhash, hret, -⟩ := record_cases column s.now row
    refine h.setRow (.inr ⟨row, hrow, hhash.symm⟩) fun hsome => ?_
    rcases hret hsome with hcolumn | hold
    · exact haccepted hcolumn
    · exact h.retained key row hrow hold
  · exact h

theorem select_rows {key : VersionKey} : ∀ r ∈ s.select key, ∃ row, s.versions.lookup r.key = some row ∧ row.snapshotBlobHash = r.hash := by
  intro r hr
  rw [State.select] at hr
  split at hr
  · rename_i row hrow
    split at hr
    · rw [List.mem_singleton.mp hr]
      exact ⟨row, hrow, rfl⟩
    · cases hr
  · cases hr

theorem selectDue_rows {limit graceSeconds : Nat} :
    ∀ r ∈ s.selectDue limit graceSeconds, ∃ row, s.versions.lookup r.key = some row ∧ row.snapshotBlobHash = r.hash := by
  intro r hr
  obtain ⟨⟨k, row⟩, hmem, rfl⟩ := List.mem_map.mp hr
  exact ⟨row, (mem_dueRows.mp (List.mem_of_mem_take hmem)).1, rfl⟩

/-- A statement on a blob that leaves its snapshot references. -/
theorem Sound.onBlob (h : Sound s) (tenantId hash : String) {f : CasBlob → CasBlob}
    (hf : ∀ blob, (f blob).rootRefs = blob.rootRefs) :
    Sound (s.onBlob tenantId hash f) ∧ (s.onBlob tenantId hash f).versions = s.versions ∧
      ∀ k, (s.onBlob tenantId hash f).applied k = s.applied k := by
  rw [State.onBlob]
  split
  · rename_i blob hblob
    have hrefs : ∀ hash', ((((s.casOf tenantId).blobs.insert hash (f blob)).lookup hash').map (·.rootRefs)).getD 0 =
        s.rootRefs tenantId hash' := by
      intro hash'
      rw [AList.lookup_insert_eq]
      split
      · rename_i heq
        rw [State.rootRefs, heq, hblob]
        exact hf blob
      · rfl
    obtain ⟨hset, happlied⟩ := h.setCas (c := ⟨(s.casOf tenantId).blobs.insert hash (f blob), (s.casOf tenantId).requests⟩) rfl hrefs
    exact ⟨hset, rfl, happlied⟩
  · exact ⟨h, rfl, fun _ => rfl⟩

/-- An upload keeps the references that are there. -/
theorem Sound.upload (h : Sound s) : Sound (step s (.upload tenantId hash)) ∧
    ∀ k, (step s (.upload tenantId hash)).applied k = s.applied k := by
  refine h.setCas rfl fun hash' => ?_
  rw [AList.lookup_insert_eq]
  split
  · rename_i heq
    rw [State.rootRefs, heq]
    cases (s.casOf tenantId).blobs.lookup hash <;> rfl
  · rfl

/-- Only a blob without references is collected. -/
theorem Sound.collect (h : Sound s) : Sound (step s (.collect tenantId hash)) ∧
    ∀ k, (step s (.collect tenantId hash)).applied k = s.applied k := by
  simp only [step]
  split
  · rename_i blob hblob
    split
    · rename_i hfree
      refine h.setCas rfl fun hash' => ?_
      rw [AList.lookup_erase_eq]
      split
      · rename_i heq
        rw [State.rootRefs, heq, hblob]
        exact hfree.2.1.symm
      · rfl
    · exact ⟨h, fun _ => rfl⟩
  · exact ⟨h, fun _ => rfl⟩

theorem Sound.step {e : Event} (h : Sound s) : Sound (step s e) := by
  cases e with
  | commit key hash =>
    simp only [Retention.step]
    split
    · rename_i hnew
      exact h.setRow (.inl hnew) fun hsome => absurd hsome (by simp)
    · exact h
  | retainVersion i key =>
    simp only [Retention.step]
    split
    · exact h.next select_rows
    · exact h
  | sweep i limit graceSeconds =>
    simp only [Retention.step]
    split
    · exact h.next selectDue_rows
    · exact h
  | retain i fault =>
    simp only [Retention.step]
    split
    · exact h.retainRow ‹_›
    · exact h
  | record i fault =>
    simp only [Retention.step]
    split
    · rename_i row column rest retained failed hworker
      have hrows := h.selected i _ hworker
      split
      · exact h.next fun r hr => hrows r (List.mem_cons_of_mem _ hr)
      · have hrecorded : Sound (s.recordColumn row.key column) := by
          refine h.recordColumn ?_
          rintro rfl
          exact h.accepted i row rest retained failed hworker
        refine hrecorded.next fun r hr => ?_
        obtain ⟨old, hold, hhash⟩ := hrows r (List.mem_cons_of_mem _ hr)
        rw [State.recordColumn]
        split
        · rename_i row' hrow'
          show ∃ new, (s.versions.insert row.key (row'.record column s.now)).lookup r.key = some new ∧ _
          rw [AList.lookup_insert_eq]
          split
          · rename_i heq
            rw [heq, hrow'] at hold
            cases hold
            exact ⟨_, rfl, (record_cases column s.now _).1.trans hhash⟩
          · exact ⟨old, hold, hhash⟩
        · exact ⟨old, hold, hhash⟩
    · exact h
  | crash i =>
    simp only [Retention.step]
    split
    · exact h.next fun _ hr => absurd hr List.not_mem_nil
    · exact h.next fun _ hr => absurd hr List.not_mem_nil
    · exact h
  | upload tenantId hash => exact h.upload.1
  | leaseEnds tenantId hash => exact (h.onBlob tenantId hash (f := fun blob => { blob with leased := false }) fun _ => rfl).1
  | refer tenantId hash => exact (h.onBlob tenantId hash (f := fun blob => { blob with others := blob.others + 1 }) fun _ => rfl).1
  | unrefer tenantId hash => exact (h.onBlob tenantId hash (f := fun blob => { blob with others := blob.others - 1 }) fun _ => rfl).1
  | collect tenantId hash => exact h.collect.1
  | advance seconds => exact ⟨h.request, h.refs, h.retained, h.selected, h.accepted⟩

/-! ## The condition -/

/-- A worker goes on; no version is affected. -/
theorem Kept.setWorker {w : Worker} (hk : Kept s) : Kept (s.setWorker i w) := hk

/-- What the call of UniCAS in `retainRow` applies. -/
theorem Kept.retainRow {r : Selected} {rest : List Selected} {retained failed : Nat} {fault : Fault} (h : Sound s)
    (hworker : s.workers.lookup i = some (.retaining r rest retained failed)) (hk : Kept s) :
    Kept (s.retainRow i r rest retained failed fault) ↔ s.retainsOpen fault (.retaining r rest retained failed) = true := by
  have hsame : Kept (s.setCas r.key.tenantId (s.casOf r.key.tenantId)) := by
    intro k row hrow happlied
    rw [(h.setCas rfl fun _ => rfl).2] at happlied
    exact hk k row hrow happlied
  obtain ⟨row, hrow, hhash⟩ := h.selected i _ hworker r List.mem_cons_self
  rw [State.retainRow, State.retainsOpen, hrow]
  by_cases hfault : fault = .failed
  · simp only [hfault, decide_true, Bool.true_or, iff_true]
    exact hk.setWorker
  · rw [if_neg hfault, Cas.retain]
    cases hrequest : (s.casOf r.key.tenantId).requests.lookup r.key.requestId with
    | some hash =>
      have happlied : s.applied r.key = true := by rw [State.applied, hrequest]; rfl
      simp only [happlied, Bool.or_true, Bool.true_or, iff_true]
      exact hsame
    | none =>
      cases hblob : (s.casOf r.key.tenantId).blobs.lookup r.hash with
      | none =>
        simp only [Option.isNone_none, Bool.or_true, iff_true]
        exact hsame
      | some blob =>
        have hunapplied : s.applied r.key = false := by rw [State.applied, hrequest]; rfl
        have happlied := (h.apply hrow hhash hrequest hblob).2
        simp only [decide_eq_false hfault, hunapplied, Option.all_some, Option.isNone_some, Bool.false_or, Bool.or_false]
        constructor
        · intro hk'
          rw [hk' r.key row hrow ((happlied r.key).trans (by simp))]
          rfl
        · intro hopen k row' hrow' hk'
          have hk'' := (happlied k).symm.trans hk'
          rcases Bool.or_eq_true_iff.mp hk'' with heq | hold
          · replace hrow' : s.versions.lookup k = some row' := hrow'
            rw [of_decide_eq_true heq, hrow] at hrow'
            cases hrow'
            exact Option.isNone_iff_eq_none.mp hopen
          · exact hk k row' hrow' hold

theorem Kept.recordColumn {key : VersionKey} {column : Column} {row : VersionRow} (hrow : s.versions.lookup key = some row)
    (hk : Kept s) :
    Kept (s.recordColumn key column) ↔
      (column = .snapshotLostAt → s.applied key = true → row.snapshotRetainedAt.isSome = true) := by
  obtain ⟨-, -, hlost⟩ := record_cases column s.now row
  rw [State.recordColumn, hrow]
  constructor
  · rintro hk' rfl happlied
    by_contra hnone
    have hrecorded := hk' key (row.record .snapshotLostAt s.now) (AList.lookup_insert _) happlied
    simp [VersionRow.record, Option.not_isSome_iff_eq_none.mp hnone] at hrecorded
  · intro hguard k row' hrow' happlied
    replace hrow' : (s.versions.insert key (row.record column s.now)).lookup k = some row' := hrow'
    rw [AList.lookup_insert_eq] at hrow'
    split at hrow'
    · rename_i heq
      subst heq
      cases hrow'
      rcases hlost with hsame | ⟨hcolumn, hnone, -⟩
      · rw [hsame]
        exact hk k row hrow happlied
      · have hsome := hguard hcolumn happlied
        rw [hnone] at hsome
        cases hsome
    · exact hk k row' hrow' happlied

/-- A step keeps what the condition adds exactly when it meets the condition. -/
theorem Kept.step {e : Event} (h : Sound s) (hk : Kept s) : Kept (step s e) ↔ OutcomesAgree s e := by
  have hsame : ∀ {s' : State}, s'.versions = s.versions → (∀ k, s'.applied k = s.applied k) → Kept s' := by
    intro s' hversions happlied k row hrow hap
    exact hk k row (hversions ▸ hrow) (happlied k ▸ hap)
  cases e with
  | commit key hash =>
    refine iff_of_true ?_ trivial
    simp only [Retention.step]
    split
    · intro k row hrow happlied
      replace hrow : (s.versions.insert key ⟨hash, s.now, none, none, none⟩).lookup k = some row := hrow
      rw [AList.lookup_insert_eq] at hrow
      split at hrow
      · cases hrow
        rfl
      · exact hk k row hrow happlied
    · exact hk
  | retainVersion i key =>
    refine iff_of_true ?_ trivial
    simp only [Retention.step]
    split <;> exact hk
  | sweep i limit graceSeconds =>
    refine iff_of_true ?_ trivial
    simp only [Retention.step]
    split <;> exact hk
  | retain i fault =>
    simp only [Retention.step, OutcomesAgree]
    split
    · rename_i r rest retained failed hworker
      rw [hworker]
      exact hk.retainRow h hworker
    · rename_i hother
      refine iff_of_true hk ?_
      cases hworker : s.workers.lookup i with
      | none => rfl
      | some w =>
        cases w with
        | retaining r rest retained failed => exact absurd hworker (hother r rest retained failed)
        | recording r column rest retained failed => rfl
        | ended retained failed => rfl
  | record i fault =>
    simp only [Retention.step, OutcomesAgree]
    split
    · rename_i r column rest retained failed hworker
      obtain ⟨row, hrow, -⟩ := h.selected i _ hworker r List.mem_cons_self
      rw [hworker, Option.all_some]
      by_cases hfault : fault = .failed
      · rw [if_pos hfault]
        refine iff_of_true hk ?_
        cases column <;> simp [State.losesUnapplied, hfault]
      · rw [if_neg hfault]
        refine (Kept.recordColumn hrow hk).trans ?_
        cases column <;> simp [State.losesUnapplied, hfault, hrow, imp_iff_not_or]
    · rename_i hother
      refine iff_of_true hk ?_
      cases hworker : s.workers.lookup i with
      | none => rfl
      | some w =>
        cases w with
        | recording r column rest retained failed => exact absurd hworker (hother r column rest retained failed)
        | retaining r rest retained failed => rfl
        | ended retained failed => rfl
  | crash i =>
    refine iff_of_true ?_ trivial
    simp only [Retention.step]
    split <;> exact hk
  | upload tenantId hash => exact iff_of_true (hsame rfl h.upload.2) trivial
  | leaseEnds tenantId hash =>
    obtain ⟨-, hversions, happlied⟩ :=
      h.onBlob tenantId hash (f := fun blob => { blob with leased := false }) fun _ => rfl
    exact iff_of_true (hsame hversions happlied) trivial
  | refer tenantId hash =>
    obtain ⟨-, hversions, happlied⟩ :=
      h.onBlob tenantId hash (f := fun blob => { blob with others := blob.others + 1 }) fun _ => rfl
    exact iff_of_true (hsame hversions happlied) trivial
  | unrefer tenantId hash =>
    obtain ⟨-, hversions, happlied⟩ :=
      h.onBlob tenantId hash (f := fun blob => { blob with others := blob.others - 1 }) fun _ => rfl
    exact iff_of_true (hsame hversions happlied) trivial
  | collect tenantId hash =>
    refine iff_of_true (hsame ?_ h.collect.2) trivial
    simp only [Retention.step]
    split
    · split <;> rfl
    · rfl
  | advance seconds => exact iff_of_true hk trivial

end Steps

/-! ## Every run -/

/-- The laws hold at any time of a run exactly when no step of it has a version retained between the 404 of another worker and its
bookkeeping, or after it. -/
theorem snapshots_kept_iff (now : Int) (es : List Event) :
    (∀ s ∈ Machine.states step (.start now) es, SnapshotsKept s) ↔ Machine.Guarded step OutcomesAgree (.start now) es := by
  constructor
  · intro hkept
    exact Machine.guarded_rule (fun _ _ h => h.step) (fun _ _ h hk hk' => (Kept.step h hk).mp hk') (.start now)
      fun s hs => (hkept s hs).kept
  · intro hguard
    have hstart : Sound (.start now) ∧ Kept (.start now) := ⟨.start now, fun _ _ h => by simp [State.start] at h⟩
    have hrun : ∀ s ∈ Machine.states step (.start now) es, Sound s ∧ Kept s :=
      Machine.invariant_rule (fun s e h hg => ⟨h.1.step, (Kept.step h.1 h.2).mpr hg⟩) hstart hguard
    intro s hs
    exact (hrun s hs).1.snapshotsKept (hrun s hs).2

/-- A worker gets a 404, the blob is uploaded again, another worker has the version retained, and both record what they got. -/
theorem snapshots_kept_false :
    let key : VersionKey := ⟨"t1", "d1", 1⟩
    let s := Machine.final step (.start 0) [.commit key "h1", .retainVersion 1 key, .retainVersion 2 key, .retain 1 .none,
      .upload "t1" "h1", .retain 2 .none, .record 1 .none, .record 2 .none]
    s.versions.lookup key = some ⟨"h1", 0, some 0, none, some 0⟩ ∧ s.applied key = true ∧ ¬ SnapshotsKept s := by
  intro key s
  have hrow : s.versions.lookup key = some ⟨"h1", 0, some 0, none, some 0⟩ := by decide
  refine ⟨hrow, by decide, fun h => ?_⟩
  rcases h.exclusive key _ hrow with hnone | hnone <;> cases hnone

end UniDocs.Retention
