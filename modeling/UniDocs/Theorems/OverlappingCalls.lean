import UniDocs.Files.SharedRoot
import UniDocs.Theorems.ManifestStorability

/-!
# Overlapping calls on a root

Whatever calls overlap, no entry lies below a file, and the manifest of the root is the committed tree under the committed
name, as long as the blob of a write is not set below or above what came to its place while it was stored, and the tree and
the name are at the end of a commit what the commit has sent.
-/

namespace UniDocs.Files

open Lib Lib.Cbor UniDocs.Cas UniDocs.Codec UniDocs.Blob

variable {localeCompare : JsString → JsString → Int} {cborg : Cborg} {sha256 : Bytes → Bytes} {client : CasBlobClient}

/-! ## What a hash names -/

theorem Names.perm {hash : Hash} {entries entries' : Entries} (h : Names cborg sha256 hash entries)
    (hperm : entries.Perm entries') : Names cborg sha256 hash entries' := by
  obtain ⟨l, hl, hhash⟩ := h
  exact ⟨l, hl.trans hperm, hhash⟩

theorem manifestHash_of_node {l : Entries} {content bytes : Bytes} {hash : Hash}
    (hcontent : encodeFileManifest cborg ⟨fileManifestVersion, manifestEntries 0 l⟩ = .ok content)
    (hbytes : encodeCanonicalNode fileManifestContentType (fileHashes l) content = .ok bytes)
    (hhash : hashToHex (sha256 bytes) = .ok hash) : manifestHash cborg sha256 l = .ok hash := by
  simp only [manifestHash, hcontent, hbytes, hhash]

theorem storeManifest_names (hlc : Consistent localeCompare) {entries : Entries} {leases : Leases} {hash : Hash}
    (h : storeManifest localeCompare cborg sha256 entries = .ok (leases, hash)) : Names cborg sha256 hash entries := by
  have htotal : Std.Total fun a b : JsString × WorkingEntry => localeCompare a.1 b.1 ≤ 0 := ⟨fun a b => hlc.total a.1 b.1⟩
  have htrans : IsTrans (JsString × WorkingEntry) fun a b => localeCompare a.1 b.1 ≤ 0 := ⟨fun a b c => hlc.trans a.1 b.1 c.1⟩
  have hpairs : (sortedEntries localeCompare entries).Pairwise fun a b => localeCompare a.1 b.1 ≤ 0 :=
    List.pairwise_insertionSort _ _
  refine ⟨sortedEntries localeCompare entries, sortedEntries_perm localeCompare entries, ?_⟩
  rw [storeManifest] at h
  split at h
  · cases h
  rename_i manifest hmanifest
  obtain ⟨-, rfl⟩ := (createFileManifest_sorted hpairs).mp hmanifest
  split at h
  · cases h
  rename_i content hcontent
  split at h
  · cases h
  rename_i result hstored
  cases h
  cases hbytes : encodeCanonicalNode fileManifestContentType (fileHashes (sortedEntries localeCompare entries)) content with
  | error e => simp [storeNodeContent, hbytes, bind, Except.bind] at hstored
  | ok bytes =>
    cases hhash : hashToHex (sha256 bytes) with
    | error e => simp [storeNodeContent, hbytes, hhash, bind, Except.bind] at hstored
    | ok hash' =>
      cases hlease : leaseNode sha256 [] hash' bytes with
      | error e => simp [storeNodeContent, hbytes, hhash, hlease, bind, Except.bind] at hstored
      | ok leases' =>
        simp only [storeNodeContent, hbytes, hhash, hlease, bind, Except.bind, pure, Except.pure, Except.ok.injEq,
          Prod.mk.injEq] at hstored
        rw [← hstored.2]
        exact manifestHash_of_node hcontent hbytes hhash

/-! ## An opened root -/

/-- A store of nodes returns a node under the hash of its bytes, and its references are hashes. -/
def Addressed (sha256 : Bytes → Bytes) (cas : NodeStore) : Prop :=
  ∀ hash node, cas hash = some node → (∀ ref ∈ node.refs, IsHash ref) ∧
    ∃ bytes, encodeCanonicalNode node.contentType node.refs node.content = .ok bytes ∧ hashToHex (sha256 bytes) = .ok hash

/-- The content of a manifest that is read is the one that is written for it. -/
theorem decodeFileManifest_canonical {bytes : Bytes} {manifest : TenantFileManifestV1}
    (h : decodeFileManifest cborg bytes = .ok manifest) : encodeFileManifest cborg manifest = .ok bytes := by
  rw [decodeFileManifest] at h
  split at h
  · cases h
  · split at h
    · cases h
    split at h
    · split at h
      · cases h
      simp only at h
      split at h
      · cases h
      split at h
      · cases h
      rename_i canonical hcanonical
      split at h
      · cases h
      rename_i hsame
      cases h
      rw [Decidable.not_not.mp hsame]
      exact hcanonical
    · cases h
  · cases h
  · cases h

theorem manifestEntries_opened {refs : List Hash} {map : List (JsString × Hash)} :
    ∀ {n : Nat} {es : List TenantFileManifestEntry}, FilesValid n es →
      n + (fileRefsOf es).length ≤ refs.length →
      (∀ file ∈ fileRefsOf es, map.lookup file.1 = some (refs.getD file.2.toNat "")) →
      manifestEntries n (es.map (workingEntry map)) = es ∧
        fileHashes (es.map (workingEntry map)) = (refs.drop n).take (fileRefsOf es).length := by
  intro n es
  induction es generalizing n with
  | nil =>
    intro _ _ _
    exact ⟨rfl, by simp [fileRefsOf, fileHashes]⟩
  | cons e es ih =>
    intro hvalid hlen hmap
    cases e with
    | directory path =>
      obtain ⟨hentries, hhashes⟩ := ih hvalid hlen hmap
      exact ⟨congrArg (_ :: ·) hentries, hhashes⟩
    | file path ref size mediaType =>
      obtain ⟨rfl, -⟩ := validateFile_ok_iff.mp hvalid.1
      rw [fileRefsOf, List.length_cons] at hlen
      obtain ⟨hentries, hhashes⟩ := ih hvalid.2 (by omega) fun file hfile => hmap file (List.mem_cons_of_mem _ hfile)
      have hhead := hmap (path, (n : Int)) List.mem_cons_self
      have hlt : n < refs.length := by omega
      rw [Int.toNat_natCast, List.getD_eq_getElem _ _ hlt] at hhead
      refine ⟨congrArg (_ :: ·) hentries, ?_⟩
      rw [List.map_cons, workingEntry, fileHashes, hhashes, fileRefsOf, List.length_cons, hhead,
        List.drop_eq_getElem_cons hlt, List.take_succ_cons]
      rfl

theorem loadRoot_names {cas : NodeStore} (hcas : Addressed sha256 cas) {info : TenantFileRootInfo} {root : WorkingRoot}
    (h : loadRoot cborg cas info = .ok root) : Names cborg sha256 info.manifestHash root.entries := by
  have htype : ∃ node, cas info.manifestHash = some node ∧ node.contentType = fileManifestContentType := by
    rw [loadRoot] at h
    split at h
    · cases h
    rename_i node hnode
    split at h
    · cases h
    rename_i hsame
    exact ⟨node, hnode, Decidable.not_not.mp hsame⟩
  obtain ⟨node, manifest, hnode, hmanifest, hlen, rfl⟩ := loadRoot_ok h
  obtain ⟨node', hnode', htype⟩ := htype
  cases hnode.symm.trans hnode'
  obtain ⟨hvalid, -⟩ := decodeFileManifest_ok hmanifest
  obtain ⟨hversion, -, hafter, -⟩ := validateFileManifest_ok_iff.mp hvalid
  obtain ⟨-, bytes, hbytes, hhash⟩ := hcas _ _ hnode
  have hlookup : ∀ file ∈ fileRefsOf manifest.entries,
      (refsMap manifest.entries node.refs).lookup file.1 = some (node.refs.getD file.2.toNat "") := by
    intro file hfile
    rw [JsMap.lookup_iff (refsMap_nodup hvalid _)]
    exact List.mem_map.mpr ⟨file, hfile, rfl⟩
  obtain ⟨hentries, hhashes⟩ := manifestEntries_opened hafter.files (by omega) hlookup
  rw [List.drop_zero, hlen, List.take_length] at hhashes
  have hcontent := decodeFileManifest_canonical hmanifest
  have hmanifestOf : manifest = ⟨fileManifestVersion,
      manifestEntries 0 (manifest.entries.map (workingEntry (refsMap manifest.entries node.refs)))⟩ := by
    rw [Nat.cast_zero] at hentries
    rw [hentries, ← hversion]
  rw [hmanifestOf] at hcontent
  rw [htype, ← hhashes] at hbytes
  exact ⟨_, List.Perm.refl _, manifestHash_of_node hcontent hbytes hhash⟩

/-! ## What every step keeps -/

variable (cborg sha256) in
/-- What a waiting call has: a path, or the name of the tree from which a commit started. -/
def Pending.Sound : Pending → Prop
  | .storing path _ _ => IsPath path
  | .uploading tree hash => Kept tree ∧ Names cborg sha256 hash tree
  | .retaining tree hash => Kept tree ∧ Names cborg sha256 hash tree
  | .updating tree _ _ hash => Kept tree ∧ Names cborg sha256 hash tree

variable (cborg sha256) in
/-- What holds of the variables between two steps. -/
structure Steady (s : SharedRoot) : Prop where
  kept : Kept s.root.entries
  committed : Kept s.root.committedEntries
  names : Names cborg sha256 s.root.info.manifestHash s.root.committedEntries
  catalog : s.catalog = s.root.info
  name : s.root.info.name = s.root.committedName
  pending : ∀ id call, s.pending id = some call → call.Sound cborg sha256

namespace Steady

variable {s : SharedRoot}

theorem edit (h : Steady cborg sha256 s) {result : Except FileError Entries} (hresult : ∀ entries, result = .ok entries → Kept entries) :
    Steady cborg sha256 (s.edit result) := by
  cases result with
  | error e => exact h
  | ok entries => exact ⟨hresult entries rfl, h.committed, h.names, h.catalog, h.name, h.pending⟩

theorem wait (h : Steady cborg sha256 s) (id : Nat) {call : Pending} (hcall : call.Sound cborg sha256) :
    Steady cborg sha256 (s.wait id call) := by
  refine ⟨h.kept, h.committed, h.names, h.catalog, h.name, fun id' call' hpending => ?_⟩
  simp only [SharedRoot.wait, Function.update_apply] at hpending
  split at hpending
  · cases hpending
    exact hcall
  · exact h.pending id' call' hpending

theorem wake (h : Steady cborg sha256 s) (id : Nat) : Steady cborg sha256 (s.wake id) := by
  refine ⟨h.kept, h.committed, h.names, h.catalog, h.name, fun id' call' hpending => ?_⟩
  simp only [SharedRoot.wake, Function.update_apply] at hpending
  split at hpending
  · cases hpending
  · exact h.pending id' call' hpending

theorem sendUpdate (h : Steady cborg sha256 s) (id : Nat) {tree : Entries} {hash : Hash} (htree : Kept tree)
    (hnames : Names cborg sha256 hash tree) : Steady cborg sha256 (s.sendUpdate id tree hash) := h.wait id ⟨htree, hnames⟩

theorem startCommit (hlc : Consistent localeCompare) (h : Steady cborg sha256 s) (id : Nat) :
    Steady cborg sha256 (s.startCommit localeCompare cborg sha256 id) := by
  rw [SharedRoot.startCommit]
  split
  · split
    · rename_i hsame
      have hperm := perm_of_sameEntries hsame h.kept.nodup h.committed.nodup
      exact h.sendUpdate id h.kept (h.names.perm hperm.symm)
    · split
      · rename_i leases hash hstored
        exact h.wait id ⟨h.kept, storeManifest_names hlc hstored⟩
      · exact h
  · exact h

/-- A call up to its first wait keeps what holds. -/
theorem start (hlc : Consistent localeCompare) (h : Steady cborg sha256 s) (id : Nat) (call : Call) :
    Steady cborg sha256 (s.start localeCompare cborg sha256 id call) := by
  cases call with
  | write path source options =>
    rw [SharedRoot.start]
    split
    · rename_i normalized hchecked
      refine h.wait id ?_
      rw [SharedRoot.checkWrite] at hchecked
      split at hchecked
      · cases hchecked
      rename_i hnormalized
      split at hchecked
      · cases hchecked
      split at hchecked
      · cases hchecked
      cases hchecked
      exact normalizeMutablePath_ok hnormalized
    · exact h
  | mkdir path => exact h.edit fun entries => mkdir_kept h.kept
  | move source target => exact h.edit fun entries => moveOrCopy_kept h.kept
  | copy source target => exact h.edit fun entries => moveOrCopy_kept h.kept
  | remove path => exact h.edit fun entries => remove_kept h.kept
  | rename name =>
    rw [SharedRoot.start]
    split
    · exact ⟨h.kept, h.committed, h.names, h.catalog, h.name, h.pending⟩
    · exact h
  | commit => exact h.startCommit hlc id
  | discard => exact ⟨h.committed, h.committed, h.names, h.catalog, h.name, h.pending⟩

end Steady

/-! ## The condition -/

/-- What came to pass while a call waited does not get in its way: nothing has come above or below the file that a write sets,
and when the catalog has made the update of a commit, the tree and the name are those that the commit has sent. -/
def Undisturbed (s : SharedRoot) : FileEvent → Prop
  | .stored id true => ∀ path source options, s.pending id = some (.storing path source options) →
      (∀ f ∈ s.root.entries, f.2.isFile = true → isBelow f.1 path = false) ∧ hasDescendant s.root.entries path = false
  | .updated id (.done _) => ∀ tree revision name hash, s.pending id = some (.updating tree revision name hash) →
      s.catalog.revision = revision → s.root.name = name ∧ sameEntries s.root.entries tree = true
  | .updated id (.lost _) => ∀ tree revision name hash, s.pending id = some (.updating tree revision name hash) →
      s.catalog.revision ≠ revision
  | _ => True

theorem validEntry_stored (hrfc : cborg.Rfc8949) (hsha : ∀ bytes, (sha256 bytes).length = hashSize) {source : List Bytes}
    {options : CasBlobWriteOptions} {leases : Leases} {stored : CasBlobRef}
    (hstore : storeBlob cborg sha256 client source options = .ok (leases, stored)) :
    ValidEntry (.file stored.hash stored.size stored.contentType) := by
  have houtcome : Outcome (storeBlob cborg sha256 client source options) _ _ := storeBlob_outcome hrfc hsha source
  rw [hstore] at houtcome
  obtain ⟨hadmitted, -, hsize, htype, hhash⟩ := houtcome
  refine ⟨hhash, Int.natCast_nonneg _, ?_, ?_⟩
  · rw [hsize]
    exact_mod_cast hadmitted.size
  · rw [htype]
    exact hadmitted.contentType

/-- The catalog has made the update of a commit that nothing has disturbed. -/
theorem Steady.afterUpdate {s : SharedRoot} (h : Steady cborg sha256 s) {tree : Entries} {revision : Int} {name : JsString}
    {hash : Hash} (htree : Kept tree) (hnames : Names cborg sha256 hash tree) {answer : Answer}
    (hdone : ∀ updatedAt, answer = .done updatedAt → s.catalog.revision = revision →
      s.root.name = name ∧ sameEntries s.root.entries tree = true)
    (hlost : ∀ updatedAt, answer = .lost updatedAt → s.catalog.revision ≠ revision) :
    Steady cborg sha256 (s.afterUpdate revision name hash answer) := by
  cases answer with
  | failed => exact h
  | lost updatedAt =>
    rw [SharedRoot.afterUpdate, if_pos (hlost updatedAt rfl)]
    exact h
  | done updatedAt =>
    rw [SharedRoot.afterUpdate]
    split
    · exact h
    · rename_i hrevision
      obtain ⟨hname, hsame⟩ := hdone updatedAt rfl (Decidable.not_not.mp hrevision)
      have hperm := perm_of_sameEntries hsame h.kept.nodup htree.nodup
      exact ⟨h.kept, h.kept, hnames.perm hperm.symm, rfl, hname.symm, h.pending⟩

theorem Steady.step (hrfc : cborg.Rfc8949) (hsha : ∀ bytes, (sha256 bytes).length = hashSize) (hlc : Consistent localeCompare)
    {s : SharedRoot} (h : Steady cborg sha256 s) (event : FileEvent) (hundisturbed : Undisturbed s event) :
    Steady cborg sha256 (s.step localeCompare cborg sha256 client event) := by
  cases event with
  | call id call =>
    rw [SharedRoot.step]
    split
    · exact h
    · exact h.start hlc id call
  | stored id ok =>
    rw [SharedRoot.step]
    split
    · rename_i path source options hpending
      cases ok with
      | false => exact h.wake id
      | true =>
        rw [if_pos rfl]
        split
        · rename_i leases stored hstore
          obtain ⟨hfree, hleaf⟩ := hundisturbed path source options hpending
          refine (h.wake id).edit fun entries hentries => ?_
          cases hentries
          exact h.kept.set (h.pending id _ hpending) (validEntry_stored hrfc hsha hstore) hfree fun _ => hleaf
        · exact h.wake id
    · exact h
  | uploaded id ok =>
    rw [SharedRoot.step]
    split
    · rename_i tree hash hpending
      obtain ⟨htree, hnames⟩ := h.pending id _ hpending
      cases ok with
      | false => exact h.wake id
      | true =>
        rw [if_pos rfl, SharedRoot.afterUpload]
        split
        · exact (h.wake id).wait id ⟨htree, hnames⟩
        · exact (h.wake id).sendUpdate id htree hnames
    · exact h
  | retained id ok =>
    rw [SharedRoot.step]
    split
    · rename_i tree hash hpending
      obtain ⟨htree, hnames⟩ := h.pending id _ hpending
      cases ok with
      | false => exact h.wake id
      | true => exact (h.wake id).sendUpdate id htree hnames
    · exact h
  | updated id answer =>
    rw [SharedRoot.step]
    split
    · rename_i tree revision name hash hpending
      obtain ⟨htree, hnames⟩ := h.pending id _ hpending
      refine (h.wake id).afterUpdate htree hnames ?_ ?_
      · rintro updatedAt rfl hrevision
        exact hundisturbed tree revision name hash hpending hrevision
      · rintro updatedAt rfl
        exact hundisturbed tree revision name hash hpending
    · exact h

/-! ## The theorem -/

variable (cborg sha256) in
/-- No entry lies below a file; the manifest and the name of the root are the committed ones, in the catalog too; and a root
that is not dirty is stored as it is. -/
structure Coherent (s : SharedRoot) : Prop where
  below : ∀ f ∈ s.root.entries, f.2.isFile = true → ∀ e ∈ s.root.entries, isBelow f.1 e.1 = false
  manifest : Names cborg sha256 s.root.info.manifestHash s.root.committedEntries
  catalog : s.catalog.manifestHash = s.root.info.manifestHash ∧ s.catalog.name = s.root.committedName
  clean : s.root.dirty = false → s.catalog.name = s.root.name ∧ Names cborg sha256 s.catalog.manifestHash s.root.entries

theorem Steady.coherent {s : SharedRoot} (h : Steady cborg sha256 s) : Coherent cborg sha256 s where
  below := h.kept.below
  manifest := h.names
  catalog := by
    rw [h.catalog]
    exact ⟨rfl, h.name⟩
  clean := by
    intro hclean
    simp only [WorkingRoot.dirty, Bool.or_eq_false_iff, Bool.not_eq_false', beq_iff_eq] at hclean
    rw [h.catalog, h.name]
    exact ⟨hclean.1.symm, h.names.perm (perm_of_sameEntries hclean.2 h.kept.nodup h.committed.nodup).symm⟩

/-- In every run of overlapping calls on an opened root whose steps nothing disturbs, the tree and the stored root agree in
every state. -/
theorem overlapping_calls_coherent (hrfc : cborg.Rfc8949) (hsha : ∀ bytes, (sha256 bytes).length = hashSize)
    (hlc : Consistent localeCompare) {cas : NodeStore} (hcas : Addressed sha256 cas) {info : TenantFileRootInfo}
    {root : WorkingRoot} (hload : loadRoot cborg cas info = .ok root) (events : List FileEvent)
    (hundisturbed : Machine.Guarded (SharedRoot.step localeCompare cborg sha256 client) Undisturbed (SharedRoot.opened root) events) :
    ∀ s ∈ Machine.states (SharedRoot.step localeCompare cborg sha256 client) (SharedRoot.opened root) events,
      Coherent cborg sha256 s := by
  obtain ⟨hkept, hcommitted, hname, rfl, -⟩ := loadRoot_kept (fun hash node hnode => (hcas hash node hnode).1) hload
  have hnames := loadRoot_names hcas hload
  have hinfoName : root.info.name = root.committedName := by
    obtain ⟨node, manifest, -, -, -, hroot⟩ := loadRoot_ok hload
    rw [hroot]
    rfl
  have hstart : Steady cborg sha256 (SharedRoot.opened root) := by
    refine ⟨hkept, ?_, ?_, rfl, hinfoName, fun id call hpending => ?_⟩
    · show Kept root.committedEntries
      rw [hcommitted]
      exact hkept
    · show Names cborg sha256 root.info.manifestHash root.committedEntries
      rw [hcommitted]
      exact hnames
    · cases hpending
  have hall : ∀ s ∈ Machine.states (SharedRoot.step localeCompare cborg sha256 client) (SharedRoot.opened root) events,
      Steady cborg sha256 s :=
    Machine.invariant_rule (fun s event h hguard => Steady.step hrfc hsha hlc h event hguard) hstart hundisturbed
  exact fun s hs => (hall s hs).coherent

/-! ## Small runs -/

theorem smallCas_addressed : Addressed fileDigest smallCas := by
  intro hash node hnode
  rw [smallCas] at hnode
  split at hnode
  · rename_i hhash
    cases hnode
    refine ⟨fun ref href => absurd href List.not_mem_nil, _, rfl, ?_⟩
    rw [hhash]
    rfl
  · cases hnode

/-- A step on a root. -/
def smallStep : SharedRoot → FileEvent → SharedRoot := SharedRoot.step foldedCompare referenceCborg fileDigest smallClient

/-- The state after events on the empty root. -/
def afterEvents (events : List FileEvent) : SharedRoot :=
  Machine.final smallStep (SharedRoot.opened (workingRoot smallInfo [])) events

/-- A file is written while the root is renamed and committed. -/
def quietEvents : List FileEvent :=
  [.call 0 (.write [slash, 97] [[1]] { contentType := "text/plain" }), .call 1 (.rename [98]), .call 2 .commit,
    .updated 2 (.done 5), .stored 0 true]

/-- After the commit and the write the tree and the stored root are as they are said to be. -/
theorem overlapping_calls_coherent_quiet : Coherent referenceCborg fileDigest (afterEvents quietEvents) := by
  refine @overlapping_calls_coherent foldedCompare referenceCborg fileDigest smallClient referenceCborg_rfc8949 length_fileDigest
    foldedCompare_consistent smallCas smallCas_addressed smallInfo _ loadRoot_small quietEvents
    ⟨trivial, trivial, trivial, ?_, ?_, trivial⟩ _ (Machine.final_mem_states _ _)
  · rintro tree revision name hash hpending -
    cases hpending
    exact ⟨rfl, rfl⟩
  · rintro path source options hpending
    cases hpending
    exact ⟨fun f hf => (nomatch hf), rfl⟩

/-- A file is written where a directory comes to be while its blob is stored. -/
def crossingWrites : List FileEvent :=
  [.call 0 (.write [slash, 97] [[1]] { contentType := "text/plain" }), .call 1 (.mkdir [slash, 97]),
    .call 2 (.write [slash, 97, slash, 98] [[1]] { contentType := "text/plain" }), .stored 2 true, .stored 0 true]

/-- A directory is made while the catalog updates the name of the root. -/
def lateChange : List FileEvent := [.call 0 (.rename [98]), .call 1 .commit, .call 2 (.mkdir [slash, 97]), .updated 1 (.done 5)]

/-- A file comes to lie above another one; and a commit takes a directory for committed that no manifest contains. -/
theorem overlapping_calls_false :
    (∃ f ∈ (afterEvents crossingWrites).root.entries, f.2.isFile = true ∧
      ∃ e ∈ (afterEvents crossingWrites).root.entries, isBelow f.1 e.1 = true) ∧
    (afterEvents lateChange).root.dirty = false ∧
      ¬ Names referenceCborg fileDigest (afterEvents lateChange).root.info.manifestHash
        (afterEvents lateChange).root.committedEntries := by
  refine ⟨?_, by decide, ?_⟩
  · have hany : ((afterEvents crossingWrites).root.entries.any fun f =>
        f.2.isFile && (afterEvents crossingWrites).root.entries.any fun e => isBelow f.1 e.1) = true := by with_unfolding_all decide
    obtain ⟨f, hf, hbelow⟩ := List.any_eq_true.mp hany
    rw [Bool.and_eq_true] at hbelow
    exact ⟨f, hf, hbelow.1, List.any_eq_true.mp hbelow.2⟩
  · rintro ⟨l, hperm, hhash⟩
    have hcommitted : (afterEvents lateChange).root.committedEntries = [([97], .directory)] := by decide
    rw [hcommitted, List.perm_singleton] at hperm
    rw [hperm] at hhash
    have hother : ¬ (manifestHash referenceCborg fileDigest [([97], .directory)]).toOption
        = some (afterEvents lateChange).root.info.manifestHash := by decide
    exact hother (congrArg Except.toOption hhash)

end UniDocs.Files
