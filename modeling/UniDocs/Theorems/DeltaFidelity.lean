import Mathlib.Data.List.Perm.Lattice
import UniDocs.Lemmas.JsonProjection
import UniDocs.Theorems.SValueRoundTrip

/-!
# Fidelity of the delta log

Whatever calls run on a session, the rows of an accepted call stay what that call has written, and `since` and `range` show
them once. What they show are the operations of the call exactly when no SBlob is in them: an SBlob comes back as a plain
object, and is replayed as one.
-/

namespace UniDocs.Session

open Lib UniDocs.SValueCodec

/-! ## Reading a row -/

theorem rows_filter_version {deltas : PgDeltas} {v : Nat} {row : DeltaRow} (h : deltas.lookup v = some row)
    {p : Nat → DeltaRow → Bool} (hp : p v row = true) : (deltas.rows p).filter (fun r => r.1 == v) = [(v, row)] := by
  have hmem : ∀ r : Nat × DeltaRow, r ∈ (deltas.rows p).filter (fun r => r.1 == v) ↔ r = (v, row) := by
    rintro ⟨k, r⟩
    rw [List.mem_filter, AList.mem_rows, Prod.mk.injEq, beq_iff_eq]
    constructor
    · rintro ⟨⟨hlookup, _⟩, rfl⟩
      rw [hlookup] at h
      exact ⟨rfl, Option.some.inj h⟩
    · rintro ⟨rfl, rfl⟩
      exact ⟨⟨h, hp⟩, rfl⟩
  have hkeys : ((deltas.rows p).map Prod.fst).Nodup := by
    have hall := deltas.nodupKeys
    rw [List.NodupKeys] at hall
    have hsub : ((deltas.rows p).map Prod.fst).Sublist deltas.entries.keys := by
      rw [AList.rows, List.map_map]
      exact List.filter_sublist.map _
    exact hall.sublist hsub
  have hnodup : ((deltas.rows p).filter (fun r => r.1 == v)).Nodup := (List.Nodup.of_map Prod.fst hkeys).filter _
  have hone : ((deltas.rows p).filter (fun r => r.1 == v)).Perm [(v, row)] := by
    rw [List.perm_ext_iff_of_nodup hnodup (List.nodup_singleton _)]
    intro r
    rw [hmem, List.mem_singleton]
  exact List.perm_singleton.mp hone

/-- A query that covers a version shows its row once. -/
theorem select_filter_version {deltas : PgDeltas} {v : Nat} {row : DeltaRow} (h : deltas.lookup v = some row) {p : Nat → Bool}
    (hp : p v = true) : (deltas.select p).filter (fun d => d.version == v) = [toDelta v row] := by
  have hsorted : (deltas.select p).Perm ((deltas.rows fun version _ => p version).map fun r => toDelta r.1 r.2) :=
    (List.perm_insertionSort _ _).map _
  have hfilter := hsorted.filter fun d => d.version == v
  rw [List.filter_map] at hfilter
  have hrows := rows_filter_version (p := fun version _ => p version) h hp
  have hcomp : ((fun d : Delta SValue => d.version == v) ∘ fun r : Nat × DeltaRow => toDelta r.1 r.2) = fun r => r.1 == v :=
    rfl
  rw [hcomp, hrows] at hfilter
  exact List.perm_singleton.mp hfilter

/-! ## The rows of the calls -/

/-- The operations and the version that a call has on the log. -/
def Phase.owns : Phase → Option (Operations × Nat)
  | .appended ops _ version => some (ops, version)
  | .accepted ops version => some (ops, version)
  | _ => none

/-- The row holds these operations. -/
def Holds (row : DeltaRow) (ops : Operations) : Prop :=
  jsonb (jsonStringify (.array ops.items)) = some row.operations ∧ finiteItems ops.items

/-- The row of every call stands in the log, no two calls have one row, and what waits to be appended has passed the
codec. -/
structure LogState.Inv (s : LogState) : Prop where
  rows : ∀ i ops v, (s.calls i).owns = some (ops, v) → ∃ row, s.deltas.lookup v = some row ∧ Holds row ops
  distinct : ∀ i j ops ops' v, (s.calls i).owns = some (ops, v) → (s.calls j).owns = some (ops', v) → i = j
  finite : ∀ i ops refs description v, s.calls i = .checked ops refs description v → finiteItems ops.items

namespace LogState

variable {cborg : Cborg} {s : LogState}

theorem inv_start (deltas : PgDeltas) : (start deltas).Inv where
  rows _ _ _ h := by cases h
  distinct _ _ _ _ _ h := by cases h
  finite _ _ _ _ _ h := by cases h

theorem calls_setCall (call i : Nat) (phase : Phase) :
    (s.setCall call phase).calls i = if i = call then phase else s.calls i := by
  simp only [setCall, Function.update_apply]

theorem Inv.setCall (h : s.Inv) (call : Nat) {phase : Phase} (howns : phase.owns = none)
    (hfinite : ∀ ops refs description v, phase = .checked ops refs description v → finiteItems ops.items) :
    (s.setCall call phase).Inv where
  rows i ops v hi := by
    rw [calls_setCall] at hi
    split at hi
    · rw [howns] at hi
      cases hi
    · exact h.rows i ops v hi
  distinct i j ops ops' v hi hj := by
    rw [calls_setCall] at hi hj
    split at hi
    · rw [howns] at hi
      cases hi
    · split at hj
      · rw [howns] at hj
        cases hj
      · exact h.distinct i j ops ops' v hi hj
  finite i ops refs description v hi := by
    rw [calls_setCall] at hi
    split at hi
    · exact hfinite _ _ _ _ hi
    · exact h.finite i ops refs description v hi

theorem Inv.setDeltas (h : s.Inv) {deltas : PgDeltas}
    (hkeep : ∀ i ops v, (s.calls i).owns = some (ops, v) → deltas.lookup v = s.deltas.lookup v) : Inv { s with deltas } where
  rows i ops v hi := by
    obtain ⟨row, hrow, hholds⟩ := h.rows i ops v hi
    exact ⟨row, (hkeep i ops v hi).trans hrow, hholds⟩
  distinct := h.distinct
  finite := h.finite

theorem append_ok {deltas deltas' : PgDeltas} {seen : Nat} {d : Delta SValue} (h : deltas.append seen d = .ok deltas') :
    ∃ operations, jsonb (jsonStringify (.array d.operations)) = some operations ∧ deltas.lookup d.version = none ∧
      deltas' = deltas.insert d.version ⟨d.timestamp, d.description, operations⟩ := by
  rw [PgDeltas.append] at h
  split at h
  · cases h
  · rename_i operations hjson
    split at h
    · split at h
      · rename_i rows hinsert
        cases h
        obtain ⟨hfree, rfl⟩ := AList.lookup_insertNew hinsert
        exact ⟨operations, hjson, hfree, rfl⟩
      · cases h
    · cases h

theorem Inv.lookup_append (h : s.Inv) {deltas : PgDeltas} {seen : Nat} {d : Delta SValue}
    (happend : s.deltas.append seen d = .ok deltas) :
    ∀ i ops v, (s.calls i).owns = some (ops, v) → deltas.lookup v = s.deltas.lookup v := by
  intro i ops v hi
  obtain ⟨row, hrow, _⟩ := h.rows i ops v hi
  obtain ⟨operations, _, hfree, rfl⟩ := append_ok happend
  rw [AList.lookup_insert_eq]
  split
  · rename_i heq
    rw [← heq, hrow] at hfree
    cases hfree
  · rfl

theorem checkApply_checked {deltas : PgDeltas} {ops ops' : Operations} {description description' : String} {base v : Nat}
    {leased : Bool} {rejected : Option String} {refs : List Cas.Hash}
    (h : checkApply cborg deltas ops description base leased rejected = .checked ops' refs description' v) :
    finiteItems ops'.items := by
  rw [checkApply] at h
  split at h
  · cases h
  · split at h
    · cases h
    · rename_i encoded hencode
      split at h
      · split at h
        · cases h
        · cases h
          rw [encodeSValueWithRefs, bind_ok_iff] at hencode
          obtain ⟨limits, _, hdetailed⟩ := hencode
          rw [encodeDetailed, bind_ok_iff] at hdetailed
          obtain ⟨⟨item, state⟩, hprepare, _⟩ := hdetailed
          obtain ⟨hfits, _⟩ := (prepareValue_spec _ _ _ _ _).mp hprepare
          exact SValue.finite_of_fits _ _ hfits
      · cases h

theorem checkApply_owns {deltas : PgDeltas} {ops : Operations} {description : String} {base : Nat} {leased : Bool}
    {rejected : Option String} : (checkApply cborg deltas ops description base leased rejected).owns = none := by
  rw [checkApply]
  split
  · rfl
  · split
    · rfl
    · split
      · split <;> rfl
      · rfl

/-- What holds of the rows of the calls, a step keeps. -/
theorem Inv.step (h : s.Inv) (e : LogEvent) : (s.step cborg e).Inv := by
  cases e with
  | check call ops description base leased rejected =>
    simp only [LogState.step]
    split
    · exact h.setCall call checkApply_owns fun _ _ _ _ => checkApply_checked
    · exact h
  | append call seen timestamp =>
    simp only [LogState.step]
    split
    · rename_i ops refs description version hcall
      split
      · rename_i deltas happend
        have hkeep := h.lookup_append happend
        obtain ⟨operations, hjson, hfree, rfl⟩ := append_ok happend
        have hnone : ∀ i ops', (s.calls i).owns ≠ some (ops', version) := by
          intro i ops' hi
          obtain ⟨row, hrow, _⟩ := h.rows i ops' version hi
          rw [hfree] at hrow
          cases hrow
        have hrest := h.setDeltas hkeep
        refine ⟨fun i ops' v hi => ?_, fun i j ops₁ ops₂ v hi hj => ?_, fun i ops' refs' description' v hi => ?_⟩
        · rw [calls_setCall] at hi
          split at hi
          · cases hi
            exact ⟨_, AList.lookup_insert _, hjson, h.finite call _ _ _ _ hcall⟩
          · exact hrest.rows i ops' v hi
        · rw [calls_setCall] at hi hj
          split at hi
          · split at hj
            · rename_i hi' hj'
              rw [hi', hj']
            · cases hi
              exact absurd hj (hnone j ops₂)
          · split at hj
            · cases hj
              exact absurd hi (hnone i ops₁)
            · exact h.distinct i j ops₁ ops₂ v hi hj
        · rw [calls_setCall] at hi
          split at hi
          · cases hi
          · exact h.finite i ops' refs' description' v hi
      · exact h.setCall call rfl fun _ _ _ _ heq => by cases heq
    · exact h
  | rootRefs call refused seen =>
    simp only [LogState.step]
    split
    · rename_i ops refs version hcall
      have hown : (s.calls call).owns = some (ops, version) := by
        rw [hcall]
        rfl
      have haccept : (s.setCall call (.accepted ops version)).Inv := by
        have hsame : ∀ i ops' v, ((s.setCall call (.accepted ops version)).calls i).owns = some (ops', v) →
            (s.calls i).owns = some (ops', v) := by
          intro i ops' v hi
          rw [calls_setCall] at hi
          split at hi
          · rename_i heq
            rw [heq, hown]
            exact hi
          · exact hi
        refine ⟨fun i ops' v hi => h.rows i ops' v (hsame i ops' v hi), fun i j ops₁ ops₂ v hi hj =>
          h.distinct i j ops₁ ops₂ v (hsame i ops₁ v hi) (hsame j ops₂ v hj), fun i ops' refs' description' v hi => ?_⟩
        rw [calls_setCall] at hi
        split at hi
        · cases hi
        · exact h.finite i ops' refs' description' v hi
      split
      · exact haccept
      · exact haccept
      · -- The call gives up its row before the row goes.
        rename_i message first rest
        have hfailed : (s.setCall call (.failed (.rootRefs s!"CAS root-refs failed: {message}"))).Inv :=
          h.setCall call rfl fun _ _ _ _ heq => by cases heq
        refine hfailed.setDeltas fun i ops' v hi => ?_
        have hother : i ≠ call ∧ (s.calls i).owns = some (ops', v) := by
          rw [calls_setCall] at hi
          split at hi
          · cases hi
          · rename_i hne
            exact ⟨hne, hi⟩
        have hv : v ≠ version := by
          rintro rfl
          exact hother.1 (h.distinct i call ops' ops v hother.2 hown)
        rw [PgDeltas.remove]
        split
        · rw [AList.lookup_erase_eq, if_neg hv]
          rfl
        · rfl
    · exact h
  | other seen version timestamp description =>
    simp only [LogState.step]
    split
    · rename_i deltas happend
      exact h.setDeltas (h.lookup_append happend)
    · exact h

end LogState

/-! ## The theorem -/

/-- In every state of every run, the version of an accepted call has one delta, in `since` and in `range`, and the operations
of that delta are the operations of the call exactly when no SBlob occurs in them. -/
theorem deltaLog_faithful_iff {cborg : Cborg} {deltas : PgDeltas} {events : List LogEvent} {s : LogState}
    (hs : s ∈ Machine.states (LogState.step cborg) (.start deltas) events) {call version : Nat} {ops : Operations}
    (hcall : s.calls call = .accepted ops version) :
    ∃ stored : Delta SValue,
      (∀ v < version, (s.deltas.since v).filter (fun d => d.version == version) = [stored]) ∧
      (∀ lo hi : Option Nat, (∀ v, lo = some v → v ≤ version) → (∀ v, hi = some v → version ≤ v) →
        (s.deltas.range lo hi).filter (fun d => d.version == version) = [stored]) ∧
      (sameItems ops.items stored.operations ↔ plainItems ops.items) := by
  have hinv : s.Inv := Machine.always_rule (fun _ e h => h.step e) (LogState.inv_start deltas) s hs
  have howns : (s.calls call).owns = some (ops, version) := by
    rw [hcall]
    rfl
  obtain ⟨row, hrow, hjson, hfinite⟩ := hinv.rows call ops version howns
  refine ⟨toDelta version row, fun v hv => ?_, fun lo hi hlo hhi => ?_, ?_⟩
  · exact select_filter_version hrow (decide_eq_true hv)
  · refine select_filter_version hrow ?_
    rw [Bool.and_eq_true]
    refine ⟨?_, ?_⟩
    · cases lo with
      | none => rfl
      | some v => exact decide_eq_true (hlo v rfl)
    · cases hi with
      | none => rfl
      | some v => exact decide_eq_true (hhi v rfl)
  · rw [jsonStringify, jsonb, Option.map_eq_some_iff] at hjson
    obtain ⟨items, hitems, heq⟩ := hjson
    have hback : (toDelta version row).operations = parseItems items := by
      rw [toDelta, ← heq]
      rfl
    rw [hback]
    exact parse_jsonbItems_same_iff ops.items ops.distinct hfinite items hitems

/-! ## A plain operation and an SBlob -/

/-- An operation without SBlobs. -/
def plainOps : Operations where
  items := [.object [("kind", .string "append"), ("text", .string "x")]]
  distinct := ⟨⟨by decide, trivial, trivial, trivial⟩, trivial⟩

/-- An operation with an SBlob. -/
def blobOps : Operations where
  items := [.object [("kind", .string "pixels"), ("pixels", .sblob someHash)]]
  distinct := ⟨⟨by decide, trivial, trivial, trivial⟩, trivial⟩

/-- A call that meets no obstacle. -/
def acceptedRun (ops : Operations) : List LogEvent := [.check 0 ops "" 0 true none, .append 0 0 1, .rootRefs 0 none 0]

/-- The state after that call, on an empty log. -/
def afterCall (ops : Operations) : LogState := Machine.final (LogState.step rfcCborg) (.start ∅) (acceptedRun ops)

theorem afterCall_mem (ops : Operations) :
    afterCall ops ∈ Machine.states (LogState.step rfcCborg) (.start ∅) (acceptedRun ops) :=
  Machine.final_mem_states _ _

theorem afterCall_plain : (afterCall plainOps).calls 0 = .accepted plainOps 1 := by
  rfl

theorem afterCall_blob : (afterCall blobOps).calls 0 = .accepted blobOps 1 := by
  rfl

/-- A plain operation is shown as it was given. -/
theorem deltaLog_faithful_plain :
    ∃ stored : Delta SValue, ((afterCall plainOps).deltas.since 0).filter (fun d => d.version == 1) = [stored] ∧
      sameItems plainOps.items stored.operations := by
  obtain ⟨stored, hsince, _, hsame⟩ := deltaLog_faithful_iff (afterCall_mem plainOps) afterCall_plain
  exact ⟨stored, hsince 0 (by decide), hsame.mpr ⟨⟨trivial, trivial, trivial⟩, trivial⟩⟩

/-- An accepted SBlob is shown as an object with a `hash`. -/
theorem deltaLog_faithful_false :
    ∃ s ∈ Machine.states (LogState.step rfcCborg) (.start ∅) (acceptedRun blobOps),
      s.calls 0 = .accepted blobOps 1 ∧ ∃ stored : Delta SValue, s.deltas.since 0 = [stored] ∧ stored.version = 1 ∧
        ¬ sameItems blobOps.items stored.operations := by
  refine ⟨afterCall blobOps, afterCall_mem blobOps, afterCall_blob, _, rfl, rfl, ?_⟩
  rintro ⟨⟨_, _, hpixels, _⟩, _⟩
  exact hpixels (.object [("hash", .string someHash.val)]) (List.mem_cons_of_mem _ List.mem_cons_self)

end UniDocs.Session
