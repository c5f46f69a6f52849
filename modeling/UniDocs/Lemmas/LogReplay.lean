import UniDocs.Lemmas.SessionHistory

/-!
# Replay of the delta log

`replay` is the document that the log gives for a version: the first version's recorded document, and the operations of
the deltas after it. Ports are `Coherent` when every cached or recorded snapshot holds the replay of its version. The
lemmas say what each write to the ports does to both.
-/

namespace UniDocs.Session

open Lib

section Replay

variable {Doc Op : Type}

/-- The document of version 1, whose delta carries no operations. -/
def firstDocument (dt : DocumentType Doc Op) (p : Ports Op) : Option Doc :=
  match p.snapshotRefs.lookup 1 with
  | none => none
  | some hash =>
    match p.blobs.lookup hash with
    | none => none
    | some bytes => (dt.decodeSValue bytes).toOption

/-- The document obtained by replaying the log's versions up to `v`. -/
def replay (dt : DocumentType Doc Op) (p : Ports Op) (v : Nat) : Option Doc :=
  if (p.range v v).isEmpty then none
  else (firstDocument dt p).bind fun doc => (replayOnto dt (p.range 2 v) doc).toOption

/-- Every snapshot holds the replay of its version. -/
structure Coherent (dt : DocumentType Doc Op) (p : Ports Op) : Prop where
  log : p.Contiguous p.deltas.length
  defined : ∀ v, 1 ≤ v → v ≤ p.deltas.length → ∃ doc, replay dt p v = some doc
  cache : ∀ v bytes, p.cache = some (v, bytes) → ∃ doc, replay dt p v = some doc ∧ dt.decodeSValue bytes = .ok doc
  snapshots : ∀ v hash, p.snapshotRefs.lookup v = some hash → ∃ doc, replay dt p v = some doc ∧ Stored dt p hash doc

variable {dt : DocumentType Doc Op} {p p' : Ports Op} {n v : Nat} {doc : Doc}

theorem replay_bounds (h : p.Contiguous n) (hr : replay dt p v = some doc) : 1 ≤ v ∧ v ≤ n := by
  rw [replay] at hr
  split at hr
  · cases hr
  · rename_i hne
    obtain ⟨i, rfl, hi⟩ := (h.range_self v).mp fun hnil => hne (by rw [hnil]; rfl)
    omega

theorem replay_eq (h : p.Contiguous n) (h1 : 1 ≤ v) (hv : v ≤ n) :
    replay dt p v = (firstDocument dt p).bind fun doc => (replayOnto dt ((p.deltas.take v).drop 1) doc).toOption := by
  have hne : p.range v v ≠ [] := (h.range_self v).mpr ⟨v - 1, by omega, by omega⟩
  rw [replay, if_neg (by simpa using hne), h.range 1 v]

theorem replay_none (h : p.Contiguous n) (hv : v = 0 ∨ n < v) : replay dt p v = none := by
  cases hr : replay dt p v with
  | none => rfl
  | some doc =>
    have hb := replay_bounds h hr
    omega

theorem replay_congr {n' : Nat} (h : p.Contiguous n) (h' : p'.Contiguous n') (hv : v ≤ n) (hv' : v ≤ n')
    (hd : p'.deltas.take v = p.deltas.take v) (hf : firstDocument dt p' = firstDocument dt p) :
    replay dt p' v = replay dt p v := by
  rcases Nat.eq_zero_or_pos v with rfl | hpos
  · rw [replay_none h (.inl rfl), replay_none h' (.inl rfl)]
  · rw [replay_eq h hpos hv, replay_eq h' hpos hv', hd, hf]

theorem replay_one (h : p.Contiguous n) (hn : 1 ≤ n) : replay dt p 1 = firstDocument dt p := by
  have hnil : (p.deltas.take 1).drop 1 = [] := by
    rw [List.drop_eq_nil_iff, List.length_take]
    omega
  rw [replay_eq h (Nat.le_refl _) hn, hnil]
  cases firstDocument dt p <;> rfl

theorem replay_next {delta : Delta Op} (h : p.Contiguous n) (hr : replay dt p v = some doc) (hd : p.deltas[v]? = some delta) :
    replay dt p (v + 1) = (dt.apply delta.operations doc).toOption := by
  obtain ⟨h1, hv⟩ := replay_bounds h hr
  have hlt : v < n := by
    rw [← h.length]
    exact (List.getElem?_eq_some_iff.mp hd).1
  have hsplit : (p.deltas.take (v + 1)).drop 1 = (p.deltas.take v).drop 1 ++ [delta] := by
    rw [List.take_add_one, hd, Option.toList_some, List.drop_append_of_le_length]
    rw [List.length_take, h.length]
    omega
  rw [replay_eq h h1 hv] at hr
  rw [replay_eq h (by omega) hlt, hsplit]
  cases hf : firstDocument dt p with
  | none =>
    rw [hf] at hr
    cases hr
  | some first =>
    rw [hf] at hr
    simp only [Option.bind_some, replayOnto_append] at hr ⊢
    cases hm : replayOnto dt ((p.deltas.take v).drop 1) first with
    | error e =>
      rw [hm] at hr
      cases hr
    | ok mid =>
      rw [hm] at hr
      cases hr
      simp only [replayOnto]
      cases dt.apply delta.operations doc <;> rfl

/-! ## Writes -/

theorem Coherent.firstDocument_congr (h : Coherent dt p) (hs : p'.snapshotRefs = p.snapshotRefs)
    (hb : ∀ hash bytes, p.blobs.lookup hash = some bytes → p'.blobs.lookup hash = some bytes) :
    firstDocument dt p' = firstDocument dt p := by
  rw [firstDocument, firstDocument, hs]
  cases hl : p.snapshotRefs.lookup 1 with
  | none => rfl
  | some hash =>
    obtain ⟨doc, -, bytes, hbytes, -⟩ := h.snapshots 1 hash hl
    simp only [hbytes, hb hash bytes hbytes]

/-- A write that leaves the log and the records alone. -/
theorem Coherent.congr {q : Ports Op} (h : Coherent dt p) (hd : q.deltas = p.deltas) (hs : q.snapshotRefs = p.snapshotRefs)
    (hb : ∀ hash bytes, p.blobs.lookup hash = some bytes → q.blobs.lookup hash = some bytes)
    (hc : ∀ v bytes, q.cache = some (v, bytes) → ∃ doc, replay dt p v = some doc ∧ dt.decodeSValue bytes = .ok doc) :
    Coherent dt q ∧ ∀ v, replay dt q v = replay dt p v := by
  have hlog : q.Contiguous p.deltas.length := by
    rw [Ports.Contiguous, hd]
    exact h.log
  have hsame : ∀ v, replay dt q v = replay dt p v := by
    intro v
    rcases Nat.lt_or_ge p.deltas.length v with hlt | hle
    · rw [replay_none h.log (.inr hlt), replay_none hlog (.inr hlt)]
    · exact replay_congr h.log hlog hle hle (by rw [hd]) (h.firstDocument_congr hs hb)
  refine ⟨⟨by rw [hd]; exact hlog, ?_, ?_, ?_⟩, hsame⟩
  · intro v h1 hv
    rw [hsame]
    exact h.defined v h1 (hd ▸ hv)
  · intro v bytes hv
    rw [hsame]
    exact hc v bytes hv
  · intro v hash hv
    rw [hs] at hv
    obtain ⟨doc, hr, bytes, hbytes, hdec⟩ := h.snapshots v hash hv
    exact ⟨doc, by rw [hsame, hr], bytes, hb hash bytes hbytes, hdec⟩

theorem Coherent.append {delta : Delta Op} {cur : Doc} (h : Coherent dt p) (hv : delta.version = p.deltas.length + 1)
    (hcur : replay dt p p.deltas.length = some cur) (happ : dt.apply delta.operations cur = .ok doc) :
    Coherent dt { p with deltas := p.deltas ++ [delta] } ∧
      (∀ v, v ≤ p.deltas.length → replay dt { p with deltas := p.deltas ++ [delta] } v = replay dt p v) ∧
      replay dt { p with deltas := p.deltas ++ [delta] } (p.deltas.length + 1) = some doc := by
  have hlog := h.log.snoc hv
  have hsame : ∀ v, v ≤ p.deltas.length → replay dt { p with deltas := p.deltas ++ [delta] } v = replay dt p v := by
    intro v hle
    exact replay_congr h.log hlog hle (by omega) (List.take_append_of_le_length hle) rfl
  have hnew : replay dt { p with deltas := p.deltas ++ [delta] } (p.deltas.length + 1) = some doc := by
    have hcur' : replay dt { p with deltas := p.deltas ++ [delta] } p.deltas.length = some cur := by
      rw [hsame _ (Nat.le_refl _), hcur]
    have hget : (p.deltas ++ [delta])[p.deltas.length]? = some delta := by simp
    rw [replay_next hlog hcur' hget, happ]
    rfl
  refine ⟨⟨by simpa using hlog, ?_, ?_, ?_⟩, hsame, hnew⟩
  · intro v h1 hle
    rcases Nat.lt_or_ge p.deltas.length v with hlt | hold
    · have hlen : (p.deltas ++ [delta]).length = p.deltas.length + 1 := by simp
      have heq : v = p.deltas.length + 1 := by
        simp only [hlen] at hle
        omega
      exact ⟨doc, heq ▸ hnew⟩
    · rw [hsame v hold]
      exact h.defined v h1 hold
  · intro v bytes hc
    obtain ⟨d, hr, hdec⟩ := h.cache v bytes hc
    exact ⟨d, by rw [hsame v (replay_bounds h.log hr).2, hr], hdec⟩
  · intro v hash hs
    obtain ⟨d, hr, hst⟩ := h.snapshots v hash hs
    exact ⟨d, by rw [hsame v (replay_bounds h.log hr).2, hr], hst⟩

theorem Coherent.create {delta : Delta Op} {hash : Hash} (h : Coherent dt p) (hnil : p.deltas = [])
    (hv : delta.version = 1) (hst : Stored dt p hash doc) :
    Coherent dt (Ports.recordSnapshot { p with deltas := p.deltas ++ [delta] } 1 hash) ∧
      replay dt (Ports.recordSnapshot { p with deltas := p.deltas ++ [delta] } 1 hash) 1 = some doc := by
  have hlen : p.deltas.length = 0 := by rw [hnil]; rfl
  have hlog : Ports.Contiguous (Ports.recordSnapshot { p with deltas := p.deltas ++ [delta] } 1 hash) 1 := by
    have hsnoc := h.log.snoc (d := delta) (by rw [hlen]; exact hv)
    rw [hlen] at hsnoc
    exact hsnoc
  have hnone : ∀ v doc, replay dt p v ≠ some doc := by
    intro v doc hr
    have hb := replay_bounds h.log hr
    omega
  obtain ⟨bytes, hbytes, hdec⟩ := hst
  have hone : replay dt (Ports.recordSnapshot { p with deltas := p.deltas ++ [delta] } 1 hash) 1 = some doc := by
    rw [replay_one hlog (Nat.le_refl _), firstDocument]
    simp only [Ports.recordSnapshot, AList.lookup_insert, hbytes, hdec]
    rfl
  refine ⟨⟨by simpa [Ports.recordSnapshot, hnil] using hlog, ?_, ?_, ?_⟩, hone⟩
  · intro v h1 hle
    have heq : v = 1 := by
      simp only [Ports.recordSnapshot, hnil, List.nil_append, List.length_singleton] at hle
      omega
    exact ⟨doc, heq ▸ hone⟩
  · intro v b hc
    obtain ⟨d, hr, -⟩ := h.cache v b hc
    exact absurd hr (hnone v d)
  · intro v hash' hs
    simp only [Ports.recordSnapshot, AList.lookup_insert_eq] at hs
    split at hs
    · rename_i hv1
      subst hv1
      obtain rfl := Option.some.inj hs
      exact ⟨doc, hone, bytes, hbytes, hdec⟩
    · obtain ⟨d, hr, -⟩ := h.snapshots v hash' hs
      exact absurd hr (hnone v d)

theorem Coherent.record {hash : Hash} (h : Coherent dt p) (hr : replay dt p v = some doc) (hst : Stored dt p hash doc) :
    Coherent dt (p.recordSnapshot v hash) ∧ ∀ w, replay dt (p.recordSnapshot v hash) w = replay dt p w := by
  have hbounds := replay_bounds h.log hr
  have hfirst : firstDocument dt (p.recordSnapshot v hash) = firstDocument dt p := by
    obtain ⟨bytes, hbytes, hdec⟩ := hst
    by_cases hv : v = 1
    · subst hv
      rw [← replay_one h.log hbounds.2, hr, firstDocument]
      simp only [Ports.recordSnapshot, AList.lookup_insert, hbytes, hdec]
      rfl
    · rw [firstDocument, firstDocument]
      simp only [Ports.recordSnapshot, AList.lookup_insert_ne (Ne.symm hv)]
  have hlog : (p.recordSnapshot v hash).Contiguous p.deltas.length := h.log
  have hsame : ∀ w, replay dt (p.recordSnapshot v hash) w = replay dt p w := by
    intro w
    rcases Nat.lt_or_ge p.deltas.length w with hlt | hle
    · rw [replay_none h.log (.inr hlt), replay_none hlog (.inr hlt)]
    · exact replay_congr h.log hlog hle hle rfl hfirst
  refine ⟨⟨hlog, ?_, ?_, ?_⟩, hsame⟩
  · intro w h1 hw
    rw [hsame]
    exact h.defined w h1 hw
  · intro w bytes hc
    rw [hsame]
    exact h.cache w bytes hc
  · intro w hash' hs
    rw [hsame]
    simp only [Ports.recordSnapshot, AList.lookup_insert_eq] at hs
    split at hs
    · rename_i hw
      subst hw
      obtain rfl := Option.some.inj hs
      exact ⟨doc, hr, hst⟩
    · exact h.snapshots w hash' hs

/-- The head comes off a log without gaps. -/
theorem remove_deltas (h : p.Contiguous p.deltas.length) (hhead : p.head = v) :
    (p.remove v).deltas = p.deltas.take (v - 1) := by
  have hlen : p.deltas.length = v := by rw [← hhead, h.head]
  have hupto := Ports.filter_upto p.deltas 0 (v - 1) h
  rw [Ports.remove, if_pos hhead]
  rw [Nat.sub_zero] at hupto
  rw [← hupto]
  refine List.filter_congr ?_
  intro d hd
  obtain ⟨i, hi, hdi⟩ := List.mem_iff_getElem.mp hd
  have hver := h.version (List.getElem?_eq_some_iff.mpr ⟨hi, hdi⟩)
  by_cases hv : d.version = v
  · have hgt : ¬ d.version ≤ v - 1 := by omega
    rw [decide_eq_false hgt, hv, bne_self_eq_false]
  · have hle : d.version ≤ v - 1 := by omega
    rw [decide_eq_true hle, bne_iff_ne.mpr hv]

theorem Coherent.remove (h : Coherent dt p) (hhead : p.head = v) (hv : 1 ≤ v)
    (hc : ∀ w bytes, p.cache = some (w, bytes) → w < v) (hs : p.snapshotRefs.lookup v = none) :
    Coherent dt (p.remove v) ∧ (p.remove v).deltas.length = v - 1 ∧ ∀ w, w < v → replay dt (p.remove v) w = replay dt p w := by
  have hlen : p.deltas.length = v := by rw [← hhead, h.log.head]
  have hdeltas := remove_deltas h.log hhead
  have hrefs : (p.remove v).snapshotRefs = p.snapshotRefs := by
    rw [Ports.remove]
    split <;> rfl
  have hblobs : (p.remove v).blobs = p.blobs := by
    rw [Ports.remove]
    split <;> rfl
  have hcache : (p.remove v).cache = p.cache := by
    rw [Ports.remove]
    split <;> rfl
  have hlen' : (p.remove v).deltas.length = v - 1 := by
    rw [hdeltas, List.length_take]
    omega
  have hlog : (p.remove v).Contiguous (v - 1) := by
    have hl := h.log
    rw [Ports.Contiguous] at hl ⊢
    rw [hdeltas, List.map_take, hl, List.take_range'_of_length_ge (by omega)]
  have hfirst : firstDocument dt (p.remove v) = firstDocument dt p :=
    h.firstDocument_congr hrefs fun _ _ hb => hblobs ▸ hb
  have hsame : ∀ w, w < v → replay dt (p.remove v) w = replay dt p w := by
    intro w hw
    refine replay_congr h.log hlog (by omega) (by omega) ?_ hfirst
    rw [hdeltas, List.take_take, Nat.min_eq_left (by omega)]
  refine ⟨⟨by rw [hlen']; exact hlog, ?_, ?_, ?_⟩, hlen', hsame⟩
  · intro w h1 hw
    rw [hsame w (by omega)]
    exact h.defined w h1 (by omega)
  · intro w bytes hw
    rw [hcache] at hw
    rw [hsame w (hc w bytes hw)]
    exact h.cache w bytes hw
  · intro w hash hw
    rw [hrefs] at hw
    obtain ⟨doc, hr, bytes, hbytes, hdec⟩ := h.snapshots w hash hw
    have hne : w ≠ v := by
      rintro rfl
      rw [hs] at hw
      cases hw
    have hb := replay_bounds h.log hr
    exact ⟨doc, by rw [hsame w (by omega), hr], bytes, hblobs ▸ hbytes, hdec⟩

end Replay

end UniDocs.Session
