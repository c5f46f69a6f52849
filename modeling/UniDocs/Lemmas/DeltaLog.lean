import UniDocs.Session.Ports

/-!
# A delta log without gaps

The conditional append keeps the versions of a log at exactly `1..n`. Over such a log `head`, `since` and `range` are
the length, a suffix and a segment of the list of deltas, and the removal of the head takes off the last delta.
-/

namespace UniDocs.Session

namespace Ports

variable {Op : Type} {p : Ports Op} {n : Nat}

/-- The versions of the log are `1..n`. -/
def Contiguous (p : Ports Op) (n : Nat) : Prop := p.deltas.map (·.version) = List.range' 1 n

theorem Contiguous.length (h : p.Contiguous n) : p.deltas.length = n := by
  have hl := congrArg List.length h
  simpa using hl

theorem Contiguous.version {i : Nat} {d : Delta Op} (h : p.Contiguous n) (hd : p.deltas[i]? = some d) : d.version = i + 1 := by
  have hi : (p.deltas.map (·.version))[i]? = some d.version := by simp [hd]
  have hlt : i < n := by
    rw [← h.length]
    exact (List.getElem?_eq_some_iff.mp hd).1
  rw [h, List.getElem?_range' hlt, Option.some.injEq] at hi
  omega

theorem foldl_max_version (l : List (Delta Op)) : ∀ k a, l.map (·.version) = List.range' (k + 1) l.length → a ≤ k →
    l.foldl (fun m d => max m d.version) a = if l = [] then a else k + l.length := by
  induction l with
  | nil => exact fun _ _ _ _ => rfl
  | cons d rest ih =>
    intro k a h ha
    simp only [List.map_cons, List.length_cons, List.range'_succ, List.cons.injEq] at h
    obtain ⟨hd, hrest⟩ := h
    have hmax : max a d.version = k + 1 := by omega
    rw [List.foldl_cons, hmax, ih (k + 1) (k + 1) hrest (Nat.le_refl _)]
    cases rest with
    | nil => simp
    | cons => simp only [reduceCtorEq, if_false, List.length_cons]; omega

theorem Contiguous.head (h : p.Contiguous n) : p.head = n := by
  have hl := h.length
  have hf := foldl_max_version p.deltas 0 0 (by rw [hl]; exact h) (Nat.le_refl _)
  rw [Ports.head, hf]
  split
  · rename_i hnil
    simpa [hnil] using hl
  · omega

theorem filter_after (l : List (Delta Op)) : ∀ k v, l.map (·.version) = List.range' (k + 1) l.length → k ≤ v →
    (l.filter fun d => decide (v < d.version)) = l.drop (v - k) := by
  induction l with
  | nil => intro k v _ _; simp
  | cons d rest ih =>
    intro k v h hk
    simp only [List.map_cons, List.length_cons, List.range'_succ, List.cons.injEq] at h
    obtain ⟨hd, hrest⟩ := h
    rcases Nat.eq_or_lt_of_le hk with rfl | hlt
    · have hall : ∀ x ∈ d :: rest, decide (k < x.version) = true := by
        intro x hx
        have hmem : x.version ∈ List.range' (k + 1) (rest.length + 1) := by
          rw [List.range'_succ, ← hrest, ← hd]
          exact List.mem_map_of_mem (f := Delta.version) hx
        obtain ⟨i, -, hi⟩ := List.mem_range'.mp hmem
        exact decide_eq_true (by omega)
      rw [List.filter_eq_self.mpr hall, Nat.sub_self, List.drop_zero]
    · have hskip : ¬ v < d.version := by omega
      have hsub : v - k = (v - (k + 1)) + 1 := by omega
      rw [List.filter_cons_of_neg (by simpa using hskip), hsub, List.drop_succ_cons]
      exact ih (k + 1) v hrest (by omega)

theorem Contiguous.since (h : p.Contiguous n) (v : Nat) : p.since v = p.deltas.drop v :=
  filter_after p.deltas 0 v (by rw [h.length]; exact h) (Nat.zero_le _)

theorem filter_upto (l : List (Delta Op)) : ∀ k v, l.map (·.version) = List.range' (k + 1) l.length →
    (l.filter fun d => decide (d.version ≤ v)) = l.take (v - k) := by
  induction l with
  | nil => intro k v _; simp
  | cons d rest ih =>
    intro k v h
    simp only [List.map_cons, List.length_cons, List.range'_succ, List.cons.injEq] at h
    obtain ⟨hd, hrest⟩ := h
    by_cases hv : d.version ≤ v
    · have hsub : v - k = (v - (k + 1)) + 1 := by omega
      rw [List.filter_cons_of_pos (by simpa using hv), hsub, List.take_succ_cons, ih (k + 1) v hrest]
    · have hsub : v - k = 0 := by omega
      have hnone : v - (k + 1) = 0 := by omega
      rw [List.filter_cons_of_neg (by simpa using hv), ih (k + 1) v hrest, hsub, hnone, List.take_zero, List.take_zero]

theorem Contiguous.range (h : p.Contiguous n) (lo hi : Nat) : p.range (lo + 1) hi = (p.deltas.take hi).drop lo := by
  have hl := h.length
  have htake : (p.deltas.take hi).map (·.version) = List.range' (0 + 1) (p.deltas.take hi).length := by
    rw [List.map_take, h, List.length_take, hl]
    rcases Nat.le_total n hi with hle | hle
    · rw [List.take_range'_of_length_le hle, Nat.min_eq_right hle]
    · rw [List.take_range'_of_length_ge hle, Nat.min_eq_left hle]
  have hafter := filter_after (p.deltas.take hi) 0 lo htake (Nat.zero_le _)
  have hupto := filter_upto p.deltas 0 hi (by rw [hl]; exact h)
  rw [Nat.sub_zero] at hafter hupto
  rw [← hafter, ← hupto, List.filter_filter, Ports.range]
  rfl

/-- A version is in the log when it is between the first and the head. -/
theorem Contiguous.range_self (h : p.Contiguous n) (v : Nat) : p.range v v ≠ [] ↔ ∃ i, v = i + 1 ∧ i < n := by
  constructor
  · intro hne
    obtain ⟨d, hd⟩ := List.exists_mem_of_ne_nil _ hne
    simp only [Ports.range, List.mem_filter, Bool.and_eq_true, decide_eq_true_eq] at hd
    obtain ⟨hmem, hlo, hhi⟩ := hd
    obtain ⟨i, hi, hdi⟩ := List.mem_iff_getElem.mp hmem
    have hv := h.version (List.getElem?_eq_some_iff.mpr ⟨hi, hdi⟩)
    have hn := h.length
    exact ⟨i, by omega, by omega⟩
  · rintro ⟨i, rfl, hi⟩ hnil
    rw [h.range, List.drop_eq_nil_iff, List.length_take, h.length] at hnil
    omega

theorem Contiguous.append {d : Delta Op} (h : p.Contiguous n) (hd : d.version = n + 1) :
    p.append d = .ok { p with deltas := p.deltas ++ [d] } := by
  rw [Ports.append, h.head, if_pos hd]

theorem Contiguous.snoc {d : Delta Op} (h : p.Contiguous n) (hd : d.version = n + 1) :
    Contiguous { p with deltas := p.deltas ++ [d] } (n + 1) := by
  show (p.deltas ++ [d]).map (·.version) = _
  rw [List.map_append, h, List.range'_concat, List.map_singleton, hd, Nat.one_mul, Nat.add_comm 1 n]

end Ports

end UniDocs.Session
