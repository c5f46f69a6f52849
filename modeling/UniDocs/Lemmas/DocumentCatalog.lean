import UniDocs.DocumentTypes.Service

/-!
# Fresh transitions keep the catalog consistent

One lemma for each kind of transition. An update and an append are computed from a registration, and what they keep of it is
consistent because it is the registration they replace.
-/

namespace UniDocs.DocumentTypes

variable {ports : Ports} {c c' : Catalog}

theorem consistent_created {registration : Registration} (h : Transition ports (.created registration) c c')
    (hc : c.Consistent ports) : c'.Consistent ports := by
  have htagged := Catalog.Tagged.transition h hc.etag
  have husable : ∀ {documentType representation}, c.Usable documentType representation → c'.Usable documentType representation :=
    fun hu => hu.transition h
  obtain ⟨hnone, hetag, hdisabled, hlatest, hcontract, createdAt, htype⟩ := h
  constructor
  case etag => exact htagged
  case columns =>
    intro documentType row hrow
    rw [htype] at hrow
    rcases update_cases hrow with ⟨rfl, rfl⟩ | ⟨_, hrow⟩
    · exact ⟨rfl, hdisabled.symm⟩
    · exact hc.columns documentType row hrow
  case orphan =>
    intro documentType n hnone'
    rw [hcontract]
    refine hc.orphan documentType n ?_
    by_cases hne : documentType = registration.representation.documentType
    · rw [hne]
      exact hnone
    · rwa [htype, Function.update_of_ne hne] at hnone'
  case bound =>
    intro documentType row hrow
    rw [htype] at hrow
    rcases update_cases hrow with ⟨rfl, rfl⟩ | ⟨_, hrow⟩
    · exact le_refl _
    · exact hc.bound documentType row hrow
  case indexes =>
    intro documentType row hrow n
    rw [htype] at hrow
    rw [hcontract]
    rcases update_cases hrow with ⟨rfl, rfl⟩ | ⟨_, hrow⟩
    · rw [hc.orphan _ n hnone]
      simp only [reduceCtorEq, exists_false, false_iff]
      omega
    · exact hc.indexes documentType row hrow n
  case hashes =>
    rw [hcontract]
    exact hc.hashes
  case latest =>
    intro documentType row hrow
    rw [htype] at hrow
    rw [hcontract]
    rcases update_cases hrow with ⟨rfl, rfl⟩ | ⟨_, hrow⟩
    · rw [hc.orphan _ _ hnone]
      exact hlatest
    · exact hc.latest documentType row hrow
  case enabled =>
    intro documentType row hrow henabled
    rw [htype] at hrow
    rcases update_cases hrow with ⟨rfl, rfl⟩ | ⟨_, hrow⟩
    · rw [hdisabled] at henabled
      cases henabled
    · exact husable (hc.enabled documentType row hrow henabled)

theorem consistent_updated {expectedEtag : String} {base registration : Registration} {old : DocumentType}
    (h : Transition ports (.updated expectedEtag base registration old) c c')
    (hfresh : base.representation = old.registration.representation) (hc : c.Consistent ports) : c'.Consistent ports := by
  have htagged := Catalog.Tagged.transition h hc.etag
  have husable : ∀ {documentType representation}, c.Usable documentType representation → c'.Usable documentType representation :=
    fun hu => hu.transition h
  obtain ⟨hold, _, _, hetag, hlatest, henabled', hcontract, htype⟩ := h
  constructor
  case etag => exact htagged
  case columns =>
    intro documentType row hrow
    rw [htype] at hrow
    rcases update_cases hrow with ⟨rfl, rfl⟩ | ⟨_, hrow⟩
    · exact ⟨rfl, rfl⟩
    · exact hc.columns documentType row hrow
  case orphan =>
    intro documentType n hnone
    rw [hcontract]
    refine hc.orphan documentType n ?_
    by_cases hne : documentType = registration.representation.documentType
    · rw [htype, hne, Function.update_self] at hnone
      cases hnone
    · rwa [htype, Function.update_of_ne hne] at hnone
  case bound =>
    intro documentType row hrow
    rw [htype] at hrow
    rcases update_cases hrow with ⟨rfl, rfl⟩ | ⟨_, hrow⟩
    · exact hc.bound _ old hold
    · exact hc.bound documentType row hrow
  case indexes =>
    intro documentType row hrow n
    rw [htype] at hrow
    rw [hcontract]
    rcases update_cases hrow with ⟨rfl, rfl⟩ | ⟨_, hrow⟩
    · exact hc.indexes _ old hold n
    · exact hc.indexes documentType row hrow n
  case hashes =>
    rw [hcontract]
    exact hc.hashes
  case latest =>
    intro documentType row hrow
    rw [htype] at hrow
    rw [hcontract]
    rcases update_cases hrow with ⟨rfl, rfl⟩ | ⟨_, hrow⟩
    · calc registration.representation.latestDocumentContract
          = old.registration.representation.latestDocumentContract := by rw [hlatest, hfresh]
        _ = _ := hc.latest _ old hold
    · exact hc.latest documentType row hrow
  case enabled =>
    intro documentType row hrow henabled
    rw [htype] at hrow
    rcases update_cases hrow with ⟨rfl, rfl⟩ | ⟨_, hrow⟩
    · exact husable (henabled' henabled)
    · exact husable (hc.enabled documentType row hrow henabled)

theorem consistent_appended {base registration : Registration} {record : DocumentContractRecord} {old : DocumentType}
    (h : Transition ports (.appended base registration record old) c c')
    (hfresh : base.representation = old.registration.representation) (hc : c.Consistent ports) : c'.Consistent ports := by
  have htagged := Catalog.Tagged.transition h hc.etag
  have husable : ∀ {documentType representation}, c.Usable documentType representation → c'.Usable documentType representation :=
    fun hu => hu.transition h
  obtain ⟨hold, _, _, hidx, ⟨timestamp, rfl⟩, hnew, hhash, ⟨createdAt, hcontract⟩, htype⟩ := h
  constructor
  case etag => exact htagged
  case columns =>
    intro documentType row hrow
    rw [htype] at hrow
    rcases update_cases hrow with ⟨rfl, rfl⟩ | ⟨_, hrow⟩
    · exact ⟨rfl, rfl⟩
    · exact hc.columns documentType row hrow
  case orphan =>
    intro documentType n hnone
    by_cases hne : documentType = record.documentType
    · rw [htype, hne, Function.update_self] at hnone
      cases hnone
    · rw [htype, Function.update_of_ne hne] at hnone
      rw [hcontract, Function.update_of_ne (fun heq => hne (congrArg Prod.fst heq))]
      exact hc.orphan documentType n hnone
  case bound =>
    intro documentType row hrow
    rw [htype] at hrow
    rcases update_cases hrow with ⟨rfl, rfl⟩ | ⟨_, hrow⟩
    · have hbound := hc.bound _ old hold
      simp only [hidx]
      omega
    · exact hc.bound documentType row hrow
  case indexes =>
    intro documentType row hrow n
    rw [htype] at hrow
    rcases update_cases hrow with ⟨rfl, rfl⟩ | ⟨hne, hrow⟩
    · have hbound := hc.bound _ old hold
      have hbefore := hc.indexes _ old hold n
      simp only [hcontract, hidx]
      by_cases hn : n = old.lastContractIdx + 1
      · subst hn
        simp only [Function.update_self, Option.some.injEq, exists_eq', true_iff]
        omega
      · rw [Function.update_of_ne (fun heq => hn (congrArg Prod.snd heq)), hbefore]
        omega
    · rw [hcontract, Function.update_of_ne (fun heq => hne (congrArg Prod.fst heq))]
      exact hc.indexes documentType row hrow n
  case hashes =>
    intro documentType m n a b ha hb hab
    rw [hcontract] at ha hb
    rcases update_cases ha with ⟨hm, rfl⟩ | ⟨_, ha⟩
    · rcases update_cases hb with ⟨hn, rfl⟩ | ⟨_, hb⟩
      · exact congrArg Prod.snd (hm.trans hn.symm)
      · obtain rfl : documentType = record.documentType := congrArg Prod.fst hm
        exact absurd hab.symm (hhash n b hb)
    · rcases update_cases hb with ⟨hn, rfl⟩ | ⟨_, hb⟩
      · obtain rfl : documentType = record.documentType := congrArg Prod.fst hn
        exact absurd hab (hhash m a ha)
      · exact hc.hashes documentType m n a b ha hb hab
  case latest =>
    intro documentType row hrow
    rw [htype] at hrow
    rcases update_cases hrow with ⟨rfl, rfl⟩ | ⟨hne, hrow⟩
    · rw [hcontract, Function.update_self]
      rfl
    · rw [hcontract, Function.update_of_ne (fun heq => hne (congrArg Prod.fst heq))]
      exact hc.latest documentType row hrow
  case enabled =>
    intro documentType row hrow henabled
    rw [htype] at hrow
    rcases update_cases hrow with ⟨rfl, rfl⟩ | ⟨_, hrow⟩
    · have hwas : old.registration.representation.enabled = true := by
        rw [← hfresh]
        exact henabled
      obtain ⟨card, view, operator, idx, contract, hcard, hview, hoperator, hrest⟩ := husable (hc.enabled _ old hold hwas)
      rw [← hfresh] at hcard hview hoperator
      exact ⟨card, view, operator, idx, contract, hcard, hview, hoperator, hrest⟩
    · exact husable (hc.enabled documentType row hrow henabled)

theorem Catalog.Consistent.transition {e : Entry} (hfresh : e.Fresh) (h : Transition ports e c c') (hc : c.Consistent ports) :
    c'.Consistent ports := by
  cases e with
  | created registration => exact consistent_created h hc
  | updated expectedEtag base registration old => exact consistent_updated h hfresh hc
  | appended base registration record old => exact consistent_appended h hfresh hc
  | elsewhere =>
    rw [show c' = c from h]
    exact hc

end UniDocs.DocumentTypes
