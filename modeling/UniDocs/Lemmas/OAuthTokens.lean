import UniDocs.Lemmas.OAuthJournal

/-!
# The statements on refresh tokens

The grant of a family, the rotation of a token, the fence after a replay, the revocation and the cleanup. A rotation that
succeeds has found its token not consumed in a live family; cleanup deletes the tokens of a family together, since they end
at the same time.
-/

/-!
## The statements of the OAuth stores

Each statement keeps the agreement of the tables with the journal and the fences of dead families, and the lemma about it says
what the call that ran it has written then. Fresh random values are not in the tables, so nothing that is put under one of
them is refused.
-/

namespace UniDocs.OAuth

open Lib Lib.Journal

variable {ports : Ports} {base : String × String → Prop} {s : State} {i : Nat}

theorem mem_append_ne {x y : Nat × Entry} {journal : List (Nat × Entry)} (h : x ≠ y) :
    x ∈ journal ++ [y] ↔ x ∈ journal := by
  rw [List.mem_append, List.mem_singleton]
  exact ⟨fun hx => hx.resolve_right h, .inl⟩

/-! ## Entries -/

theorem Inv.story_write (h : Inv ports base s) {es : List Entry} {e : Entry} (hown : own i s.journal = es)
    (hstory : Story ports i (es ++ [e])) : ∀ j, Story ports j (own j (s.journal ++ [(i, e)])) := by
  intro j
  rw [own_append_singleton]
  split
  · rename_i hij
    rw [← hij, hown]
    exact hstory
  · exact h.story j

/-- What was granted stays granted. -/
theorem Known.mono {journal journal' : List (Nat × Entry)} (hsub : ∀ x ∈ journal, x ∈ journal') {familyId : String}
    (h : Known journal familyId) : Known journal' familyId := by
  obtain ⟨k, code, token, hm, hf⟩ := h
  exact ⟨k, code, token, hsub _ hm, hf⟩

theorem Founded.mono {journal journal' : List (Nat × Entry)} (hsub : ∀ x ∈ journal, x ∈ journal') {token : StoredToken}
    (h : Founded journal token) : Founded journal' token := by
  obtain ⟨k, code, first, hm, hf⟩ := h
  exact ⟨k, code, first, hsub _ hm, hf⟩

theorem Born.mono {journal journal' : List (Nat × Entry)} (hsub : ∀ x ∈ journal, x ∈ journal') {token : StoredToken}
    (h : Born journal token) : Born journal' token := by
  rcases h with ⟨k, code, hm⟩ | ⟨k, current, hm⟩
  · exact .inl ⟨k, code, hsub _ hm⟩
  · exact .inr ⟨k, current, hsub _ hm⟩

theorem TokensOk.append {journal : List (Nat × Entry)} {families : Table String Family} {tokens : Table String RefreshRow}
    (h : TokensOk journal families tokens) {e : Entry} (hrotated : ∀ current next, e ≠ .rotated current next)
    (hrefused : ∀ row, e = .refused (some row) → row.consumedAt ≠ none → tokens.lookup row.tokenHash = some row ∧
      Born journal row.toStoredToken ∧ Known journal row.familyId) : TokensOk (journal ++ [(i, e)]) families tokens := by
  have hsub : ∀ x ∈ journal, x ∈ journal ++ [(i, e)] := fun x hx => List.mem_append_left _ hx
  have hrot : ∀ {j current next}, (j, Entry.rotated current next) ∈ journal ++ [(i, e)] ↔ (j, .rotated current next) ∈ journal :=
    fun {j current next} => mem_append_ne fun heq => hrotated current next (Prod.mk.inj heq).2.symm
  constructor
  · exact fun k row hrow => ⟨(h.row k row hrow).1, (h.row k row hrow).2.mono hsub⟩
  · exact fun j current next hm =>
      ⟨(h.lineage j current next (hrot.mp hm)).1.mono hsub, (h.lineage j current next (hrot.mp hm)).2.mono hsub⟩
  · exact fun k row hrow hnone j current next hm => h.unspent k row hrow hnone j current next (hrot.mp hm)
  · intro k row h' hrow hnext
    obtain ⟨j, current, next, hm, hh⟩ := h.successor k row h' hrow hnext
    exact ⟨j, current, next, hsub _ hm, hh⟩
  · exact fun j j' c n c' n' hm hm' => h.once j j' c n c' n' (hrot.mp hm) (hrot.mp hm')
  · exact h.single
  · exact h.peopled
  · exact h.joined
  · intro j row hm hconsumed
    rcases List.mem_append.mp hm with hm | hm
    · obtain ⟨hknown, hrest⟩ := h.refused j row hm hconsumed
      exact ⟨⟨hknown.1.mono hsub, hknown.2.mono hsub⟩, hrest⟩
    · obtain ⟨-, rfl⟩ := Prod.mk.inj (List.mem_singleton.mp hm)
      obtain ⟨hrow, hborn, hknown⟩ := hrefused row rfl hconsumed
      exact ⟨⟨hborn.mono hsub, hknown.mono hsub⟩, .inl ⟨row, hrow, rfl, hconsumed⟩⟩

theorem TokensOk.write {journal : List (Nat × Entry)} {families : Table String Family} {tokens : Table String RefreshRow}
    (h : TokensOk journal families tokens) {e : Entry} (hrotated : ∀ current next, e ≠ .rotated current next)
    (hrefused : ∀ found, e ≠ .refused found) : TokensOk (journal ++ [(i, e)]) families tokens :=
  h.append hrotated fun _ he => absurd he (hrefused _)

theorem MembersOk.write {journal : List (Nat × Entry)} {memberships : Table (String × String) Membership}
    (h : MembersOk base journal memberships) {e : Entry} (happroved : ∀ t u m c, e ≠ .approved t u m c) :
    MembersOk base (journal ++ [(i, e)]) memberships where
  row k hk := by
    rcases h.row k hk with hbase | ⟨j, email, hm⟩
    · exact .inl hbase
    · exact .inr ⟨j, email, List.mem_append_left _ hm⟩
  approved j t u m c hm :=
    h.approved j t u m c ((mem_append_ne fun heq => happroved t u m c (Prod.mk.inj heq).2.symm).mp hm)

/-- The tables stay as they are when a statement writes an entry about something else. -/
theorem Inv.write (h : Inv ports base s) {es : List Entry} {e : Entry} (hown : own i s.journal = es)
    (hstory : Story ports i (es ++ [e])) (hkind : (∃ p m t, e = .provisioned p m t) ∨ ∃ f a, e = .issued f a) :
    Inv ports base (s.write i e) := by
  refine ⟨h.story_write hown hstory, ?_, ?_, ?_, ?_⟩
  · refine h.transactions.congr ?_ ?_ <;> intro j t <;> refine (mem_append_ne ?_).symm <;>
      rcases hkind with ⟨_, _, _, rfl⟩ | ⟨_, _, rfl⟩ <;> simp
  · refine h.codes.congr ?_ ?_
    · intro j c
      have hiff : ∀ t p m, ((j, Entry.approved t p m c) ∈ s.journal ++ [(i, e)] ↔ (j, .approved t p m c) ∈ s.journal) := by
        intro t p m
        refine mem_append_ne ?_
        rcases hkind with ⟨_, _, _, rfl⟩ | ⟨_, _, rfl⟩ <;> simp
      simp only [State.write, hiff]
    · intro j c
      refine (mem_append_ne ?_).symm
      rcases hkind with ⟨_, _, _, rfl⟩ | ⟨_, _, rfl⟩ <;> simp
  · refine h.tokens.write ?_ ?_ <;> rcases hkind with ⟨_, _, _, rfl⟩ | ⟨_, _, rfl⟩ <;> simp
  · refine h.members.write ?_
    rcases hkind with ⟨_, _, _, rfl⟩ | ⟨_, _, rfl⟩ <;> simp

theorem Fences.of_families {s s' : State} {es : List (Nat × Entry)} (hjournal : s'.journal = s.journal ++ es)
    (hrotated : ∀ j current next, (j, .rotated current next) ∉ es)
    (hfamilies : ∀ f, Known s.journal f → ∀ row, s'.families.lookup f = some row →
      row.revoked = true ∨ s.families.lookup f = some row)
    (hmembers : ∀ k, k ∈ s.memberships → k ∈ s'.memberships) : Fences s s' := by
  refine ⟨⟨es, hjournal, fun f _ j current next hm => absurd hm (hrotated j current next)⟩, ?_, hmembers⟩
  rintro f ⟨hknown, hrevoked⟩
  refine ⟨hknown.mono (fun x hx => by rw [hjournal]; exact List.mem_append_left _ hx), fun row hrow => ?_⟩
  rcases hfamilies f hknown row hrow with h | h
  · exact h
  · exact hrevoked row h

theorem Fences.of_same {s s' : State} (hjournal : s'.journal = s.journal)
    (hfamilies : ∀ f, Known s.journal f → ∀ row, s'.families.lookup f = some row →
      row.revoked = true ∨ s.families.lookup f = some row)
    (hmembers : ∀ k, k ∈ s.memberships → k ∈ s'.memberships) : Fences s s' := by
  have hempty : s'.journal = s.journal ++ [] := by rw [hjournal, List.append_nil]
  exact Fences.of_families hempty (by simp) hfamilies hmembers

theorem Fences.write {s s' : State} {e : Entry} (hjournal : s'.journal = s.journal ++ [(i, e)])
    (hrotated : ∀ current next, e ≠ .rotated current next) (hfamilies : s'.families = s.families)
    (hmembers : ∀ k, k ∈ s.memberships → k ∈ s'.memberships) : Fences s s' := by
  refine Fences.of_families hjournal ?_ ?_ hmembers
  · intro j current next hm
    exact hrotated current next (Prod.mk.inj (List.mem_singleton.mp hm)).2.symm
  · intro f _ row hrow
    rw [hfamilies] at hrow
    exact .inr hrow

/-! ## Memberships, transactions and codes -/

theorem insertMembership_spec (h : Inv ports base s) (hown : own i s.journal = []) (principalId : String) (email : Option String) :
    Inv ports base (s.insertMembership i principalId email (defaultTenantId principalId email))
      ∧ Fences s (s.insertMembership i principalId email (defaultTenantId principalId email))
      ∧ own i (s.insertMembership i principalId email (defaultTenantId principalId email)).journal
        = [.provisioned principalId email (defaultTenantId principalId email)] := by
  have hkind := h.write (e := .provisioned principalId email (defaultTenantId principalId email)) hown
    (.provisioned principalId email) (.inl ⟨_, _, _, rfl⟩)
  have hgrows : ∀ k, k ∈ s.memberships →
      k ∈ (s.insertMembership i principalId email (defaultTenantId principalId email)).memberships := by
    intro k hk
    simp only [State.insertMembership, State.write]
    split
    · exact hk
    · exact (AList.mem_insert _).mpr (.inr hk)
  have hmembers : MembersOk base (s.insertMembership i principalId email (defaultTenantId principalId email)).journal
      (s.insertMembership i principalId email (defaultTenantId principalId email)).memberships := by
    refine ⟨fun k hk => ?_, fun j t u m c hm => hgrows _ (hkind.members.approved j t u m c hm)⟩
    simp only [State.insertMembership, State.write] at hk
    split at hk
    · exact hkind.members.row k hk
    · rcases (AList.mem_insert _).mp hk with rfl | hk
      · exact .inr ⟨i, email, by simp [State.insertMembership, State.write]⟩
      · exact hkind.members.row k hk
  refine ⟨⟨hkind.story, hkind.transactions, hkind.codes, hkind.tokens, hmembers⟩, Fences.write rfl (by simp) rfl hgrows, ?_⟩
  show own i (s.journal ++ [_]) = _
  rw [own_append_singleton, if_pos rfl, hown]
  rfl

theorem putTransaction_spec (hideal : ports.Ideal) (h : Inv ports base s) {es : List Entry} (hown : own i s.journal = es)
    (hes : es = [] ∨ ∃ p e, es = [.provisioned p e (defaultTenantId p e)]) {transaction : Transaction}
    (hid : transaction.transactionId = ports.opaqueValue i 0) :
    (s.putTransaction i transaction).2 = true ∧ Inv ports base (s.putTransaction i transaction).1
      ∧ Fences s (s.putTransaction i transaction).1
      ∧ (s.putTransaction i transaction).1.journal = s.journal ++ [(i, .started transaction)] := by
  have hfresh : ∀ j t, (j, Entry.started t) ∈ s.journal → t.transactionId ≠ transaction.transactionId := by
    intro j t hm heq
    obtain ⟨hstory, hmem⟩ := h.story_of hm
    obtain ⟨rfl, _⟩ := hideal.random ((hstory.of_started hmem).symm.trans (heq.trans hid))
    rw [hown] at hmem
    rcases hes with rfl | ⟨p, e, rfl⟩ <;> simp at hmem
  have hnew : transaction.transactionId ∉ s.transactions := by
    intro hmem
    obtain ⟨⟨t, used⟩, hrow⟩ := AList.mem_iff_lookup.mp hmem
    obtain ⟨hkey, j, hj⟩ := h.transactions.row _ t used hrow
    exact hfresh j t hj hkey
  have hstory : Story ports i (es ++ [.started transaction]) := by
    rcases hes with rfl | ⟨p, e, rfl⟩
    · exact .started transaction hid
    · exact .provisionedStarted p e transaction hid
  rw [State.putTransaction, if_neg hnew]
  refine ⟨rfl, ⟨h.story_write hown hstory, ?_, ?_, ?_, h.members.write (by simp)⟩, Fences.write rfl (by simp) rfl fun _ hk => hk, rfl⟩
  · refine (h.transactions.insert (i := i) hfresh).congr ?_ ?_
    · intro j t
      simp [State.write]
    · intro j t
      exact (mem_append_ne (by simp)).symm
  · refine h.codes.congr ?_ ?_
    · intro j c
      simp [State.write]
    · intro j c
      exact (mem_append_ne (by simp)).symm
  · exact h.tokens.write (by simp) (by simp)

theorem takeTransaction_spec (h : Inv ports base s) (hown : own i s.journal = []) (transactionId : String) :
    Inv ports base (s.takeTransaction i transactionId).1 ∧ Fences s (s.takeTransaction i transactionId).1
      ∧ (((s.takeTransaction i transactionId).2 = none ∧ (s.takeTransaction i transactionId).1 = s)
        ∨ ∃ transaction, (s.takeTransaction i transactionId).2 = some transaction
          ∧ transaction.transactionId = transactionId
          ∧ (s.takeTransaction i transactionId).1.journal = s.journal ++ [(i, .taken transaction)]) := by
  rw [State.takeTransaction]
  split
  · rename_i transaction hrow
    have hkey := (h.transactions.row _ _ _ hrow).1
    refine ⟨⟨h.story_write hown (.taken transaction), ?_, ?_, ?_, h.members.write (by simp)⟩, Fences.write rfl (by simp) rfl fun _ hk => hk,
      .inr ⟨transaction, rfl, hkey, rfl⟩⟩
    · refine (h.transactions.take (i := i) hrow).congr ?_ ?_
      · intro j t
        exact (mem_append_ne (by simp)).symm
      · intro j t
        simp [State.write]
    · refine h.codes.congr ?_ ?_
      · intro j c
        simp [State.write]
      · intro j c
        exact (mem_append_ne (by simp)).symm
    · exact h.tokens.write (by simp) (by simp)
  · exact ⟨h, Fences.refl s, .inl ⟨rfl, rfl⟩⟩

theorem putCode_spec (hideal : ports.Ideal) (h : Inv ports base s) {transaction : Transaction} {principalId : String}
    {membership : Membership} {code : StoredCode} (hown : own i s.journal = [.taken transaction])
    (hmember : (principalId, transaction.tenantId) ∈ s.memberships)
    (happroves : Approves ports i transaction principalId membership code) :
    (s.putCode i transaction principalId membership code).2 = true
      ∧ Inv ports base (s.putCode i transaction principalId membership code).1
      ∧ Fences s (s.putCode i transaction principalId membership code).1
      ∧ (s.putCode i transaction principalId membership code).1.journal
        = s.journal ++ [(i, .approved transaction principalId membership code)] := by
  have hhash : ∀ {j t p m c}, Approves ports j t p m c → c.codeHash = ports.sha256Base64Url (ports.opaqueValue j 0) := by
    intro j t p m c ha
    obtain ⟨_, _, _, _, hc⟩ := ha.code
    rw [hc]
    rfl
  have hfresh : ∀ j c, (∃ t p m, (j, Entry.approved t p m c) ∈ s.journal) → c.codeHash ≠ code.codeHash := by
    rintro j c ⟨t, p, m, hm⟩ heq
    obtain ⟨hstory, hmem⟩ := h.story_of hm
    rw [hhash (hstory.of_approved hmem).2, hhash happroves] at heq
    obtain ⟨rfl, _⟩ := hideal.random (hideal.digest heq)
    rw [hown] at hmem
    simp at hmem
  have hnew : code.codeHash ∉ s.codes := by
    intro hmem
    obtain ⟨⟨c, used⟩, hrow⟩ := AList.mem_iff_lookup.mp hmem
    obtain ⟨hkey, j, hj⟩ := h.codes.row _ c used hrow
    exact hfresh j c hj hkey
  rw [State.putCode, if_neg hnew]
  refine ⟨rfl, ⟨h.story_write hown (.approved transaction principalId membership code happroves), ?_, ?_, ?_, ?_⟩,
    Fences.write rfl (by simp) rfl fun _ hk => hk, rfl⟩
  · refine h.transactions.congr ?_ ?_ <;> intro j t <;> exact (mem_append_ne (by simp)).symm
  · refine (h.codes.insert (i := i) hfresh).congr ?_ ?_
    · intro j c
      simp only [State.write, List.mem_append, List.mem_singleton, Prod.mk.injEq, Entry.approved.injEq, exists_or]
      constructor
      · rintro (hc | ⟨rfl, rfl⟩)
        · exact .inl hc
        · exact .inr ⟨_, _, _, rfl, rfl, rfl, rfl, rfl⟩
      · rintro (hc | ⟨_, _, _, rfl, rfl, rfl, rfl, rfl⟩)
        · exact .inl hc
        · exact .inr ⟨rfl, rfl⟩
    · intro j c
      exact (mem_append_ne (by simp)).symm
  · exact h.tokens.write (by simp) (by simp)
  · refine ⟨fun k hk => ?_, fun j t u m c hm => ?_⟩
    · rcases h.members.row k hk with hbase | ⟨j, email, hm⟩
      · exact .inl hbase
      · exact .inr ⟨j, email, List.mem_append_left _ hm⟩
    · simp only [State.write, List.mem_append, List.mem_singleton, Prod.mk.injEq, Entry.approved.injEq] at hm
      rcases hm with hm | ⟨_, rfl, rfl, _, _⟩
      · exact h.members.approved j t u m c hm
      · exact hmember

theorem takeCode_spec (h : Inv ports base s) (hown : own i s.journal = []) (codeHash : String) :
    Inv ports base (s.takeCode i codeHash).1 ∧ Fences s (s.takeCode i codeHash).1
      ∧ (((s.takeCode i codeHash).2 = none ∧ (s.takeCode i codeHash).1 = s)
        ∨ ∃ code, (s.takeCode i codeHash).2 = some code ∧ code.codeHash = codeHash
          ∧ (s.takeCode i codeHash).1.journal = s.journal ++ [(i, .exchanged code)]) := by
  rw [State.takeCode]
  split
  · rename_i code hrow
    have hkey := (h.codes.row _ _ _ hrow).1
    refine ⟨⟨h.story_write hown (.exchanged code), ?_, ?_, ?_, h.members.write (by simp)⟩, Fences.write rfl (by simp) rfl fun _ hk => hk,
      .inr ⟨code, rfl, hkey, rfl⟩⟩
    · refine h.transactions.congr ?_ ?_ <;> intro j t <;> exact (mem_append_ne (by simp)).symm
    · refine (h.codes.take (i := i) hrow).congr ?_ ?_
      · intro j c
        simp [State.write]
      · intro j c
        simp [State.write]
    · exact h.tokens.write (by simp) (by simp)
  · exact ⟨h, Fences.refl s, .inl ⟨rfl, rfl⟩⟩

end UniDocs.OAuth

namespace UniDocs.OAuth

open Lib Lib.Journal

variable {ports : Ports} {base : String × String → Prop} {s : State} {i : Nat}

section Tables

variable {journal : List (Nat × Entry)} {families : Table String Family} {tokens : Table String RefreshRow}

theorem TokensOk.grant (h : TokensOk journal families tokens) {code : StoredCode} {token : StoredToken}
    (hhash : ∀ t, Born journal t → t.tokenHash ≠ token.tokenHash) (hknown : ¬ Known journal token.familyId)
    (hfresh : ∀ k row, tokens.lookup k = some row → row.familyId ≠ token.familyId) (family : Family) :
    TokensOk (journal ++ [(i, .granted code token)]) (families.insert token.familyId family)
      (tokens.insert token.tokenHash ⟨token, none, none⟩) := by
  have hbase := h.write (i := i) (e := .granted code token) (by simp) (by simp)
  have hother : ∀ k row, tokens.lookup k = some row → k ≠ token.tokenHash := by
    rintro k row hrow rfl
    exact hhash _ (h.row _ row hrow).2 (h.row _ row hrow).1
  have hkept : ∀ k row, tokens.lookup k = some row →
      (tokens.insert token.tokenHash ⟨token, none, none⟩).lookup k = some row := by
    intro k row hrow
    rw [AList.lookup_insert_eq, if_neg (hother k row hrow), hrow]
  constructor
  · intro k row hrow
    rw [AList.lookup_insert_eq] at hrow
    split at hrow
    · cases hrow
      rename_i hk
      exact ⟨hk.symm, .inl ⟨i, code, by simp⟩⟩
    · exact hbase.row k row hrow
  · exact hbase.lineage
  · intro k row hrow hnone j current next hm
    rw [AList.lookup_insert_eq] at hrow
    split at hrow
    · rename_i hk
      rw [hk]
      exact hhash current (h.lineage j current next ((mem_append_ne (by simp)).mp hm)).1
    · exact hbase.unspent k row hrow hnone j current next hm
  · intro k row h' hrow hnext
    rw [AList.lookup_insert_eq] at hrow
    split at hrow
    · cases hrow
      cases hnext
    · exact hbase.successor k row h' hrow hnext
  · exact hbase.once
  · intro k k' row row' hrow hrow' heq hnone hnone'
    rw [AList.lookup_insert_eq] at hrow hrow'
    split at hrow <;> split at hrow'
    · rename_i hk hk'
      rw [hk, hk']
    · cases hrow
      exact absurd heq.symm (hfresh k' row' hrow')
    · cases hrow'
      exact absurd heq (hfresh k row hrow)
    · exact h.single k k' row row' hrow hrow' heq hnone hnone'
  · intro f fam hfamily
    rw [AList.lookup_insert_eq] at hfamily
    split at hfamily
    · rename_i hf
      exact ⟨token.tokenHash, _, AList.lookup_insert .., hf.symm⟩
    · obtain ⟨k, row, hrow, heq⟩ := h.peopled f fam hfamily
      exact ⟨k, row, hkept k row hrow, heq⟩
  · intro k row hrow
    rw [AList.lookup_insert_eq] at hrow
    split at hrow
    · cases hrow
      exact ⟨_, AList.lookup_insert ..⟩
    · obtain ⟨fam, hfamily⟩ := h.joined k row hrow
      exact ⟨fam, by rw [AList.lookup_insert_eq, if_neg (hfresh k row hrow), hfamily]⟩
  · intro j row hm hconsumed
    obtain ⟨hk, hrest⟩ := h.refused j row ((mem_append_ne (by simp)).mp hm) hconsumed
    refine ⟨⟨hk.1.mono fun x hx => List.mem_append_left _ hx, hk.2.mono fun x hx => List.mem_append_left _ hx⟩, ?_⟩
    rcases hrest with ⟨row', hrow', heq, hc⟩ | ⟨hnone, hgone⟩
    · exact .inl ⟨row', hkept _ row' hrow', heq, hc⟩
    · refine .inr ⟨by rw [AList.lookup_insert_eq, if_neg (hhash _ hk.1), hnone], ?_⟩
      intro k row' hrow'
      rw [AList.lookup_insert_eq] at hrow'
      split at hrow'
      · cases hrow'
        intro heq
        exact hknown (heq ▸ hk.2)
      · exact hgone k row' hrow'

theorem TokensOk.rotate (h : TokensOk journal families tokens) {currentHash nextHash : String} {row : RefreshRow} {now : Int}
    (hrow : tokens.lookup currentHash = some row) (hnone : row.consumedAt = none)
    (hfounded : Founded journal row.toStoredToken) (hhash : ∀ t, Born journal t → t.tokenHash ≠ nextHash) :
    TokensOk (journal ++ [(i, .rotated row.toStoredToken (State.successor row.toStoredToken nextHash now))]) families
      ((tokens.insert currentHash { row with consumedAt := some now, successorHash := some nextHash }).insert nextHash
        ⟨State.successor row.toStoredToken nextHash now, none, none⟩) := by
  have hsub : ∀ x ∈ journal, x ∈ journal ++ [(i, .rotated row.toStoredToken (State.successor row.toStoredToken nextHash now))] :=
    fun x hx => List.mem_append_left _ hx
  obtain ⟨hkey, hborn⟩ := h.row currentHash row hrow
  have hne : ∀ k r, tokens.lookup k = some r → k ≠ nextHash := by
    rintro k r hr rfl
    exact hhash _ (h.row _ r hr).2 (h.row _ r hr).1
  have hmem : ∀ {j c n}, (j, Entry.rotated c n) ∈
      journal ++ [(i, .rotated row.toStoredToken (State.successor row.toStoredToken nextHash now))] →
      (j, Entry.rotated c n) ∈ journal ∨ (j = i ∧ c = row.toStoredToken ∧ n = State.successor row.toStoredToken nextHash now) := by
    intro j c n hm
    simpa using hm
  -- the rows of the new table: the successor, the consumed token, and the others
  have hcases : ∀ {k r}, ((tokens.insert currentHash
        { row with consumedAt := some now, successorHash := some nextHash }).insert nextHash
        ⟨State.successor row.toStoredToken nextHash now, none, none⟩).lookup k = some r →
      (k = nextHash ∧ r = ⟨State.successor row.toStoredToken nextHash now, none, none⟩)
      ∨ (k = currentHash ∧ k ≠ nextHash ∧ r = { row with consumedAt := some now, successorHash := some nextHash })
      ∨ (k ≠ currentHash ∧ k ≠ nextHash ∧ tokens.lookup k = some r) := by
    intro k r hr
    rw [AList.lookup_insert_eq, AList.lookup_insert_eq] at hr
    split at hr
    · cases hr
      exact .inl ⟨by assumption, rfl⟩
    · split at hr
      · cases hr
        exact .inr (.inl ⟨by assumption, by assumption, rfl⟩)
      · exact .inr (.inr ⟨by assumption, by assumption, hr⟩)
  have hkept : ∀ k r, tokens.lookup k = some r → ∃ r', ((tokens.insert currentHash
        { row with consumedAt := some now, successorHash := some nextHash }).insert nextHash
        ⟨State.successor row.toStoredToken nextHash now, none, none⟩).lookup k = some r' ∧ r'.familyId = r.familyId
      ∧ (r.consumedAt ≠ none → r'.consumedAt ≠ none) := by
    intro k r hr
    rw [AList.lookup_insert_eq, if_neg (hne k r hr), AList.lookup_insert_eq]
    by_cases hk : k = currentHash
    · subst hk
      cases hrow.symm.trans hr
      exact ⟨_, if_pos rfl, rfl, by simp⟩
    · exact ⟨r, by rw [if_neg hk, hr], rfl, fun hc => hc⟩
  constructor
  · intro k r hr
    rcases hcases hr with ⟨rfl, rfl⟩ | ⟨rfl, _, rfl⟩ | ⟨_, _, hr⟩
    · exact ⟨rfl, .inr ⟨i, row.toStoredToken, by simp⟩⟩
    · exact ⟨hkey, hborn.mono hsub⟩
    · exact ⟨(h.row k r hr).1, (h.row k r hr).2.mono hsub⟩
  · intro j c n hm
    rcases hmem hm with hm | ⟨_, rfl, _⟩
    · exact ⟨(h.lineage j c n hm).1.mono hsub, (h.lineage j c n hm).2.mono hsub⟩
    · exact ⟨hborn.mono hsub, hfounded.mono hsub⟩
  · intro k r hr hnone' j c n hm
    rcases hcases hr with ⟨rfl, rfl⟩ | ⟨rfl, _, rfl⟩ | ⟨hk, _, hold⟩
    · rcases hmem hm with hm | ⟨_, rfl, _⟩
      · exact hhash c (h.lineage j c n hm).1
      · exact hhash _ hborn
    · cases hnone'
    · rcases hmem hm with hm | ⟨_, rfl, _⟩
      · exact h.unspent k r hold hnone' j c n hm
      · rw [hkey]
        exact fun heq => hk heq.symm
  · intro k r h' hr hnext
    rcases hcases hr with ⟨rfl, rfl⟩ | ⟨rfl, _, rfl⟩ | ⟨_, _, hr⟩
    · cases hnext
    · cases hnext
      exact ⟨i, row.toStoredToken, State.successor row.toStoredToken nextHash now, by simp, rfl⟩
    · obtain ⟨j, c, n, hm, hn⟩ := h.successor k r h' hr hnext
      exact ⟨j, c, n, hsub _ hm, hn⟩
  · intro j j' c n c' n' hm hm' heq
    rcases hmem hm with hold | ⟨rfl, rfl, rfl⟩ <;> rcases hmem hm' with hold' | ⟨rfl, rfl, rfl⟩
    · exact h.once j j' c n c' n' hold hold' heq
    · exact absurd (heq.trans hkey) (h.unspent _ row hrow hnone j c n hold)
    · exact absurd (heq.symm.trans hkey) (h.unspent _ row hrow hnone j' c' n' hold')
    · rfl
  · intro k k' r r' hr hr' heq hc hc'
    rcases hcases hr with ⟨rfl, rfl⟩ | ⟨rfl, _, rfl⟩ | ⟨hk, _, hold⟩ <;>
      rcases hcases hr' with ⟨rfl, rfl⟩ | ⟨rfl, _, rfl⟩ | ⟨hk', _, hold'⟩
    · rfl
    · cases hc'
    · exact absurd (h.single _ k' row r' hrow hold' heq hnone hc').symm hk'
    · cases hc
    · cases hc
    · cases hc
    · exact absurd (h.single k _ r row hold hrow heq hc hnone) hk
    · cases hc'
    · exact h.single k k' r r' hold hold' heq hc hc'
  · intro f fam hfamily
    obtain ⟨k, r, hr, heq⟩ := h.peopled f fam hfamily
    obtain ⟨r', hr', heq', _⟩ := hkept k r hr
    exact ⟨k, r', hr', heq'.trans heq⟩
  · intro k r hr
    rcases hcases hr with ⟨rfl, rfl⟩ | ⟨rfl, _, rfl⟩ | ⟨_, _, hr⟩
    · exact h.joined currentHash row hrow
    · exact h.joined _ row hrow
    · exact h.joined k r hr
  · intro j found hm hconsumed
    obtain ⟨hknown, hrest⟩ := h.refused j found ((mem_append_ne (by simp)).mp hm) hconsumed
    refine ⟨⟨hknown.1.mono hsub, hknown.2.mono hsub⟩, ?_⟩
    rcases hrest with ⟨r, hr, heq, hc⟩ | ⟨hnone', hgone⟩
    · obtain ⟨r', hr', heq', hc'⟩ := hkept _ r hr
      exact .inl ⟨r', hr', heq'.trans heq, hc' hc⟩
    · have hcurrent : found.tokenHash ≠ currentHash := by
        intro heq
        rw [heq, hrow] at hnone'
        cases hnone'
      refine .inr ⟨?_, ?_⟩
      · rw [AList.lookup_insert_eq, if_neg (hhash _ hknown.1), AList.lookup_insert_eq, if_neg hcurrent, hnone']
      intro k r hr
      rcases hcases hr with ⟨rfl, rfl⟩ | ⟨rfl, _, rfl⟩ | ⟨_, _, hr⟩
      · exact hgone currentHash row hrow
      · exact hgone _ row hrow
      · exact hgone k r hr

theorem TokensOk.refuse (h : TokensOk journal families tokens) {currentHash : String}
    (hfounded : ∀ row, tokens.lookup currentHash = some row → Founded journal row.toStoredToken) :
    TokensOk (journal ++ [(i, .refused (tokens.lookup currentHash))]) families tokens := by
  refine h.append (fun current next heq => by cases heq) fun row heq hconsumed => ?_
  have hrow : tokens.lookup currentHash = some row := Entry.refused.inj heq
  obtain ⟨hkey, hborn⟩ := h.row currentHash row hrow
  exact ⟨by rw [hkey]; exact hrow, hborn, (hfounded row hrow).known⟩

theorem TokensOk.consume (h : TokensOk journal families tokens) {g : String → RefreshRow → RefreshRow}
    {families' : Table String Family} (htoken : ∀ k row, (g k row).toStoredToken = row.toStoredToken)
    (hsuccessor : ∀ k row, (g k row).successorHash = row.successorHash)
    (hconsumed : ∀ k row, row.consumedAt ≠ none → (g k row).consumedAt ≠ none)
    (hfamilies : ∀ f, (∃ family, families'.lookup f = some family) ↔ ∃ family, families.lookup f = some family) :
    TokensOk journal families' (tokens.updateAll g) := by
  have hcases : ∀ {k row}, (tokens.updateAll g).lookup k = some row → ∃ row', tokens.lookup k = some row' ∧ g k row' = row := by
    intro k row hrow
    rw [AList.lookup_updateAll] at hrow
    exact Option.map_eq_some_iff.mp hrow
  have hfamilyId : ∀ k row, (g k row).familyId = row.familyId := fun k row => congrArg StoredToken.familyId (htoken k row)
  have hnone : ∀ k row, (g k row).consumedAt = none → row.consumedAt = none := by
    intro k row hc
    by_contra hne
    exact hconsumed k row hne hc
  constructor
  · intro k row hrow
    obtain ⟨row', hrow', rfl⟩ := hcases hrow
    rw [htoken]
    exact h.row k row' hrow'
  · exact h.lineage
  · intro k row hrow hc
    obtain ⟨row', hrow', rfl⟩ := hcases hrow
    exact h.unspent k row' hrow' (hnone k row' hc)
  · intro k row h' hrow hnext
    obtain ⟨row', hrow', rfl⟩ := hcases hrow
    rw [hsuccessor] at hnext
    exact h.successor k row' h' hrow' hnext
  · exact h.once
  · intro k k' row row' hrow hrow' heq hc hc'
    obtain ⟨r, hr, rfl⟩ := hcases hrow
    obtain ⟨r', hr', rfl⟩ := hcases hrow'
    rw [hfamilyId, hfamilyId] at heq
    exact h.single k k' r r' hr hr' heq (hnone k r hc) (hnone k' r' hc')
  · intro f family hfamily
    obtain ⟨family', hfamily'⟩ := (hfamilies f).mp ⟨family, hfamily⟩
    obtain ⟨k, row, hrow, heq⟩ := h.peopled f family' hfamily'
    exact ⟨k, g k row, by rw [AList.lookup_updateAll, hrow]; rfl, (hfamilyId k row).trans heq⟩
  · intro k row hrow
    obtain ⟨row', hrow', rfl⟩ := hcases hrow
    rw [hfamilyId]
    exact (hfamilies _).mpr (h.joined k row' hrow')
  · intro j row hm hc
    obtain ⟨hknown, hrest⟩ := h.refused j row hm hc
    refine ⟨hknown, ?_⟩
    rcases hrest with ⟨row', hrow', heq, hc'⟩ | ⟨hnone', hgone⟩
    · exact .inl ⟨g _ row', by rw [AList.lookup_updateAll, hrow']; rfl, (hfamilyId _ row').trans heq, hconsumed _ row' hc'⟩
    · refine .inr ⟨by rw [AList.lookup_updateAll, hnone']; rfl, ?_⟩
      intro k row' hrow'
      obtain ⟨r, hr, rfl⟩ := hcases hrow'
      rw [hfamilyId]
      exact hgone k r hr

/-- Tokens that have ended are deleted, and the families that are left without one. -/
theorem TokensOk.cleanup (h : TokensOk journal families tokens) (now : Int)
    (hends : ∀ k k' row row', tokens.lookup k = some row → tokens.lookup k' = some row' → row.familyId = row'.familyId →
      row.expiresAt = row'.expiresAt) :
    TokensOk journal
      (families.keep fun familyId _ => (tokens.keep fun _ row => now < row.expiresAt).has fun _ row => row.familyId = familyId)
      (tokens.keep fun _ row => now < row.expiresAt) := by
  have hcases : ∀ {k row}, (tokens.keep fun _ row => now < row.expiresAt).lookup k = some row ↔
      tokens.lookup k = some row ∧ now < row.expiresAt := by
    intro k row
    rw [AList.lookup_keep, Option.filter_eq_some_iff, decide_eq_true_eq]
  have hhas : ∀ f, ((tokens.keep fun _ row => now < row.expiresAt).has fun _ row => row.familyId = f) = true ↔
      ∃ k row, (tokens.keep fun _ row => now < row.expiresAt).lookup k = some row ∧ row.familyId = f := by
    intro f
    simp [AList.has_iff]
  constructor
  · exact fun k row hrow => h.row k row (hcases.mp hrow).1
  · exact h.lineage
  · exact fun k row hrow => h.unspent k row (hcases.mp hrow).1
  · exact fun k row h' hrow => h.successor k row h' (hcases.mp hrow).1
  · exact h.once
  · exact fun k k' row row' hrow hrow' => h.single k k' row row' (hcases.mp hrow).1 (hcases.mp hrow').1
  · intro f family hfamily
    rw [AList.lookup_keep, Option.filter_eq_some_iff] at hfamily
    exact (hhas f).mp hfamily.2
  · intro k row hrow
    obtain ⟨family, hfamily⟩ := h.joined k row (hcases.mp hrow).1
    refine ⟨family, ?_⟩
    rw [AList.lookup_keep, Option.filter_eq_some_iff]
    exact ⟨hfamily, (hhas _).mpr ⟨k, row, hrow, rfl⟩⟩
  · intro j row hm hc
    obtain ⟨hknown, hrest⟩ := h.refused j row hm hc
    refine ⟨hknown, ?_⟩
    rcases hrest with ⟨row', hrow', heq, hc'⟩ | ⟨hnone, hgone⟩
    · -- the tokens of the family are kept or deleted together
      by_cases hend : now < row'.expiresAt
      · exact .inl ⟨row', hcases.mpr ⟨hrow', hend⟩, heq, hc'⟩
      · refine .inr ⟨by rw [AList.lookup_keep, hrow']; simpa using hend, ?_⟩
        intro k r hr hfamily
        have hsame := hends k _ r row' (hcases.mp hr).1 hrow' (hfamily.trans heq.symm)
        exact hend (hsame ▸ (hcases.mp hr).2)
    · exact .inr ⟨by rw [AList.lookup_keep, hnone]; rfl, fun k r hr => hgone k r (hcases.mp hr).1⟩

end Tables

/-! ## Grants -/

theorem Inv.granted_of_family (hideal : ports.Ideal) (h : Inv ports base s) {token : StoredToken} (hborn : Born s.journal token)
    (hfamily : token.familyId = ports.opaqueValue i 0) : ∃ code first, .granted code first ∈ own i s.journal := by
  obtain ⟨k, code, first, hfirst, hsame⟩ := h.founded hborn
  have hvalue : ports.opaqueValue k 0 = ports.opaqueValue i 0 := by
    rw [← h.granted_family hfirst, ← hsame.familyId, hfamily]
  obtain ⟨rfl, _⟩ := hideal.random hvalue
  exact ⟨code, first, mem_own.mpr hfirst⟩

theorem Inv.stored_of_hash (hideal : ports.Ideal) (h : Inv ports base s) {token : StoredToken} (hborn : Born s.journal token)
    {draw : Nat} (hhash : token.tokenHash = ports.sha256Base64Url (ports.opaqueValue i draw)) :
    (∃ code, .granted code token ∈ own i s.journal) ∨ ∃ current, .rotated current token ∈ own i s.journal := by
  obtain ⟨j, ⟨code, hm, hj⟩ | ⟨current, hm, hj⟩⟩ := h.born_hash hborn
  · obtain ⟨rfl, _⟩ := hideal.random (hideal.digest (hhash.symm.trans hj))
    exact .inl ⟨code, mem_own.mpr hm⟩
  · obtain ⟨rfl, _⟩ := hideal.random (hideal.digest (hhash.symm.trans hj))
    exact .inr ⟨current, mem_own.mpr hm⟩

theorem putInitial_spec (hideal : ports.Ideal) (h : Inv ports base s) {code : StoredCode} {token : StoredToken}
    (hown : own i s.journal = [.exchanged code]) (hgrants : Grants ports i code token) :
    (s.putInitial i code token).2 = true ∧ Inv ports base (s.putInitial i code token).1
      ∧ Fences s (s.putInitial i code token).1
      ∧ (s.putInitial i code token).1.journal = s.journal ++ [(i, .granted code token)] := by
  have hfamilyId : token.familyId = ports.opaqueValue i 0 := by
    obtain ⟨time, lifetime, _, htoken⟩ := hgrants
    rw [htoken]
    rfl
  have htokenHash : token.tokenHash = ports.sha256Base64Url (ports.opaqueValue i 1) := by
    obtain ⟨time, lifetime, _, htoken⟩ := hgrants
    rw [htoken]
    rfl
  -- the family and the hash were drawn by this call, which has stored nothing yet
  have hborn : ∀ t, Born s.journal t → t.familyId ≠ token.familyId := by
    intro t ht heq
    obtain ⟨code', first, hmem⟩ := h.granted_of_family hideal ht (heq.trans hfamilyId)
    rw [hown] at hmem
    simp at hmem
  have hhash : ∀ t, Born s.journal t → t.tokenHash ≠ token.tokenHash := by
    intro t ht heq
    rcases h.stored_of_hash hideal ht (heq.trans htokenHash) with ⟨code', hmem⟩ | ⟨current, hmem⟩ <;>
      · rw [hown] at hmem
        simp at hmem
  have hknown : ¬ Known s.journal token.familyId := by
    rintro ⟨k, code', first, hfirst, heq⟩
    exact hborn first (.inl ⟨k, code', hfirst⟩) heq
  have hfresh : ∀ k row, s.tokens.lookup k = some row → row.familyId ≠ token.familyId :=
    fun k row hrow => hborn _ (h.tokens.row k row hrow).2
  have hnotFamily : token.familyId ∉ s.families := by
    intro hmem
    obtain ⟨family, hfamily⟩ := AList.mem_iff_lookup.mp hmem
    obtain ⟨k, row, hrow, heq⟩ := h.tokens.peopled _ family hfamily
    exact hfresh k row hrow heq
  have hnotToken : token.tokenHash ∉ s.tokens := by
    intro hmem
    obtain ⟨row, hrow⟩ := AList.mem_iff_lookup.mp hmem
    exact hhash _ (h.tokens.row _ row hrow).2 (h.tokens.row _ row hrow).1
  have hgeneration : ¬ State.generationTaken s.tokens token.familyId token.generation = true := by
    rw [State.generationTaken, AList.has_iff]
    rintro ⟨k, row, hrow, hboth⟩
    simp only [Bool.and_eq_true, decide_eq_true_eq] at hboth
    exact hfresh k row hrow hboth.1
  have hresult : s.putInitial i code token = ({ s with
      families := s.families.insert token.familyId ⟨token.clientId, token.principalId, token.tenantId, false⟩
      tokens := s.tokens.insert token.tokenHash ⟨token, none, none⟩ }.write i (.granted code token), true) := by
    rw [State.putInitial]
    simp only [if_neg hnotFamily]
    rw [if_pos ⟨AList.lookup_insert .., hnotToken, hgeneration⟩]
  rw [hresult]
  refine ⟨rfl, ⟨h.story_write hown (.granted code token hgrants), ?_, ?_, h.tokens.grant hhash hknown hfresh _,
    h.members.write (by simp)⟩, ?_, rfl⟩
  · refine h.transactions.congr ?_ ?_ <;> intro j t <;> exact (mem_append_ne (by simp)).symm
  · refine h.codes.congr ?_ ?_
    · intro j c
      simp [State.write]
    · intro j c
      exact (mem_append_ne (by simp)).symm
  · refine Fences.of_families rfl (by simp) ?_ fun _ hk => hk
    intro f hf family hrow
    simp only [State.write, AList.lookup_insert_eq] at hrow
    split at hrow
    · rename_i heq
      rw [heq] at hf
      exact absurd hf hknown
    · exact .inr hrow

/-! ## Rotations -/

/-- What the batch of a rotation does for a call that has written nothing: it violates a constraint, it is refused, or the
token is consumed and its successor stored. -/
theorem rotate_cases (hideal : ports.Ideal) (h : Inv ports base s) (hown : own i s.journal = []) (currentHash : String)
    (now : Int) {nextHash : String} (hnext : nextHash = ports.sha256Base64Url (ports.opaqueValue i 0)) :
    s.rotate i currentHash nextHash now = (s, none)
    ∨ s.rotate i currentHash nextHash now = (s.write i (.refused (s.tokens.lookup currentHash)), some false)
    ∨ ∃ row, s.tokens.lookup currentHash = some row ∧ row.consumedAt = none ∧ now < row.expiresAt
      ∧ s.familyLive row.familyId = true
      ∧ s.rotate i currentHash nextHash now = ({ s with
        tokens := (s.tokens.insert currentHash { row with consumedAt := some now, successorHash := some nextHash }).insert
          nextHash ⟨State.successor row.toStoredToken nextHash now, none, none⟩ }.write i
        (.rotated row.toStoredToken (State.successor row.toStoredToken nextHash now)), some true) := by
  cases hrow : s.tokens.lookup currentHash with
  | none =>
    right
    left
    rw [State.rotate]
    simp only [State.consumeToken, hrow]
  | some row =>
    by_cases hlive : row.consumedAt = none ∧ now < row.expiresAt ∧ nextHash ∉ s.tokens ∧ s.familyLive row.familyId
    · have htokens : s.consumeToken currentHash nextHash now =
          s.tokens.insert currentHash { row with consumedAt := some now, successorHash := some nextHash } := by
        rw [State.consumeToken]
        simp only [hrow]
        rw [if_pos hlive]
      rw [State.rotate]
      simp only [htokens, AList.lookup_insert, and_self, if_true]
      split
      · exact .inl rfl
      · exact .inr (.inr ⟨row, rfl, hlive.1, hlive.2.1, hlive.2.2.2, rfl⟩)
    · have htokens : s.consumeToken currentHash nextHash now = s.tokens := by
        rw [State.consumeToken]
        simp only [hrow]
        rw [if_neg hlive]
      -- nobody else has drawn the hash of the successor
      have hnot : ¬ (row.consumedAt = some now ∧ row.successorHash = some nextHash) := by
        rintro ⟨_, hsuccessor⟩
        obtain ⟨j, current, next, hm, hhash⟩ := h.tokens.successor currentHash row nextHash hrow hsuccessor
        rcases h.stored_of_hash hideal (.inr ⟨j, current, hm⟩) (hhash.trans hnext) with ⟨code', hmem⟩ | ⟨current', hmem⟩ <;>
          · rw [hown] at hmem
            simp at hmem
      right
      left
      rw [State.rotate]
      simp only [htokens, hrow, if_neg hnot]

theorem rotate_spec (hideal : ports.Ideal) (h : Inv ports base s) (hown : own i s.journal = []) (currentHash : String)
    (now : Int) {nextHash : String} (hnext : nextHash = ports.sha256Base64Url (ports.opaqueValue i 0)) :
    Inv ports base (s.rotate i currentHash nextHash now).1 ∧ Fences s (s.rotate i currentHash nextHash now).1
      ∧ (((s.rotate i currentHash nextHash now).2 = none ∧ (s.rotate i currentHash nextHash now).1 = s)
        ∨ ((s.rotate i currentHash nextHash now).2 = some false ∧ (∀ row, s.tokens.lookup currentHash = some row →
            row.tokenHash = currentHash)
          ∧ (s.rotate i currentHash nextHash now).1.journal = s.journal ++ [(i, .refused (s.tokens.lookup currentHash))])
        ∨ ∃ current, (s.rotate i currentHash nextHash now).2 = some true ∧ current.tokenHash = currentHash
          ∧ (s.rotate i currentHash nextHash now).1.journal
            = s.journal ++ [(i, .rotated current (State.successor current nextHash now))]) := by
  have hfounded : ∀ row, s.tokens.lookup currentHash = some row → Founded s.journal row.toStoredToken :=
    fun row hrow => h.founded (h.tokens.row _ row hrow).2
  have hkey : ∀ row, s.tokens.lookup currentHash = some row → row.tokenHash = currentHash :=
    fun row hrow => (h.tokens.row _ row hrow).1
  rcases rotate_cases hideal h hown currentHash now hnext with
    heq | heq | ⟨row, hrow, hnone, hexpires, hlive, heq⟩ <;> rw [heq]
  · exact ⟨h, Fences.refl s, .inl ⟨rfl, rfl⟩⟩
  · refine ⟨⟨h.story_write hown (.refused _), ?_, ?_, h.tokens.refuse hfounded, h.members.write (by simp)⟩,
      Fences.write rfl (by simp) rfl fun _ hk => hk,
      .inr (.inl ⟨rfl, hkey, rfl⟩)⟩
    · refine h.transactions.congr ?_ ?_ <;> intro j t <;> exact (mem_append_ne (by simp)).symm
    · refine h.codes.congr ?_ ?_
      · intro j c
        simp [State.write]
      · intro j c
        exact (mem_append_ne (by simp)).symm
  · have hhash : ∀ t, Born s.journal t → t.tokenHash ≠ nextHash := by
      intro t ht hh
      rcases h.stored_of_hash hideal ht (hh.trans hnext) with ⟨code', hmem⟩ | ⟨current', hmem⟩ <;>
        · rw [hown] at hmem
          simp at hmem
    refine ⟨⟨h.story_write hown (.rotated _ _ ⟨now, by rw [hnext]⟩), ?_, ?_, h.tokens.rotate hrow hnone (hfounded row hrow) hhash,
      h.members.write (by simp)⟩,
      ?_, .inr (.inr ⟨row.toStoredToken, rfl, hkey row hrow, rfl⟩)⟩
    · refine h.transactions.congr ?_ ?_ <;> intro j t <;> exact (mem_append_ne (by simp)).symm
    · refine h.codes.congr ?_ ?_
      · intro j c
        simp [State.write]
      · intro j c
        exact (mem_append_ne (by simp)).symm
    · refine ⟨⟨_, rfl, ?_⟩, ?_, ?_⟩
      · rintro f ⟨_, hrevoked⟩ j current next hm
        simp only [List.mem_singleton, Prod.mk.injEq, Entry.rotated.injEq] at hm
        rw [hm.2.1]
        rintro rfl
        rw [State.familyLive] at hlive
        split at hlive
        · rename_i family hfamily
          rw [hrevoked family hfamily] at hlive
          cases hlive
        · cases hlive
      · rintro f ⟨hknown, hrevoked⟩
        exact ⟨hknown.mono fun x hx => List.mem_append_left _ hx, hrevoked⟩
      · exact fun _ hk => hk

/-! ## Fences, revocation and cleanup -/

theorem lookup_revokeFamily (families : Table String Family) (familyId f : String) :
    (State.revokeFamily families familyId).lookup f
      = (families.lookup f).map fun family => if f = familyId then { family with revoked := true } else family := by
  rw [State.revokeFamily]
  cases hrow : families.lookup familyId with
  | none =>
    by_cases hf : f = familyId
    · rw [hf, hrow]
      rfl
    · simp [hf]
  | some family =>
    simp only [AList.lookup_insert_eq]
    by_cases hf : f = familyId
    · rw [if_pos hf, hf, hrow]
      simp
    · simp [hf]

theorem revokeFamily_domain (families : Table String Family) (familyId f : String) :
    (∃ family, (State.revokeFamily families familyId).lookup f = some family) ↔ ∃ family, families.lookup f = some family := by
  rw [lookup_revokeFamily]
  simp only [Option.map_eq_some_iff]
  constructor
  · rintro ⟨_, family, hfamily, _⟩
    exact ⟨family, hfamily⟩
  · rintro ⟨family, hfamily⟩
    exact ⟨_, family, hfamily, rfl⟩

theorem revokeFamily_revoked {families : Table String Family} {familyId f : String} {family : Family}
    (h : (State.revokeFamily families familyId).lookup f = some family) :
    family.revoked = true ∨ families.lookup f = some family := by
  rw [lookup_revokeFamily, Option.map_eq_some_iff] at h
  obtain ⟨family', hfamily', heq⟩ := h
  split at heq
  · rw [← heq]
    exact .inl rfl
  · rw [← heq]
    exact .inr hfamily'

theorem replay_spec (h : Inv ports base s) (now : Int) (familyId : String) :
    Inv ports base (s.replay now familyId) ∧ Fences s (s.replay now familyId)
      ∧ (Known s.journal familyId → Dead familyId (s.replay now familyId)) := by
  refine ⟨⟨h.story, h.transactions, h.codes, ?_, h.members⟩, ?_, ?_⟩
  · show TokensOk s.journal (State.revokeFamily s.families familyId) (State.consumeFamily s.tokens familyId now)
    refine h.tokens.consume ?_ ?_ ?_ fun f => revokeFamily_domain s.families familyId f
    · intro k row
      split <;> rfl
    · intro k row
      split <;> rfl
    · intro k row hc
      split
      · simp
      · exact hc
  · exact Fences.of_same rfl (fun f _ family hrow => revokeFamily_revoked hrow)
      fun _ hk => hk
  · refine fun hknown => ⟨hknown, fun family hrow => ?_⟩
    have hrow' : (State.revokeFamily s.families familyId).lookup familyId = some family := hrow
    rw [lookup_revokeFamily, Option.map_eq_some_iff] at hrow'
    obtain ⟨family', _, heq⟩ := hrow'
    rw [← heq, if_pos rfl]

theorem revoke_spec (h : Inv ports base s) (tokenHash clientId : String) :
    Inv ports base (s.revoke tokenHash clientId) ∧ Fences s (s.revoke tokenHash clientId)
      ∧ (s.revoke tokenHash clientId).journal = s.journal := by
  rw [State.revoke]
  split
  · exact ⟨h, Fences.refl s, rfl⟩
  · split
    · rename_i row hrow _
      refine ⟨⟨h.story, h.transactions, h.codes, ?_, h.members⟩, ?_, rfl⟩
      · have hsame : s.tokens.updateAll (fun _ row => row) = s.tokens := by
          refine AList.ext ?_
          simp [AList.updateAll]
        rw [← hsame]
        exact h.tokens.consume (fun _ _ => rfl) (fun _ _ => rfl) (fun _ _ hc => hc)
          fun f => revokeFamily_domain s.families row.familyId f
      · exact Fences.of_same rfl (fun f _ family hfamily => revokeFamily_revoked hfamily)
          fun _ hk => hk
    · exact ⟨h, Fences.refl s, rfl⟩

theorem cleanup_spec (hideal : ports.Ideal) (h : Inv ports base s) (now : Int) :
    Inv ports base (s.cleanup now) ∧ Fences s (s.cleanup now) := by
  refine ⟨⟨h.story, ?_, ?_, ?_, h.members⟩, ?_⟩
  · exact h.transactions.keep fun _ row => now < row.1.expiresAt
  · exact h.codes.keep fun _ row => now < row.1.expiresAt
  · refine h.tokens.cleanup now ?_
    intro k k' row row' hrow hrow' hfamily
    exact h.expiresAt_eq hideal (h.tokens.row k row hrow).2 (h.tokens.row k' row' hrow').2 hfamily
  · refine Fences.of_same rfl ?_ fun _ hk => hk
    intro f _ family hfamily
    simp only [State.cleanup, AList.lookup_keep, Option.filter_eq_some_iff] at hfamily
    exact .inr hfamily.1

/-- A family that is revoked is dead, and so is one of which a consumed token was refused once the fence is there. -/
theorem Inv.dead_of_revoked (h : Inv ports base s) {familyId : String} {family : Family}
    (hfamily : s.families.lookup familyId = some family) (hrevoked : family.revoked = true) : Dead familyId s := by
  obtain ⟨k, row, hrow, heq⟩ := h.tokens.peopled familyId family hfamily
  refine ⟨heq ▸ (h.founded (h.tokens.row k row hrow).2).known, fun family' hfamily' => ?_⟩
  cases hfamily.symm.trans hfamily'
  exact hrevoked

theorem Inv.dead_of_gone (h : Inv ports base s) {row : RefreshRow} (hm : (i, .refused (some row)) ∈ s.journal)
    (hconsumed : row.consumedAt ≠ none) (hgone : s.findToken row.tokenHash = none) : Dead row.familyId s := by
  obtain ⟨hknown, hrest⟩ := h.tokens.refused i row hm hconsumed
  refine ⟨hknown.2, fun family hfamily => ?_⟩
  rcases hrest with ⟨row', hrow', heq, _⟩ | ⟨_, hnone⟩
  · obtain ⟨family', hfamily'⟩ := h.tokens.joined _ row' hrow'
    rw [State.findToken] at hgone
    simp only [hrow', hfamily'] at hgone
    cases hgone
  · obtain ⟨k, row', hrow', heq⟩ := h.tokens.peopled _ family hfamily
    exact absurd heq (hnone k row' hrow')

theorem Inv.found_of_refused (h : Inv ports base s) {row found : RefreshRow} {revoked : Bool}
    (hm : (i, .refused (some row)) ∈ s.journal) (hconsumed : row.consumedAt ≠ none)
    (hfound : s.findToken row.tokenHash = some (found, revoked)) :
    found.familyId = row.familyId ∧ found.consumedAt ≠ none
      ∧ ∃ family, s.families.lookup row.familyId = some family ∧ family.revoked = revoked := by
  rw [State.findToken] at hfound
  cases hrow : s.tokens.lookup row.tokenHash with
  | none =>
    rw [hrow] at hfound
    cases hfound
  | some row' =>
    simp only [hrow, Option.map_eq_some_iff, Prod.mk.injEq] at hfound
    obtain ⟨family, hfamily, rfl, rfl⟩ := hfound
    obtain ⟨_, ⟨row'', hrow'', heq, hc⟩ | ⟨hnone, _⟩⟩ := h.tokens.refused i row hm hconsumed
    · cases hrow.symm.trans hrow''
      exact ⟨heq, hc, family, heq ▸ hfamily, rfl⟩
    · rw [hrow] at hnone
      cases hnone

end UniDocs.OAuth
