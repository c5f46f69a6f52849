import UniDocs.Lemmas.AdministratorPrograms

/-!
# Administrators

Over any interleaving of the reads and batches of logins, additions, removals and revocations, whatever calls fail or lose their
answers: there is one bootstrap, and from then on some active administrator is bound to an identity; an invitation is bound once,
by an identity it is for; additions and removals are made by authorized actors; a member has at most one unrevoked family of
sessions, and `findSession` accepts no session of a removed member or of a revoked family.
-/

namespace UniDocs.Administrators

open Lib Lib.Trace

/-- The effect of one call of an operation. -/
abbrev Effect := Traced Db Nat Entry × Traced Db Nat Entry

/-- A member is bound to an identity, whether or not it is active. -/
def HasIdentity (memberId : String) (d : Db) : Prop :=
  ∃ row, d.administrators.lookup memberId = some row ∧ row.bound ≠ none

/-- A member has been removed. -/
def Removed (memberId : String) (d : Db) : Prop :=
  ∃ row, d.administrators.lookup memberId = some row ∧ row.active = false

/-- A family of a member has been revoked. -/
def Revoked (familyId : String) (d : Db) : Prop :=
  ∃ family, d.families.lookup familyId = some family ∧ family.revokedAt ≠ none

/-- A call creates a member that is bound from the start. -/
def Bootstraps (x : Effect) : Prop :=
  ∃ memberId, x.1.db.administrators.lookup memberId = none ∧ HasIdentity memberId x.2.db

/-- A call binds a member that was invited, and the row it makes of the invitation. -/
def Binds (memberId : String) (row row' : Administrator) (x : Effect) : Prop :=
  x.1.db.administrators.lookup memberId = some row ∧ row.bound = none
    ∧ x.2.db.administrators.lookup memberId = some row' ∧ row'.bound ≠ none

/-- The laws of administrators, as of a point of a run. -/
structure AdministratorSafety (ports : Ports) (p : PortalPool) : Prop where
  /-- At most one call of at most one login bootstraps. -/
  bootstrapOnce : ∀ i j t t' (a b : Nat) x y, p.thread i = some t → p.thread j = some t' → t.steps[a]? = some x →
    t'.steps[b]? = some y → Bootstraps x → Bootstraps y → i = j ∧ a = b
  /-- Once there was a bootstrap, some active administrator is bound. -/
  someBound : ∀ i q x, p.Made i q x → Bootstraps x → ∃ memberId row, p.state.db.administrators.lookup memberId = some row
    ∧ row.active = true ∧ row.bound ≠ none
  /-- An invitation is bound by at most one call of at most one login. -/
  bindOnce : ∀ i j t t' (a b : Nat) x y memberId row₁ row₂ row₃ row₄, p.thread i = some t → p.thread j = some t' →
    t.steps[a]? = some x → t'.steps[b]? = some y → Binds memberId row₁ row₂ x → Binds memberId row₃ row₄ y → i = j ∧ a = b
  /-- It is bound by a login with its email, confirmed when the invitation was there, and to the identity of that login. -/
  binds : ∀ i q x memberId row row', p.Made i q x → Binds memberId row row' x → ∃ identity bootstrapEmail requestId verified time,
    q = .completeLogin identity bootstrapEmail requestId ∧ validateAdminIdentity ports identity (ports.now i 0) = .ok verified
      ∧ adminConfirmationTime verified = some time ∧ row.email = verified.email ∧ row.createdAt ≤ time
      ∧ row'.bound = some (verified.issuer, verified.subject)
  /-- A member that appears without an identity is added by an authorized actor. -/
  added : ∀ i q x memberId row, p.Made i q x → x.1.db.administrators.lookup memberId = none →
    x.2.db.administrators.lookup memberId = some row → row.bound = none → ∃ command,
      q = .add command ∧ command.adminId = memberId ∧ x.1.db.directory.Authorized command.context (ports.now i 2)
  /-- A member is removed by an authorized actor. -/
  removed : ∀ i q x memberId, p.Made i q x → ¬ Removed memberId x.1.db → Removed memberId x.2.db → ∃ command,
    q = .remove command ∧ command.adminId = memberId ∧ x.1.db.directory.Authorized command.context (ports.now i 2)
  /-- A member has at most one family that is not revoked. -/
  oneFamily : ∀ f g family family', p.state.db.families.lookup f = some family → p.state.db.families.lookup g = some family' →
    family.memberId = family'.memberId → family.revokedAt = none → family'.revokedAt = none → f = g
  /-- A session that `findSession` returns is in a family that is not revoked, and its member is active. -/
  accepted : ∀ i sessionHash session, p.Returned i (.findSession sessionHash) (.ok (.session (some session))) →
    ∃ x row family member, p.Made i (.findSession sessionHash) x ∧ x.1.db.sessions.lookup sessionHash = some row
      ∧ x.1.db.families.lookup row.familyId = some family ∧ family.revokedAt = none ∧ session.memberId = family.memberId
      ∧ x.1.db.administrators.lookup family.memberId = some member ∧ member.active = true
  /-- Whoever is removed stays so, and a `findSession` that is asked later returns none of its sessions. -/
  removedForever : ∀ p' memberId, (portal ports).Reach Machine.anyCall p p' → Removed memberId p.state.db →
    Removed memberId p'.state.db ∧ ∀ i sessionHash session, p.thread i = none →
      p'.Returned i (.findSession sessionHash) (.ok (.session (some session))) → session.memberId ≠ memberId
  /-- A family that is revoked stays so, and a `findSession` that is asked later finds a session of another family. -/
  revokedForever : ∀ p' familyId, (portal ports).Reach Machine.anyCall p p' → Revoked familyId p.state.db →
    Revoked familyId p'.state.db ∧ ∀ i sessionHash session, p.thread i = none →
      p'.Returned i (.findSession sessionHash) (.ok (.session (some session))) →
      ∃ x row, p'.Made i (.findSession sessionHash) x ∧ x.1.db.sessions.lookup sessionHash = some row ∧ row.familyId ≠ familyId

/-! ## What transitions keep -/

section Kept

variable {e : Entry} {r r' : Directory} {d d' : Db}

theorem Directory.Bound.transition {memberId : String} {identity : String × String} (hbound : r.Bound memberId identity)
    (h : Transition e r r') (hremoved : ∀ context now, e ≠ .removed context now memberId) : r'.Bound memberId identity := by
  obtain ⟨row, hrow, hactive, hidentity⟩ := hbound
  rcases h.row_cases memberId with hsame | hchange
  · exact ⟨row, by rw [hsame, hrow], hactive, hidentity⟩
  · cases hchange with
    | bootstrap identity time familyId row' hold =>
      rw [hrow] at hold
      cases hold
    | bind revision identity time familyId row' row'' hold hunbound =>
      cases hrow.symm.trans hold
      rw [hunbound] at hidentity
      cases hidentity
    | add context now row' hauthorized hold =>
      rw [hrow] at hold
      cases hold
    | remove context now => exact absurd rfl (hremoved context now)

theorem someBound_transition (h : Transition e r r') (hbound : r.bootstrap ≠ none → ∃ id identity, r.Bound id identity) :
    r'.bootstrap ≠ none → ∃ id identity, r'.Bound id identity := by
  intro hboot
  cases e with
  | login kind memberId identity time familyId => exact ⟨memberId, _, h.2.1⟩
  | added context now adminId => exact ⟨_, _, h.1.1.transition h (fun _ _ => by simp)⟩
  | removed context now adminId =>
    have hself : adminId ≠ context.memberId := h.2.1
    exact ⟨_, _, h.1.1.transition h (fun _ _ => by simp [hself])⟩
  | revoked sessionHash memberId =>
    rw [h.2.1] at hboot
    obtain ⟨id, identity, hid⟩ := hbound hboot
    exact ⟨id, identity, hid.transition h (fun _ _ => by simp)⟩
  | found sessionHash session family member =>
    rw [h.1] at hboot ⊢
    exact hbound hboot

/-- The bootstrap is made once. -/
theorem bootstrap_transition (h : Transition e r r') (hboot : r.bootstrap ≠ none) : r'.bootstrap ≠ none := by
  cases e with
  | login kind memberId identity time familyId =>
    cases kind with
    | returning => rw [h.1.2]; exact hboot
    | bootstrap => exact absurd h.1.1 hboot
    | invitation revision =>
      obtain ⟨_, _, _, _, _, _, _, _, _, hsame⟩ := h.1
      rw [hsame]
      exact hboot
  | added context now adminId => rw [h.2.2.1]; exact hboot
  | removed context now adminId => rw [h.2.2.1]; exact hboot
  | revoked sessionHash memberId => rw [h.2.1]; exact hboot
  | found sessionHash session family member => rw [h.1]; exact hboot

theorem HasIdentity.transition {memberId : String} (h : Transition e d.directory d'.directory) (hid : HasIdentity memberId d) :
    HasIdentity memberId d' := by
  obtain ⟨row, hrow, hbound⟩ := hid
  have hrow' : d.directory.admin memberId = some row := hrow
  rcases h.row_cases memberId with hsame | hchange
  · exact ⟨row, hsame.trans hrow, hbound⟩
  · cases hchange with
    | bootstrap identity time familyId row' hold =>
      rw [hrow'] at hold
      cases hold
    | bind revision identity time familyId row' row'' hold hunbound =>
      cases hrow'.symm.trans hold
      exact absurd hunbound hbound
    | add context now row' hauthorized hold =>
      rw [hrow'] at hold
      cases hold
    | remove context now row' row'' hauthorized hself hold hwas hnew hactive hsame =>
      cases hrow'.symm.trans hold
      exact ⟨row'', hnew, by rw [hsame]; exact hbound⟩

theorem Removed.transition {memberId : String} (h : Transition e d.directory d'.directory) (hremoved : Removed memberId d) :
    Removed memberId d' := by
  obtain ⟨row, hrow, hinactive⟩ := hremoved
  have hrow' : d.directory.admin memberId = some row := hrow
  rcases h.row_cases memberId with hsame | hchange
  · exact ⟨row, hsame.trans hrow, hinactive⟩
  · cases hchange with
    | bootstrap identity time familyId row' hold =>
      rw [hrow'] at hold
      cases hold
    | bind revision identity time familyId row' row'' hold hunbound hemail htime hnew hactive hwas =>
      cases hrow'.symm.trans hold
      rw [hinactive] at hwas
      cases hwas
    | add context now row' hauthorized hold =>
      rw [hrow'] at hold
      cases hold
    | remove context now row' row'' hauthorized hself hold hwas hnew hactive => exact ⟨row'', hnew, hactive⟩

theorem Revoked.transition {familyId : String} (h : Transition e d.directory d'.directory) (hrevoked : Revoked familyId d) :
    Revoked familyId d' := by
  obtain ⟨family, hfamily, hat⟩ := hrevoked
  have hfamily' : d.directory.family familyId = some family := hfamily
  rcases h.family_cases familyId with hsame | hchange
  · exact ⟨family, hsame.trans hfamily, hat⟩
  · cases hchange with
    | revoke _ family₁ family₂ hold hnew hmember hrevoked => exact ⟨family₂, hnew, hrevoked⟩
    | start kind memberId identity time now hold =>
      rw [hfamily'] at hold
      cases hold

/-- A member has at most one family that is not revoked. -/
def OneFamily (r : Directory) : Prop :=
  ∀ f g family family', r.family f = some family → r.family g = some family' → family.memberId = family'.memberId →
    family.revokedAt = none → family'.revokedAt = none → f = g

theorem OneFamily.transition (h : Transition e r r') (hone : OneFamily r) : OneFamily r' := by
  intro f g family family' hf hg hmember hvalid hvalid'
  by_contra hne
  rcases h.family_cases f with hsame | hchange
  · rcases h.family_cases g with hsame' | hchange'
    · exact hne (hone f g family family' (hsame ▸ hf) (hsame' ▸ hg) hmember hvalid hvalid')
    · cases hchange' with
      | revoke _ old new hold hnew hm hrevoked =>
        cases hnew.symm.trans hg
        exact hrevoked hvalid'
      | start kind memberId identity time now hold hnew hothers =>
        cases hnew.symm.trans hg
        exact hothers f family hne hf hmember hvalid
  · cases hchange with
    | revoke _ old new hold hnew hm hrevoked =>
      cases hnew.symm.trans hf
      exact hrevoked hvalid
    | start kind memberId identity time now hold hnew hothers =>
      cases hnew.symm.trans hf
      exact hothers g family' (fun heq => hne heq.symm) hg hmember.symm hvalid'

end Kept

/-! ## The laws -/

section Laws

variable {ports : Ports} {p : PortalPool}

theorem holds_of_reach (h : (portal ports).Reach Machine.anyCall (DbPool.initial Db.empty) p) {P : Directory → Prop}
    (hempty : P Db.empty.directory) (hstep : ∀ e r r', Transition e r r' → P r → P r') : P p.state.db.directory := by
  obtain ⟨d, rfl, hpath⟩ := inv_of_reach (serves ports) rfl h
  exact hpath.rule (P := fun d : Db => P d.directory) (fun e d d' hs => hstep e _ _ hs) hempty

theorem turns_of_bootstraps (h : (portal ports).Reach Machine.anyCall (DbPool.initial Db.empty) p) {i : Nat} {q : Request}
    {x : Effect} (hx : p.Made i q x) (hboot : Bootstraps x) : Proof.Turns (fun s => s.db.bootstrap ≠ none) x := by
  obtain ⟨memberId, hnone, row, hrow, hbound⟩ := hboot
  have hnone' : x.1.db.directory.admin memberId = none := hnone
  have hrow' : x.2.db.directory.admin memberId = some row := hrow
  rcases effect_of_made (serves ports) rfl h hx with heq | ⟨e, hstep, _⟩
  · rw [heq, hnone] at hrow
    cases hrow
  · rcases Transition.row_cases hstep memberId with hsame | hchange
    · rw [hsame, hnone'] at hrow'
      cases hrow'
    · cases hchange with
      | bootstrap identity time familyId row' hold hbefore hafter => exact ⟨fun hne => hne hbefore, hafter⟩
      | bind revision identity time familyId row₁ row₂ hold =>
        rw [hnone'] at hold
        cases hold
      | add context now row₁ hauthorized hold hnew hactive hunbound =>
        cases hnew.symm.trans hrow'
        exact absurd hunbound hbound
      | remove context now row₁ row₂ hauthorized hself hold =>
        rw [hnone'] at hold
        cases hold

theorem someBound_of_made (h : (portal ports).Reach Machine.anyCall (DbPool.initial Db.empty) p) {i : Nat} {q : Request}
    {x : Effect} (hx : p.Made i q x) (hboot : Bootstraps x) : ∃ memberId row,
      p.state.db.administrators.lookup memberId = some row ∧ row.active = true ∧ row.bound ≠ none := by
  have hturns := turns_of_bootstraps h hx hboot
  have hchanged : x.2 ≠ x.1 := by
    intro heq
    rw [Proof.Turns, heq] at hturns
    exact hturns.1 hturns.2
  have hnow : p.state.db.bootstrap ≠ none :=
    kept_of_made (serves ports) rfl h (P := fun d => d.bootstrap ≠ none) (fun _ _ _ hs => bootstrap_transition hs) hx hchanged
      hturns.2
  have hsome := holds_of_reach h (P := fun r => r.bootstrap ≠ none → ∃ id identity, r.Bound id identity)
    (fun hne => absurd rfl hne) (fun _ _ _ hs => someBound_transition hs)
  obtain ⟨id, identity, row, hrow, hactive, hbound⟩ := hsome hnow
  exact ⟨id, row, hrow, hactive, by rw [hbound]; simp⟩

theorem verifyLogin_ok {identity verified : AdminIdentity} {now time : Int}
    (h : verifyLogin ports identity now = .ok (verified, time)) :
    validateAdminIdentity ports identity now = .ok verified ∧ adminConfirmationTime verified = some time := by
  obtain ⟨verified', hvalid, h⟩ := bind_ok_iff.mp h
  obtain ⟨_, _, h⟩ := bind_ok_iff.mp h
  split at h
  · cases h
  · rename_i time' htime
    cases h
    exact ⟨hvalid, htime⟩

theorem binds_of_made (h : (portal ports).Reach Machine.anyCall (DbPool.initial Db.empty) p) {i : Nat} {q : Request} {x : Effect}
    {memberId : String} {row row' : Administrator} (hx : p.Made i q x) (hbinds : Binds memberId row row' x) :
    ∃ identity bootstrapEmail requestId verified time, q = .completeLogin identity bootstrapEmail requestId
      ∧ validateAdminIdentity ports identity (ports.now i 0) = .ok verified ∧ adminConfirmationTime verified = some time
      ∧ row.email = verified.email ∧ row.createdAt ≤ time ∧ row'.bound = some (verified.issuer, verified.subject) := by
  obtain ⟨hrow, hunbound, hrow', hbound⟩ := hbinds
  have hold : x.1.db.directory.admin memberId = some row := hrow
  have hnew : x.2.db.directory.admin memberId = some row' := hrow'
  rcases effect_of_made (serves ports) rfl h hx with heq | ⟨e, hstep, hmay, _⟩
  · rw [heq, hrow] at hrow'
    cases hrow'
    exact absurd hunbound hbound
  · rcases Transition.row_cases hstep memberId with hsame | hchange
    · rw [hsame, hold] at hnew
      cases hnew
      exact absurd hunbound hbound
    · cases hchange with
      | bootstrap identity time familyId row₁ hnone =>
        rw [hold] at hnone
        cases hnone
      | bind revision verified time familyId row₁ row₂ hold₁ hunbound₁ hemail htime hnew₁ hactive hwas hbound₁ =>
        cases hold.symm.trans hold₁
        cases hnew.symm.trans hnew₁
        cases q with
        | completeLogin identity bootstrapEmail requestId =>
          obtain ⟨hvalid, hconfirmed⟩ := verifyLogin_ok hmay.1
          exact ⟨identity, bootstrapEmail, requestId, verified, time, rfl, hvalid, hconfirmed, hemail, htime, hbound₁⟩
        | _ => exact absurd hmay id
      | add context now row₁ hauthorized hnone =>
        rw [hold] at hnone
        cases hnone
      | remove context now row₁ row₂ hauthorized hself hold₁ hwas hnew₁ hactive hsame =>
        cases hold.symm.trans hold₁
        cases hnew.symm.trans hnew₁
        rw [hsame] at hbound
        exact absurd hunbound hbound

theorem turns_of_binds {memberId : String} {row row' : Administrator} {x : Effect} (h : Binds memberId row row' x) :
    Proof.Turns (fun s => HasIdentity memberId s.db) x := by
  obtain ⟨hrow, hunbound, hrow', hbound⟩ := h
  refine ⟨?_, row', hrow', hbound⟩
  rintro ⟨row₁, hrow₁, hbound₁⟩
  cases hrow.symm.trans hrow₁
  exact hbound₁ hunbound

theorem added_of_made (h : (portal ports).Reach Machine.anyCall (DbPool.initial Db.empty) p) {i : Nat} {q : Request} {x : Effect}
    {memberId : String} {row : Administrator} (hx : p.Made i q x) (hrow : x.1.db.administrators.lookup memberId = none)
    (hrow' : x.2.db.administrators.lookup memberId = some row) (hunbound : row.bound = none) : ∃ command,
      q = .add command ∧ command.adminId = memberId ∧ x.1.db.directory.Authorized command.context (ports.now i 2) := by
  have hold : x.1.db.directory.admin memberId = none := hrow
  have hnew : x.2.db.directory.admin memberId = some row := hrow'
  rcases effect_of_made (serves ports) rfl h hx with heq | ⟨e, hstep, hmay, _⟩
  · rw [heq, hrow] at hrow'
    cases hrow'
  · rcases Transition.row_cases hstep memberId with hsame | hchange
    · rw [hsame, hold] at hnew
      cases hnew
    · cases hchange with
      | bootstrap identity time familyId row₁ hnone hbefore hafter hnew₁ hactive hbound =>
        cases hnew.symm.trans hnew₁
        rw [hunbound] at hbound
        cases hbound
      | bind revision verified time familyId row₁ row₂ hold₁ =>
        rw [hold] at hold₁
        cases hold₁
      | add context now row₁ hauthorized =>
        cases q with
        | add command =>
          obtain ⟨rfl, rfl, hid⟩ := hmay
          exact ⟨command, rfl, hid.symm, hauthorized⟩
        | _ => exact absurd hmay id
      | remove context now row₁ row₂ hauthorized hself hold₁ =>
        rw [hold] at hold₁
        cases hold₁

theorem removed_of_made (h : (portal ports).Reach Machine.anyCall (DbPool.initial Db.empty) p) {i : Nat} {q : Request} {x : Effect}
    {memberId : String} (hx : p.Made i q x) (hbefore : ¬ Removed memberId x.1.db) (hafter : Removed memberId x.2.db) : ∃ command,
      q = .remove command ∧ command.adminId = memberId ∧ x.1.db.directory.Authorized command.context (ports.now i 2) := by
  obtain ⟨row, hrow, hinactive⟩ := hafter
  have hnew : x.2.db.directory.admin memberId = some row := hrow
  rcases effect_of_made (serves ports) rfl h hx with heq | ⟨e, hstep, hmay, _⟩
  · rw [heq] at hrow
    exact absurd ⟨row, hrow, hinactive⟩ hbefore
  · rcases Transition.row_cases hstep memberId with hsame | hchange
    · exact absurd ⟨row, hsame.symm.trans hnew, hinactive⟩ hbefore
    · cases hchange with
      | bootstrap identity time familyId row₁ hnone hbefore hafter hnew₁ hactive =>
        cases hnew.symm.trans hnew₁
        rw [hinactive] at hactive
        cases hactive
      | bind revision verified time familyId row₁ row₂ hold₁ hunbound hemail htime hnew₁ hactive =>
        cases hnew.symm.trans hnew₁
        rw [hinactive] at hactive
        cases hactive
      | add context now row₁ hauthorized hold hnew₁ hactive =>
        cases hnew.symm.trans hnew₁
        rw [hinactive] at hactive
        cases hactive
      | remove context now row₁ row₂ hauthorized =>
        cases q with
        | remove command =>
          obtain ⟨rfl, rfl, hid⟩ := hmay
          exact ⟨command, rfl, hid.symm, hauthorized⟩
        | _ => exact absurd hmay id

theorem accepted_of_returned (h : (portal ports).Reach Machine.anyCall (DbPool.initial Db.empty) p) {i : Nat}
    {sessionHash : String} {session : AdminSession}
    (hr : p.Returned i (.findSession sessionHash) (.ok (.session (some session)))) :
    ∃ x row family member, p.Made i (.findSession sessionHash) x ∧ x.1.db.sessions.lookup sessionHash = some row
      ∧ x.1.db.families.lookup row.familyId = some family ∧ family.revokedAt = none ∧ session.memberId = family.memberId
      ∧ x.1.db.administrators.lookup family.memberId = some member ∧ member.active = true := by
  have hended : FoundEnd i sessionHash (some session) p.state := ended (serves ports) rfl h hr
  obtain ⟨row, family, member, hwrote, hmember⟩ := hended session rfl
  obtain ⟨x, hx, hstep⟩ := made_of_wrote (serves ports) rfl h hr hwrote List.mem_cons_self
  obtain ⟨_, hsession, hfamily, hadmin, hvalid, hactive⟩ := hstep
  exact ⟨x, row, family, member, hx, hsession, hfamily, hvalid, hmember, hadmin, hactive⟩

end Laws

/-- Administrator membership is safe: the laws hold at every point of every interleaving of the operations, whatever the
identities, the clock, the generators and the failures of the database. -/
theorem administrators_safe (ports : Ports) (p : PortalPool)
    (h : (portal ports).Reach Machine.anyCall (DbPool.initial Db.empty) p) : AdministratorSafety ports p where
  bootstrapOnce i j t t' a b x y ht ht' hx hy hbx hby := by
    have hmade := turns_of_bootstraps h ⟨t, ht, rfl, List.mem_of_getElem? hx⟩ hbx
    have hmade' := turns_of_bootstraps h ⟨t', ht', rfl, List.mem_of_getElem? hy⟩ hby
    exact turns_once (serves ports) rfl h (P := fun d => d.bootstrap ≠ none) (fun _ _ _ hs => bootstrap_transition hs)
      i j t t' a b x y ht ht' hx hy hmade hmade'
  someBound _ _ _ hx hboot := someBound_of_made h hx hboot
  bindOnce i j t t' a b x y memberId _ _ _ _ ht ht' hx hy hbx hby :=
    turns_once (serves ports) rfl h (P := HasIdentity memberId) (fun _ _ _ hs hid => hid.transition hs)
      i j t t' a b x y ht ht' hx hy (turns_of_binds hbx) (turns_of_binds hby)
  binds _ _ _ _ _ _ hx hbinds := binds_of_made h hx hbinds
  added _ _ _ _ _ hx hold hnew hunbound := added_of_made h hx hold hnew hunbound
  removed _ _ _ _ hx hbefore hafter := removed_of_made h hx hbefore hafter
  oneFamily := holds_of_reach h (P := OneFamily) (fun _ _ _ _ hf => by cases hf) fun _ _ _ hs => OneFamily.transition hs
  accepted _ _ _ hr := accepted_of_returned h hr
  removedForever p' memberId h' hremoved := by
    have hkept : ∀ e d d', (system ports).step e d d' → Removed memberId d → Removed memberId d' :=
      fun _ _ _ hs hr => hr.transition hs
    obtain ⟨_, _, hpath⟩ := path_of_reach (serves ports) rfl h h'
    refine ⟨hpath.rule hkept hremoved, ?_⟩
    rintro i sessionHash session hi hr rfl
    obtain ⟨x, row, family, member, hx, _, _, _, hmember, hadmin, hactive⟩ := accepted_of_returned (h.trans h') hr
    obtain ⟨row', hrow', hinactive⟩ := late_call (serves ports) rfl h h' hkept hremoved hi hx
    rw [hmember, hadmin] at hrow'
    cases hrow'
    rw [hinactive] at hactive
    cases hactive
  revokedForever p' familyId h' hrevoked := by
    have hkept : ∀ e d d', (system ports).step e d d' → Revoked familyId d → Revoked familyId d' :=
      fun _ _ _ hs hr => hr.transition hs
    obtain ⟨_, _, hpath⟩ := path_of_reach (serves ports) rfl h h'
    refine ⟨hpath.rule hkept hrevoked, ?_⟩
    intro i sessionHash session hi hr
    obtain ⟨x, row, family, member, hx, hsession, hfamily, hvalid, _⟩ := accepted_of_returned (h.trans h') hr
    refine ⟨x, row, hx, hsession, ?_⟩
    rintro rfl
    obtain ⟨family', hfamily', hat⟩ := late_call (serves ports) rfl h h' hkept hrevoked hi hx
    cases hfamily.symm.trans hfamily'
    exact hat hvalid

section Sample

/-- Ports with a clock that stands still, where draws are numbered and every email is normal. -/
def samplePorts : Ports where
  now _ _ := 100
  randomUUID i k := String.ofList (List.replicate i 'a' ++ 'b' :: List.replicate k 'c')
  sessionHash i := String.ofList (List.replicate i 's')
  csrfHash i := String.ofList (List.replicate i 't')
  normalizeGoogleEmail := some
  resourceEtag memberId _ := memberId

def sampleIdentity (subject email : String) : AdminIdentity := ⟨googleIssuer, subject, email, some 100, none, none⟩

/-- The context of Ann, who is the first administrator. -/
def sampleContext : AdminContext := ⟨"b", sampleIdentity "ann" "ann@x.y", .session, some "", (none, none, none)⟩

/-- Ann bootstraps and invites Bob, who logs in; she removes him while his session is looked for. -/
def sampleRun : List (Label Nat Request Empty) :=
  [.start 0 (.completeLogin (sampleIdentity "ann" "ann@x.y") (some "ann@x.y") "r0"), .run 0 .none, .run 0 .none, .run 0 .none,
    .run 0 .none,
    .start 1 (.add ⟨sampleContext, "k", "f", "bob", "bob@x.y", "etag", "e1", "administrator.added", 100, "r1"⟩),
    .run 1 .none, .run 1 .none, .run 1 .none, .run 1 .lost,
    .start 2 (.completeLogin (sampleIdentity "bob" "bob@x.y") none "r2"), .run 2 .none, .run 2 .none, .run 2 .none,
    .start 3 (.findSession "ss"), .run 3 .none,
    .start 4 (.remove ⟨sampleContext, "bob", "k2", "f2", "bob", "e4", "administrator.removed", 100, "r4"⟩),
    .run 4 .none, .run 4 .none, .run 4 .none, .run 4 .none, .run 4 .none, .run 4 .none,
    .start 5 (.findSession "ss"), .run 5 .none]

/-- The session of Bob is found before he is removed and not after. -/
theorem administrators_safe_removal : ∃ p, (portal samplePorts).exec? sampleRun (DbPool.initial Db.empty) = some p
    ∧ p.result 3 = some (.ok (.session (some
      ⟨"ss", "tt", sampleIdentity "bob" "bob@x.y", "bob", 100, 28900⟩)))
    ∧ p.result 5 = some (.ok (.session none)) ∧ AdministratorSafety samplePorts p := by
  have hrun : ((portal samplePorts).exec? sampleRun (DbPool.initial Db.empty)).any (fun p =>
      decide (p.result 3 = some (.ok (.session (some ⟨"ss", "tt", sampleIdentity "bob" "bob@x.y", "bob", 100, 28900⟩))))
      && decide (p.result 5 = some (.ok (.session none)))) = true := by
    decide
  obtain ⟨p, hp, hchecks⟩ := Option.any_eq_true .. |>.mp hrun
  simp only [Bool.and_eq_true, decide_eq_true_eq] at hchecks
  exact ⟨p, hp, hchecks.1, hchecks.2, administrators_safe samplePorts p (Machine.reach_of_exec? _ .init hp)⟩

end Sample

end UniDocs.Administrators
