import UniDocs.Lemmas.TenantMemberPrograms

/-!
# Tenant sign-in

Over any interleaving of the reads and batches of sign-ins, of the operations of administrators on tenant members, and of the
queries and revocations of sessions, whatever calls fail or lose their answers: sessions that authenticate as one principal were
issued to one identity; a session is issued with its member active and bound to who signs in; an invitation is bound once, by an
identity it is for; no session of a removed member authenticates, nor one that was there when the sessions of its member were
revoked; and a principal has no more sessions than the limit.
-/

namespace UniDocs.TenantMembers

open Lib Lib.Trace
open Administrators (AdminIdentity AdminContext validateAdminIdentity adminConfirmationTime)

/-- The effect of one call of an operation. -/
abbrev Effect := Traced Db Nat Entry × Traced Db Nat Entry

/-- A call issues a session. -/
def Issues (hash : String) (session : Session) (x : Effect) : Prop :=
  x.1.db.sessions.lookup hash ≠ some session ∧ x.2.db.sessions.lookup hash = some session

/-- A session was issued to an identity, by a sign-in with that identity. -/
def SignedIn (ports : Ports) (p : TenantPool) (hash : String) (session : Session) (identity : String × String) : Prop :=
  ∃ i login requestId x verified, p.Made i (.completeLogin login requestId) x ∧ Issues hash session x
    ∧ validateAdminIdentity ports.toPorts login (ports.now i 0) = .ok verified ∧ identity = (verified.issuer, verified.subject)

/-- A principal belongs to a member that has been removed. -/
def Removed (who : String × String) (d : Db) : Prop :=
  ∃ memberId row, d.members.lookup memberId = some row ∧ row.principal = who ∧ row.active = false

/-- A call binds a member that was invited, and the row it makes of the invitation. -/
def Binds (memberId : String) (row row' : Member) (x : Effect) : Prop :=
  x.1.db.members.lookup memberId = some row ∧ row.bound = none
    ∧ x.2.db.members.lookup memberId = some row' ∧ row'.bound ≠ none

/-- The laws of sign-ins, as of a point of a run. -/
structure TenantSignInSafety (ports : Ports) (p : TenantPool) : Prop where
  /-- Sessions that have authenticated as the same principal were issued to the same identity. -/
  isolated : ∀ i j hash hash' now now' session session' row row' identity identity',
    p.Returned i (.find hash now) (.ok (.session (some session))) →
    p.Returned j (.find hash' now') (.ok (.session (some session'))) → session.principal = session'.principal →
    SignedIn ports p hash row identity → SignedIn ports p hash' row' identity' → identity = identity'
  /-- A session that has authenticated was issued to an identity, as it is. -/
  accounted : ∀ i hash now session, p.Returned i (.find hash now) (.ok (.session (some session))) →
    ∃ identity, SignedIn ports p hash session identity
  /-- A session is issued by a sign-in, with its member active and bound to the identity that signs in. -/
  issued : ∀ i q x hash session, p.Made i q x → Issues hash session x → ∃ login requestId verified memberId,
    q = .completeLogin login requestId ∧ validateAdminIdentity ports.toPorts login (ports.now i 0) = .ok verified
      ∧ x.2.db.roster.Bound memberId session.principal (verified.issuer, verified.subject)
  /-- An invitation is bound by at most one call of at most one sign-in. -/
  bindOnce : ∀ i j t t' (a b : Nat) x y memberId row₁ row₂ row₃ row₄, p.thread i = some t → p.thread j = some t' →
    t.steps[a]? = some x → t'.steps[b]? = some y → Binds memberId row₁ row₂ x → Binds memberId row₃ row₄ y → i = j ∧ a = b
  /-- It is bound by a sign-in with its email, confirmed when the invitation was there, and to the identity of that sign-in. -/
  binds : ∀ i q x memberId row row', p.Made i q x → Binds memberId row row' x → ∃ login requestId verified time,
    q = .completeLogin login requestId ∧ validateAdminIdentity ports.toPorts login (ports.now i 0) = .ok verified
      ∧ adminConfirmationTime verified = some time ∧ row.email = verified.email ∧ row.createdAt ≤ time
      ∧ row'.bound = some (verified.issuer, verified.subject)
  /-- A removal that has committed leaves its member removed. -/
  removed : ∀ i command x, p.Made i (.remove command) x → x.2 ≠ x.1 → ∃ row,
    x.1.db.members.lookup command.memberId = some row ∧ Removed row.principal p.state.db
  /-- A principal whose member is removed stays so, and no query that is made later finds a session of it. -/
  removedForever : ∀ p' who, (portal ports).Reach Machine.anyCall p p' → Removed who p.state.db →
    Removed who p'.state.db ∧ ∀ i hash now session, (∀ x, ¬ p.Made i (.find hash now) x) →
      p'.Returned i (.find hash now) (.ok (.session (some session))) → session.principal ≠ who
  /-- A session that was there when the sessions of its member were revoked is gone, and no query that is made later finds it. -/
  revokedForever : ∀ p' i command x row hash session, (portal ports).Reach Machine.anyCall p p' →
    p.Made i (.revokeSessions command) x → x.2 ≠ x.1 → x.1.db.members.lookup command.memberId = some row →
    x.1.db.sessions.lookup hash = some session → session.principal = row.principal →
    p'.state.db.sessions.lookup hash = none ∧ ∀ j now session', (∀ y, ¬ p.Made j (.find hash now) y) →
      ¬ p'.Returned j (.find hash now) (.ok (.session (some session')))
  /-- A principal has no more sessions than the limit. -/
  limited : ∀ tenantId principalId,
    p.state.db.sessions.count (fun _ session => session.isOf tenantId principalId) ≤ tenantMemberSessionLimit

/-! ## What transitions keep -/

section Kept

variable {e : Entry} {r r' : Roster} {d d' : Db}

/-- A member is a principal and bound to an identity, whether or not it is active. -/
def Roster.Holds (r : Roster) (memberId : String) (who identity : String × String) : Prop :=
  ∃ row, r.member memberId = some row ∧ row.principal = who ∧ row.bound = some identity

theorem Roster.Holds.transition {memberId : String} {who identity : String × String} (h : Transition e r r')
    (hholds : r.Holds memberId who identity) : r'.Holds memberId who identity := by
  obtain ⟨row, hrow, hprincipal, hbound⟩ := hholds
  rcases h.change.row_cases memberId with hsame | hchange
  · exact ⟨row, by rw [hsame, hrow], hprincipal, hbound⟩
  · cases hchange with
    | bind revision identity' time hash session row₁ row₂ hold hwas hunbound =>
      cases hrow.symm.trans hold
      rw [hunbound] at hbound
      cases hbound
    | appear _ row₁ hsubject hold =>
      rw [hrow] at hold
      cases hold
    | remove context row₁ row₂ hold hwas hnew hplace hactive hsame =>
      cases hrow.symm.trans hold
      exact ⟨row₂, hnew, hplace.trans hprincipal, hsame.trans hbound⟩

/-- A removed member is not made active again. -/
theorem Removed.transition {who : String × String} (h : Transition e d.roster d'.roster) (hremoved : Removed who d) :
    Removed who d' := by
  obtain ⟨memberId, row, hrow, hprincipal, hinactive⟩ := hremoved
  have hrow' : d.roster.member memberId = some row := hrow
  rcases h.change.row_cases memberId with hsame | hchange
  · exact ⟨memberId, row, hsame.trans hrow, hprincipal, hinactive⟩
  · cases hchange with
    | bind revision identity time hash session row₁ row₂ hold hwas =>
      cases hrow'.symm.trans hold
      rw [hinactive] at hwas
      cases hwas
    | appear _ row₁ hsubject hold =>
      rw [hrow'] at hold
      cases hold
    | remove context row₁ row₂ hold hwas hnew hplace hactive =>
      exact ⟨memberId, row₂, hnew, by cases hrow'.symm.trans hold; exact hplace.trans hprincipal, hactive⟩

/-- No two members are the same principal. -/
def OnePrincipal (r : Roster) : Prop :=
  ∀ id id' row row', r.member id = some row → r.member id' = some row' → row.principal = row'.principal → id = id'

theorem Change.row_before (h : Change e r r') {id : String} {row : Member} (hrow : r'.member id = some row) :
    (∃ old, r.member id = some old ∧ old.principal = row.principal) ∨ e.subject = some id ∧ r.Fresh row.principal := by
  rcases h.row_cases id with hsame | hchange
  · exact .inl ⟨row, hsame ▸ hrow, rfl⟩
  · cases hchange with
    | bind revision identity time hash session row₁ row₂ hold hwas hunbound hemail htime hnew hplace =>
      cases hnew.symm.trans hrow
      exact .inl ⟨row₁, hold, hplace.symm⟩
    | appear _ row₁ hsubject hold hnew hfresh =>
      cases hnew.symm.trans hrow
      exact .inr ⟨hsubject, hfresh⟩
    | remove context row₁ row₂ hold hwas hnew hplace =>
      cases hnew.symm.trans hrow
      exact .inl ⟨row₁, hold, hplace.symm⟩

theorem OnePrincipal.transition (h : Transition e r r') (hone : OnePrincipal r) : OnePrincipal r' := by
  intro id id' row row' hrow hrow' hprincipal
  rcases h.change.row_before hrow with ⟨old, hold, hsame⟩ | ⟨hsubject, hfresh⟩
  · rcases h.change.row_before hrow' with ⟨old', hold', hsame'⟩ | ⟨hsubject', hfresh'⟩
    · exact hone id id' old old' hold hold' (by rw [hsame, hsame', hprincipal])
    · exact absurd (hsame.trans hprincipal) (hfresh' id old hold)
  · rcases h.change.row_before hrow' with ⟨old', hold', hsame'⟩ | ⟨hsubject', hfresh'⟩
    · exact absurd (hsame'.trans hprincipal.symm) (hfresh id' old' hold')
    · exact Option.some.inj (hsubject.symm.trans hsubject')

/-- No principal has more sessions than the limit. -/
def Limited (r : Roster) : Prop := ∀ who, r.held who ≤ tenantMemberSessionLimit

theorem Limited.transition (h : Transition e r r') (hlimited : Limited r) : Limited r' :=
  fun who => (h.counted who).trans (max_le (hlimited who) le_rfl)

/-- An identity is not taken from a member. -/
def HasIdentity (memberId : String) (d : Db) : Prop := ∃ who identity, d.roster.Holds memberId who identity

theorem HasIdentity.transition {memberId : String} (h : Transition e d.roster d'.roster) (hid : HasIdentity memberId d) :
    HasIdentity memberId d' := by
  obtain ⟨who, identity, hholds⟩ := hid
  exact ⟨who, identity, hholds.transition h⟩

end Kept

/-! ## What the trace says of sessions -/

section Entries

variable {ports : Ports} {d d' : Db} {es : List (Nat × Entry)}

/-- A sign-in has written that it issues a session. -/
def IssuedBy (es : List (Nat × Entry)) (i : Nat) (memberId : String) (identity : AdminIdentity) (hash : String)
    (session : Session) : Prop :=
  ∃ kind confirmedAt, (i, Entry.login kind memberId identity confirmedAt hash session) ∈ es

theorem session_source (h : Path (system ports).step d es d') {hash : String} {session : Session}
    (hsession : d'.sessions.lookup hash = some session) : d.sessions.lookup hash = some session
      ∨ ∃ i memberId identity, IssuedBy es i memberId identity hash session := by
  induction h with
  | nil => exact .inl hsession
  | snoc i e hp hs ih =>
    rename_i es d₁ d₂
    have hold : d₁.sessions.lookup hash = some session → d.sessions.lookup hash = some session
        ∨ ∃ j memberId identity, IssuedBy (es ++ [(i, e)]) j memberId identity hash session := by
      intro hlookup
      rcases ih hlookup with hbefore | ⟨j, memberId, identity, kind, time, hm⟩
      · exact .inl hbefore
      · exact .inr ⟨j, memberId, identity, kind, time, List.mem_append_left _ hm⟩
    have hroster : d₂.roster.session hash = some session := hsession
    rcases hs.change.session_cases hroster with hlookup | ⟨kind, memberId, identity, time, rfl⟩
    · exact hold hlookup
    · exact .inr ⟨i, memberId, identity, kind, time, by simp⟩

theorem holds_of_issued (h : Path (system ports).step d es d') {i : Nat} {memberId : String} {identity : AdminIdentity}
    {hash : String} {session : Session} (hissued : IssuedBy es i memberId identity hash session) :
    d'.roster.Holds memberId session.principal (identity.issuer, identity.subject) := by
  obtain ⟨kind, time, hm⟩ := hissued
  obtain ⟨_, _, d₁, d₂, _, _, hs, hp⟩ := h.mem hm
  obtain ⟨row, hrow, hprincipal, _, hbound⟩ := hs.change.2.1
  refine hp.rule (P := fun d : Db => d.roster.Holds memberId session.principal (identity.issuer, identity.subject))
    (fun _ _ _ hs hh => hh.transition hs) ⟨row, hrow, hprincipal, hbound⟩

end Entries

/-! ## The laws -/

section Laws

variable {ports : Ports} {p p' : TenantPool} {d : Db}

/-- The pools that operations reach from a database without members and sessions. -/
abbrev Reaches (ports : Ports) (d : Db) (p : TenantPool) : Prop :=
  (portal ports).Reach Machine.anyCall (DbPool.initial d) p

theorem holds_of_inv {s : Traced Db Nat Entry} (h : (system ports).Inv s) {P : Roster → Prop}
    (hempty : ∀ d : Db, d.members = ∅ → d.sessions = ∅ → P d.roster) (hstep : ∀ e r r', Transition e r r' → P r → P r') :
    P s.db.roster := by
  obtain ⟨d, hd, hpath⟩ := h
  exact hpath.rule (P := fun d : Db => P d.roster) (fun e d d' hs => hstep e _ _ hs) (hempty d hd.1 hd.2)

theorem onePrincipal_of_inv {s : Traced Db Nat Entry} (h : (system ports).Inv s) : OnePrincipal s.db.roster := by
  refine holds_of_inv h (fun d hm _ => ?_) fun _ _ _ hs => OnePrincipal.transition hs
  intro id id' row row' hrow
  simp [Db.roster, hm] at hrow

variable {session : Session} {hash : String}

theorem issuedBy_of_inv {s : Traced Db Nat Entry} (h : (system ports).Inv s)
    (hsession : s.db.sessions.lookup hash = some session) :
    ∃ i memberId identity, IssuedBy s.trace i memberId identity hash session := by
  obtain ⟨d, hd, hpath⟩ := h
  rcases session_source hpath hsession with hold | hissued
  · rw [hd.2] at hold
    cases hold
  · exact hissued

variable (hd : d.members = ∅ ∧ d.sessions = ∅) (h : Reaches ports d p)

include hd h

variable {i : Nat}

theorem made_of_issued {memberId : String} {identity : AdminIdentity}
    (hissued : IssuedBy p.state.trace i memberId identity hash session) :
    ∃ login requestId confirmedAt kind x es, p.Made i (.completeLogin login requestId) x
      ∧ verifyLogin ports login (ports.now i 0) = .ok (identity, confirmedAt) ∧ hash = ports.sessionHash i
      ∧ x.2.trace = x.1.trace ++ [(i, .login kind memberId identity confirmedAt hash session)]
      ∧ p.state.trace = x.2.trace ++ es ∧ (system ports).Inv x.1 ∧ x.2.db.sessions.lookup hash = some session := by
  obtain ⟨kind, confirmedAt, hm⟩ := hissued
  obtain ⟨q, x, es, hx, htrace, hstep, hmay, hinv, hes, _⟩ := made_of_entry (serves ports) hd h hm
  cases q with
  | completeLogin login requestId =>
    exact ⟨login, requestId, confirmedAt, kind, x, es, hx, hmay.1, hmay.2, htrace, hes, hinv, hstep.change.2.2.1⟩
  | _ => exact hmay.elim

variable {x : Effect}

/-- A sign-in writes once. -/
theorem own_le_one {login : AdminIdentity} {requestId : String}
    (hx : p.Made i (.completeLogin login requestId) x) : (Journal.own i p.state.trace).length ≤ 1 := by
  obtain ⟨t, ht, hq, _⟩ := hx
  refine own_length_le (serves ports) hd h (q := .completeLogin login requestId) ?_ ht hq
  exact Within.bind (n := 1) (m := 0) (fun _ => .pure 0) (within_completeLogin login requestId)

variable (hfresh : Function.Injective ports.sessionHash)

include hfresh

theorem issued_once {es es' : List (Nat × Entry)} (hes : p.state.trace = es ++ es') {i j : Nat} {memberId memberId' : String}
    {identity identity' : AdminIdentity} {session session' : Session}
    (hissued : IssuedBy es i memberId identity hash session) (hagain : IssuedBy es' j memberId' identity' hash session') :
    False := by
  have hall : IssuedBy p.state.trace i memberId identity hash session := by
    obtain ⟨kind, time, hm⟩ := hissued
    exact ⟨kind, time, by rw [hes]; exact List.mem_append_left _ hm⟩
  have hall' : IssuedBy p.state.trace j memberId' identity' hash session' := by
    obtain ⟨kind, time, hm⟩ := hagain
    exact ⟨kind, time, by rw [hes]; exact List.mem_append_right _ hm⟩
  obtain ⟨login, requestId, _, _, x, _, hx, _, hhash, _⟩ := made_of_issued hd h hall
  obtain ⟨_, _, _, _, _, _, _, _, hhash', _⟩ := made_of_issued hd h hall'
  obtain rfl : i = j := hfresh (hhash.symm.trans hhash')
  have hone := own_le_one hd h hx
  obtain ⟨_, _, hm⟩ := hissued
  obtain ⟨_, _, hm'⟩ := hagain
  rw [hes, Journal.own_append, List.length_append] at hone
  have hlength := List.length_pos_of_mem (Journal.mem_own.mpr hm)
  have hlength' := List.length_pos_of_mem (Journal.mem_own.mpr hm')
  omega

theorem issued_unique {i j : Nat} {memberId memberId' : String} {identity identity' : AdminIdentity}
    {session session' : Session} (hissued : IssuedBy p.state.trace i memberId identity hash session)
    (hissued' : IssuedBy p.state.trace j memberId' identity' hash session') :
    memberId = memberId' ∧ identity = identity' ∧ session = session' := by
  obtain ⟨login, requestId, _, _, x, _, hx, _, hhash, _⟩ := made_of_issued hd h hissued
  obtain ⟨_, _, _, _, _, _, _, _, hhash', _⟩ := made_of_issued hd h hissued'
  obtain rfl : i = j := hfresh (hhash.symm.trans hhash')
  have hone := own_le_one hd h hx
  obtain ⟨_, _, hm⟩ := hissued
  obtain ⟨_, _, hm'⟩ := hissued'
  cases Journal.eq_of_own_le_one hone hm hm'
  exact ⟨rfl, rfl, rfl⟩

omit hd h hfresh in
theorem access_ok {α : Type} {r : Except Administrators.PortalError α} {a : α} (h : access r = .ok a) : r = .ok a := by
  cases r with
  | ok b =>
    cases h
    rfl
  | error e => cases h

omit hd h hfresh in
theorem verifyLogin_ok {identity verified : AdminIdentity} {now time : Int}
    (h : verifyLogin ports identity now = .ok (verified, time)) :
    validateAdminIdentity ports.toPorts identity now = .ok verified ∧ adminConfirmationTime verified = some time := by
  obtain ⟨verified', hvalid, h⟩ := bind_ok_iff.mp h
  obtain ⟨_, _, h⟩ := bind_ok_iff.mp h
  split at h
  · cases h
  · rename_i time' htime
    cases h
    exact ⟨access_ok hvalid, htime⟩

omit hfresh in
theorem issuedBy_of_made {q : Request} (hx : p.Made i q x)
    (hissues : Issues hash session x) : ∃ login requestId verified memberId, q = .completeLogin login requestId
      ∧ validateAdminIdentity ports.toPorts login (ports.now i 0) = .ok verified
      ∧ x.2.db.roster.Bound memberId session.principal (verified.issuer, verified.subject)
      ∧ IssuedBy p.state.trace i memberId verified hash session := by
  obtain ⟨hbefore, hafter⟩ := hissues
  rcases effect_of_made (serves ports) hd h hx with heq | ⟨e, hstep, hmay, _, hm, _⟩
  · exact absurd (heq ▸ hafter) hbefore
  · have hroster : x.2.db.roster.session hash = some session := hafter
    rcases hstep.change.session_cases hroster with hold | ⟨kind, memberId, verified, time, rfl⟩
    · exact absurd hold hbefore
    · cases q with
      | completeLogin login requestId =>
        exact ⟨login, requestId, verified, memberId, rfl, (verifyLogin_ok hmay.1).1, hstep.change.2.1, kind, time, hm⟩
      | _ => exact hmay.elim

omit hfresh in
theorem issuedBy_of_signedIn {identity : String × String}
    (hsigned : SignedIn ports p hash session identity) : ∃ i memberId verified,
      IssuedBy p.state.trace i memberId verified hash session ∧ identity = (verified.issuer, verified.subject) := by
  obtain ⟨i, login, requestId, x, verified, hx, hissues, hvalid, hidentity⟩ := hsigned
  obtain ⟨login', requestId', verified', memberId, hq, hvalid', _, hissued⟩ := issuedBy_of_made hd h hx hissues
  cases hq
  cases hvalid.symm.trans hvalid'
  exact ⟨i, memberId, verified, hissued, hidentity⟩

theorem signedIn_of_issued {memberId : String} {verified : AdminIdentity}
    (hissued : IssuedBy p.state.trace i memberId verified hash session) :
    SignedIn ports p hash session (verified.issuer, verified.subject) := by
  obtain ⟨login, requestId, time, kind, x, es, hx, hverify, _, htrace, hes, hinv, hafter⟩ := made_of_issued hd h hissued
  refine ⟨i, login, requestId, x, verified, hx, ⟨fun hbefore => ?_, hafter⟩, (verifyLogin_ok hverify).1, rfl⟩
  -- it was not there before: the secret would have been issued twice
  obtain ⟨j, memberId', verified', hold⟩ := issuedBy_of_inv hinv hbefore
  have hagain : IssuedBy ([(i, .login kind memberId verified time hash session)] ++ es) i memberId verified hash session :=
    ⟨kind, time, by simp⟩
  refine issued_once hd h hfresh ?_ hold hagain
  rw [hes, htrace, List.append_assoc]

omit hfresh in
theorem found_of_returned {now : Int}
    (hr : p.Returned i (.find hash now) (.ok (.session (some session)))) : ∃ x memberId row, p.Made i (.find hash now) x
      ∧ (system ports).Inv x.1 ∧ (∀ y ∈ x.1.trace, y ∈ p.state.trace) ∧ x.1.db.sessions.lookup hash = some session
      ∧ x.1.db.members.lookup memberId = some row ∧ row.principal = session.principal ∧ row.active = true := by
  have hended : FoundEnd i hash now (some session) p.state := ended (serves ports) hd h hr
  obtain ⟨memberId, hwrote⟩ := hended session rfl
  have hm : (i, Entry.found hash now session memberId) ∈ p.state.trace := hwrote.mem List.mem_cons_self
  obtain ⟨q, x, es, hx, htrace, hstep, hmay, hinv, hes, _⟩ := made_of_entry (serves ports) hd h hm
  cases q with
  | find hash' now' =>
    obtain ⟨rfl, rfl⟩ := hmay
    obtain ⟨_, hsession, _, _, row, hrow, hprincipal, hactive, _⟩ := hstep.change
    refine ⟨x, memberId, row, hx, hinv, ?_, hsession, hrow, hprincipal, hactive⟩
    intro y hy
    rw [hes, htrace]
    simp [hy]
  | _ => exact hmay.elim

omit hfresh in
theorem issuedBy_of_returned {now : Int}
    (hr : p.Returned i (.find hash now) (.ok (.session (some session)))) :
    ∃ j memberId verified, IssuedBy p.state.trace j memberId verified hash session := by
  obtain ⟨x, _, _, _, hinv, htrace, hsession, _⟩ := found_of_returned hd h hr
  obtain ⟨j, memberId, verified, kind, time, hm⟩ := issuedBy_of_inv hinv hsession
  exact ⟨j, memberId, verified, kind, time, htrace _ hm⟩

theorem isolated_of_returned {i j : Nat} {hash hash' : String} {now now' : Int} {session session' row row' : Session}
    {identity identity' : String × String} (hr : p.Returned i (.find hash now) (.ok (.session (some session))))
    (hr' : p.Returned j (.find hash' now') (.ok (.session (some session'))))
    (hprincipal : session.principal = session'.principal) (hsigned : SignedIn ports p hash row identity)
    (hsigned' : SignedIn ports p hash' row' identity') : identity = identity' := by
  obtain ⟨_, memberId, verified, hissued, rfl⟩ := issuedBy_of_signedIn hd h hsigned
  obtain ⟨_, memberId', verified', hissued', rfl⟩ := issuedBy_of_signedIn hd h hsigned'
  obtain ⟨_, _, _, hfound⟩ := issuedBy_of_returned hd h hr
  obtain ⟨_, _, _, hfound'⟩ := issuedBy_of_returned hd h hr'
  obtain ⟨_, _, rfl⟩ := issued_unique hd h hfresh hissued hfound
  obtain ⟨_, _, rfl⟩ := issued_unique hd h hfresh hissued' hfound'
  -- both identities are bound to the one member that is the principal
  have hinv := inv_of_reach (serves ports) hd h
  obtain ⟨d₀, _, hpath⟩ := inv_of_reach (serves ports) hd h
  obtain ⟨member, hmember, hplace, hbound⟩ := holds_of_issued hpath hissued
  obtain ⟨member', hmember', hplace', hbound'⟩ := holds_of_issued hpath hissued'
  obtain rfl := onePrincipal_of_inv hinv memberId memberId' member member' hmember hmember'
    (by rw [hplace, hplace', hprincipal])
  cases hmember.symm.trans hmember'
  exact Option.some.inj (hbound.symm.trans hbound')

omit hfresh in
theorem binds_of_made {q : Request} {memberId : String} {row row' : Member} (hx : p.Made i q x)
    (hbinds : Binds memberId row row' x) : ∃ login requestId verified time, q = .completeLogin login requestId
      ∧ validateAdminIdentity ports.toPorts login (ports.now i 0) = .ok verified
      ∧ adminConfirmationTime verified = some time ∧ row.email = verified.email ∧ row.createdAt ≤ time
      ∧ row'.bound = some (verified.issuer, verified.subject) := by
  obtain ⟨hrow, hunbound, hrow', hbound⟩ := hbinds
  have hold : x.1.db.roster.member memberId = some row := hrow
  have hnew : x.2.db.roster.member memberId = some row' := hrow'
  rcases effect_of_made (serves ports) hd h hx with heq | ⟨e, hstep, hmay, _⟩
  · rw [heq, hrow] at hrow'
    cases hrow'
    exact absurd hunbound hbound
  · rcases hstep.change.row_cases memberId with hsame | hchange
    · rw [hsame, hold] at hnew
      cases hnew
      exact absurd hunbound hbound
    · cases hchange with
      | bind revision verified time hash session row₁ row₂ hold₁ hwas hunbound₁ hemail htime hnew₁ hplace hactive hbound₁ =>
        cases hold.symm.trans hold₁
        cases hnew.symm.trans hnew₁
        cases q with
        | completeLogin login requestId =>
          obtain ⟨hvalid, hconfirmed⟩ := verifyLogin_ok hmay.1
          exact ⟨login, requestId, verified, time, rfl, hvalid, hconfirmed, hemail, htime, hbound₁⟩
        | _ => exact hmay.elim
      | appear _ row₁ hsubject hnone =>
        rw [hold] at hnone
        cases hnone
      | remove context row₁ row₂ hold₁ hwas hnew₁ hplace hactive hsame =>
        cases hold.symm.trans hold₁
        cases hnew.symm.trans hnew₁
        rw [hsame] at hbound
        exact absurd hunbound hbound

omit hd h hfresh in
theorem turns_of_binds {memberId : String} {row row' : Member} (hbinds : Binds memberId row row' x) :
    Proof.Turns (fun s => HasIdentity memberId s.db) x := by
  obtain ⟨hrow, hunbound, hrow', hbound⟩ := hbinds
  obtain ⟨identity, hidentity⟩ := Option.ne_none_iff_exists'.mp hbound
  refine ⟨?_, row'.principal, identity, row', hrow', rfl, hidentity⟩
  rintro ⟨_, _, row₁, hrow₁, _, hbound₁⟩
  have hrow₂ : x.1.db.members.lookup memberId = some row₁ := hrow₁
  cases hrow.symm.trans hrow₂
  rw [hunbound] at hbound₁
  cases hbound₁

omit hfresh in
theorem removed_of_made {command : RemoveCommand} (hx : p.Made i (.remove command) x)
    (hchanged : x.2 ≠ x.1) : ∃ row, x.1.db.members.lookup command.memberId = some row ∧ Removed row.principal p.state.db := by
  obtain ⟨e, es, _, hstep, hmay, _, _, hpath⟩ := step_of_made (serves ports) hd h hx hchanged
  cases e with
  | removed context memberId =>
    obtain ⟨rfl, rfl⟩ := hmay
    obtain ⟨_, row, row', hrow, _, hplace, hinactive, _, hmember⟩ := hstep.change
    refine ⟨row, hrow, hpath.rule (P := Removed row.principal) (fun _ _ _ hs hr => hr.transition hs) ?_⟩
    exact ⟨command.memberId, row', (congrFun hmember command.memberId).trans (Function.update_self ..), hplace, hinactive⟩
  | _ => exact hmay.elim

omit hfresh in
theorem not_found_removed (h' : (portal ports).Reach Machine.anyCall p p') {who : String × String}
    (hremoved : Removed who p.state.db) {now : Int}
    (hnot : ∀ x, ¬ p.Made i (.find hash now) x) (hr : p'.Returned i (.find hash now) (.ok (.session (some session)))) :
    session.principal ≠ who := by
  rintro rfl
  obtain ⟨x, memberId, row, hx, hinv, _, _, hrow, hprincipal, hactive⟩ := found_of_returned hd (h.trans h') hr
  obtain ⟨es, _, _, hpath, _⟩ := later_call (serves ports) hd h h' (hnot x) hx
  obtain ⟨memberId', row', hrow', hprincipal', hinactive⟩ :=
    hpath.rule (P := Removed session.principal) (fun _ _ _ hs hr => hr.transition hs) hremoved
  obtain rfl := onePrincipal_of_inv hinv memberId memberId' row row' hrow hrow' (hprincipal.trans hprincipal'.symm)
  cases hrow.symm.trans hrow'
  rw [hinactive] at hactive
  cases hactive

/-- A session that a revocation has deleted does not come back. -/
theorem gone_of_revoked {command : RevokeSessionsCommand} {row : Member}
    (hx : p.Made i (.revokeSessions command) x) (hchanged : x.2 ≠ x.1)
    (hrow : x.1.db.members.lookup command.memberId = some row) (hsession : x.1.db.sessions.lookup hash = some session)
    (hprincipal : session.principal = row.principal) (h' : (portal ports).Reach Machine.anyCall p p') {d' : Db}
    {es es' : List (Nat × Entry)} (hpath : Path (system ports).step p.state.db es d')
    (htrace : p'.state.trace = p.state.trace ++ es ++ es') : d'.sessions.lookup hash = none := by
  obtain ⟨e, es₀, htrace₀, hstep, hmay, hinv, hes₀, hpath₀⟩ := step_of_made (serves ports) hd h hx hchanged
  cases e with
  | sessionsRevoked context memberId tenantId principalId =>
    obtain ⟨rfl, rfl⟩ := hmay
    obtain ⟨hshrinks, _, ⟨row', hrow', hplace⟩, hothers⟩ := hstep.change
    cases hrow.symm.trans hrow'
    cases hlookup : d'.sessions.lookup hash with
    | none => rfl
    | some other =>
      exfalso
      rcases session_source (hpath₀.trans hpath) hlookup with hthere | ⟨j, memberId', identity', hagain⟩
      · have hbefore : x.1.db.sessions.lookup hash = some other := hshrinks hash other hthere
        cases hsession.symm.trans hbefore
        exact hothers hash session hthere (hprincipal.trans hplace)
      · obtain ⟨k, memberId, identity, hissued⟩ := issuedBy_of_inv hinv hsession
        have hlater : IssuedBy ((i, .sessionsRevoked command.context command.memberId tenantId principalId) :: (es₀ ++ es ++ es'))
            j memberId' identity' hash other := by
          obtain ⟨kind, time, hm⟩ := hagain
          exact ⟨kind, time, List.mem_cons_of_mem _ (List.mem_append_left _ hm)⟩
        refine issued_once hd (h.trans h') hfresh ?_ hissued hlater
        rw [htrace, hes₀, htrace₀]
        simp
  | _ => exact hmay.elim

end Laws

/-- Sign-in is safe: the laws hold at every point of every interleaving of the operations, whatever the identities, the clock and
the failures of the database, when the secrets of sessions are not repeated. -/
theorem tenantSignIn_safe (ports : Ports) (hfresh : Function.Injective ports.sessionHash) (d : Db)
    (hd : d.members = ∅ ∧ d.sessions = ∅) (p : TenantPool) (h : Reaches ports d p) : TenantSignInSafety ports p where
  isolated _ _ _ _ _ _ _ _ _ _ _ _ hr hr' hprincipal hs hs' := isolated_of_returned hd h hfresh hr hr' hprincipal hs hs'
  accounted i hash now session hr := by
    obtain ⟨j, memberId, verified, hissued⟩ := issuedBy_of_returned hd h hr
    exact ⟨_, signedIn_of_issued hd h hfresh hissued⟩
  issued i q x hash session hx hissues := by
    obtain ⟨login, requestId, verified, memberId, hq, hvalid, hbound, _⟩ := issuedBy_of_made hd h hx hissues
    exact ⟨login, requestId, verified, memberId, hq, hvalid, hbound⟩
  bindOnce i j t t' a b x y memberId _ _ _ _ ht ht' hx hy hbx hby :=
    turns_once (serves ports) hd h (P := HasIdentity memberId) (fun _ _ _ hs hid => hid.transition hs)
      i j t t' a b x y ht ht' hx hy (turns_of_binds hbx) (turns_of_binds hby)
  binds _ _ _ _ _ _ hx hbinds := binds_of_made hd h hx hbinds
  removed _ _ _ hx hchanged := removed_of_made hd h hx hchanged
  removedForever p' who h' hremoved := by
    obtain ⟨_, _, hpath⟩ := path_of_reach (serves ports) hd h h'
    refine ⟨hpath.rule (P := Removed who) (fun _ _ _ hs hr => hr.transition hs) hremoved, ?_⟩
    exact fun i hash now session hnot hr => not_found_removed hd h h' hremoved hnot hr
  revokedForever p' i command x row hash session h' hx hchanged hrow hsession hprincipal := by
    have hgone : ∀ {d' : Db} {es es' : List (Nat × Entry)}, Path (system ports).step p.state.db es d' →
        p'.state.trace = p.state.trace ++ es ++ es' → d'.sessions.lookup hash = none :=
      fun hpath htrace => gone_of_revoked hd h hfresh hx hchanged hrow hsession hprincipal h' hpath htrace
    obtain ⟨es, htrace, hpath⟩ := path_of_reach (serves ports) hd h h'
    have hend : p'.state.trace = p.state.trace ++ es ++ [] := by rw [htrace, List.append_nil]
    refine ⟨hgone hpath hend, ?_⟩
    intro j now session' hnot hr
    obtain ⟨y, _, _, hy, _, _, hfound, _⟩ := found_of_returned hd (h.trans h') hr
    obtain ⟨es, es', hes, hpath, htrace⟩ := later_call (serves ports) hd h h' (hnot y) hy
    have hnone := hgone hpath (by rw [htrace, hes])
    rw [hnone] at hfound
    cases hfound
  limited tenantId principalId := by
    refine holds_of_inv (inv_of_reach (serves ports) hd h) (P := Limited) ?_ (fun _ _ _ hs => Limited.transition hs)
      (tenantId, principalId)
    intro d _ hsessions who
    simp [Db.roster, hsessions, AList.count]

section Sample

/-- Ports with a clock that stands still, where draws are numbered and every email is normal. -/
def samplePorts : Ports where
  now _ _ := 100
  randomUUID i k := String.ofList (List.replicate i 'a' ++ 'b' :: List.replicate k 'c')
  sessionHash i := String.ofList (List.replicate i 's')
  csrfHash i := String.ofList (List.replicate i 't')
  normalizeGoogleEmail := some
  resourceEtag memberId _ := memberId
  memberEtag memberId _ := memberId

theorem samplePorts_fresh : Function.Injective samplePorts.sessionHash := by
  intro i j h
  have hlength := congrArg (fun text => text.toList.length) h
  simpa [samplePorts] using hlength

def sampleIdentity (subject email : String) : AdminIdentity :=
  ⟨Administrators.googleIssuer, subject, email, some 100, none, none⟩

/-- Ann is an administrator. -/
def sampleContext : AdminContext := ⟨"ann", sampleIdentity "ann" "ann@x.y", .bearer, none, (none, none, none)⟩

def sampleDb : Db where
  admin := { Administrators.Db.empty with
    administrators := (∅ : Table String Administrators.Administrator).insert "ann"
      ⟨"ann@x.y", some (Administrators.googleIssuer, "ann"), true, 0, "bootstrap", 0, 0⟩ }
  members := ∅
  sessions := ∅
  receipts := ∅
  authAudit := ∅

/-- Bob signs up; Carol is invited, signs in, and is removed while her session is looked for. -/
def sampleRun : List (Label Nat Request Empty) :=
  [.start 0 (.completeLogin (sampleIdentity "bob" "bob@x.y") "r0"), .run 0 .none, .run 0 .none, .run 0 .none,
    .start 1 (.add ⟨sampleContext, "k", "f", "m", "t", "user:p", "carol@x.y", "m", 100, ⟨"e1", "tenant_member.added", "m", 100, "r1"⟩⟩),
    .run 1 .none, .run 1 .none, .run 1 .lost, .run 1 .none,
    .start 2 (.completeLogin (sampleIdentity "carol" "carol@x.y") "r2"), .run 2 .none, .run 2 .none, .run 2 .none,
    .start 3 (.find "ss" 100), .run 3 .none,
    .start 4 (.remove ⟨sampleContext, "m", "k", "f", "m", ⟨"e4", "tenant_member.removed", "m", 100, "r4"⟩⟩),
    .run 4 .none, .run 4 .none, .run 4 .none, .run 4 .none,
    .start 5 (.find "ss" 100), .run 5 .none, .start 6 (.find "" 100), .run 6 .none]

/-- The session of Carol is found before she is removed and not after; that of Bob still is. -/
theorem tenantSignIn_safe_removal : ∃ p, (portal samplePorts).exec? sampleRun (DbPool.initial sampleDb) = some p
    ∧ p.result 3 = some (.ok (.session (some ⟨"t", "user:p", "tt", 100, 28900⟩))) ∧ p.result 5 = some (.ok (.session none))
    ∧ p.result 6 = some (.ok (.session (some ⟨"t-bc", "user:bcc", "", 100, 28900⟩))) ∧ TenantSignInSafety samplePorts p := by
  have hrun : ((portal samplePorts).exec? sampleRun (DbPool.initial sampleDb)).any (fun p =>
      decide (p.result 3 = some (.ok (.session (some ⟨"t", "user:p", "tt", 100, 28900⟩))))
      && decide (p.result 5 = some (.ok (.session none)))
      && decide (p.result 6 = some (.ok (.session (some ⟨"t-bc", "user:bcc", "", 100, 28900⟩))))) = true := by
    decide
  obtain ⟨p, hp, hchecks⟩ := Option.any_eq_true .. |>.mp hrun
  simp only [Bool.and_eq_true, decide_eq_true_eq] at hchecks
  exact ⟨p, hp, hchecks.1.1, hchecks.1.2, hchecks.2,
    tenantSignIn_safe samplePorts samplePorts_fresh sampleDb ⟨rfl, rfl⟩ p (Machine.reach_of_exec? _ .init hp)⟩

end Sample

end UniDocs.TenantMembers
