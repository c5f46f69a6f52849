import UniDocs.TenantMembers.Flows
import UniDocs.TenantMembers.Roster

/-!
# Signing in and managing members, call by call

Every batch of an operation makes the transition that its request asks for: what was read of a member before a batch still says
which principal it is. A sign-in runs one batch, and a session that `find` returns is the one that its query has found.
-/

/-!
## The batches make transitions of the roster

Each batch on the tables of tenant members that commits is a transition of the roster, the one its label names. A sign-in and a
revocation of sessions bind the principal that was read before; that it is the one of the member is asked of the caller.
-/

namespace UniDocs.TenantMembers

open Lib Lib.Trace Lib.Sql
open Administrators (AdminIdentity AdminContext)

/-! ## The statements -/

variable {d : Db}

theorem fresh_of_indexFree {memberId : String} {row : Member} (h : indexFree d.members memberId row = true)
    (hnone : d.members.lookup memberId = none) : d.roster.Fresh row.principal := by
  intro id other hother hprincipal
  have hne : id ≠ memberId := by
    rintro rfl
    rw [show d.roster.member id = d.members.lookup id from rfl, hnone] at hother
    cases hother
  simp only [Member.principal, Prod.mk.injEq] at hprincipal
  have htaken : d.members.has (fun k other => k ≠ memberId && ((other.tenantId = row.tenantId &&
      other.principalId = row.principalId) || (other.active && row.active && (other.email = row.email ||
        (row.bound ≠ none && other.bound = row.bound))))) = true :=
    AList.has_iff.mpr ⟨id, other, hother, by simp [hne, hprincipal]⟩
  rw [indexFree, htaken] at h
  cases h

theorem insertMember_ok {memberId : String} {row : Member} {members : Table String Member}
    (h : insertMember memberId row d.members = .ok members) :
    d.members.lookup memberId = none ∧ d.roster.Fresh row.principal ∧ members = d.members.insert memberId row := by
  obtain ⟨_, hindex, h⟩ := bind_ok_iff.mp h
  obtain ⟨hnone, rfl⟩ := insertInto_ok h
  exact ⟨hnone, fresh_of_indexFree (guardRow_ok hindex) hnone, rfl⟩

theorem lookup_of_keep {sessions : Table String Session} {q : String → Session → Bool} {hash : String} {session : Session}
    (h : (sessions.keep q).lookup hash = some session) : sessions.lookup hash = some session ∧ q hash session = true := by
  rw [AList.lookup_keep, Option.filter_eq_some_iff] at h
  exact h

theorem lookup_deleteSessions {tenantId principalId : String} {sessions : Table String Session} {hash : String}
    {session : Session} (h : (deleteSessions tenantId principalId sessions).lookup hash = some session) :
    sessions.lookup hash = some session ∧ session.principal ≠ (tenantId, principalId) := by
  obtain ⟨hold, hother⟩ := lookup_of_keep h
  refine ⟨hold, fun heq => ?_⟩
  rw [Session.isOf_iff.mpr heq] at hother
  cases hother

variable {now : Int}

theorem beginBatch_ok {context : AdminContext} {operation : Operation} {key : String} {receipt : Receipt} {d d' : Db}
    (h : beginBatch context now operation key receipt d = .ok d') : d'.members = d.members ∧ d'.sessions = d.sessions := by
  obtain ⟨_, _, h⟩ := bind_ok_iff.mp h
  obtain ⟨receipts, _, h⟩ := bind_ok_iff.mp h
  cases h
  exact ⟨rfl, rfl⟩

theorem auditStatement_ok {context : AdminContext} {audit : AuditEvent} {d d' : Db} (h : auditStatement context audit d = .ok d') :
    d'.members = d.members ∧ d'.sessions = d.sessions := by
  obtain ⟨adminAudit, _, h⟩ := bind_ok_iff.mp h
  cases h
  exact ⟨rfl, rfl⟩

theorem roster_eq {d d' : Db} (hmembers : d'.members = d.members) (hsessions : d'.sessions = d.sessions) :
    d'.roster = d.roster := by
  simp only [Db.roster, hmembers, hsessions]

/-- Fewer rows hold no more sessions. -/
theorem counted_of_le {r r' : Roster} (h : ∀ who, r'.held who ≤ r.held who) :
    ∀ who, r'.held who ≤ max (r.held who) tenantMemberSessionLimit := fun who => le_max_of_le_left (h who)

/-! ## Signing in -/

theorem admitMember_ok {plan : LoginPlan} {d d' : Db} (h : admitMember plan d = .ok d')
    (hplaced : plan.kind ≠ .provisioned → d.roster.Placed plan.memberId plan.session.principal) :
    Admits plan.memberId plan.identity plan.confirmedAt d.roster d'.roster plan.kind ∧ d'.sessions = d.sessions
      ∧ d'.roster.Placed plan.memberId plan.session.principal := by
  unfold admitMember at h
  cases hkind : plan.kind with
  | bound =>
    simp only [hkind] at h
    cases h
    exact ⟨rfl, rfl, hplaced (by rw [hkind]; simp)⟩
  | invited revision =>
    simp only [hkind] at h
    split at h
    · cases h
    · rename_i row hrow
      obtain ⟨_, hguard, h⟩ := bind_ok_iff.mp h
      obtain ⟨_, _, h⟩ := bind_ok_iff.mp h
      obtain ⟨authAudit, _, h⟩ := bind_ok_iff.mp h
      cases h
      have hchecks := guardRow_ok hguard
      simp only [Bool.and_eq_true, decide_eq_true_eq] at hchecks
      obtain ⟨⟨⟨⟨hemail, hactive⟩, hunbound⟩, _⟩, htime⟩ := hchecks
      obtain ⟨row₁, hrow₁, hprincipal⟩ := hplaced (by rw [hkind]; simp)
      cases hrow.symm.trans hrow₁
      let row' : Member := { row with
        bound := some (plan.identity.issuer, plan.identity.subject), revision := row.revision + 1, updatedAt := plan.now }
      exact ⟨⟨row, row', hrow, hactive, hunbound, hemail, htime, rfl, hactive, rfl, AList.lookup_insert_update ..⟩, rfl,
        row', AList.lookup_insert .., hprincipal⟩
  | provisioned =>
    simp only [hkind] at h
    obtain ⟨members, hinsert, h⟩ := bind_ok_iff.mp h
    obtain ⟨authAudit, _, h⟩ := bind_ok_iff.mp h
    cases h
    obtain ⟨hnone, hfresh, rfl⟩ := insertMember_ok hinsert
    exact ⟨⟨_, hnone, hfresh, rfl, rfl, AList.lookup_insert_update ..⟩, rfl, _, AList.lookup_insert .., rfl⟩

theorem isBound_bound {memberId : String} {identity : AdminIdentity} {who : String × String}
    (h : isBound d memberId identity = true) (hplaced : d.roster.Placed memberId who) :
    d.roster.Bound memberId who (identity.issuer, identity.subject) := by
  obtain ⟨row, hrow, hprincipal⟩ := hplaced
  have hrow' : d.members.lookup memberId = some row := hrow
  simp only [isBound, hrow', Bool.and_eq_true, decide_eq_true_eq] at h
  exact ⟨row, hrow, hprincipal, h.2, h.1⟩

/-- The sessions that a sign-in leaves to be, before its own is added. -/
theorem lookup_newest {tenantId principalId : String} {limit : Nat} {sessions : Table String Session} {hash : String}
    {session : Session}
    (h : (deleteOldest tenantId principalId limit (deleteExpired tenantId principalId now sessions)).lookup hash = some session) :
    sessions.lookup hash = some session :=
  (lookup_of_keep (lookup_of_keep h).1).1

/-- A sign-in makes room for its session. -/
theorem count_newest (tenantId principalId : String) (now : Int) (limit : Nat) (sessions : Table String Session)
    (who : String × String) :
    let newest := deleteOldest tenantId principalId limit (deleteExpired tenantId principalId now sessions)
    newest.count (fun _ session => session.isOf who.1 who.2) ≤ sessions.count (fun _ session => session.isOf who.1 who.2)
      ∧ newest.count (fun _ session => session.isOf tenantId principalId) ≤ limit := by
  constructor
  · exact (count_keep_le _ _ _).trans (count_keep_le _ _ _)
  · refine (count_keepKeys _ _ _).trans ?_
    exact_mod_cast length_firstKeys _ newer limit (deleteExpired tenantId principalId now sessions)

variable {t : Option (Entry × Db)}

theorem loginBatch_ok {plan : LoginPlan} {u : Unit}
    (hplaced : plan.kind ≠ .provisioned → d.roster.Placed plan.memberId plan.session.principal)
    (h : loginBatch plan d = .ok (u, t)) :
    let e := Entry.login plan.kind plan.memberId plan.identity plan.confirmedAt plan.sessionHash plan.session
    ∃ d', t = some (e, d') ∧ Transition e d.roster d'.roster := by
  obtain ⟨d₁, hadmit, h⟩ := bind_ok_iff.mp h
  obtain ⟨_, hbound, h⟩ := bind_ok_iff.mp h
  obtain ⟨sessions, hsessions, h⟩ := bind_ok_iff.mp h
  obtain ⟨authAudit, _, h⟩ := bind_ok_iff.mp h
  cases h
  obtain ⟨hadmits, hsame, hplaced'⟩ := admitMember_ok hadmit hplaced
  obtain ⟨hfresh, rfl⟩ := insertInto_ok hsessions
  refine ⟨_, rfl, ⟨?_, isBound_bound (guardRow_ok hbound) hplaced', AList.lookup_insert .., ?_⟩, ?_⟩
  · cases hkind : plan.kind <;> rw [hkind] at hadmits <;> exact hadmits
  · intro hash other hother
    simp only [Db.roster, AList.lookup_insert_eq] at hother
    split at hother
    · rename_i heq
      cases hother
      exact .inr ⟨heq, rfl⟩
    · refine .inl ?_
      rw [hsame] at hother
      exact lookup_newest hother
  · intro who
    obtain ⟨hless, hlimit⟩ := count_newest plan.tenantId plan.principalId plan.now (tenantMemberSessionLimit - 1) d₁.sessions who
    simp only [Db.roster, count_insert_new hfresh]
    rw [hsame] at hless hlimit ⊢
    by_cases hwho : plan.session.isOf who.1 who.2 = true
    · have hsame' : who = (plan.tenantId, plan.principalId) := (Session.isOf_iff.mp hwho).symm
      subst hsame'
      rw [if_pos hwho]
      refine le_max_of_le_right ?_
      have hten : ((tenantMemberSessionLimit - 1 : Nat) : Int) + 1 = tenantMemberSessionLimit := rfl
      rw [← hten]
      exact Int.add_le_add_right hlimit 1
    · rw [if_neg hwho, add_zero]
      exact le_max_of_le_left hless

/-! ## Managing members -/

theorem addBatch_ok {command : AddCommand} {u : Unit}
    (h : addBatch command now d = .ok (u, t)) : ∃ d', t = some (.added command.context command.memberId, d')
      ∧ Transition (.added command.context command.memberId) d.roster d'.roster := by
  obtain ⟨d₁, hbegin, h⟩ := bind_ok_iff.mp h
  obtain ⟨members, hinsert, h⟩ := bind_ok_iff.mp h
  obtain ⟨d₂, haudit, h⟩ := bind_ok_iff.mp h
  cases h
  obtain ⟨hmembers, hsessions⟩ := beginBatch_ok hbegin
  obtain ⟨hmembers₂, hsessions₂⟩ := auditStatement_ok haudit
  obtain ⟨hnone, hfresh, rfl⟩ := insertMember_ok hinsert
  have hsame : d₁.roster = d.roster := roster_eq hmembers hsessions
  rw [← hsame]
  refine ⟨d₂, rfl, ⟨?_, _, hnone, hfresh, rfl, ?_⟩, counted_of_le fun who => ?_⟩
  · intro hash session hsession
    simp only [Db.roster, hsessions₂] at hsession
    exact hsession
  · simp only [Db.roster, hmembers₂]
    exact AList.lookup_insert_update ..
  · simp only [Db.roster, hsessions₂]
    exact le_refl _

theorem removeBatch_ok {command : RemoveCommand} {target : Member} {u : Unit}
    (h : removeBatch command target now d = .ok (u, t)) : ∃ d', t = some (.removed command.context command.memberId, d')
      ∧ Transition (.removed command.context command.memberId) d.roster d'.roster := by
  obtain ⟨d₁, hbegin, h⟩ := bind_ok_iff.mp h
  obtain ⟨hmembers, hsessions⟩ := beginBatch_ok hbegin
  have hsame : d₁.roster = d.roster := roster_eq hmembers hsessions
  rw [← hsame]
  split at h
  · cases h
  · rename_i row hrow
    obtain ⟨_, hguard, h⟩ := bind_ok_iff.mp h
    obtain ⟨d₂, haudit, h⟩ := bind_ok_iff.mp h
    cases h
    obtain ⟨hmembers₂, hsessions₂⟩ := auditStatement_ok haudit
    have hchecks := guardRow_ok hguard
    simp only [Bool.and_eq_true, decide_eq_true_eq] at hchecks
    let row' : Member := { row with active := false, revision := row.revision + 1, updatedAt := command.audit.occurredAt }
    refine ⟨d₂, rfl, ⟨?_, row, row', hrow, hchecks.1, rfl, rfl, rfl, ?_⟩, counted_of_le fun who => ?_⟩
    · intro hash session hsession
      simp only [Db.roster, hsessions₂] at hsession
      exact (lookup_deleteSessions hsession).1
    · simp only [Db.roster, hmembers₂]
      exact AList.lookup_insert_update ..
    · simp only [Db.roster, hsessions₂]
      exact count_keep_le _ _ _

theorem revokeSessionsBatch_ok {command : RevokeSessionsCommand} {target : Member} {u : Unit}
    (hplaced : d.roster.Placed command.memberId target.principal)
    (h : revokeSessionsBatch command target now d = .ok (u, t)) :
    let e := Entry.sessionsRevoked command.context command.memberId target.tenantId target.principalId
    ∃ d', t = some (e, d') ∧ Transition e d.roster d'.roster := by
  obtain ⟨d₁, hbegin, h⟩ := bind_ok_iff.mp h
  obtain ⟨_, _, h⟩ := bind_ok_iff.mp h
  obtain ⟨d₂, haudit, h⟩ := bind_ok_iff.mp h
  cases h
  obtain ⟨hmembers, hsessions⟩ := beginBatch_ok hbegin
  obtain ⟨hmembers₂, hsessions₂⟩ := auditStatement_ok haudit
  have hsame : d₁.roster = d.roster := roster_eq hmembers hsessions
  rw [← hsame] at hplaced ⊢
  refine ⟨d₂, rfl, ⟨?_, ?_, hplaced, ?_⟩, counted_of_le fun who => ?_⟩
  · intro hash session hsession
    simp only [Db.roster, hsessions₂] at hsession
    exact (lookup_deleteSessions hsession).1
  · simp only [Db.roster, hmembers₂]
  · intro hash session hsession
    simp only [Db.roster, hsessions₂] at hsession
    exact (lookup_deleteSessions hsession).2
  · simp only [Db.roster, hsessions₂]
    exact count_keep_le _ _ _

/-! ## Sessions -/

theorem revokeBatch_ok {eventId sessionHash requestId : String} {u : Unit}
    (h : revokeBatch eventId sessionHash requestId now d = .ok (u, t)) :
    ∃ d', t = some (.revoked sessionHash, d') ∧ Transition (.revoked sessionHash) d.roster d'.roster := by
  obtain ⟨authAudit, _, h⟩ := bind_ok_iff.mp h
  cases h
  refine ⟨_, rfl, ⟨?_, rfl⟩, counted_of_le fun who => ?_⟩
  · intro hash session hsession
    simp only [Db.roster, AList.lookup_erase_eq] at hsession
    split at hsession
    · cases hsession
    · exact hsession
  · exact count_erase_le (fun _ (session : Session) => session.isOf who.1 who.2) sessionHash d.sessions

theorem joinSession_some {sessionHash memberId : String} {session : Session} {row : Member}
    (h : d.joinSession sessionHash now = some (session, memberId, row)) :
    Change (.found sessionHash now session memberId) d.roster d.roster := by
  unfold Db.joinSession at h
  split at h
  · cases h
  · rename_i session' hsession
    split at h
    · rename_i htime
      obtain ⟨⟨id, row'⟩, hfind, hpair⟩ := Option.map_eq_some_iff.mp h
      cases hpair
      obtain ⟨hrow, hof⟩ := AList.mem_rows.mp (List.mem_of_find?_eq_some hfind)
      have hchecks := List.find?_some hfind
      simp only [Bool.and_eq_true, decide_eq_true_eq] at hchecks
      exact ⟨rfl, hsession, htime.1, htime.2, row, hrow, (Session.isOf_iff.mp hof).symm, hchecks.1, hchecks.2⟩
    · cases h

theorem findQuery_ok {sessionHash : String} {found : Option Session}
    (h : findQuery sessionHash now d = .ok (found, t)) : found = none ∧ t = none ∨ ∃ session memberId,
      found = some session ∧ t = some (.found sessionHash now session memberId, d)
      ∧ Transition (.found sessionHash now session memberId) d.roster d.roster := by
  unfold findQuery at h
  split at h
  · cases h
    exact .inl ⟨rfl, rfl⟩
  · rename_i session memberId row hjoin
    cases h
    exact .inr ⟨session, memberId, rfl, rfl, joinSession_some hjoin, counted_of_le fun _ => le_refl _⟩

end UniDocs.TenantMembers

namespace UniDocs.TenantMembers

open Lib Lib.Trace
open Administrators (AdminIdentity AdminContext)

/-- What the call of a request may do. -/
def May (ports : Ports) (i : Nat) : Request → Entry → Prop
  | .completeLogin identity _, .login _ _ verified confirmedAt sessionHash _ =>
    verifyLogin ports identity (ports.now i 0) = .ok (verified, confirmedAt) ∧ sessionHash = ports.sessionHash i
  | .add command, .added context memberId => context = command.context ∧ memberId = command.memberId
  | .remove command, .removed context memberId => context = command.context ∧ memberId = command.memberId
  | .revokeSessions command, .sessionsRevoked context memberId _ _ =>
    context = command.context ∧ memberId = command.memberId
  | .find sessionHash now, .found sessionHash' now' _ _ => sessionHash' = sessionHash ∧ now' = now
  | .revoke sessionHash _ _, .revoked sessionHash' => sessionHash' = sessionHash
  | .elsewhere _, .elsewhere => True
  | _, _ => False

/-- The transitions of the tables, whatever calls fail or lose their answers. -/
def system (ports : Ports) : System Db TenantError Nat Entry Request where
  step e d d' := Transition e d.roster d'.roster
  start d := d.members = ∅ ∧ d.sessions = ∅
  may := May ports
  allowed := Machine.anyCall

variable {ports : Ports} {i : Nat} {q : Request}

abbrev Lawful (ports : Ports) (i : Nat) (q : Request) {α : Type} (p : TenantProg α) : Prop :=
  (system ports).Lawful .storage i q p

/-! ## What was read of a member -/

/-- Which principal a member is does not change. -/
theorem Roster.Placed.transition {e : Entry} {r r' : Roster} {memberId : String} {who : String × String}
    (h : Transition e r r') (hplaced : r.Placed memberId who) : r'.Placed memberId who := by
  obtain ⟨row, hrow, hprincipal⟩ := hplaced
  rcases h.change.row_cases memberId with hsame | hchange
  · exact ⟨row, by rw [hsame, hrow], hprincipal⟩
  · cases hchange with
    | bind revision identity time hash session row₁ row₂ hold hwas hunbound hemail htime hnew hplace =>
      cases hrow.symm.trans hold
      exact ⟨row₂, hnew, hplace.trans hprincipal⟩
    | appear _ row₁ hsubject hold =>
      rw [hrow] at hold
      cases hold
    | remove context row₁ row₂ hold hwas hnew hplace =>
      cases hrow.symm.trans hold
      exact ⟨row₂, hnew, hplace.trans hprincipal⟩

/-- What was found of a member says which principal it is. -/
def PlacedRow (found : Option (String × Member)) (d : Db) : Prop :=
  ∀ memberId row, found = some (memberId, row) → d.roster.Placed memberId row.principal

theorem PlacedRow.transition {found : Option (String × Member)} {e : Entry} {d d' : Db} (h : (system ports).step e d d')
    (hplaced : PlacedRow found d) : PlacedRow found d' :=
  fun memberId row hfound => (hplaced memberId row hfound).transition h

theorem placedRow_head {d : Db} {p : String → Member → Bool} : PlacedRow (d.members.rows p).head? d := by
  intro memberId row hfound
  exact ⟨row, (AList.mem_rows.mp (List.mem_of_mem_head? hfound)).1, rfl⟩

theorem loginMember_placed {bound invited : Option (String × Member)} {kind : LoginKind} {memberId tenantId principalId : String}
    {d : Db} (h : loginMember ports i bound invited = (kind, memberId, tenantId, principalId)) (hbound : PlacedRow bound d)
    (hinvited : PlacedRow invited d) (hkind : kind ≠ .provisioned) : d.roster.Placed memberId (tenantId, principalId) := by
  unfold loginMember at h
  split at h
  · cases h
    exact hbound _ _ rfl
  · cases h
    exact hinvited _ _ rfl
  · cases h
    exact absurd rfl hkind

/-! ## Signing in -/

theorem does_findInvitation (bound : Option (String × Member)) (email : String) :
    Triple ((system ports).spec .storage i q) (fun s => PlacedRow bound s.db) (findInvitation bound email)
      (fun invited s => PlacedRow bound s.db ∧ PlacedRow invited s.db) (fun _ _ => True) := by
  have hkept : ∀ found : Option (String × Member), Stable ((system ports).spec .storage i q) fun s => PlacedRow found s.db :=
    fun found => System.stable_db fun _ _ _ hs hp => hp.transition hs
  cases bound with
  | some bound => exact Triple.pure fun _ _ hp => ⟨hp, fun _ _ hnone => by cases hnone⟩
  | none =>
    exact System.read_rule (fun invited => (hkept none).and (hkept invited)) (Stable.const True)
      (fun _ _ hp => ⟨hp, placedRow_head⟩) fun _ _ _ => trivial

theorem lawful_loginBatch {identity verified : AdminIdentity} {requestId requestId' : String} {confirmedAt now : Int}
    {bound invited : Option (String × Member)} {kind : LoginKind} {memberId tenantId principalId e₁ e₂ csrfHash : String}
    (hverified : verifyLogin ports identity (ports.now i 0) = .ok (verified, confirmedAt))
    (hmember : loginMember ports i bound invited = (kind, memberId, tenantId, principalId)) :
    (system ports).LawfulFrom .storage i (.completeLogin identity requestId) (fun d => PlacedRow bound d ∧ PlacedRow invited d)
      (batch i (loginBatch ⟨kind, memberId, tenantId, principalId, verified, confirmedAt, now, requestId', e₁, e₂,
        ports.sessionHash i, csrfHash⟩)) := by
  refine .batch fun d u e d' hp hf => ?_
  obtain ⟨d₁, ht, hstep⟩ := loginBatch_ok (fun hkind => loginMember_placed hmember hp.1 hp.2 hkind) hf
  cases ht
  exact ⟨hstep, hverified, rfl⟩

theorem lawful_completeLogin (identity : AdminIdentity) (requestId : String) :
    Lawful ports i (.completeLogin identity requestId) (completeLogin ports i identity requestId) := by
  refine .evaluate_bind fun verified hverified => ?_
  obtain ⟨verified, confirmedAt⟩ := verified
  have hkept : ∀ found : Option (String × Member),
      Stable ((system ports).spec .storage i (.completeLogin identity requestId)) fun s => PlacedRow found s.db :=
    fun found => System.stable_db fun _ _ _ hs hp => hp.transition hs
  have hbound : Triple ((system ports).spec .storage i (.completeLogin identity requestId)) (fun _ => True)
      (read fun d => d.findBound verified.issuer verified.subject) (fun bound s => PlacedRow bound s.db) (fun _ _ => True) :=
    System.read_rule hkept (Stable.const True) (fun _ _ _ => placedRow_head) fun _ _ _ => trivial
  refine Triple.bind hbound fun bound => ?_
  refine Triple.bind (does_findInvitation bound verified.email) fun invited => ?_
  have hstep : ∀ e d d', (system ports).step e d d' → PlacedRow bound d ∧ PlacedRow invited d →
      PlacedRow bound d' ∧ PlacedRow invited d' :=
    fun _ _ _ hs hp => ⟨hp.1.transition hs, hp.2.transition hs⟩
  refine System.LawfulFrom.bind hstep (.evaluate _) fun _ => ?_
  rcases hmember : loginMember ports i bound invited with ⟨kind, memberId, tenantId, principalId⟩
  refine System.LawfulFrom.bind hstep (.evaluate _) fun _ => ?_
  refine .tryCatch (.then (lawful_loginBatch hverified hmember) fun _ => .pure _) fun e => ?_
  exact .bind (.read _) fun _ => .evaluate _

/-- A sign-in runs one batch. -/
theorem within_completeLogin (identity : AdminIdentity) (requestId : String) :
    Within 1 (completeLogin ports i identity requestId) := by
  unfold completeLogin
  refine Within.bind (n := 0) (m := 1) (fun verified => ?_) (.evaluate 0)
  refine Within.bind (n := 0) (m := 1) (fun bound => ?_) (.read 0)
  refine Within.bind (n := 0) (m := 1) (fun invited => ?_) ?_
  · refine Within.bind (n := 0) (m := 1) (fun _ => ?_) (.evaluate 0)
    refine Within.bind (n := 0) (m := 1) (fun _ => ?_) (.evaluate 0)
    refine Within.tryCatch (n := 1) (m := 0) (fun e => ?_) ?_
    · exact Within.bind (n := 0) (m := 0) (fun _ => .evaluate 0) (.read 0)
    · exact Within.bind (n := 1) (m := 0) (fun _ => .pure 0) .batch
  · cases bound with
    | some bound => exact .pure 0
    | none => exact .read 0

/-! ## Managing members -/

theorem lawful_authorize (k : Nat) (context : AdminContext) : Lawful ports i q (authorize ports i k context) :=
  .bind (.read _) fun _ => .evaluate _

theorem lawful_receipt (context : AdminContext) (operation : Operation) (key fingerprint : String) :
    Lawful ports i q (receipt context operation key fingerprint) := by
  refine .bind (.read _) fun row => ?_
  cases row with
  | none => exact .pure _
  | some row => exact .bind (.evaluate _) fun _ => .pure _

theorem lawful_add (command : AddCommand) : Lawful ports i (.add command) (add ports i command) := by
  refine .bind (lawful_authorize _ _) fun _ => .bind (lawful_receipt _ _ _ _) fun previous => ?_
  cases previous with
  | some previous => exact .pure _
  | none =>
    refine .tryCatch (.bind (.batch ?_) fun _ => .pure _) fun e => .bind (lawful_receipt _ _ _ _) fun concurrent => ?_
    · intro d u e d' hf
      obtain ⟨d₁, ht, hstep⟩ := addBatch_ok hf
      cases ht
      exact ⟨hstep, rfl, rfl⟩
    · cases concurrent with
      | some concurrent => exact .pure _
      | none => exact .bind (.read _) fun _ => .bind (.evaluate _) fun _ => .bind (lawful_authorize _ _) fun _ => .throw _

theorem lawful_checkTarget (command : RemoveCommand) : Lawful ports i q (checkTarget ports command) := by
  refine .bind (.read _) fun target => ?_
  cases target with
  | none => exact .throw _
  | some target =>
    dsimp only
    split
    · exact .throw _
    · exact .pure _

theorem lawful_remove (command : RemoveCommand) : Lawful ports i (.remove command) (remove ports i command) := by
  refine .bind (lawful_authorize _ _) fun _ => .bind (lawful_receipt _ _ _ _) fun previous => ?_
  cases previous with
  | some previous => exact .pure _
  | none =>
    refine .bind (lawful_checkTarget command) fun target => ?_
    refine .tryCatch (.batch ?_) fun e => .bind (lawful_receipt _ _ _ _) fun concurrent => ?_
    · intro d u e d' hf
      obtain ⟨d₁, ht, hstep⟩ := removeBatch_ok hf
      cases ht
      exact ⟨hstep, rfl, rfl⟩
    · cases concurrent with
      | some concurrent => exact .pure _
      | none => exact .bind (lawful_checkTarget command) fun _ => .bind (lawful_authorize _ _) fun _ => .throw _

theorem does_requireMember (memberId : String) : Triple ((system ports).spec .storage i q) (fun _ => True)
    (requireMember memberId) (fun target s => s.db.roster.Placed memberId target.principal) (fun _ _ => True) := by
  have hkept : ∀ target : Option Member, Stable ((system ports).spec .storage i q) fun s =>
      ∀ row, target = some row → s.db.roster.Placed memberId row.principal :=
    fun target => Stable.all fun row => Stable.imp fun _ =>
      System.stable_db (P := fun d : Db => d.roster.Placed memberId row.principal) fun _ _ _ hs hp => hp.transition hs
  refine Triple.bind (System.read_rule hkept (Stable.const True) ?_ fun _ _ _ => trivial) fun target => ?_
  · intro s _ _ row hrow
    exact ⟨row, (Option.filter_eq_some_iff.mp hrow).1, rfl⟩
  · cases target with
    | none => exact Triple.throw fun _ _ _ => trivial
    | some target => exact Triple.pure fun _ _ hp => hp target rfl

theorem lawful_revokeSessions (command : RevokeSessionsCommand) :
    Lawful ports i (.revokeSessions command) (revokeSessions ports i command) := by
  refine .bind (lawful_authorize _ _) fun _ => .bind (lawful_receipt _ _ _ _) fun previous => ?_
  cases previous with
  | some previous => exact .pure _
  | none =>
    refine Triple.bind (does_requireMember command.memberId) fun target => ?_
    refine System.LawfulFrom.tryCatch (P := fun d => d.roster.Placed command.memberId target.principal) (.batch ?_)
      fun e => .bind (lawful_receipt _ _ _ _) fun concurrent => ?_
    · intro d u e d' hplaced hf
      obtain ⟨d₁, ht, hstep⟩ := revokeSessionsBatch_ok hplaced hf
      cases ht
      exact ⟨hstep, rfl, rfl⟩
    · cases concurrent with
      | some concurrent => exact .pure _
      | none =>
        exact .bind (Triple.forget (does_requireMember _)) fun _ => .bind (lawful_authorize _ _) fun _ => .throw _

/-! ## Sessions -/

theorem lawful_revoke (sessionHash requestId : String) (now : Int) :
    Lawful ports i (.revoke sessionHash requestId now) (revoke ports i sessionHash requestId now) := by
  refine .bind (.evaluate _) fun _ => .batch fun d u e d' hf => ?_
  obtain ⟨d₁, ht, hstep⟩ := revokeBatch_ok hf
  cases ht
  exact ⟨hstep, rfl⟩

/-- A session that is returned was found. -/
def FoundEnd (i : Nat) (sessionHash : String) (now : Int) (r : Option Session) (s : Traced Db Nat Entry) : Prop :=
  ∀ session, r = some session → ∃ memberId, Wrote i [.found sessionHash now session memberId] s

theorem does_find (sessionHash : String) (now : Int) : Triple ((system ports).spec .storage i (.find sessionHash now))
    (Wrote i []) (find i sessionHash now) (FoundEnd i sessionHash now) (fun _ _ => True) := by
  refine System.batch_rule (fun _ => ?_) (fun _ => Stable.const True) ?_ ?_ (fun _ _ _ _ _ => trivial) (fun _ _ _ => trivial)
    (fun _ _ _ _ _ _ _ _ => trivial)
  · exact Stable.all fun _ => Stable.imp fun _ => Stable.ex fun _ => System.stable_wrote
  · intro s found _ _ hf session hfound
    rcases findQuery_ok hf with ⟨rfl, _⟩ | ⟨_, _, _, ht, _⟩
    · cases hfound
    · cases ht
  · intro s found e d _ hwrote hf
    rcases findQuery_ok hf with ⟨_, ht⟩ | ⟨session, memberId, rfl, ht, hstep⟩
    · cases ht
    · cases ht
      refine ⟨hstep, ⟨rfl, rfl⟩, ?_⟩
      rintro session' ⟨⟩
      exact ⟨memberId, hwrote.snoc _ _⟩

/-- What holds when a request has ended. -/
def Ended (i : Nat) (q : Request) (r : Except TenantError Response) (s : Traced Db Nat Entry) : Prop :=
  match q, r with
  | .find sessionHash now, .ok (.session session) => FoundEnd i sessionHash now session s
  | _, _ => True

theorem serves (ports : Ports) : Serves (system ports) .storage (serve ports) Ended := by
  intro i q
  cases q with
  | completeLogin identity requestId =>
    exact ((lawful_completeLogin identity requestId).bind fun _ => .pure _).pre fun _ _ _ => trivial
  | add command => exact ((lawful_add command).bind fun _ => .pure _).pre fun _ _ _ => trivial
  | remove command => exact ((lawful_remove command).bind fun _ => .pure _).pre fun _ _ _ => trivial
  | revokeSessions command => exact ((lawful_revokeSessions command).bind fun _ => .pure _).pre fun _ _ _ => trivial
  | find sessionHash now =>
    refine Triple.bind (does_find sessionHash now) fun session => ?_
    exact Triple.pure fun _ _ h => h
  | revoke sessionHash requestId now =>
    exact ((lawful_revoke sessionHash requestId now).bind fun _ => .pure _).pre fun _ _ _ => trivial
  | elsewhere admin =>
    have hbatch : Lawful ports i (.elsewhere admin) (batch i (elsewhereBatch admin)) := by
      refine .batch fun d u e d' hf => ?_
      cases hf
      exact ⟨⟨rfl, counted_of_le fun _ => le_refl _⟩, trivial⟩
    exact (hbatch.bind fun _ => .pure _).pre fun _ _ _ => trivial

end UniDocs.TenantMembers
