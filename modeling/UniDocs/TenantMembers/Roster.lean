import UniDocs.TenantMembers.Store
import Mathlib.Logic.Function.Basic

/-!
# The roster of tenant members

What the tables of tenant members are for: members, each of them a principal of a tenant, who of them is bound to an identity,
and the sessions of principals. The transitions say what each kind of change needs and does; the row of a member changes only in
a few ways.
-/

namespace UniDocs.TenantMembers

open Administrators (AdminIdentity AdminContext)

/-- The principal that a member is, with its tenant. -/
def Member.principal (row : Member) : String × String := (row.tenantId, row.principalId)

/-- The principal that a session authenticates as. -/
def Session.principal (session : Session) : String × String := (session.tenantId, session.principalId)

theorem Session.isOf_iff {session : Session} {tenantId principalId : String} :
    session.isOf tenantId principalId = true ↔ session.principal = (tenantId, principalId) := by
  simp [Session.isOf, Session.principal]

/-- Members, sessions, and how many sessions a principal has. -/
structure Roster where
  member : String → Option Member
  session : String → Option Session
  held : String × String → Int

/-- The roster that the tables hold. -/
def Db.roster (d : Db) : Roster where
  member := d.members.lookup
  session := d.sessions.lookup
  held who := d.sessions.count fun _ session => session.isOf who.1 who.2

namespace Roster

/-- A member is a principal. -/
def Placed (r : Roster) (memberId : String) (who : String × String) : Prop :=
  ∃ row, r.member memberId = some row ∧ row.principal = who

/-- A member is a principal, is active, and is bound to an identity. -/
def Bound (r : Roster) (memberId : String) (who identity : String × String) : Prop :=
  ∃ row, r.member memberId = some row ∧ row.principal = who ∧ row.active = true ∧ row.bound = some identity

/-- No member is the principal. -/
def Fresh (r : Roster) (who : String × String) : Prop := ∀ id row, r.member id = some row → row.principal ≠ who

/-- The sessions are still those of before. -/
def Shrinks (r r' : Roster) : Prop := ∀ hash session, r'.session hash = some session → r.session hash = some session

end Roster

/-- How a sign-in admits its member. -/
def Admits (memberId : String) (identity : AdminIdentity) (confirmedAt : Int) (r r' : Roster) : LoginKind → Prop
  | .bound => r'.member = r.member
  | .invited _ => ∃ row row', r.member memberId = some row ∧ row.active = true ∧ row.bound = none
    ∧ row.email = identity.email ∧ row.createdAt ≤ confirmedAt ∧ row'.principal = row.principal ∧ row'.active = true
    ∧ row'.bound = some (identity.issuer, identity.subject) ∧ r'.member = Function.update r.member memberId (some row')
  | .provisioned => ∃ row, r.member memberId = none ∧ r.Fresh row.principal ∧ row.active = true
    ∧ row.bound = some (identity.issuer, identity.subject) ∧ r'.member = Function.update r.member memberId (some row)

/-- What a change needs and does. -/
def Change : Entry → Roster → Roster → Prop
  | .login kind memberId identity confirmedAt sessionHash session, r, r' =>
    Admits memberId identity confirmedAt r r' kind
      ∧ r'.Bound memberId session.principal (identity.issuer, identity.subject) ∧ r'.session sessionHash = some session
      ∧ ∀ hash other, r'.session hash = some other → r.session hash = some other ∨ hash = sessionHash ∧ other = session
  | .added _ memberId, r, r' =>
    r.Shrinks r' ∧ ∃ row, r.member memberId = none ∧ r.Fresh row.principal ∧ row.bound = none
      ∧ r'.member = Function.update r.member memberId (some row)
  | .removed _ memberId, r, r' =>
    r.Shrinks r' ∧ ∃ row row', r.member memberId = some row ∧ row.active = true ∧ row'.principal = row.principal
      ∧ row'.active = false ∧ row'.bound = row.bound ∧ r'.member = Function.update r.member memberId (some row')
  | .sessionsRevoked _ memberId tenantId principalId, r, r' =>
    r.Shrinks r' ∧ r'.member = r.member ∧ r.Placed memberId (tenantId, principalId)
      ∧ ∀ hash session, r'.session hash = some session → session.principal ≠ (tenantId, principalId)
  | .revoked _, r, r' => r.Shrinks r' ∧ r'.member = r.member
  | .found sessionHash now session memberId, r, r' =>
    r' = r ∧ r.session sessionHash = some session ∧ session.createdAt ≤ now ∧ now < session.expiresAt
      ∧ ∃ row, r.member memberId = some row ∧ row.principal = session.principal ∧ row.active = true ∧ row.bound ≠ none
  | .elsewhere, r, r' => r' = r

/-- A change that leaves no principal with more sessions than it may have. -/
structure Transition (e : Entry) (r r' : Roster) : Prop where
  change : Change e r r'
  counted : ∀ who, r'.held who ≤ max (r.held who) tenantMemberSessionLimit

/-! ## How a row changes -/

/-- The member whose row may change. -/
def Entry.subject : Entry → Option String
  | .login _ memberId _ _ _ _ | .added _ memberId | .removed _ memberId => some memberId
  | _ => none

/-- The ways in which the row of a member changes. -/
inductive RowChange (r r' : Roster) (id : String) : Entry → Prop
  | bind (revision : Nat) (identity : AdminIdentity) (time : Int) (hash : String) (session : Session) (row row' : Member)
      (hold : r.member id = some row) (hwas : row.active = true) (hunbound : row.bound = none)
      (hemail : row.email = identity.email) (htime : row.createdAt ≤ time) (hnew : r'.member id = some row')
      (hplace : row'.principal = row.principal) (hactive : row'.active = true)
      (hbound : row'.bound = some (identity.issuer, identity.subject)) :
      RowChange r r' id (.login (.invited revision) id identity time hash session)
  | appear (e : Entry) (row : Member) (hsubject : e.subject = some id) (hold : r.member id = none) (hnew : r'.member id = some row)
      (hfresh : r.Fresh row.principal) : RowChange r r' id e
  | remove (context : AdminContext) (row row' : Member) (hold : r.member id = some row) (hwas : row.active = true)
      (hnew : r'.member id = some row') (hplace : row'.principal = row.principal) (hactive : row'.active = false)
      (hbound : row'.bound = row.bound) : RowChange r r' id (.removed context id)

/-- A row is as it was, or has changed in one of these ways. -/
theorem Change.row_cases {e : Entry} {r r' : Roster} (h : Change e r r') (id : String) :
    r'.member id = r.member id ∨ RowChange r r' id e := by
  cases e with
  | login kind memberId identity time hash session =>
    obtain ⟨hadmits, _⟩ := h
    cases kind with
    | bound => exact .inl (congrFun hadmits id)
    | invited revision =>
      obtain ⟨row, row', hrow, hwas, hunbound, hemail, htime, hplace, hactive, hbound, hmember⟩ := hadmits
      by_cases hid : id = memberId
      · subst hid
        exact .inr (.bind revision identity time hash session row row' hrow hwas hunbound hemail htime
          (by rw [hmember, Function.update_self]) hplace hactive hbound)
      · exact .inl (by rw [hmember, Function.update_of_ne hid])
    | provisioned =>
      obtain ⟨row, hnone, hfresh, _, _, hmember⟩ := hadmits
      by_cases hid : id = memberId
      · subst hid
        exact .inr (.appear _ row rfl hnone (by rw [hmember, Function.update_self]) hfresh)
      · exact .inl (by rw [hmember, Function.update_of_ne hid])
  | added context memberId =>
    obtain ⟨_, row, hnone, hfresh, _, hmember⟩ := h
    by_cases hid : id = memberId
    · subst hid
      exact .inr (.appear _ row rfl hnone (by rw [hmember, Function.update_self]) hfresh)
    · exact .inl (by rw [hmember, Function.update_of_ne hid])
  | removed context memberId =>
    obtain ⟨_, row, row', hrow, hwas, hplace, hactive, hbound, hmember⟩ := h
    by_cases hid : id = memberId
    · subst hid
      exact .inr (.remove context row row' hrow hwas (by rw [hmember, Function.update_self]) hplace hactive hbound)
    · exact .inl (by rw [hmember, Function.update_of_ne hid])
  | sessionsRevoked context memberId tenantId principalId => exact .inl (congrFun h.2.1 id)
  | revoked hash => exact .inl (congrFun h.2 id)
  | found hash now session memberId => exact .inl (by rw [h.1])
  | elsewhere => exact .inl (by rw [show r' = r from h])

/-- A session is one of before, or the one that a sign-in issues. -/
theorem Change.session_cases {e : Entry} {r r' : Roster} (h : Change e r r') {hash : String} {session : Session}
    (hsession : r'.session hash = some session) : r.session hash = some session
      ∨ ∃ kind memberId identity time, e = .login kind memberId identity time hash session := by
  cases e with
  | login kind memberId identity time hash' session' =>
    rcases h.2.2.2 hash session hsession with hold | ⟨rfl, rfl⟩
    · exact .inl hold
    · exact .inr ⟨kind, memberId, identity, time, rfl⟩
  | added context memberId => exact .inl (h.1 hash session hsession)
  | removed context memberId => exact .inl (h.1 hash session hsession)
  | sessionsRevoked context memberId tenantId principalId => exact .inl (h.1 hash session hsession)
  | revoked _ => exact .inl (h.1 hash session hsession)
  | found _ _ _ _ => exact .inl (h.1 ▸ hsession)
  | elsewhere => exact .inl ((show r' = r from h) ▸ hsession)

end UniDocs.TenantMembers
