import UniDocs.Administrators.Store
import Mathlib.Logic.Function.Basic

/-!
# The directory of administrators

What the tables of administrators are for: members, who of them is bound to an identity, families of sessions and sessions.
The transitions say what each kind of change needs and does. A row and a family change only in a few ways, and the laws of
the directory follow from these.
-/

namespace UniDocs.Administrators

/-- Members, the bootstrap, families and sessions. -/
structure Directory where
  admin : String → Option Administrator
  bootstrap : Option String
  family : String → Option Family
  session : String → Option Session

/-- The directory that the tables hold. -/
def Db.directory (d : Db) : Directory := ⟨d.administrators.lookup, d.bootstrap, d.families.lookup, d.sessions.lookup⟩

namespace Directory

/-- A member is active and bound to an identity. -/
def Bound (r : Directory) (memberId : String) (identity : String × String) : Prop :=
  ∃ row, r.admin memberId = some row ∧ row.active = true ∧ row.bound = some identity

/-- A session of a member that is neither revoked nor expired. -/
def Live (r : Directory) (memberId sessionHash : String) (now : Int) : Prop :=
  ∃ session family, r.session sessionHash = some session ∧ r.family session.familyId = some family
    ∧ family.memberId = memberId ∧ family.revokedAt = none ∧ now < session.expiresAt

/-- An actor is an active bound administrator, with a live session when it acts by session. -/
def Authorized (r : Directory) (context : AdminContext) (now : Int) : Prop :=
  r.Bound context.memberId (context.identity.issuer, context.identity.subject)
    ∧ (context.transport = .session → ∃ sessionHash, context.sessionHash = some sessionHash
      ∧ r.Live context.memberId sessionHash now)

end Directory

/-- A family whose member's families are revoked. -/
def Family.revokeOf (memberId : String) (now : Int) (family : Family) : Family :=
  if family.memberId = memberId ∧ family.revokedAt = none then { family with revokedAt := some now } else family

/-- How a login admits its member. -/
def Admits (memberId : String) (identity : AdminIdentity) (confirmationTime : Int) (r r' : Directory) : LoginKind → Prop
  | .returning => r'.admin = r.admin ∧ r'.bootstrap = r.bootstrap
  | .bootstrap => r.bootstrap = none ∧ r'.bootstrap = some memberId ∧ (∀ id, r.admin id = none)
    ∧ ∃ row, r'.admin = Function.update r.admin memberId (some row)
  | .invitation _ => ∃ row row', r.admin memberId = some row ∧ row.active = true ∧ row.bound = none
    ∧ row.email = identity.email ∧ row.createdAt ≤ confirmationTime ∧ row'.bound = some (identity.issuer, identity.subject)
    ∧ r'.admin = Function.update r.admin memberId (some row') ∧ r'.bootstrap = r.bootstrap

/-- What a change needs and does. -/
def Transition : Entry → Directory → Directory → Prop
  | .login kind memberId identity confirmationTime familyId, r, r' =>
    Admits memberId identity confirmationTime r r' kind ∧ r'.Bound memberId (identity.issuer, identity.subject)
      ∧ r.family familyId = none
      ∧ ∃ now, r'.family = Function.update (fun f => (r.family f).map (Family.revokeOf memberId now)) familyId
        (some ⟨memberId, none, now⟩)
  | .added context now adminId, r, r' =>
    r.Authorized context now ∧ r.admin adminId = none ∧ r'.bootstrap = r.bootstrap ∧ r'.family = r.family
      ∧ ∃ row, row.active = true ∧ row.bound = none ∧ r'.admin = Function.update r.admin adminId (some row)
  | .removed context now adminId, r, r' =>
    r.Authorized context now ∧ adminId ≠ context.memberId ∧ r'.bootstrap = r.bootstrap
      ∧ (∃ row row', r.admin adminId = some row ∧ row.active = true ∧ row'.active = false ∧ row'.bound = row.bound
        ∧ r'.admin = Function.update r.admin adminId (some row'))
      ∧ ∃ now, r'.family = fun f => (r.family f).map (Family.revokeOf adminId now)
  | .revoked _ _, r, r' =>
    r'.admin = r.admin ∧ r'.bootstrap = r.bootstrap ∧ ∃ familyId family now, r.family familyId = some family
      ∧ r'.family = Function.update r.family familyId (some { family with revokedAt := some now })
  | .found sessionHash session family member, r, r' =>
    r' = r ∧ r.session sessionHash = some session ∧ r.family session.familyId = some family
      ∧ r.admin family.memberId = some member ∧ family.revokedAt = none ∧ member.active = true

/-! ## How a row changes -/

/-- The ways in which the row of a member changes. -/
inductive RowChange (r r' : Directory) (id : String) : Entry → Prop
  | bootstrap (identity : AdminIdentity) (time : Int) (familyId : String) (row : Administrator) (hold : r.admin id = none)
      (hbefore : r.bootstrap = none) (hafter : r'.bootstrap ≠ none) (hnew : r'.admin id = some row) (hactive : row.active = true)
      (hbound : row.bound = some (identity.issuer, identity.subject)) :
      RowChange r r' id (.login .bootstrap id identity time familyId)
  | bind (revision : Nat) (identity : AdminIdentity) (time : Int) (familyId : String) (row row' : Administrator)
      (hold : r.admin id = some row) (hunbound : row.bound = none) (hemail : row.email = identity.email)
      (htime : row.createdAt ≤ time) (hnew : r'.admin id = some row') (hactive : row'.active = true)
      (hwas : row.active = true) (hbound : row'.bound = some (identity.issuer, identity.subject)) :
      RowChange r r' id (.login (.invitation revision) id identity time familyId)
  | add (context : AdminContext) (now : Int) (row : Administrator) (hauthorized : r.Authorized context now)
      (hold : r.admin id = none) (hnew : r'.admin id = some row) (hactive : row.active = true) (hunbound : row.bound = none) :
      RowChange r r' id (.added context now id)
  | remove (context : AdminContext) (now : Int) (row row' : Administrator) (hauthorized : r.Authorized context now)
      (hself : id ≠ context.memberId) (hold : r.admin id = some row) (hwas : row.active = true) (hnew : r'.admin id = some row')
      (hactive : row'.active = false) (hbound : row'.bound = row.bound) : RowChange r r' id (.removed context now id)

/-- A row is as it was, or has changed in one of these ways. -/
theorem Transition.row_cases {e : Entry} {r r' : Directory} (h : Transition e r r') (id : String) :
    r'.admin id = r.admin id ∨ RowChange r r' id e := by
  cases e with
  | login kind memberId identity time familyId =>
    obtain ⟨hadmits, ⟨bound, hbound, hactive, hidentity⟩, _⟩ := h
    cases kind with
    | returning => exact .inl (by rw [hadmits.1])
    | bootstrap =>
      obtain ⟨hbefore, hafter, hempty, row, hadmin⟩ := hadmits
      by_cases hid : id = memberId
      · subst hid
        exact .inr (.bootstrap identity time familyId bound (hempty _) hbefore (by rw [hafter]; simp) hbound hactive hidentity)
      · exact .inl (by rw [hadmin, Function.update_of_ne hid])
    | invitation revision =>
      obtain ⟨row, row', hrow, hwas, hunbound, hemail, htime, hbound', hadmin, _⟩ := hadmits
      by_cases hid : id = memberId
      · subst hid
        exact .inr (.bind revision identity time familyId row bound hrow hunbound hemail htime hbound hactive hwas hidentity)
      · exact .inl (by rw [hadmin, Function.update_of_ne hid])
  | added context now adminId =>
    obtain ⟨hauthorized, hold, _, _, row, hactive, hunbound, hadmin⟩ := h
    by_cases hid : id = adminId
    · subst hid
      exact .inr (.add context now row hauthorized hold (by rw [hadmin, Function.update_self]) hactive hunbound)
    · exact .inl (by rw [hadmin, Function.update_of_ne hid])
  | removed context now adminId =>
    obtain ⟨hauthorized, hself, _, ⟨row, row', hrow, hwas, hinactive, hbound, hadmin⟩, _⟩ := h
    by_cases hid : id = adminId
    · subst hid
      exact .inr (.remove context now row row' hauthorized hself hrow hwas (by rw [hadmin, Function.update_self]) hinactive
        hbound)
    · exact .inl (by rw [hadmin, Function.update_of_ne hid])
  | revoked sessionHash memberId => exact .inl (by rw [h.1])
  | found sessionHash session family member => exact .inl (by rw [h.1])

/-- The ways in which a family changes. -/
inductive FamilyChange (r r' : Directory) (f : String) : Entry → Prop
  | revoke (e : Entry) (family family' : Family) (hold : r.family f = some family) (hnew : r'.family f = some family')
      (hmember : family'.memberId = family.memberId) (hrevoked : family'.revokedAt ≠ none) : FamilyChange r r' f e
  | start (kind : LoginKind) (memberId : String) (identity : AdminIdentity) (time now : Int) (hold : r.family f = none)
      (hnew : r'.family f = some ⟨memberId, none, now⟩)
      (hothers : ∀ g family, g ≠ f → r'.family g = some family → family.memberId = memberId → family.revokedAt ≠ none) :
      FamilyChange r r' f (.login kind memberId identity time f)

theorem Family.revokeOf_cases (memberId : String) (now : Int) (family : Family) :
    family.revokeOf memberId now = family ∨ (family.revokeOf memberId now).memberId = family.memberId
      ∧ (family.revokeOf memberId now).revokedAt ≠ none := by
  unfold Family.revokeOf
  split
  · exact .inr ⟨rfl, by simp⟩
  · exact .inl rfl

theorem Family.revokeOf_revoked {memberId : String} {now : Int} {family : Family}
    (h : (family.revokeOf memberId now).memberId = memberId) : (family.revokeOf memberId now).revokedAt ≠ none := by
  unfold Family.revokeOf at h ⊢
  split
  · simp
  · rename_i hcondition
    rw [if_neg hcondition] at h
    exact fun hnone => hcondition ⟨h, hnone⟩

theorem map_revokeOf_cases {r r' : Directory} {f memberId : String} {now : Int} {e : Entry}
    (h : r'.family f = (r.family f).map (Family.revokeOf memberId now)) : r'.family f = r.family f ∨ FamilyChange r r' f e := by
  cases hold : r.family f with
  | none =>
    rw [hold] at h
    exact .inl h
  | some family =>
    rw [hold, Option.map_some] at h
    rcases Family.revokeOf_cases memberId now family with hsame | ⟨hmember, hrevoked⟩
    · rw [hsame] at h
      exact .inl h
    · exact .inr (.revoke e family _ hold h hmember hrevoked)

/-- A family is as it was, or has changed in one of these ways. -/
theorem Transition.family_cases {e : Entry} {r r' : Directory} (h : Transition e r r') (f : String) :
    r'.family f = r.family f ∨ FamilyChange r r' f e := by
  cases e with
  | login kind memberId identity time familyId =>
    obtain ⟨_, _, hfresh, now, hfamily⟩ := h
    by_cases hf : f = familyId
    · subst hf
      refine .inr (.start kind memberId identity time now hfresh (by rw [hfamily, Function.update_self]) ?_)
      intro g family hg hnew hmember
      rw [hfamily, Function.update_of_ne hg] at hnew
      obtain ⟨old, _, rfl⟩ := Option.map_eq_some_iff.mp hnew
      exact Family.revokeOf_revoked hmember
    · exact map_revokeOf_cases (by rw [hfamily, Function.update_of_ne hf])
  | added context now adminId => exact .inl (by rw [h.2.2.2.1])
  | removed context now adminId =>
    obtain ⟨_, _, _, _, now', hfamily⟩ := h
    exact map_revokeOf_cases (by rw [hfamily])
  | revoked sessionHash memberId =>
    obtain ⟨_, _, familyId, family, now, hold, hfamily⟩ := h
    by_cases hf : f = familyId
    · subst hf
      exact .inr (.revoke _ family { family with revokedAt := some now } hold (by rw [hfamily, Function.update_self]) rfl
        (by simp))
    · exact .inl (by rw [hfamily, Function.update_of_ne hf])
  | found sessionHash session family member => exact .inl (by rw [h.1])

end UniDocs.Administrators
