import UniDocs.Theorems.OAuthGrants

/-!
# Isolation of provisioned tenants

The tenant that a login provisions is derived from the local part of the email, or from the principal. Where the tenants that
are derived for different principals differ, access tokens for the same tenant are for the same principal; where they do not,
a login obtains permissions on a tenant that was provisioned for somebody else.
-/

namespace UniDocs.OAuth

open Lib Lib.Journal

/-- Access tokens for the same tenant are for the same principal. -/
def TenantsApart (p : GatewayPool) : Prop :=
  ∀ i j familyId familyId' access access', (i, .issued familyId access) ∈ p.state.journal →
    (j, .issued familyId' access') ∈ p.state.journal → access.tenantId = access'.tenantId → access.subject = access'.subject

/-- The tenants that are derived for the principals of two logins of the run differ, unless the principals are the same. -/
def TenantIdsDiffer (p : GatewayPool) : Prop :=
  ∀ i j thread thread' request request' principalId principalId', p.thread i = some thread → p.thread j = some thread' →
    thread.req = .start request → thread'.req = .start request' → request.authenticatedPrincipalId = some principalId →
    request'.authenticatedPrincipalId = some principalId' →
    defaultTenantId principalId request.authenticatedEmail = defaultTenantId principalId' request'.authenticatedEmail →
    principalId = principalId'

theorem Reached.provisioned {ports : Ports} {p : GatewayPool} (h : Reached ports (fun _ => False) p) {i : Nat}
    {familyId : String} {access : AccessToken} (hm : (i, .issued familyId access) ∈ p.state.journal) :
    ∃ j thread request, p.thread j = some thread ∧ thread.req = .start request
      ∧ request.authenticatedPrincipalId = some access.subject
      ∧ access.tenantId = defaultTenantId access.subject request.authenticatedEmail := by
  obtain ⟨j, t, d, m, code, k, first, permissions, happroved, _, _, _, _, _, htenant, hsubject, _, _⟩ := h.carries hm
  have hmember := h.inv.members.approved j t d.principalId m code happroved
  obtain hnone | ⟨l, email, hprovisioned⟩ := h.inv.members.row _ hmember
  · exact hnone.elim
  · obtain ⟨hstory, hmem⟩ := h.inv.story_of hprovisioned
    have hderived := hstory.of_provisioned hmem
    obtain ⟨thread, hthread, hmay⟩ := h.author _ _ hprovisioned
    obtain ⟨req, prog, steps⟩ := thread
    cases req with
    | start request =>
      obtain ⟨hprincipal, hemail⟩ := hmay
      refine ⟨l, _, request, hthread, rfl, by rw [hsubject]; exact hprincipal, ?_⟩
      rw [htenant, hsubject, hemail]
      exact hderived
    | _ => exact absurd hmay id

/-- In every run from an empty table of memberships in which the tenants derived for different principals differ, access
tokens for the same tenant are for the same principal. -/
theorem tenants_apart_of_distinct (ports : Ports) (hideal : ports.Ideal) (time : Int) (clients : Table String Client)
    (p : GatewayPool) (h : (gateway ports false).Reach Machine.anyCall (GatewayPool.initial time clients ∅) p)
    (hids : TenantIdsDiffer p) : TenantsApart p := by
  have hreached : Reached ports (fun _ => False) p :=
    reached hideal (by simp) (fun k hk => absurd hk (AList.notMem_empty k)) h
  intro i j familyId familyId' access access' hm hm' htenant
  obtain ⟨k, thread, request, hthread, hreq, hprincipal, hderived⟩ := hreached.provisioned hm
  obtain ⟨k', thread', request', hthread', hreq', hprincipal', hderived'⟩ := hreached.provisioned hm'
  refine hids k k' thread thread' request request' _ _ hthread hthread' hreq hreq' hprincipal hprincipal' ?_
  rw [← hderived, ← hderived', htenant]

/-- The logins of two users, with the exchange of the codes. -/
def twoLogins (email email' : String) : List (Label Nat OAuthRequest OAuthEvent) :=
  runCall 0 (sampleStart "p1" (some email)) 7 ++ runCall 1 (.complete "b" ⟨true, "p1"⟩) 5
    ++ runCall 2 (.exchange ⟨"authorization_code", "ab", "app", "https://c/cb", sampleVerifier⟩) 5
    ++ runCall 3 (sampleStart "p2" (some email')) 7 ++ runCall 4 (.complete "aaab" ⟨true, "p2"⟩) 5
    ++ runCall 5 (.exchange ⟨"authorization_code", "aaaab", "app", "https://c/cb", sampleVerifier⟩) 5

/-- The tenant and the principal of the access token of a call. -/
def tokenOf (p : GatewayPool) (i : Nat) : Option (String × String) :=
  match p.result i with
  | some (.ok (.tokens r)) => some (r.accessToken.tenantId, r.accessToken.subject)
  | _ => none

theorem tenants_apart_of_distinct_two_logins : ∃ p, (gateway samplePorts false).exec? (twoLogins "ann@x" "bob@x")
    (GatewayPool.initial 1000 sampleClients ∅) = some p ∧ tokenOf p 2 = some ("ann", "p1") ∧ tokenOf p 5 = some ("bob", "p2")
    ∧ TenantsApart p := by
  have hrun : ((gateway samplePorts false).exec? (twoLogins "ann@x" "bob@x") (GatewayPool.initial 1000 sampleClients ∅)).any
      (fun p => decide (tokenOf p 2 = some ("ann", "p1")) && decide (tokenOf p 5 = some ("bob", "p2"))) = true := by
    with_unfolding_all decide
  obtain ⟨p, hp, hchecks⟩ := Option.any_eq_true .. |>.mp hrun
  simp only [Bool.and_eq_true, decide_eq_true_eq] at hchecks
  have hstart : ∀ i thread request, p.thread i = some thread → thread.req = .start request →
      request = ⟨"code", "app", "https://c/cb", none, "cas:read", none, sampleChallenge, "S256", some "p1", some "ann@x"⟩
        ∨ request = ⟨"code", "app", "https://c/cb", none, "cas:read", none, sampleChallenge, "S256", some "p2", some "bob@x"⟩ := by
    intro i thread request hthread hreq
    rcases Machine.start_of_thread _ hp hthread with hmem | ⟨_, hnone, _⟩
    · rw [hreq] at hmem
      simp [twoLogins, runCall, sampleStart] at hmem
      rcases hmem with ⟨_, rfl⟩ | ⟨_, rfl⟩
      · exact .inl rfl
      · exact .inr rfl
    · cases hnone
  refine ⟨p, hp, hchecks.1, hchecks.2, tenants_apart_of_distinct samplePorts samplePorts_ideal 1000 sampleClients p
    (Machine.reach_of_exec? _ .init hp) ?_⟩
  intro i j thread thread' request request' u u' hthread hthread' hreq hreq' hu hu' heq
  rcases hstart i thread request hthread hreq with rfl | rfl <;> rcases hstart j thread' request' hthread' hreq' with rfl | rfl <;>
    cases hu <;> cases hu' <;> first | rfl | exact absurd heq (by decide)

/-- Two users whose emails have the same local part are given the same tenant. -/
theorem tenants_apart_false : ¬ ∀ p, (gateway samplePorts false).Reach Machine.anyCall
    (GatewayPool.initial 1000 sampleClients ∅) p → TenantsApart p := by
  intro h
  have hrun : ((gateway samplePorts false).exec? (twoLogins "ann@x" "ann@y") (GatewayPool.initial 1000 sampleClients ∅)).any
      (fun p => p.state.journal.any fun x => p.state.journal.any fun y =>
        match x.2, y.2 with
        | .issued _ access, .issued _ access' => decide (access.tenantId = access'.tenantId ∧ access.subject ≠ access'.subject)
        | _, _ => false) = true := by
    with_unfolding_all decide
  obtain ⟨p, hp, hany⟩ := Option.any_eq_true .. |>.mp hrun
  obtain ⟨⟨i, e⟩, hx, hany⟩ := List.any_eq_true.mp hany
  obtain ⟨⟨j, e'⟩, hy, hboth⟩ := List.any_eq_true.mp hany
  split at hboth
  · rename_i f access f' access' he he'
    obtain ⟨htenant, hsubject⟩ := of_decide_eq_true hboth
    simp only at he he'
    subst he he'
    exact hsubject (h p (Machine.reach_of_exec? _ .init hp) i j f f' access access' hx hy htenant)
  · cases hboth

end UniDocs.OAuth
