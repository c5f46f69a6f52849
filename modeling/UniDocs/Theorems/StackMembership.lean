import UniDocs.Lemmas.ControlPrograms
import UniDocs.Lib.Digest

/-!
# Stack membership

Over any interleaving of the reads and batches of the control plane operations: no stack is without a member, membership
begins with the creation of the stack or with an invitation to it, an invitation is accepted once, in time and by the identity
it is for, a patch commits only on the revision it was computed from, and an operation that reports an error has changed
nothing. The calls of a pool's programs, with the database before and after each of them, are all the changes there were.
-/

namespace UniDocs.Control

open Lib Lib.Trace

/-- The effect of one call of an operation. -/
abbrev Effect := Traced Db Nat Entry × Traced Db Nat Entry

/-- An operation of a request has made a call with an effect. -/
def Made (p : ControlPool) (i : Nat) (q : Request) (x : Effect) : Prop :=
  ∃ t, p.thread i = some t ∧ t.req = q ∧ x ∈ t.steps

/-- An invitation has been accepted. -/
def Accepted (invitationId : String) (d : Db) : Prop :=
  ∃ invitation, d.invitations.lookup invitationId = some invitation ∧ invitation.status = .accepted

/-- A call accepts an invitation. -/
abbrev Accepts (invitationId : String) (x : Effect) : Prop := Proof.Turns (fun s => Accepted invitationId s.db) x

/-- The laws of membership, as of a point of a run. -/
structure MembershipSafety (ports : Ports) (p : ControlPool) : Prop where
  /-- Every stack has a member. -/
  member : ∀ stackId, stackId ∈ p.state.db.casStacks → ∃ identity, (stackId, identity) ∈ p.state.db.members
  /-- Who becomes a member creates the stack, or accepts an invitation to it. -/
  begins : ∀ i q x stackId identity, Made p i q x → (stackId, identity) ∉ x.1.db.members → (stackId, identity) ∈ x.2.db.members →
    (∃ ctx name key, q = .createStack ctx name key ∧ ctx.identity = identity ∧ stackId ∉ x.1.db.casStacks
      ∧ stackId ∈ x.2.db.casStacks)
    ∨ ∃ ctx token invitationId invitation, q = .acceptMemberInvitation ctx token ∧ ctx.identity = identity
      ∧ Accepts invitationId x ∧ x.1.db.invitations.lookup invitationId = some invitation ∧ invitation.stackId = stackId
  /-- An invitation is accepted by at most one call of at most one operation. -/
  once : ∀ i j t t' (a b : Nat) x y invitationId, p.thread i = some t → p.thread j = some t' → t.steps[a]? = some x →
    t'.steps[b]? = some y → Accepts invitationId x → Accepts invitationId y → i = j ∧ a = b
  /-- It is accepted while pending, before it expires, by an identity that has its token and whose email is its constraint. -/
  accepted : ∀ i q x invitationId, Made p i q x → Accepts invitationId x → ∃ ctx token invitation,
    q = .acceptMemberInvitation ctx token ∧ x.1.db.invitations.lookup invitationId = some invitation
      ∧ invitation.status = .pending ∧ ports.now i 0 < invitation.expiresAt ∧ invitation.tokenHash = ports.sha256Hex token
      ∧ ∀ constraint, invitation.emailConstraint = some constraint →
        ∃ email, ctx.emailForDisplay = some email ∧ normalizeEmailConstraint ports (some email) = some constraint
  /-- An operation that reports the member has accepted an invitation. -/
  reported : ∀ i ctx token member, p.Returned i (.acceptMemberInvitation ctx token) (.ok (.member member)) →
    ∃ x invitationId invitation, Made p i (.acceptMemberInvitation ctx token) x ∧ Accepts invitationId x
      ∧ x.1.db.invitations.lookup invitationId = some invitation ∧ invitation.stackId = member.stackId
      ∧ member.identity = ctx.identity
  /-- A stack changes only by a patch, which is computed from the row it replaces and whose `If-Match` is the revision of that
  row; the revision then increases by one. -/
  patched : ∀ i q x stackId row row', Made p i q x → x.1.db.casStacks.lookup stackId = some row →
    x.2.db.casStacks.lookup stackId = some row' → row' = row ∨ ∃ ctx displayName description ifMatch name text,
      q = .patchStack ctx stackId displayName description ifMatch ∧ parseCasAdminETag (ifMatch.getD "") = some row.revision
        ∧ patchedFields row displayName description = .ok (name, text)
        ∧ row' = { row with displayName := name, description := text, revision := row.revision + 1 }
  /-- A patch that reports the stack has committed it, with the next revision. -/
  patchReported : ∀ i ctx stackId displayName description ifMatch stack,
    p.Returned i (.patchStack ctx stackId displayName description ifMatch) (.ok (.stack stack)) → ∃ x row,
      Made p i (.patchStack ctx stackId displayName description ifMatch) x ∧ x.1.db.casStacks.lookup stackId = some row
        ∧ x.2.db.casStacks.lookup stackId = some stack ∧ stack.revision = row.revision + 1
  /-- No operation throws, and one that reports an error has changed nothing. -/
  failed : ∀ i q r, p.Returned i q r → ∃ response, r = .ok response ∧
    ∀ code message, response = .error code message → ∀ x, Made p i q x → x.2.db = x.1.db

/-! ## Effects -/

section Effects

variable {ports : Ports} {e : Entry} {d d' : Db}

theorem Transition.row_cases (h : Transition e d.registry d'.registry) {stackId : String} {row row' : Stack}
    (hrow : d.casStacks.lookup stackId = some row) (hrow' : d'.casStacks.lookup stackId = some row') :
    row' = row ∨ ∃ name text, e = .patched row name text ∧ row.stackId = stackId ∧ row' = row.patched name text := by
  have hold : d.registry.stack stackId = some row := hrow
  have hnew : d'.registry.stack stackId = some row' := hrow'
  cases e with
  | created stack owner =>
    obtain ⟨hnone, hd'⟩ := h
    rw [hd'] at hnew
    rcases Registry.update_cases hnew with ⟨rfl, _⟩ | hnew
    · rw [hnone] at hold
      cases hold
    · exact .inl (Option.some.inj (hnew.symm.trans hold))
  | patched stack name text =>
    obtain ⟨hstack, hd'⟩ := h
    rw [hd'] at hnew
    rcases Registry.update_cases hnew with ⟨rfl, rfl⟩ | hnew
    · cases hold.symm.trans hstack
      exact .inr ⟨name, text, rfl, rfl, rfl⟩
    · exact .inl (Option.some.inj (hnew.symm.trans hold))
  | invited invitation =>
    obtain ⟨_, _, hd'⟩ := h
    rw [hd'] at hnew
    exact .inl (Option.some.inj (hnew.symm.trans hold))
  | removed id identity =>
    obtain ⟨_, hd'⟩ := h
    rw [hd'] at hnew
    exact .inl (Option.some.inj (hnew.symm.trans hold))
  | accepted invitation identity now =>
    obtain ⟨_, _, _, hd'⟩ := h
    rw [hd'] at hnew
    exact .inl (Option.some.inj (hnew.symm.trans hold))

theorem Transition.member_cases (h : Transition e d.registry d'.registry) {k : String × IdentityKey} (hold : k ∉ d.members)
    (hnew : k ∈ d'.members) : (∃ stack, e = .created stack k.2 ∧ stack.stackId = k.1)
      ∨ ∃ invitation now, e = .accepted invitation k.2 now ∧ invitation.stackId = k.1 := by
  have hmem : k ∈ d'.registry.members := hnew
  cases e with
  | created stack owner =>
    obtain ⟨_, hd'⟩ := h
    rw [hd'] at hmem
    rcases hmem with rfl | hmem
    · exact .inl ⟨stack, rfl, rfl⟩
    · exact absurd hmem hold
  | patched stack name text =>
    obtain ⟨_, hd'⟩ := h
    rw [hd'] at hmem
    exact absurd hmem hold
  | invited invitation =>
    obtain ⟨_, _, hd'⟩ := h
    rw [hd'] at hmem
    exact absurd hmem hold
  | removed id identity =>
    obtain ⟨_, hd'⟩ := h
    rw [hd'] at hmem
    exact absurd hmem.1 hold
  | accepted invitation identity now =>
    obtain ⟨_, _, _, hd'⟩ := h
    rw [hd'] at hmem
    rcases hmem with rfl | hmem
    · exact .inr ⟨invitation, now, rfl, rfl⟩
    · exact absurd hmem hold

theorem Transition.accepted_cases (h : Transition e d.registry d'.registry) {invitationId : String}
    (hold : ¬ Accepted invitationId d) (hnew : Accepted invitationId d') :
    ∃ invitation identity now, e = .accepted invitation identity now ∧ invitation.invitationId = invitationId := by
  obtain ⟨row, hrow, hstatus⟩ := hnew
  have hrow' : d'.registry.invitation invitationId = some row := hrow
  have hsame : d.registry.invitation invitationId ≠ some row := fun hsame => hold ⟨row, hsame, hstatus⟩
  cases e with
  | created stack owner =>
    obtain ⟨_, hd'⟩ := h
    rw [hd'] at hrow'
    exact absurd hrow' hsame
  | patched stack name text =>
    obtain ⟨_, hd'⟩ := h
    rw [hd'] at hrow'
    exact absurd hrow' hsame
  | invited invitation =>
    obtain ⟨_, hpending, hd'⟩ := h
    rw [hd'] at hrow'
    rcases Registry.update_cases hrow' with ⟨rfl, rfl⟩ | hrow'
    · rw [hpending] at hstatus
      cases hstatus
    · exact absurd hrow' hsame
  | removed id identity =>
    obtain ⟨_, hd'⟩ := h
    rw [hd'] at hrow'
    exact absurd hrow' hsame
  | accepted invitation identity now =>
    obtain ⟨_, _, _, hd'⟩ := h
    rw [hd'] at hrow'
    rcases Registry.update_cases hrow' with ⟨rfl, rfl⟩ | hrow'
    · exact ⟨invitation, identity, now, rfl, rfl⟩
    · exact absurd hrow' hsame

theorem Accepted.transition (h : Transition e d.registry d'.registry) {invitationId : String}
    (haccepted : Accepted invitationId d) : Accepted invitationId d' := by
  obtain ⟨row, hrow, hstatus⟩ := haccepted
  have hkept : d'.registry.invitation invitationId = some row → Accepted invitationId d' := fun h => ⟨row, h, hstatus⟩
  have hold : d.registry.invitation invitationId = some row := hrow
  cases e with
  | created stack owner =>
    obtain ⟨_, hd'⟩ := h
    exact hkept (by rw [hd']; exact hold)
  | patched stack name text =>
    obtain ⟨_, hd'⟩ := h
    exact hkept (by rw [hd']; exact hold)
  | invited invitation =>
    obtain ⟨hnone, _, hd'⟩ := h
    refine hkept ?_
    have hne : invitationId ≠ invitation.invitationId := by
      rintro rfl
      rw [hnone] at hold
      cases hold
    rw [hd']
    simpa [Function.update_of_ne hne] using hold
  | removed id identity =>
    obtain ⟨_, hd'⟩ := h
    exact hkept (by rw [hd']; exact hold)
  | accepted invitation identity now =>
    obtain ⟨hclaimed, hpending, _, hd'⟩ := h
    refine hkept ?_
    have hne : invitationId ≠ invitation.invitationId := by
      rintro rfl
      cases hold.symm.trans hclaimed
      rw [hpending] at hstatus
      cases hstatus
    rw [hd']
    simpa [Function.update_of_ne hne] using hold

end Effects

/-! ## The laws -/

section Laws

variable {ports : Ports} {p : ControlPool}

theorem effect_of_made (h : (controlPlane ports).Reach answered (DbPool.initial Db.empty) p) {i : Nat} {q : Request} {x : Effect}
    (hx : Made p i q x) : x.2 = x.1 ∨ ∃ e, x.2.trace = x.1.trace ++ [(i, e)] ∧ Transition e x.1.db.registry x.2.db.registry
      ∧ May ports i q e ∧ x.1.db.registry.Ok := by
  obtain ⟨t, ht, rfl, hmem⟩ := hx
  rcases steps_act (serves ports) rfl h i t ht x hmem with heq | ⟨e, htrace, hstep, hmay, hinv, _⟩
  · exact .inl heq
  · exact .inr ⟨e, htrace, hstep, hmay, registry_ok hinv⟩

/-- A call of an operation that has written one entry. -/
theorem made_of_wrote (h : (controlPlane ports).Reach answered (DbPool.initial Db.empty) p) {i : Nat} {q : Request}
    {r : Except ControlError Response} (hr : p.Returned i q r) {e : Entry} (hwrote : Wrote i [e] p.state) :
    ∃ x, Made p i q x ∧ Transition e x.1.db.registry x.2.db.registry := by
  obtain ⟨t, x, ht, hx, _, hstep⟩ := call_of_entry (serves ports) rfl h i e (hwrote.mem List.mem_cons_self)
  obtain ⟨steps, ht'⟩ := hr
  cases ht.symm.trans ht'
  exact ⟨x, ⟨_, ht, rfl, hx⟩, hstep⟩

theorem requireIfMatch_ok {ifMatch : Option String} {revision : Nat} {u : Unit}
    (h : requireIfMatch ifMatch revision = .ok u) : parseCasAdminETag (ifMatch.getD "") = some revision := by
  unfold requireIfMatch at h
  split at h
  · cases h
  · split at h
    · cases h
    · rename_i expected hparse
      split at h
      · rename_i heq
        rw [hparse, heq]
      · cases h

theorem accepts_of_transition {x : Effect} {invitation : Invitation} {identity : IdentityKey} {now : Int}
    (h : Transition (.accepted invitation identity now) x.1.db.registry x.2.db.registry) :
    Accepts invitation.invitationId x ∧ x.1.db.invitations.lookup invitation.invitationId = some invitation := by
  obtain ⟨hrow, hpending, _, hafter⟩ := h
  refine ⟨⟨?_, { invitation with status := .accepted }, ?_, rfl⟩, hrow⟩
  · rintro ⟨row, hrow', hstatus⟩
    cases hrow.symm.trans hrow'
    rw [hpending] at hstatus
    cases hstatus
  · have hnew := congrArg (fun r => r.invitation invitation.invitationId) hafter
    simpa [Db.registry] using hnew

theorem begins_of_made (h : (controlPlane ports).Reach answered (DbPool.initial Db.empty) p) {i : Nat} {q : Request} {x : Effect}
    {stackId : String} {identity : IdentityKey} (hx : Made p i q x) (hold : (stackId, identity) ∉ x.1.db.members)
    (hnew : (stackId, identity) ∈ x.2.db.members) :
    (∃ ctx name key, q = .createStack ctx name key ∧ ctx.identity = identity ∧ stackId ∉ x.1.db.casStacks
      ∧ stackId ∈ x.2.db.casStacks)
    ∨ ∃ ctx token invitationId invitation, q = .acceptMemberInvitation ctx token ∧ ctx.identity = identity
      ∧ Accepts invitationId x ∧ x.1.db.invitations.lookup invitationId = some invitation ∧ invitation.stackId = stackId := by
  rcases effect_of_made h hx with heq | ⟨e, _, hstep, hmay, _⟩
  · rw [heq] at hnew
    exact absurd hnew hold
  · rcases hstep.member_cases hold hnew with ⟨stack, rfl, rfl⟩ | ⟨invitation, now, rfl, rfl⟩
    · cases q with
      | createStack ctx name key =>
        obtain ⟨hnone, hafter⟩ := hstep
        refine .inl ⟨ctx, name, key, rfl, hmay.2.symm, AList.lookup_eq_none.mp hnone, ?_⟩
        have hrow := congrArg (fun r => r.stack stack.stackId) hafter
        exact AList.mem_of_lookup (r := stack) (by simpa [Db.registry] using hrow)
      | _ => exact absurd hmay id
    · cases q with
      | acceptMemberInvitation ctx token =>
        obtain ⟨haccepts, hrow⟩ := accepts_of_transition hstep
        exact .inr ⟨ctx, token, _, invitation, rfl, hmay.1.symm, haccepts, hrow, rfl⟩
      | _ => exact absurd hmay id

theorem accepted_of_made (h : (controlPlane ports).Reach answered (DbPool.initial Db.empty) p) {i : Nat} {q : Request} {x : Effect}
    {invitationId : String} (hx : Made p i q x) (haccepts : Accepts invitationId x) : ∃ ctx token invitation,
    q = .acceptMemberInvitation ctx token ∧ x.1.db.invitations.lookup invitationId = some invitation
      ∧ invitation.status = .pending ∧ ports.now i 0 < invitation.expiresAt ∧ invitation.tokenHash = ports.sha256Hex token
      ∧ ∀ constraint, invitation.emailConstraint = some constraint →
        ∃ email, ctx.emailForDisplay = some email ∧ normalizeEmailConstraint ports (some email) = some constraint := by
  rcases effect_of_made h hx with heq | ⟨e, _, hstep, hmay, _⟩
  · obtain ⟨hold, hnew⟩ := haccepts
    rw [heq] at hnew
    exact absurd hnew hold
  · obtain ⟨invitation, identity, now, rfl, rfl⟩ := hstep.accepted_cases haccepts.1 haccepts.2
    obtain ⟨hrow, hpending, htime, _⟩ := hstep
    cases q with
    | acceptMemberInvitation ctx token =>
      obtain ⟨_, rfl, hhash, hmeets⟩ := hmay
      refine ⟨ctx, token, invitation, rfl, hrow, hpending, htime, hhash, ?_⟩
      intro constraint hconstraint
      simp only [meetsConstraint, hconstraint, reduceCtorEq, decide_false, Bool.false_or, decide_eq_true_eq] at hmeets
      cases hemail : ctx.emailForDisplay with
      | none =>
        rw [hemail] at hmeets
        cases hmeets
      | some email => exact ⟨email, rfl, by rw [← hemail]; exact hmeets⟩
    | _ => exact absurd hmay id

theorem patched_of_made (h : (controlPlane ports).Reach answered (DbPool.initial Db.empty) p) {i : Nat} {q : Request} {x : Effect}
    {stackId : String} {row row' : Stack} (hx : Made p i q x) (hrow : x.1.db.casStacks.lookup stackId = some row)
    (hrow' : x.2.db.casStacks.lookup stackId = some row') : row' = row ∨ ∃ ctx displayName description ifMatch name text,
      q = .patchStack ctx stackId displayName description ifMatch ∧ parseCasAdminETag (ifMatch.getD "") = some row.revision
        ∧ patchedFields row displayName description = .ok (name, text)
        ∧ row' = { row with displayName := name, description := text, revision := row.revision + 1 } := by
  rcases effect_of_made h hx with heq | ⟨e, _, hstep, hmay, _⟩
  · rw [heq] at hrow'
    exact .inl (Option.some.inj (hrow'.symm.trans hrow))
  · rcases hstep.row_cases hrow hrow' with heq | ⟨name, text, rfl, hid, hpatched⟩
    · exact .inl heq
    · cases q with
      | patchStack ctx id displayName description ifMatch =>
        obtain ⟨hreq, hmatch, hfields⟩ := hmay
        obtain rfl : id = stackId := hreq.symm.trans hid
        exact .inr ⟨ctx, displayName, description, ifMatch, name, text, rfl, requireIfMatch_ok hmatch, hfields, hpatched⟩
      | _ => exact absurd hmay id

/-- What an operation reports when it ends. -/
theorem reported_of_returned (h : (controlPlane ports).Reach answered (DbPool.initial Db.empty) p) {i : Nat} {q : Request}
    {r : Except ControlError Response} (hr : p.Returned i q r) : ∃ response, r = .ok response
      ∧ Reported ports i q response p.state := by
  have hended : Ended ports i q r p.state := ended (serves ports) rfl h hr
  cases r with
  | ok response => exact ⟨response, rfl, hended⟩
  | error e => exact hended.elim

theorem patchReported_of_returned (h : (controlPlane ports).Reach answered (DbPool.initial Db.empty) p) {i : Nat} {ctx : Context}
    {stackId : String} {displayName description ifMatch : Option String} {stack : Stack}
    (hr : p.Returned i (.patchStack ctx stackId displayName description ifMatch) (.ok (.stack stack))) : ∃ x row,
      Made p i (.patchStack ctx stackId displayName description ifMatch) x ∧ x.1.db.casStacks.lookup stackId = some row
        ∧ x.2.db.casStacks.lookup stackId = some stack ∧ stack.revision = row.revision + 1 := by
  obtain ⟨response, hresponse, hreported⟩ := reported_of_returned h hr
  cases hresponse
  obtain ⟨row, name, text, hwrote, hid, rfl⟩ := hreported
  obtain ⟨x, hx, hstep⟩ := made_of_wrote h hr hwrote
  obtain ⟨hrow, hafter⟩ := hstep
  subst hid
  refine ⟨x, row, hx, hrow, ?_, rfl⟩
  have hnew := congrArg (fun r => r.stack row.stackId) hafter
  simpa [Db.registry] using hnew

end Laws

/-- Stack membership is safe: the laws hold at every point of every interleaving of the operations, whatever the identities,
the clock, the generators and the failures of the database. -/
theorem stack_membership_safe (ports : Ports) (p : ControlPool)
    (h : (controlPlane ports).Reach answered (DbPool.initial Db.empty) p) : MembershipSafety ports p where
  member stackId hmem := by
    obtain ⟨row, hrow⟩ := AList.mem_iff_lookup.mp hmem
    exact (registry_ok (inv_of_reach (serves ports) rfl h)).member hrow
  begins _ _ _ _ _ hx hold hnew := begins_of_made h hx hold hnew
  once i j t t' a b x y id ht ht' hx hy hax hay :=
    turns_once (serves ports) rfl h (fun _ _ _ hs haccepted => haccepted.transition hs) i j t t' a b x y ht ht' hx hy hax hay
  accepted _ _ _ _ hx haccepts := accepted_of_made h hx haccepts
  reported i ctx token member hr := by
    obtain ⟨response, hresponse, hreported⟩ := reported_of_returned h hr
    cases hresponse
    obtain ⟨hidentity, invitation, hwrote, hstack⟩ := hreported
    obtain ⟨x, hx, hstep⟩ := made_of_wrote h hr hwrote
    obtain ⟨haccepts, hrow⟩ := accepts_of_transition hstep
    exact ⟨x, _, invitation, hx, haccepts, hrow, hstack, hidentity⟩
  patched _ _ _ _ _ _ hx hrow hrow' := patched_of_made h hx hrow hrow'
  patchReported _ _ _ _ _ _ _ hr := patchReported_of_returned h hr
  failed i q r hr := by
    obtain ⟨response, hresponse, hreported⟩ := reported_of_returned h hr
    refine ⟨response, hresponse, ?_⟩
    rintro code message rfl x ⟨t, ht, rfl, hx⟩
    have hsame := unchanged_of_own (serves ports) rfl h hreported ht x hx
    rw [hsame]

section Sample

/-- Ports with one stack, one invitation and its token, and a clock that stands still. -/
def samplePorts : Ports where
  now _ _ := 0
  generateStackId _ := "cas_s"
  generateInvitationId _ := "inv_i"
  generateInvitationToken _ := "abcdefghijklmnopqrstuvwxyz012345"
  generateEventId i := String.ofList (List.replicate i 'e')
  sha256Hex := assign
    [("\x7b\"displayName\":\"docs\"\x7d", "dd86af3e336ae4b6cc316a118f87322484dbb0ab31d40e18925909494fddaef6"),
      ("\x7b\"emailConstraint\":\"bob@x.y\"\x7d", "6fd8b76df1ac2e5b371530f2ca631654eef2f6bff86f39f60ba74b5e52cd0aa6"),
      ("abcdefghijklmnopqrstuvwxyz012345", "653bb1245e828fcda4fa53fcd5a3def5bd7654e651f54b4132b73d74e64435c4")]
  toLowerCase := id
  canonicalJson field value :=
    "\x7b\"" ++ field ++ "\":" ++ ((value.map fun text => "\"" ++ text ++ "\"").getD "null") ++ "\x7d"
  managedOAuthIssuer := none
  invitationTtlMs := 1000

def sampleContext (subject : String) : Context :=
  ⟨⟨"issuer", subject⟩, some (none, some (subject ++ "@x.y")), none, none, none, none, none⟩

/-- Ann creates a stack and invites Bob, who accepts twice at the same time. -/
def sampleRun : List (Label Nat Request Empty) :=
  [.start 0 (.createStack (sampleContext "ann") "docs" none), .run 0 .none,
    .start 1 (.createMemberInvitation (sampleContext "ann") "cas_s" (some "bob@x.y") none), .run 1 .none, .run 1 .none,
    .start 2 (.acceptMemberInvitation (sampleContext "bob") "abcdefghijklmnopqrstuvwxyz012345"),
    .start 3 (.acceptMemberInvitation (sampleContext "bob") "abcdefghijklmnopqrstuvwxyz012345"),
    .run 2 .none, .run 3 .none, .run 2 .none, .run 3 .none, .run 3 .none, .run 2 .none]

/-- One of the two acceptances takes effect, the other reports an error. -/
theorem stack_membership_safe_twice : ∃ p, (controlPlane samplePorts).execWhile? (fun _ _ fault _ => decide (fault ≠ .lost))
      sampleRun (DbPool.initial Db.empty) = some p
    ∧ p.result 2 = some (.ok (.error .notFound "invitation not found, expired, or already used"))
    ∧ ("cas_s", ⟨"issuer", "bob"⟩) ∈ p.state.db.members ∧ MembershipSafety samplePorts p := by
  have hrun : ((controlPlane samplePorts).execWhile? (fun _ _ fault _ => decide (fault ≠ .lost)) sampleRun
      (DbPool.initial Db.empty)).any (fun p =>
        decide (p.result 2 = some (.ok (.error .notFound "invitation not found, expired, or already used")))
        && decide (("cas_s", ⟨"issuer", "bob"⟩) ∈ p.state.db.members)) = true := by
    with_unfolding_all decide
  obtain ⟨p, hp, hchecks⟩ := Option.any_eq_true .. |>.mp hrun
  simp only [Bool.and_eq_true, decide_eq_true_eq] at hchecks
  refine ⟨p, hp, hchecks.1, hchecks.2, stack_membership_safe samplePorts p ?_⟩
  exact Machine.reach_of_execWhile? (fun _ _ _ _ h => by simpa [answered] using h) _ .init hp

end Sample

end UniDocs.Control
