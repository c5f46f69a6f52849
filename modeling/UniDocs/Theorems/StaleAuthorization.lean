import UniDocs.Lemmas.ConsolePrograms

/-!
# How far the membership check of a mutation reaches

Every mutation of a stack begins with a read of the membership of its caller, and no batch checks it again. So a batch that
commits was planned by a member as of that read; between the read and the commit the membership can be lost, and it is lost
only by a removal of that very member.
-/

namespace UniDocs.Control

open Lib Lib.Trace

/-- A state of the control database with what has been committed. -/
abbrev ConsoleState := Traced ConsoleDb Nat ConsoleEntry

/-- A removal of a member has committed between two states. -/
def RemovedBetween (k : String × IdentityKey) (s s' : ConsoleState) : Prop :=
  ∃ es i, s'.trace = s.trace ++ es ∧ (i, ConsoleEntry.control (.removed k.1 k.2)) ∈ es

theorem member_kept {sha256Hex : String → String} {signed : String → String → Prop} {d d' : ConsoleDb}
    {es : List (Nat × ConsoleEntry)} (h : Path (ConsoleStep sha256Hex signed) d es d') {k : String × IdentityKey}
    (hk : k ∈ d.control.members) : k ∈ d'.control.members ∨ ∃ i, (i, ConsoleEntry.control (.removed k.1 k.2)) ∈ es := by
  induction h with
  | nil => exact .inl hk
  | snoc i e h hs ih =>
    rcases ih with hmem | ⟨j, hj⟩
    · rcases hs.members k hmem with hmem | rfl
      · exact .inl hmem
      · exact .inr ⟨i, by simp⟩
    · exact .inr ⟨j, List.mem_append_left _ hj⟩

/-- Every batch that a mutation of a stack commits was planned by a member: the first call of the mutation has read that its
identity is a member, and where it is no longer one when the batch commits, its removal has committed in between. -/
theorem mutation_planned_by_member (ports : ConsolePorts) (p : ConsolePool)
    (h : (console ports).Reach Machine.anyCall (DbPool.initial ConsoleDb.empty) p) (i : Nat)
    (t : Thread (DbCall ConsoleDb ControlError Nat ConsoleEntry) ConsoleState ControlError ConsoleResponse ConsoleRequest)
    (ht : p.thread i = some t) (k : String × IdentityKey) (hk : t.req.mutates = some k) (x : ConsoleState × ConsoleState)
    (hx : x ∈ t.steps) (hcommit : x.2 ≠ x.1) :
    ∃ s rest, t.steps = (s, s) :: rest ∧ x ∈ rest ∧ k ∈ s.db.control.members
      ∧ (k ∈ x.1.db.control.members ∨ RemovedBetween k s x.1) := by
  have hserves : Serves (consoleSystem ports fun _ _ => True) .storage (consoleServe ports) fun _ _ _ _ => True :=
    console_serves fun _ _ _ _ _ _ => trivial
  rcases (gated_consoleServe (i := i) hk).of_runs (runs_of_reach h i t ht) with ⟨hnil, _⟩ | ⟨s, rest, hsteps, hfact⟩
  · rw [hnil] at hx
    cases hx
  · have hrest : x ∈ rest := by
      rw [hsteps] at hx
      rcases List.mem_cons.mp hx with rfl | hx
      · exact absurd rfl hcommit
      · exact hx
    have hmember : k ∈ s.db.control.members := by
      rcases hfact with hmember | ⟨hnil, _⟩
      · exact hmember
      · rw [hnil] at hrest
        cases hrest
    obtain ⟨hpair, _⟩ := calls_ordered hserves rfl h i t ht
    rw [hsteps] at hpair
    obtain ⟨es, htrace, hpath⟩ := (List.pairwise_cons.mp hpair).1 x hrest
    refine ⟨s, rest, hsteps, hrest, hmember, ?_⟩
    rcases member_kept hpath hmember with hmem | ⟨j, hj⟩
    · exact .inl hmem
    · exact .inr ⟨es, j, htrace, hj⟩

section Sample

/-- Ports with one stack, an invitation for every call, and a clock that stands still. -/
def stalePorts : ConsolePorts where
  now _ _ := 0
  generateStackId _ := "cas_s"
  generateInvitationId i := String.ofList (List.replicate i 'i')
  generateInvitationToken i := String.ofList (List.replicate (32 + i) 't')
  generateEventId i := String.ofList (List.replicate i 'e')
  sha256Hex := id
  toLowerCase := id
  canonicalJson field value := field ++ value.getD ""
  managedOAuthIssuer := none
  invitationTtlMs := 1000
  parseUrl _ := none
  encodeURIComponent := id
  oauthDiscovery := none
  oauthResourceOrigin := none
  oauthInspectionTtlMs := 1000
  generateOAuthInspectionId _ := "ins"
  generateNonce _ := "nonce"
  decodeBase64Url _ := none
  decodeProtectedHeader _ := none
  compactVerify _ _ _ := none
  jwkKid _ := none
  number _ := none

def operator (subject : String) : Context :=
  ⟨⟨"issuer", subject⟩, some (none, some (subject ++ "@x.y")), none, none, none, none, none⟩

/-- Ann creates a stack and invites Bob, who accepts. She starts a second invitation; Bob removes her before it commits. -/
def staleRun : List (Label Nat ConsoleRequest Empty) :=
  [.start 0 (.control (.createStack (operator "ann") "docs" none)), .run 0 .none,
    .start 1 (.control (.createMemberInvitation (operator "ann") "cas_s" none none)), .run 1 .none, .run 1 .none,
    .start 2 (.control (.acceptMemberInvitation (operator "bob") (String.ofList (List.replicate 33 't')))),
    .run 2 .none, .run 2 .none, .run 2 .none,
    .start 3 (.control (.createMemberInvitation (operator "ann") "cas_s" none none)), .run 3 .none,
    .start 4 (.control (.deleteMember (operator "bob") "cas_s" ⟨"issuer", "ann"⟩ (some "\"1\""))),
    .run 4 .none, .run 4 .none, .run 4 .none, .run 3 .none]

/-- Ann, as a member of the stack. -/
def ann : String × IdentityKey := ("cas_s", ⟨"issuer", "ann"⟩)

theorem staleRun_ends : ∃ p t x, (console stalePorts).exec? staleRun (DbPool.initial ConsoleDb.empty) = some p
    ∧ p.thread 3 = some t ∧ t.req.mutates = some ann ∧ x ∈ t.steps ∧ x.2 ≠ x.1 ∧ ann ∉ x.1.db.control.members := by
  have hrun : ((console stalePorts).exec? staleRun (DbPool.initial ConsoleDb.empty)).any (fun p =>
      (p.thread 3).any fun t => decide (t.req.mutates = some ann)
        && t.steps.any fun x => decide (x.2.trace.length ≠ x.1.trace.length)
          && decide (ann ∉ x.1.db.control.members)) = true := by
    with_unfolding_all decide
  obtain ⟨p, hp, hchecks⟩ := Option.any_eq_true .. |>.mp hrun
  obtain ⟨t, ht, hchecks⟩ := Option.any_eq_true .. |>.mp hchecks
  simp only [Bool.and_eq_true, decide_eq_true_eq, List.any_eq_true] at hchecks
  obtain ⟨hmutates, x, hx, hlength, hmember⟩ := hchecks
  exact ⟨p, t, x, hp, ht, hmutates, hx, fun heq => hlength (by rw [heq]), hmember⟩

/-- A batch can commit whose identity is no member of the stack in the state in which it commits. -/
theorem removed_member_cannot_act_false : ¬ ∀ ports p,
    (console ports).Reach Machine.anyCall (DbPool.initial ConsoleDb.empty) p → ∀ i q x k, p.Made i q x →
      q.mutates = some k → x.2 ≠ x.1 → k ∈ x.1.db.control.members := by
  intro h
  obtain ⟨p, t, x, hp, ht, hmutates, hx, hcommit, hmember⟩ := staleRun_ends
  have hreach := Machine.reach_of_exec? _ .init hp
  exact hmember (h stalePorts p hreach 3 t.req x ann ⟨t, ht, rfl, hx⟩ hmutates hcommit)

/-- The invitation that Ann had started commits after her removal; she was a member when it began. -/
theorem mutation_planned_by_member_stale : ∃ p t x s rest, (console stalePorts).exec? staleRun
      (DbPool.initial ConsoleDb.empty) = some p
    ∧ p.thread 3 = some t ∧ x ∈ rest ∧ t.steps = (s, s) :: rest ∧ ann ∈ s.db.control.members ∧ RemovedBetween ann s x.1 := by
  obtain ⟨p, t, x, hp, ht, hmutates, hx, hcommit, hmember⟩ := staleRun_ends
  obtain ⟨s, rest, hsteps, hrest, hmem, hcases⟩ := mutation_planned_by_member stalePorts p
    (Machine.reach_of_exec? _ .init hp) 3 t ht ann hmutates x hx hcommit
  exact ⟨p, t, x, s, rest, hp, ht, hrest, hsteps, hmem, hcases.resolve_left hmember⟩

end Sample

end UniDocs.Control
