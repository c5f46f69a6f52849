import UniDocs.Lemmas.ControlRecords

/-!
# Expired idempotency keys

Over any interleaving of the reads and batches, whatever the clocks show, a key creates at most one stack or invitation, and a call
with the key that succeeds reports what the one that created it has recorded. The lookup of a record leaves expired records out, but
the table keeps them, and its primary key does not look at the time: once the record of a key has expired, no call with the key
succeeds again (`expired_key_false`).
-/

namespace UniDocs.Control

open Lib Lib.Trace

/-- What holds of the calls with a key at every point of a run, whatever fails. -/
structure KeySafety (ports : Ports) (p : ControlPool) : Prop where
  /-- A call changes the database only by creating its resource with the record, under a key that was free. -/
  creates : ∀ i q x key row, q.record ports i = some (key, row) → p.Made i q x → x.2 = x.1 ∨ Creates key row x.1.db x.2.db
  /-- Of all calls with a key, at most one creates a resource, once. -/
  once : ∀ i j t t' (a b : Nat) x y key row row', p.thread i = some t → p.thread j = some t' →
    t.req.record ports i = some (key, row) → t'.req.record ports j = some (key, row') → t.steps[a]? = some x →
    t'.steps[b]? = some y → x.2 ≠ x.1 → y.2 ≠ y.1 → i = j ∧ a = b
  /-- A call that succeeds reports the response that was recorded by the one that created the resource, for the same payload. -/
  reported : ∀ i q key row response, q.record ports i = some (key, row) → p.Returned i q (.ok response) →
    (∀ code message, response ≠ .error code message) → ∃ j q' x row', q'.record ports j = some (key, row') ∧ p.Made j q' x
      ∧ Creates key row' x.1.db x.2.db ∧ row'.response = response ∧ row'.payloadHash = row.payloadHash

/-- A call is refused for what it asks, or because no issuer is provisioned for the new stack. -/
def Refused (ports : Ports) (i : Nat) (q : Request) (response : Response) : Prop :=
  (∃ message, response = .error .invalidRequest message ∨ response = .error .stackMembershipRequired message)
  ∨ (Unprovisioned ports i q ∧ response = .error .serviceUnavailable "control plane operation failed")

/-- A call is handled as its key demands: it creates its resource and records it; or there is a record that has not expired for it,
it changes nothing, and reports the recorded response for the same payload and a conflict for another. -/
def Handled (ports : Ports) (p : ControlPool) (i : Nat) (q : Request) (key : IdempotencyKey) (row : IdempotencyRow)
    (response : Response) : Prop :=
  (response = row.response ∧ ∃ x, p.Made i q x ∧ row.response.Made x.1.db x.2.db ∧ x.2.db.idempotency.lookup key = some row)
  ∨ ((∀ x, p.Made i q x → x.2 = x.1) ∧ ∃ j q' x row', q'.record ports j = some (key, row') ∧ p.Made j q' x
    ∧ Creates key row' x.1.db x.2.db ∧ ports.now i 0 < row'.expiresAt
    ∧ response = if row'.payloadHash = row.payloadHash then row'.response
      else .error .idempotencyConflict "Idempotency-Key reused with a different payload")

/-- The record of a call with the same key has expired for a call. -/
def MetExpired (ports : Ports) (p : ControlPool) (i : Nat) (key : IdempotencyKey) : Prop :=
  ∃ j q x row, q.record ports j = some (key, row) ∧ p.Made j q x ∧ Creates key row x.1.db x.2.db ∧ row.expiresAt ≤ ports.now i 0

section Laws

variable {ports : Ports} {p : ControlPool} {allowed : Guard (DbCall Db ControlError Nat Entry) (Traced Db Nat Entry)} {i : Nat}
  {q : Request} {key : IdempotencyKey} {row : IdempotencyRow}

variable {x : Traced Db Nat Entry × Traced Db Nat Entry}

/-- What a call has done is one of the effects of its request. -/
theorem effects_of_made (h : (controlPlane ports).Reach allowed (DbPool.initial Db.empty) p)
    (hx : p.Made i q x) : x.2 = x.1 ∨ Effects ports i q x.1.db x.2.db := by
  obtain ⟨t, ht, rfl, hmem⟩ := hx
  exact (effect_of_only (only_serve ports) h i t ht).2 x hmem

theorem creates_of_made (h : (controlPlane ports).Reach allowed (DbPool.initial Db.empty) p)
    (hrecord : q.record ports i = some (key, row)) (hx : p.Made i q x) :
    x.2 = x.1 ∨ Creates key row x.1.db x.2.db := by
  have heffects := effects_of_made h hx
  unfold Effects at heffects
  rw [hrecord] at heffects
  exact heffects

theorem creator_of_held (h : (controlPlane ports).Reach allowed (DbPool.initial Db.empty) p) (hheld : Held key row p.state) :
    ∃ j q' x, q'.record ports j = some (key, row) ∧ p.Made j q' x ∧ Creates key row x.1.db x.2.db := by
  obtain ⟨j, q', x, hx, hold, hnew⟩ := turned_of_reach (P := fun d => d.idempotency.lookup key = some row) h nofun hheld
  rcases effects_of_made h hx with heq | heffects
  · rw [heq] at hnew
    exact absurd hnew hold
  unfold Effects at heffects
  split at heffects
  · rename_i key' row' hrecord
    by_cases hkey : key = key'
    · subst hkey
      obtain rfl : row' = row := Option.some.inj (heffects.lookup.symm.trans hnew)
      exact ⟨j, q', x, hrecord, hx, heffects⟩
    · rw [heffects.recorded, AList.lookup_insert_ne hkey] at hnew
      exact absurd hnew hold
  · rw [heffects] at hnew
    exact absurd hnew hold

/-- A record that a call has written is there ever after. -/
theorem held_of_made (h : (controlPlane ports).Reach allowed (DbPool.initial Db.empty) p)
    (hx : p.Made i q x) (hchanged : x.2 ≠ x.1)
    (hnew : x.2.db.idempotency.lookup key = some row) : Held key row p.state :=
  kept_of_made (settles allowed ports) rfl h (P := fun d : Db => d.idempotency.lookup key = some row)
    (fun _ _ _ hs hrow => hs key row hrow) hx hchanged hnew

theorem Creates.changed (h : Creates key row x.1.db x.2.db) : x.2 ≠ x.1 := by
  intro heq
  have hfree := h.free
  have hlookup := h.lookup
  rw [heq, hfree] at hlookup
  cases hlookup

variable {response : Response}

/-- Nothing is created where nothing changes. -/
theorem not_made_self {d : Db} : ¬ response.Made d d := by
  have hinsert : ∀ {ρ : Type} {k : String} {r : ρ} {t : Table String ρ}, t.lookup k = none → t ≠ t.insert k r := by
    intro ρ k r t hnone heq
    have hlookup := congrArg (fun table => table.lookup k) heq
    simp only [hnone, AList.lookup_insert] at hlookup
    cases hlookup
  cases response with
  | stack new => exact fun h => hinsert h.1 h.2.1
  | invited invitation acceptUrl => exact fun h => hinsert h.1 h.2.1
  | _ => exact id

/-- A call that has created its resource. -/
theorem made_of_written (h : (controlPlane ports).Reach allowed (DbPool.initial Db.empty) p)
    (hrecord : q.record ports i = some (key, row)) {r : Except ControlError Response} (hr : p.Returned i q r) {e : Entry}
    (hwrote : Wrote i [e] p.state) : ∃ x, p.Made i q x ∧ Creates key row x.1.db x.2.db := by
  obtain ⟨t, x, ht, hx, htrace, _⟩ := call_of_entry (settles allowed ports) rfl h i e (hwrote.mem List.mem_cons_self)
  obtain ⟨steps, ht'⟩ := hr
  cases ht.symm.trans ht'
  have hmade : p.Made i q x := ⟨_, ht, rfl, hx⟩
  rcases creates_of_made h hrecord hmade with heq | hcreates
  · rw [heq] at htrace
    simp at htrace
  · exact ⟨x, hmade, hcreates⟩

/-- A record that was found is of the same payload, or it is not. -/
theorem resolveIdempotency_ok {old : IdempotencyRow} {payloadHash : String}
    (h : resolveIdempotency old payloadHash = .ok response) : old.payloadHash = payloadHash ∧ old.response = response := by
  unfold resolveIdempotency at h
  split_ifs at h with hpayload
  exact ⟨hpayload, Except.ok.inj h⟩

theorem resolveIdempotency_error {old : IdempotencyRow} {payloadHash : String} {e : ControlError}
    (h : resolveIdempotency old payloadHash = .error e) : old.payloadHash ≠ payloadHash
      ∧ e = .plane .idempotencyConflict "Idempotency-Key reused with a different payload" := by
  unfold resolveIdempotency at h
  split_ifs at h with hpayload
  exact ⟨hpayload, (Except.error.inj h).symm⟩

theorem keySafety_of_reach (h : (controlPlane ports).Reach allowed (DbPool.initial Db.empty) p) : KeySafety ports p where
  creates _ _ _ _ _ hrecord hx := creates_of_made h hrecord hx
  once i j t t' a b x y key row row' ht ht' hrecord hrecord' hx hy hchanged hchanged' := by
    have hturns : ∀ {k : Nat} {u : Thread _ _ _ _ _} {n : Nat} {z : Traced Db Nat Entry × Traced Db Nat Entry} {old : IdempotencyRow},
        p.thread k = some u → u.req.record ports k = some (key, old) → u.steps[n]? = some z → z.2 ≠ z.1 →
        Proof.Turns (fun s => ∃ old, s.db.idempotency.lookup key = some old) z := by
      intro k u n z old hu hold hz hne
      rcases creates_of_made h hold ⟨u, hu, rfl, List.mem_of_getElem? hz⟩ with heq | hcreates
      · exact absurd heq hne
      · refine ⟨?_, old, hcreates.lookup⟩
        rintro ⟨old', hold'⟩
        cases hcreates.free.symm.trans hold'
    exact turns_once (settles allowed ports) rfl h (P := fun d : Db => ∃ old, d.idempotency.lookup key = some old)
      (fun _ _ _ hs ⟨old, hold⟩ => ⟨old, hs key old hold⟩) i j t t' a b x y ht ht' hx hy (hturns ht hrecord hx hchanged)
      (hturns ht' hrecord' hy hchanged')
  reported i q key row response hrecord hr hsuccess := by
    obtain ⟨_, ⟨⟩, hanswered | ⟨e, rfl, _⟩⟩ := ended (settles allowed ports) rfl h hr key row hrecord
    · rcases hanswered with ⟨rfl, e, hwrote⟩ | ⟨old, hfound, hresolved⟩
      · obtain ⟨x, hx, hcreates⟩ := made_of_written h hrecord hr hwrote
        exact ⟨i, q, x, row, hrecord, hx, hcreates, rfl, rfl⟩
      · obtain ⟨j, q', x, hrecord', hx, hcreates⟩ := creator_of_held h hfound.2.1
        obtain ⟨hpayload, hresponse⟩ := resolveIdempotency_ok hresolved
        exact ⟨j, q', x, old, hrecord', hx, hcreates, hresponse, hpayload⟩
    · cases e <;> exact absurd rfl (hsuccess _ _)

theorem not_expired_of_record (hrecord : q.record ports i = some (key, row)) : ports.now i 0 < row.expiresAt := by
  obtain ⟨_, _, hexpires⟩ := record_row hrecord
  rw [hexpires]
  unfold idempotencyRetentionMs
  omega

theorem not_metExpired_of_handled (h : (controlPlane ports).Reach allowed (DbPool.initial Db.empty) p)
    (hrecord : q.record ports i = some (key, row)) (hhandled : Handled ports p i q key row response) :
    ¬ MetExpired ports p i key := by
  rintro ⟨j, q', x, old, _, hx, hcreates, hexpired⟩
  have hheld := held_of_made h hx hcreates.changed hcreates.lookup
  have hlater : ∀ {row' : IdempotencyRow}, Held key row' p.state → ¬ ports.now i 0 < row'.expiresAt := by
    intro row' hheld'
    cases hheld.symm.trans hheld'
    omega
  rcases hhandled with ⟨_, y, hy, hmade, hlookup⟩ | ⟨_, j', q₂, y, row', _, hy, hcreates', hlive, _⟩
  · refine hlater (held_of_made h hy ?_ hlookup) (not_expired_of_record hrecord)
    rcases creates_of_made h hrecord hy with heq | hcreates'
    · intro _
      rw [heq] at hlookup hmade
      exact not_made_self hmade
    · exact hcreates'.changed
  · exact hlater (held_of_made h hy hcreates'.changed hcreates'.lookup) hlive

theorem handled_of_found (h : (controlPlane ports).Reach allowed (DbPool.initial Db.empty) p)
    {old : IdempotencyRow} (hfound : Found ports i key old p.state) (hresponse : response = if old.payloadHash = row.payloadHash then old.response
      else .error .idempotencyConflict "Idempotency-Key reused with a different payload") :
    Handled ports p i q key row response := by
  obtain ⟨hwrote, hheld, hlive⟩ := hfound
  obtain ⟨j, q', x, hrecord', hx, hcreates⟩ := creator_of_held h hheld
  refine .inr ⟨?_, j, q', x, old, hrecord', hx, hcreates, hlive, hresponse⟩
  rintro y ⟨t, ht, _, hy⟩
  exact unchanged_of_own (settles allowed ports) rfl h hwrote ht y hy

theorem handled_of_not_metExpired (h : (controlPlane ports).Reach undisturbed (DbPool.initial Db.empty) p)
    (hrecord : q.record ports i = some (key, row)) (hr : p.Returned i q (.ok response))
    (hrefused : ¬ Refused ports i q response) (hexpired : ¬ MetExpired ports p i key) : Handled ports p i q key row response := by
  obtain ⟨_, ⟨⟩, hanswered | ⟨e, rfl, hthrown⟩⟩ := ended (settles undisturbed ports) rfl h hr key row hrecord
  · rcases hanswered with ⟨rfl, e, hwrote⟩ | ⟨old, hfound, hresolved⟩
    · obtain ⟨x, hx, hcreates⟩ := made_of_written h hrecord hr hwrote
      exact .inl ⟨rfl, x, hx, hcreates.made, hcreates.lookup⟩
    · obtain ⟨hpayload, hresponse⟩ := resolveIdempotency_ok hresolved
      exact handled_of_found h hfound (by rw [if_pos hpayload, hresponse])
  · rcases hthrown with hdisturbed | ⟨message, hrefusal⟩ | ⟨hunprovisioned, hunavailable⟩ | ⟨old, hfound, hresolved⟩ | ⟨old, hheld, hold⟩
    · exact absurd (fun _ _ _ _ ha => ha) hdisturbed
    · refine absurd (.inl ⟨message, ?_⟩) hrefused
      rcases hrefusal with rfl | rfl
      · exact .inl rfl
      · exact .inr rfl
    · exact absurd (.inr ⟨hunprovisioned, hunavailable⟩) hrefused
    · obtain ⟨hpayload, rfl⟩ := resolveIdempotency_error hresolved
      exact handled_of_found h hfound (by rw [if_neg hpayload]; rfl)
    · obtain ⟨j, q', x, hrecord', hx, hcreates⟩ := creator_of_held h hheld
      exact absurd ⟨j, q', x, old, hrecord', hx, hcreates, hold⟩ hexpired

end Laws

/-- Whatever fails, a key creates at most one resource, and a success with it reports what was recorded. In an undisturbed run, a
call with a key that is not refused is handled as its key demands exactly if the record under the key has not expired for it. -/
theorem idempotency_iff (ports : Ports) (p : ControlPool)
    (h : (controlPlane ports).Reach Machine.anyCall (DbPool.initial Db.empty) p) :
    KeySafety ports p ∧ ((controlPlane ports).Reach undisturbed (DbPool.initial Db.empty) p → ∀ i q key row r,
      q.record ports i = some (key, row) → p.Returned i q r → ∃ response, r = .ok response
        ∧ (¬ Refused ports i q response → (Handled ports p i q key row response ↔ ¬ MetExpired ports p i key))) := by
  refine ⟨keySafety_of_reach h, fun hundisturbed i q key row r hrecord hr => ?_⟩
  obtain ⟨response, rfl, _⟩ := ended (settles undisturbed ports) rfl hundisturbed hr key row hrecord
  refine ⟨response, rfl, fun hrefused => ⟨not_metExpired_of_handled h hrecord, ?_⟩⟩
  exact handled_of_not_metExpired hundisturbed hrecord hr hrefused

section Sample

/-- Ports whose identifiers are all different; the clock shows the third call the time a day later. -/
def dayPorts : Ports where
  now i _ := if i = 2 then idempotencyRetentionMs else 0
  generateStackId i := String.ofList (List.replicate i 's')
  generateInvitationId i := String.ofList (List.replicate i 'i')
  generateInvitationToken i := String.ofList (List.replicate i 't')
  generateEventId i := String.ofList (List.replicate i 'e')
  sha256Hex := id
  toLowerCase := id
  canonicalJson field value := field ++ value.getD ""
  managedOAuthIssuer := none
  invitationTtlMs := 1000

def keyedRequest : Request := .createStack ⟨⟨"issuer", "ann"⟩, none, none, none, none, none, none⟩ "docs" (some "key")

/-- The request, again while its record is kept, and again a day later. -/
def dayRun : List (Label Nat Request Empty) :=
  [.start 0 keyedRequest, .run 0 .none, .run 0 .none, .start 1 keyedRequest, .run 1 .none,
    .start 2 keyedRequest, .run 2 .none, .run 2 .none, .run 2 .none]

def dayKey : IdempotencyKey := ⟨⟨"issuer", "ann"⟩, "POST", "/admin/stacks", "key"⟩

def dayRow (i : Nat) : IdempotencyRow :=
  ⟨"displayNamedocs", .stack (newStack dayPorts i "docs"), dayPorts.now i 0, dayPorts.now i 0 + idempotencyRetentionMs⟩

/-- Whether a call is undisturbed. -/
def testUndisturbed (β : Type) (c : DbCall Db ControlError Nat Entry β) (fault : Fault) (s : Traced Db Nat Entry) : Bool :=
  decide (fault = .none) && match c with
    | .read _ => true
    | .batch _ f =>
      match f s.db with
      | .error (.unique table) => decide (table = "cas_control_idempotency")
      | _ => true

theorem undisturbed_of_test {β : Type} {c : DbCall Db ControlError Nat Entry β} {fault : Fault} {s : Traced Db Nat Entry}
    (h : testUndisturbed β c fault s = true) : undisturbed β c fault s := by
  unfold testUndisturbed at h
  rw [Bool.and_eq_true, decide_eq_true_eq] at h
  refine ⟨h.1, ?_⟩
  cases c with
  | read f => trivial
  | batch i f =>
    intro table herror
    simpa [herror] using h.2

/-- A call of the request reports a response. -/
def reportsTo (p : ControlPool) (i : Nat) (response : Response) : Bool :=
  match p.thread i with
  | some ⟨q, .ret r, _⟩ => decide (q = keyedRequest ∧ r = .ok response)
  | _ => false

theorem returned_of_reportsTo {p : ControlPool} {i : Nat} {response : Response} (h : reportsTo p i response = true) :
    p.Returned i keyedRequest (.ok response) := by
  unfold reportsTo at h
  split at h
  · rename_i q r steps ht
    obtain ⟨rfl, rfl⟩ := of_decide_eq_true h
    exact ⟨steps, ht⟩
  · cases h

/-- The run: the second call reports the stack of the first, the third fails. -/
theorem dayRun_ends : ∃ p, (controlPlane dayPorts).Reach undisturbed (DbPool.initial Db.empty) p
    ∧ p.Returned 1 keyedRequest (.ok (.stack (newStack dayPorts 0 "docs")))
    ∧ p.Returned 2 keyedRequest (.ok (.error .serviceUnavailable "control plane operation failed")) := by
  have hrun : ((controlPlane dayPorts).execWhile? testUndisturbed dayRun (DbPool.initial Db.empty)).any (fun p =>
      reportsTo p 1 (.stack (newStack dayPorts 0 "docs"))
      && reportsTo p 2 (.error .serviceUnavailable "control plane operation failed")) = true := by
    with_unfolding_all decide
  obtain ⟨p, hp, hreports⟩ := Option.any_eq_true .. |>.mp hrun
  rw [Bool.and_eq_true] at hreports
  refine ⟨p, ?_, returned_of_reportsTo hreports.1, returned_of_reportsTo hreports.2⟩
  exact Machine.reach_of_execWhile? (fun _ _ _ _ => undisturbed_of_test) _ .init hp

theorem not_refused {i : Nat} {response : Response} (h : ∀ message, response ≠ .error .invalidRequest message
    ∧ response ≠ .error .stackMembershipRequired message) : ¬ Refused dayPorts i keyedRequest response := by
  rintro (⟨message, hrefusal⟩ | ⟨⟨e, he⟩, _⟩)
  · rcases hrefusal with hrefusal | hrefusal
    · exact (h message).1 hrefusal
    · exact (h message).2 hrefusal
  · cases he

/-- A retry within the retention period, and the retry a day later. -/
theorem idempotency_iff_retried : ∃ p, KeySafety dayPorts p
    ∧ p.Returned 1 keyedRequest (.ok (.stack (newStack dayPorts 0 "docs")))
    ∧ (Handled dayPorts p 1 keyedRequest dayKey (dayRow 1) (.stack (newStack dayPorts 0 "docs")) ↔ ¬ MetExpired dayPorts p 1 dayKey)
    ∧ (Handled dayPorts p 2 keyedRequest dayKey (dayRow 2) (.error .serviceUnavailable "control plane operation failed")
      ↔ ¬ MetExpired dayPorts p 2 dayKey) := by
  obtain ⟨p, hreach, hsecond, hthird⟩ := dayRun_ends
  obtain ⟨hsafety, hiff⟩ := idempotency_iff dayPorts p (hreach.mono fun _ _ _ _ _ => trivial)
  obtain ⟨_, ⟨⟩, hsecond'⟩ := hiff hreach 1 keyedRequest dayKey (dayRow 1) _ rfl hsecond
  obtain ⟨_, ⟨⟩, hthird'⟩ := hiff hreach 2 keyedRequest dayKey (dayRow 2) _ rfl hthird
  exact ⟨p, hsafety, hsecond, hsecond' (not_refused fun _ => ⟨nofun, nofun⟩), hthird' (not_refused fun _ => ⟨nofun, nofun⟩)⟩

/-- A call a day after the record of its key is not handled as the first one: it fails, and creates nothing. -/
theorem expired_key_false : ¬ ∀ (ports : Ports) (p : ControlPool),
    (controlPlane ports).Reach undisturbed (DbPool.initial Db.empty) p → ∀ i q key row response,
      q.record ports i = some (key, row) → p.Returned i q (.ok response) → ¬ Refused ports i q response →
      Handled ports p i q key row response := by
  intro hall
  obtain ⟨p, hreach, _, hthird⟩ := dayRun_ends
  rcases hall dayPorts p hreach 2 keyedRequest dayKey (dayRow 2) _ rfl hthird (not_refused fun _ => ⟨nofun, nofun⟩) with
    ⟨hresponse, _⟩ | ⟨_, j, q', x, row', hrecord, _, _, _, hresponse⟩
  · cases hresponse
  · split_ifs at hresponse
    · exact (record_row hrecord).1 _ _ hresponse.symm
    · cases hresponse

end Sample

end UniDocs.Control
