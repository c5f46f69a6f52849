import Mathlib.Logic.Equiv.Basic
import UniDocs.Theorems.Reconciliation

/-!
# At most once

Deliveries of root ref updates to the domain object, without the gate of a tenant: they interleave with each other call
by call, while the tenants' rows change under them and the clock moves. A delivery that crashed is one that makes no
more calls. However often an update is delivered, it is applied at most once.
-/

namespace UniDocs.Cas

open Lib TenantWritesAux LedgerCommitAux DomainAux

/-- What happens around the deliveries: time passes, and a tenant's rows and objects change. -/
inductive Disturbance where
  | tick (ms : Nat)
  | write (sc : Scope) (w : TenantWrite)

/-- Commands to the domain objects, each for a scope and with a body. -/
def deliveryMachine (cfg : Config) :
    Machine Call State CasError (Response DomainUpdateResult) Nat (RootRefScope × RootRefsBody) Disturbance where
  exec := exec cfg.codec
  serve _ q := domainFetch cfg q.1 q.2
  env
    | .tick ms, s => some { s with clock := s.clock + ms }
    | .write sc w, s => (w.run cfg.codec (s.tenant sc)).map (s.setTenant sc)
  kills _ _ := false

/-- No row, no object, no delivery. -/
def deliveryStart : Pool Call State CasError (Response DomainUpdateResult) Nat (RootRefScope × RootRefsBody) :=
  ⟨State.empty, fun _ => none⟩

/-- The call applies the update of a body: its request identity was unused and is recorded, its changes are added to the
projection and to the root counts, and nothing else changes. -/
def Applied (codec : Codec) (sc : RootRefScope) (body : RootRefsBody) (q : State × State) : Prop :=
  ∃ c plan t' l', canonicalizeRootRefsUpdate codec body = .ok c ∧ plan.scope = sc ∧ plan.requestId = c.requestId ∧
    plan.entries = c.entries ∧ plan.payloadHash = c.payloadHash ∧ Committed plan (q.1.tenant sc.tenant) q.1.ledger t' l' ∧
    q.2 = q.1.committed sc t' l'

/-- An event of a request identity. -/
def EventOf (l : Ledger) (sc : RootRefScope) (requestId : String) (revision : Nat) (e : RootDomainEvent) : Prop :=
  l.events.lookup (sc.domain, revision) = some e ∧ e.tenantId = sc.tenantId ∧ e.requestId = requestId

namespace AtMostOnceAux

variable {cfg : Config} {sc : RootRefScope} {body : RootRefsBody} {c : CanonicalRootRefsUpdate} {s s' : State}

/-- The ledger is in order, and each event has the digest of its changes. -/
structure DeliveryInv (codec : Codec) (s : State) : Prop where
  ledger : LedgerOk s.ledger
  digests : ∀ k e, s.ledger.events.lookup k = some e → e.payloadHash = sha256HexText codec (changesJson e.changes)

/-- What a call of a delivery does at most. -/
structure DeliveryGuar (codec : Codec) (q : RootRefScope × RootRefsBody) (s s' : State) : Prop where
  le : Ledger.Le s.ledger s'.ledger
  step : Quiet (s, s') ∨ Applied codec q.1 q.2 (s, s')

/-- The obligations of a delivery. -/
def deliverySpec (codec : Codec) (q : RootRefScope × RootRefsBody) : Spec Call State :=
  ⟨exec codec, Machine.anyCall, DeliveryInv codec, fun s s' => Ledger.Le s.ledger s'.ledger, DeliveryGuar codec q⟩

theorem guar_quiet (h : Quiet (s, s')) : DeliveryGuar cfg.codec (sc, body) s s' :=
  ⟨by rw [show s'.ledger = s.ledger from h.1]; exact Ledger.Le.refl _, .inl h⟩

/-- Without the gate nothing is known of the rows, and answers may be lost. -/
def deliveryCtx (cfg : Config) (sc : RootRefScope) (body : RootRefsBody) (c : CanonicalRootRefsUpdate)
    (hbody : canonicalizeRootRefsUpdate cfg.codec body = .ok c) : DomainCtx cfg.codec (deliverySpec cfg.codec (sc, body)) sc c where
  pre _ := True
  row _ _ := True
  ready _ _ := True
  lossy := True
  exec_eq _ _ _ := rfl
  ledgerOk _ hi := hi.ledger
  le _ _ hr := hr
  stable_pre := Stable.const True
  stable_row _ _ _ _ _ _ h := h
  stable_ready _ _ _ _ _ _ h := h
  row_of _ _ _ _ _ := trivial
  ready_of _ _ _ _ _ := trivial
  refl s := guar_quiet ⟨rfl, rfl⟩
  lost _ _ _ := trivial
  commit plan s t' l' hi _ hsc hid hes _ _ hhash hc := by
    have hok := canonicalize_ok hbody
    have hpayload : plan.payloadHash = c.payloadHash := by rw [hhash, hok.digest, hok.text, hes]
    refine ⟨⟨ledgerOk_committed hi.ledger hc, fun k e he => ?_⟩, ⟨le_committed hc, .inr ?_⟩, trivial⟩
    · have he' : l'.events.lookup k = some e := he
      rw [hc.events, AList.lookup_insert_eq] at he'
      split at he'
      · cases he'
        exact hhash
      · exact hi.digests k e he'
    · exact ⟨c, plan, t', l', hbody, hsc, hid, hes, hpayload, hc, rfl⟩

/-- What a delivery has to answer. -/
def DeliveryPost (cfg : Config) (q : RootRefScope × RootRefsBody) (r : Except CasError (Response DomainUpdateResult))
    (x : Traced) : Prop :=
  (∀ result, r = .ok (.ok result) →
    ∃ c, canonicalizeRootRefsUpdate cfg.codec q.2 = .ok c ∧ Recorded q.1 c result.revision x.1.ledger) ∧
  ∀ c, canonicalizeRootRefsUpdate cfg.codec q.2 = .ok c → (∃ y, x.2.head? = some y ∧ Differs q.1 c y.1.ledger) →
    r = .ok (.error 409 RootRefsErrorCodes.idempotencyConflict "requestId reused with a different payload") ∨
    (r = .ok (.error 503 RootRefsErrorCodes.busy "root refs update failed") ∧
      ∃ bound, cfg.maxAttempts = some bound ∧ bound ≤ x.2.length)

/-- A delivery that meets another payload at its first call. -/
theorem domainFetch_conflict (hbody : canonicalizeRootRefsUpdate cfg.codec body = .ok c) :
    Triple (deliverySpec cfg.codec (sc, body)).withSteps (fun x => Differs sc c x.1.ledger ∧ x.2 = [])
      (domainFetch cfg sc body)
      (fun r x => r = .error 409 RootRefsErrorCodes.idempotencyConflict "requestId reused with a different payload" ∨
        (r = .error 503 RootRefsErrorCodes.busy "root refs update failed" ∧
          ∃ bound, cfg.maxAttempts = some bound ∧ bound ≤ x.2.length)) fun _ _ => False := by
  unfold domainFetch
  rw [hbody]
  refine Triple.tryCatch (F := fun e x => e = conflictError ∨ ((∃ m, e = .rootRefsRetryable m) ∧
    ∃ bound, cfg.maxAttempts = some bound ∧ bound ≤ x.2.length)) ?_ fun e => ?_
  · refine Triple.bind (Q := fun c' x => c' = c ∧ Differs sc c x.1.ledger ∧ x.2 = [])
      (Triple.pure fun _ _ hx => ⟨rfl, hx⟩) fun c' => Triple.of_pure fun heq => ?_
    subst heq
    refine Triple.bind (Q := fun _ _ => False) ((conflict_retry (C := deliveryCtx cfg sc body c' hbody)
      cfg.retryFuel 0).conseq ?_ ?_ ?_) fun r => Triple.pure fun _ _ hx => hx.elim
    · exact fun x _ hx => ⟨trivial, hx.1, by simp [Reads, hx.2]⟩
    · exact fun _ _ _ hx => hx
    · exact fun e x _ hx => hx.2
  · intro x _ hx
    rcases hx with rfl | ⟨⟨m, rfl⟩, hbound⟩
    · exact fun _ => .inl rfl
    · exact fun _ => .inr ⟨rfl, hbound⟩

theorem delivery_safe (i : Nat) (hi : DeliveryInv cfg.codec s) :
    Safe (deliverySpec cfg.codec (sc, body)).withSteps (DeliveryPost cfg (sc, body)) ((deliveryMachine cfg).serve i (sc, body))
      (s, []) := by
  show Safe _ _ (domainFetch cfg sc body) (s, [])
  cases hbody : canonicalizeRootRefsUpdate cfg.codec body with
  | error e =>
    obtain ⟨status, code, message, hr⟩ := domainFetch_invalid sc hbody
    rw [hr]
    intro _
    exact ⟨fun result h => (by cases h), fun c h => (by rw [hbody] at h; cases h)⟩
  | ok c =>
    by_cases hd : Differs sc c s.ledger
    · refine Safe.mono ?_ (domainFetch_conflict hbody (s, []) hi ⟨hd, rfl⟩)
      intro r x _ hr
      cases r with
      | error e => exact hr.elim
      | ok response =>
        refine ⟨fun result h => ?_, fun _ _ _ => ?_⟩
        · cases h
          rcases hr with h | ⟨h, -⟩ <;> cases h
        · rcases hr with rfl | ⟨rfl, h⟩
          · exact .inl rfl
          · exact .inr ⟨rfl, h⟩
    · refine Safe.mono ?_ (Safe.head (domainFetch_triple (C := deliveryCtx cfg sc body c hbody) (K := noHistory _ _ c)
        hbody rfl (fun _ _ => trivial) (s, []) hi ⟨trivial, trivial, trivial⟩))
      rintro r x _ ⟨hhead, hr⟩
      refine ⟨?_, fun c' hc' hdiff => ?_⟩
      · rintro result rfl
        exact ⟨c, hbody, hr.2.2⟩
      · obtain ⟨y, hy, hdy⟩ := hdiff
        rw [hbody] at hc'
        cases hc'
        rw [hhead y hy] at hdy
        exact absurd hdy hd

theorem env_ledger {e : Disturbance} (h : (deliveryMachine cfg).env e s = some s') : s'.ledger = s.ledger := by
  cases e with
  | tick ms =>
    cases h
    rfl
  | write sc w =>
    simp only [deliveryMachine, Option.map_eq_some_iff] at h
    obtain ⟨t, -, rfl⟩ := h
    rfl

/-- The discipline of the deliveries. -/
def deliveryProof (cfg : Config) : Proof (deliveryMachine cfg) where
  inv := DeliveryInv cfg.codec
  allowed := Machine.anyCall
  rely _ s s' := Ledger.Le s.ledger s'.ledger
  guar _ q := DeliveryGuar cfg.codec q
  idle _ _ := True
  post _ q := DeliveryPost cfg q
  rely_refl _ s := Ledger.Le.refl s.ledger
  rely_trans _ _ _ _ h h' := h.trans h'
  guar_rely _ _ _ _ _ _ _ _ h := h.le
  idle_rely _ _ _ _ _ _ _ := trivial
  env_inv e s s' hi he := by
    have hl := env_ledger he
    exact ⟨by rw [hl]; exact hi.ledger, by rw [hl]; exact hi.digests⟩
  env_rely e s s' _ _ he _ := by
    rw [env_ledger he]
    exact Ledger.Le.refl _
  env_idle _ _ _ _ _ _ _ := trivial
  serve_safe i _ _ hi _ := delivery_safe i hi

theorem deliveryStart_initial : (deliveryProof cfg).Initial deliveryStart :=
  ⟨⟨ledgerOk_empty, by rintro k e ⟨⟩⟩, fun _ => rfl, fun _ => trivial⟩

/-- A request identity is in use. -/
def Used (sc : RootRefScope) (requestId : String) (s : State) : Prop :=
  ∃ record, s.ledger.requests.lookup (sc, requestId) = some record

theorem used_le {r : String} (h : Ledger.Le s.ledger s'.ledger) (hu : Used sc r s) : Used sc r s' := by
  obtain ⟨record, hr⟩ := hu
  exact ⟨record, h.requests _ _ hr⟩

/-- The record that an application leaves. -/
theorem applied_record {q : State × State} (h : Applied cfg.codec sc body q)
    (hbody : canonicalizeRootRefsUpdate cfg.codec body = .ok c) : q.1.ledger.requests.lookup (sc, c.requestId) = none ∧
      ∃ record, q.2.ledger.requests.lookup (sc, c.requestId) = some record ∧ record.payloadHash = c.payloadHash := by
  obtain ⟨c', plan, t', l', hc', rfl, hid, -, hhash, hcom, hq⟩ := h
  rw [hbody] at hc'
  cases hc'
  have hl : q.2.ledger = l' := by rw [hq]; rfl
  refine ⟨by rw [← hid]; exact hcom.unused, ⟨plan.payloadHash, plan.revision, plan.appliedAt⟩, ?_, hhash⟩
  rw [hl, hcom.requests, AList.lookup_insert_eq, hid]
  exact if_pos rfl

theorem applied_turns {q : State × State} (h : Applied cfg.codec sc body q)
    (hbody : canonicalizeRootRefsUpdate cfg.codec body = .ok c) : Proof.Turns (Used sc c.requestId) q := by
  obtain ⟨hnone, record, hr, -⟩ := applied_record h hbody
  refine ⟨?_, record, hr⟩
  rintro ⟨record', hr'⟩
  rw [hnone] at hr'
  cases hr'

theorem record_of_event {n : Nat} {e : RootDomainEvent} {r : String} (hi : DeliveryInv cfg.codec s)
    (he : EventOf s.ledger sc r n e) : ∃ record, s.ledger.requests.lookup (sc, r) = some record ∧
      record.payloadHash = sha256HexText cfg.codec (changesJson e.changes) := by
  obtain ⟨hl, ht, hr⟩ := he
  obtain ⟨record, hrec, -, hhash⟩ := hi.ledger.events sc.domain n e hl
  refine ⟨record, ?_, by rw [hhash, hi.digests _ e hl]⟩
  rw [ht, hr] at hrec
  exact hrec

/-- An event with another payload is a record with another digest, when digests do not collide. -/
theorem differs_of_event {n : Nat} {e : RootDomainEvent} (hsha : Function.Injective (sha256HexText cfg.codec))
    (hi : DeliveryInv cfg.codec s) (hbody : canonicalizeRootRefsUpdate cfg.codec body = .ok c)
    (he : EventOf s.ledger sc c.requestId n e) (hne : changesJson e.changes ≠ c.changesJson) : Differs sc c s.ledger := by
  obtain ⟨record, hr, hhash⟩ := record_of_event hi he
  refine ⟨record, hr, ?_⟩
  rw [hhash, (canonicalize_ok hbody).digest]
  exact fun h => hne (hsha h)

/-- What a delivery's calls have done so far lasts. -/
theorem steps_kept {p : Pool Call State CasError (Response DomainUpdateResult) Nat (RootRefScope × RootRefsBody)}
    (hp : (deliveryMachine cfg).Reach Machine.anyCall deliveryStart p) : ∀ i t, p.thread i = some t → ∀ x ∈ t.steps,
      DeliveryInv cfg.codec x.1 ∧ (Quiet x ∨ Applied cfg.codec t.req.1 t.req.2 x) ∧ Ledger.Le x.2.ledger p.state.ledger := by
  refine (deliveryProof cfg).steps_rule (J := fun _ q x s => DeliveryInv cfg.codec x.1 ∧
    (Quiet x ∨ Applied cfg.codec q.1 q.2 x) ∧ Ledger.Le x.2.ledger s.ledger) ?_ ?_ ?_ deliveryStart_initial hp
  · exact fun i q s s' hi hg => ⟨hi, hg.step, Ledger.Le.refl _⟩
  · exact fun i q x j q' s s' hg hj => ⟨hj.1, hj.2.1, hj.2.2.trans hg.le⟩
  · intro i q x e s s' he hj
    rw [env_ledger he]
    exact hj

end AtMostOnceAux

open AtMostOnceAux

/-- At most once, in every pool that deliveries reach, whatever becomes of their calls:
1. each call of a delivery changes nothing or applies the delivery's update;
2. over all deliveries of a request identity at most one call is an application;
3. at most one event carries a request identity;
4. a projection is the sum of the recorded changes;
5. a delivery that succeeds reports the revision of the event of its identity, and that event has the delivery's payload;
6. a delivery whose payload is not that of its identity's event has changed nothing;
7. if that event is there at its first call, it ends in the conflict, or in the busy answer when its attempts are used up. -/
theorem update_applied_at_most_once (cfg : Config)
    (p : Pool Call State CasError (Response DomainUpdateResult) Nat (RootRefScope × RootRefsBody))
    (hp : (deliveryMachine cfg).Reach Machine.anyCall deliveryStart p) :
    (∀ i t, p.thread i = some t → ∀ q ∈ t.steps, Quiet q ∨ Applied cfg.codec t.req.1 t.req.2 q) ∧
    (∀ i j t t' (a b : Nat) x y c c', p.thread i = some t → p.thread j = some t' → t.req.1 = t'.req.1 →
      canonicalizeRootRefsUpdate cfg.codec t.req.2 = .ok c → canonicalizeRootRefsUpdate cfg.codec t'.req.2 = .ok c' →
      c.requestId = c'.requestId → t.steps[a]? = some x → t'.steps[b]? = some y →
      Applied cfg.codec t.req.1 t.req.2 x → Applied cfg.codec t'.req.1 t'.req.2 y → i = j ∧ a = b) ∧
    (∀ sc r n n' e e', EventOf p.state.ledger sc r n e → EventOf p.state.ledger sc r n' e' → n = n') ∧
    (∀ sc h, p.state.ledger.balance sc h = p.state.ledger.recorded sc h) ∧
    (∀ i sc body steps result, p.thread i = some ⟨(sc, body), .ret (.ok (.ok result)), steps⟩ →
      ∃ c e, canonicalizeRootRefsUpdate cfg.codec body = .ok c ∧ EventOf p.state.ledger sc c.requestId result.revision e ∧
        e.payloadHash = c.payloadHash ∧
        (Function.Injective (sha256HexText cfg.codec) → changesJson e.changes = c.changesJson)) ∧
    (Function.Injective (sha256HexText cfg.codec) →
      (∀ i t c n e, p.thread i = some t → canonicalizeRootRefsUpdate cfg.codec t.req.2 = .ok c →
        EventOf p.state.ledger t.req.1 c.requestId n e → changesJson e.changes ≠ c.changesJson → ∀ q ∈ t.steps, Quiet q) ∧
      ∀ i sc body r steps c q n e, p.thread i = some ⟨(sc, body), .ret r, steps⟩ →
        canonicalizeRootRefsUpdate cfg.codec body = .ok c → steps.head? = some q →
        EventOf q.1.ledger sc c.requestId n e → changesJson e.changes ≠ c.changesJson →
        r = .ok (.error 409 RootRefsErrorCodes.idempotencyConflict "requestId reused with a different payload") ∨
        (r = .ok (.error 503 RootRefsErrorCodes.busy "root refs update failed") ∧
          ∃ bound, cfg.maxAttempts = some bound ∧ bound ≤ steps.length)) := by
  obtain ⟨hi, -⟩ := (deliveryProof cfg).sound deliveryStart_initial hp
  have hkept := steps_kept hp
  refine ⟨fun i t ht q hq => (hkept i t ht q hq).2.1, ?_, ?_, hi.ledger.balances, ?_, fun hsha => ⟨?_, ?_⟩⟩
  · intro i j t t' a b x y c c' ht ht' hsc hc hc' hid hx hy hax hay
    refine (deliveryProof cfg).once_rule (Used t.req.1 c.requestId) (fun _ _ _ _ hg hu => used_le hg.le hu) ?_
      deliveryStart_initial hp i j t t' a b x y ht ht' hx hy (applied_turns hax hc) ?_
    · exact fun e s s' he hu => used_le (by rw [env_ledger he]; exact Ledger.Le.refl _) hu
    · rw [hsc, hid]
      exact applied_turns hay hc'
  · intro sc r n n' e e' he he'
    obtain ⟨record, hr, hn, -⟩ := hi.ledger.events sc.domain n e he.1
    obtain ⟨record', hr', hn', -⟩ := hi.ledger.events sc.domain n' e' he'.1
    rw [he.2.1, he.2.2] at hr
    rw [he'.2.1, he'.2.2, hr] at hr'
    cases hr'
    rw [← hn, ← hn']
  · intro i sc body steps result ht
    obtain ⟨c, hc, record, hr, hpayload, hrev⟩ := ((deliveryProof cfg).post_of_done deliveryStart_initial hp ht).1 result rfl
    obtain ⟨e, he, h1, h2, hhash⟩ := hi.ledger.requests sc c.requestId record hr
    have hsame : e.payloadHash = c.payloadHash := hhash.trans hpayload
    refine ⟨c, e, hc, ⟨by rw [← hrev]; exact he, h1, h2⟩, hsame, fun hsha => hsha ?_⟩
    rw [← hi.digests _ e he, hsame, (canonicalize_ok hc).digest]
  · intro i t c n e ht hc he hne q hq
    obtain ⟨-, hstep, hle⟩ := hkept i t ht q hq
    rcases hstep with hquiet | happlied
    · exact hquiet
    · obtain ⟨record, hr, hdiff⟩ := differs_of_event hsha hi hc he hne
      obtain ⟨-, record', hr', hsame⟩ := applied_record happlied hc
      have hr'' := hle.requests _ _ hr'
      rw [hr] at hr''
      cases hr''
      exact absurd hsame hdiff
  · intro i sc body r steps c q n e ht hc hq he hne
    have hinv : DeliveryInv cfg.codec q.1 := (hkept i _ ht q (List.mem_of_mem_head? hq)).1
    exact ((deliveryProof cfg).post_of_done deliveryStart_initial hp ht).2 c hc ⟨q, hq, differs_of_event hsha hinv hc he hne⟩

/-! ## Runs -/

/-- Bytes as characters, the start of a digest without collisions. -/
def latin1 (bytes : Bytes) : String := String.ofList (bytes.map Char.ofUInt8)

theorem latin1_injective : Function.Injective latin1 := by
  intro a b h
  refine List.map_injective_iff.mpr ?_ (String.ofList_injective h)
  intro x y hxy
  have hval : x.toUInt32 = y.toUInt32 := congrArg Char.val hxy
  exact UInt8.toUInt32_inj.mp hval

/-- A codec without collisions that has the SHA-256 digests of the leaf and of the changes to the leaf by one. -/
def collisionFreeCodec : Codec where
  parseCanonicalNodeStream := twoNodeCodec.parseCanonicalNodeStream
  sha256Hex body :=
    Equiv.swap (latin1 leafBody) leafHash
      (Equiv.swap (changesJson [(leafHash, 1)]) "8f3cea0c25066fb394f5671deb9bc45abede0a5bcff1565cd277ac8936de9ee1"
        (Equiv.swap (changesJson [(leafHash, -1)]) "b37325e1cb2e8243ad82d398a9a341a41c8fe5511eca4abacce18cc7b7448e3a"
          (latin1 body)))

theorem collisionFreeCodec_injective : Function.Injective (sha256HexText collisionFreeCodec) := by
  intro a b h
  have hbytes : a.toUTF8.data.toList = b.toUTF8.data.toList :=
    latin1_injective ((Equiv.swap _ _).injective ((Equiv.swap _ _).injective ((Equiv.swap _ _).injective h)))
  have hdata : a.toUTF8 = b.toUTF8 := by
    cases ha : a.toUTF8
    cases hb : b.toUTF8
    simp_all
  exact String.toByteArray_inj.mp hdata

/-- A tenant's references in a domain. -/
def sampleDomain : RootRefScope := ⟨"stack", "tenant", "domain"⟩

/-- The leaf is stored, and a delivery retains it. -/
def deliverRetain : List (Label Nat (RootRefScope × RootRefsBody) Disturbance) :=
  [.env (.write sampleScope (.putCanonicalObject leafHash leafBody)),
    .env (.write sampleScope (.commitUploadedCanonicalNode (.new leafHash ⟨0, "text/plain", []⟩ ⟨0, 60000⟩))),
    .start 0 (sampleDomain, changeLeaf "r" 1)] ++ List.replicate 7 (.run 0 .none)

/-- The answer of a delivery. -/
def answer (p : Pool Call State CasError (Response DomainUpdateResult) Nat (RootRefScope × RootRefsBody)) (i : Nat) :
    Option (Response DomainUpdateResult) :=
  match p.thread i with
  | some ⟨_, .ret (.ok r), _⟩ => some r
  | _ => none

/-- The identity is delivered again with another payload, and its lookup is answered. -/
theorem update_applied_at_most_once_retain :
    ∃ p, (deliveryMachine ⟨collisionFreeCodec, none, 2, true⟩).exec?
        (deliverRetain ++ [.start 1 (sampleDomain, changeLeaf "r" (-1)), .run 1 .none]) deliveryStart = some p ∧
      answer p 0 = some (.ok ⟨false, 1⟩) ∧
      answer p 1 = some (.error 409 "IDEMPOTENCY_CONFLICT" "requestId reused with a different payload") ∧
      (∀ sc r n n' e e', EventOf p.state.ledger sc r n e → EventOf p.state.ledger sc r n' e' → n = n') ∧
      ∀ i t c n e, p.thread i = some t → canonicalizeRootRefsUpdate collisionFreeCodec t.req.2 = .ok c →
        EventOf p.state.ledger t.req.1 c.requestId n e → changesJson e.changes ≠ c.changesJson → ∀ q ∈ t.steps, Quiet q := by
  have hrun : ((deliveryMachine ⟨collisionFreeCodec, none, 2, true⟩).exec?
      (deliverRetain ++ [.start 1 (sampleDomain, changeLeaf "r" (-1)), .run 1 .none]) deliveryStart).any (fun p =>
        decide (answer p 0 = some (.ok ⟨false, 1⟩)) &&
        decide (answer p 1 = some (.error 409 "IDEMPOTENCY_CONFLICT" "requestId reused with a different payload"))) = true := by
    decide
  obtain ⟨p, hp, hrun⟩ := (Option.any_eq_true _ _).mp hrun
  obtain ⟨h0, h1⟩ := Bool.and_eq_true_iff.mp hrun
  obtain ⟨-, -, hevents, -, -, hsha⟩ := update_applied_at_most_once _ p (Machine.reach_of_exec? _ .init hp)
  exact ⟨p, hp, of_decide_eq_true h0, of_decide_eq_true h1, hevents, (hsha collisionFreeCodec_injective).1⟩

/-- The delivery has ended in the busy answer, and the event of its request identity records other changes. -/
def busyWithOther (codec : Codec) :
    Option (Thread Call State CasError (Response DomainUpdateResult) (RootRefScope × RootRefsBody)) → Bool
  | some ⟨(sc, body), .ret (.ok (.error 503 _ _)), q :: _⟩ =>
    match canonicalizeRootRefsUpdate codec body, q.1.ledger.events.lookup (sc.domain, 1) with
    | .ok c, some e => decide (e.tenantId = sc.tenantId ∧ e.requestId = c.requestId ∧ changesJson e.changes ≠ c.changesJson)
    | _, _ => false
  | _ => false

/-- A delivery that meets another payload need not end in the conflict: with one attempt, whose lookup is not answered,
it ends in the busy answer. -/
theorem conflict_answered_false :
    ¬ ∀ p, (deliveryMachine ⟨collisionFreeCodec, some 1, 2, true⟩).Reach Machine.anyCall deliveryStart p →
      ∀ i sc body r steps c q n e, p.thread i = some ⟨(sc, body), .ret r, steps⟩ →
        canonicalizeRootRefsUpdate collisionFreeCodec body = .ok c → steps.head? = some q →
        EventOf q.1.ledger sc c.requestId n e → changesJson e.changes ≠ c.changesJson →
        r = .ok (.error 409 RootRefsErrorCodes.idempotencyConflict "requestId reused with a different payload") := by
  intro h
  have hrun : ((deliveryMachine ⟨collisionFreeCodec, some 1, 2, true⟩).exec?
      (deliverRetain ++ [.start 1 (sampleDomain, changeLeaf "r" (-1)), .run 1 .failed]) deliveryStart).any
        (fun p => busyWithOther collisionFreeCodec (p.thread 1)) = true := by decide
  obtain ⟨p, hp, hrun⟩ := (Option.any_eq_true _ _).mp hrun
  unfold busyWithOther at hrun
  split at hrun
  · rename_i sc body code message q rest ht
    split at hrun
    · rename_i c e hc he
      obtain ⟨h1, h2, h3⟩ := of_decide_eq_true hrun
      have := h p (Machine.reach_of_exec? _ .init hp) 1 sc body _ _ c q 1 e ht hc rfl ⟨he, h1, h2⟩ h3
      cases this
    · cases hrun
  · cases hrun

end UniDocs.Cas
