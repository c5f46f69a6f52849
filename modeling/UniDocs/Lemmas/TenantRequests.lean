import UniDocs.Lemmas.LeasePrograms
import UniDocs.Lemmas.DomainUpdate

/-!
# Requests of the tenant object

A request runs outside the gate but for the operations it puts behind it. Together with the kernels this shows that
every request keeps the discipline, and from that the facts about all runs of the service.
-/

namespace UniDocs.Cas

open Lib TenantWritesAux LedgerCommitAux DomainAux

/-- A program that starts and ends outside the gate. -/
def Loose (codec : Codec) (strict : Prop) (i : RequestId) {α : Type} (p : Op α) : Prop :=
  Triple (gateSpec codec strict i) (Outside i) p (fun _ => Outside i) fun _ => Outside i

section Rules

variable {codec : Codec} {strict : Prop} {i : RequestId} {α β : Type}

theorem Loose.pure {a : α} : Loose codec strict i (Pure.pure a) := Triple.pure fun _ _ hp => hp

theorem Loose.throw {e : CasError} : Loose codec strict i (MonadExcept.throw e : Op α) := Triple.throw fun _ _ hp => hp

theorem Loose.bind {p : Op α} {g : α → Op β} (hp : Loose codec strict i p) (hg : ∀ a, Loose codec strict i (g a)) :
    Loose codec strict i (p >>= g) :=
  Triple.bind hp hg

theorem Loose.tryCatch {p : Op α} {h : CasError → Op α} (hp : Loose codec strict i p)
    (hh : ∀ e, Loose codec strict i (h e)) : Loose codec strict i (p.tryCatch h) :=
  Triple.tryCatch hp hh

theorem Loose.tryFinally {p : Op α} {q : Op Unit} (hp : Loose codec strict i p) (hq : Loose codec strict i q) :
    Loose codec strict i (p.tryFinally q) :=
  Triple.tryFinally hp (fun _ => hq) fun _ => hq

theorem Loose.require {b : Bool} {e : CasError} : Loose codec strict i (Prog.require b e) :=
  Triple.require (fun _ _ hp _ => hp) fun _ _ hp _ => hp

theorem Loose.ret {r : Except CasError α} : Loose codec strict i (Prog.ret r) := by
  cases r with
  | ok a => exact Loose.pure
  | error e => exact Loose.throw

/-- A call to a store that does no more than add an object. -/
theorem Loose.attempt {c : Call (Except CasError β)}
    (h : ∀ f s s' r, Inv strict s → exec codec c f s = some (s', r) →
      Inv strict s' ∧ Guar strict i s s' ∧ (Outside i s → Outside i s')) :
    Loose codec strict i (Prog.attempt c) := by
  refine Triple.attempt (fun _ => stable_outside) (fun _ => stable_outside) ?_
  intro f s s' r hi hp _ he
  obtain ⟨h1, h2, h3⟩ := h f s s' r hi he
  refine ⟨h1, h2, ?_⟩
  cases r <;> exact h3 hp

theorem Loose.perform {c : Call β}
    (h : ∀ f s s' r, Inv strict s → Outside i s → exec codec c f s = some (s', r) →
      Inv strict s' ∧ Guar strict i s s' ∧ Outside i s') : Loose codec strict i (Prog.perform c) :=
  Triple.perform (fun _ => stable_outside) fun f s s' b hi hp _ he => h f s s' b hi hp he

theorem Loose.query {sc : Scope} {f : Tenant → β} : Loose codec strict i (query sc f) := by
  refine Loose.attempt fun g s s' r hi he => ?_
  obtain ⟨rfl, -, -⟩ := query_exec he
  exact ⟨hi, Guar.refl s', fun h => h⟩

theorem put_kept {hash : Hash} {body : Bytes} {t t' : Tenant} (h : (TenantWrite.putCanonicalObject hash body).run codec t = some t') :
    Kept t t' := by
  simp only [TenantWrite.run] at h
  split at h
  · cases h
    refine ⟨rfl, rfl, fun k hk => ?_⟩
    simp only [Tenant.stored, AList.mem_insert] at hk ⊢
    exact .inr hk
  · cases h

theorem Loose.putCanonicalObject {hash : Hash} {body : Bytes} :
    Loose codec strict i (write i.scope (.putCanonicalObject hash body)) := by
  refine Loose.attempt fun g s s' r hi he => ?_
  simp only [exec, Option.some.injEq] at he
  cases hrun : (TenantWrite.putCanonicalObject hash body).run codec (s.tenant i.scope) with
  | none =>
    rw [hrun] at he
    cases g <;> cases he <;> exact ⟨hi, Guar.refl _, fun h => h⟩
  | some t' =>
    have hk := put_kept hrun
    rw [hrun] at he
    cases g <;> cases he
    · exact ⟨inv_kept hi hk, guar_kept hk, fun h => h⟩
    · exact ⟨hi, Guar.refl _, fun h => h⟩
    · exact ⟨inv_kept hi hk, guar_kept hk, fun h => h⟩

theorem Loose.publish {hash : Hash} {body : Bytes} :
    Loose codec strict i (Prog.attempt (.publishCanonicalObject i.scope hash body)) := by
  refine Loose.attempt fun g s s' r hi he => ?_
  simp only [exec, Option.some.injEq] at he
  by_cases hm : hash ∈ (s.tenant i.scope).objects
  · rw [if_pos hm] at he
    cases g <;> cases he <;> exact ⟨hi, Guar.refl _, fun h => h⟩
  · rw [if_neg hm] at he
    cases hrun : (TenantWrite.putCanonicalObject hash body).run codec (s.tenant i.scope) with
    | none =>
      rw [hrun] at he
      cases g <;> cases he <;> exact ⟨hi, Guar.refl _, fun h => h⟩
    | some t' =>
      have hk := put_kept hrun
      rw [hrun] at he
      cases g <;> cases he
      · exact ⟨inv_kept hi hk, guar_kept hk, fun h => h⟩
      · exact ⟨hi, Guar.refl _, fun h => h⟩
      · exact ⟨inv_kept hi hk, guar_kept hk, fun h => h⟩

/-- The temporary objects are no part of what the discipline speaks of. -/
theorem guar_temporaries {s : State} {x : Table String Bytes} : Guar strict i s { s with temporaries := x } where
  clock := rfl
  ledger := Ledger.Le.refl _
  tenants _ _ := ⟨rfl, rfl⟩
  outside _ := ⟨Kept.refl _, rfl, .inl rfl⟩
  inside h := .inl h
  removed _ _ hr hn := absurd (AList.mem_of_lookup hr) hn
  added _ _ hn hm := absurd hm hn

theorem inv_temporaries {s : State} {x : Table String Bytes} (hi : Inv strict s) : Inv strict { s with temporaries := x } :=
  ⟨hi.counts, hi.backed, hi.cache, hi.ledger, hi.roots⟩

theorem Loose.getTemporary {key : String} : Loose codec strict i (Prog.attempt (.getTemporary key)) := by
  refine Loose.attempt fun g s s' r hi he => ?_
  cases g <;> cases he <;> exact ⟨hi, Guar.refl _, fun h => h⟩

theorem Loose.deleteTemporary {key : String} : Loose codec strict i (Prog.attempt (.deleteTemporary key)) := by
  refine Loose.attempt fun g s s' r hi he => ?_
  cases g <;> cases he
  · exact ⟨inv_temporaries hi, guar_temporaries, fun h => h⟩
  · exact ⟨hi, Guar.refl _, fun h => h⟩
  · exact ⟨inv_temporaries hi, guar_temporaries, fun h => h⟩

theorem uploads_keeps {f : Uploads → Uploads × β} {g : Fault} {s s' : State} {b : β} (hi : Inv strict s)
    (he : exec codec (.uploads i.scope f) g s = some (s', b)) :
    Inv strict s' ∧ Guar strict i s s' ∧ (s'.inst i.scope).gate = (s.inst i.scope).gate ∧
    (s'.inst i.scope).readyCache = (s.inst i.scope).readyCache ∧ s'.tenant = s.tenant ∧ s'.clock = s.clock := by
  cases g <;> cases he
  refine ⟨inv_setInst hi fun hs hg => ?_, guar_setInst (fun _ => ⟨rfl, .inl rfl⟩) (fun h => .inl h), ?_, ?_, rfl, rfl⟩
  · exact cacheSound_mono (s := s) (le_refl _) (Kept.refl _) (by simp) (hi.cache hs i.scope hg)
  · simp
  · simp

theorem Loose.uploads {f : Uploads → Uploads × β} : Loose codec strict i (uploads i.scope f) := by
  refine Loose.perform fun g s s' b hi hp he => ?_
  obtain ⟨h1, h2, h3, -⟩ := uploads_keeps hi he
  refine ⟨h1, h2, ?_⟩
  rw [Outside, h3]
  exact hp

theorem Behind.uploads {f : Uploads → Uploads × β} {P : State → Prop} (hP : Lasting i P) :
    Behind codec strict i P (Cas.uploads i.scope f) fun _ => P := by
  refine Triple.perform (fun _ => stable_inGate hP) ?_
  intro g s s' b hi hp _ he
  have hx : exec codec (.uploads i.scope f) g s = some (s', b) := he
  obtain ⟨h1, h2, h3, h4, h5, h6⟩ := uploads_keeps hi hx
  have hk : Kept (s.tenant i.scope) (s'.tenant i.scope) := by
    rw [h5]
    exact Kept.refl _
  refine ⟨h1, h2, ⟨by rw [h3]; exact hp.1.1, fun hs => ?_⟩, hP s s' (by rw [h6]) hk hp.2⟩
  exact cacheSound_mono (by rw [h6]) hk h4 (hp.1.2 hs)

theorem Loose.completion {n : Nat} : Loose codec strict i (Prog.perform (.completion i.scope n)) := by
  refine Loose.perform fun g s s' b hi hp he => ?_
  simp only [exec] at he
  split at he
  · cases g <;> cases he
    exact ⟨hi, Guar.refl s, hp⟩
  · cases he

/-- Taking the gate: the invariant of the free gate is the holder's. -/
theorem acquire_exec {g : Fault} {s s' : State} {b : Unit} (hi : Inv strict s)
    (he : exec codec (.acquire i.scope i.n) g s = some (s', b)) :
    Inv strict s' ∧ Guar strict i s s' ∧ Gated strict i s' ∧ s'.ledger = s.ledger ∧ s'.tenant = s.tenant := by
  simp only [exec] at he
  split at he
  · rename_i hg
    cases g <;> cases he
    have hcache : strict → CacheSound (s.setInst i.scope { s.inst i.scope with gate := some i.n }) i.scope := fun hs =>
      cacheSound_mono (s := s) (le_refl _) (Kept.refl _) (by simp) (hi.cache hs i.scope hg)
    refine ⟨inv_setInst hi fun hs _ => hcache hs, guar_setInst ?_ ?_, ⟨by simp, hcache⟩, rfl, rfl⟩
    · exact fun _ => ⟨rfl, .inr ⟨hg, rfl⟩⟩
    · exact fun h => .inl rfl
  · cases he

/-- Giving the gate back. -/
theorem release_exec {g : Fault} {s s' : State} {b : Unit} (hi : Inv strict s) (hg : Gated strict i s)
    (he : exec codec (.release i.scope i.n) g s = some (s', b)) :
    Inv strict s' ∧ Guar strict i s s' ∧ Outside i s' ∧ s'.ledger = s.ledger ∧ s'.tenant = s.tenant := by
  simp only [exec, hg.1, if_true] at he
  cases g <;> cases he
  refine ⟨inv_setInst hi fun hs _ => ?_, guar_setInst (fun h => absurd hg.1 h) (fun _ => .inr rfl), by simp [Outside], rfl, rfl⟩
  exact cacheSound_mono (s := s) (le_refl _) (Kept.refl _) (by simp) (hg.2 hs)

theorem acquire_triple :
    Triple (gateSpec codec strict i) (Outside i) (Prog.perform (.acquire i.scope i.n) : Op Unit)
      (fun _ => InGate strict i fun _ => True) (fun _ => Outside i) := by
  refine Triple.perform (fun _ => stable_inGate lasting_true) ?_
  intro g s s' b hi _ _ he
  have hx : exec codec (.acquire i.scope i.n) g s = some (s', b) := he
  obtain ⟨h1, h2, h3, -⟩ := acquire_exec hi hx
  exact ⟨h1, h2, h3, trivial⟩

theorem release_triple {P : State → Prop} (hP : ∀ s, P s → Gated strict i s) :
    Triple (gateSpec codec strict i) P (Prog.perform (.release i.scope i.n) : Op Unit) (fun _ => Outside i) (fun _ => Outside i) := by
  refine Triple.perform (fun _ => stable_outside) ?_
  intro g s s' b hi hp _ he
  have hx : exec codec (.release i.scope i.n) g s = some (s', b) := he
  obtain ⟨h1, h2, h3, -⟩ := release_exec hi (hP s hp) hx
  exact ⟨h1, h2, h3⟩

theorem Loose.withMutation {p : Op α} (hp : Plain codec strict i p) : Loose codec strict i (withMutation i p) := by
  refine Triple.bind acquire_triple fun _ => ?_
  refine Triple.tryFinally hp (fun a => ?_) fun e => ?_
  · exact release_triple fun s h => h.1
  · exact release_triple fun s h => h

end Rules

/-! ## Handlers -/

section Handlers

variable {cfg : Config} {strict : Prop} {i : RequestId} {α : Type}

theorem admitUpload_plain {hash : Hash} {begin_ : Op (CasLeaseResult ⊕ α)} (h : Plain cfg.codec strict i begin_) :
    Plain cfg.codec strict i (admitUpload i hash begin_) := by
  unfold admitUpload activeUpload registerUpload
  refine Behind.bind (Behind.uploads lasting_true) fun active => ?_
  cases active with
  | some n => exact Behind.pure fun _ hp => hp
  | none =>
    refine Behind.bind h fun admitted => ?_
    cases admitted with
    | inl result => exact Behind.pure fun _ hp => hp
    | inr plan => exact Behind.bind (Behind.uploads lasting_true) fun _ => Behind.pure fun _ hp => hp

theorem joinUpload_loose {hash : Hash} {d n : Nat} : Loose cfg.codec strict i (joinUpload cfg i hash d n) := by
  unfold joinUpload
  refine Loose.bind Loose.completion fun outcome => ?_
  cases outcome with
  | failed e => exact Loose.throw
  | ok => exact Loose.bind (Loose.withMutation leaseReadyNode_behind) fun _ => Loose.pure

theorem settled_loose {p : Op α} (h : Loose cfg.codec strict i p) : Loose cfg.codec strict i (settled p) :=
  Loose.tryCatch (Loose.bind h fun _ => Loose.pure) fun _ => Loose.pure

theorem runUpload_loose {hash : Hash} {upload : Op CasLeaseResult} {cleanup : Op Unit}
    (hu : Loose cfg.codec strict i upload) (hc : Loose cfg.codec strict i cleanup) :
    Loose cfg.codec strict i (runUpload i hash upload cleanup) := by
  unfold runUpload settle unregisterUpload
  refine Loose.tryFinally (Loose.tryCatch ?_ fun e => ?_) Loose.uploads
  · exact Loose.bind hu fun _ => Loose.bind Loose.uploads fun _ => Loose.pure
  · exact Loose.bind hc fun _ => Loose.bind Loose.uploads fun _ => Loose.throw

theorem uploadCanonicalNode_loose {plan : CanonicalNodeUploadPlan} {body : Bytes} :
    Loose cfg.codec strict i (uploadCanonicalNode i.scope plan body) :=
  Loose.tryCatch Loose.putCanonicalObject fun _ => Loose.throw

theorem streamCanonicalUpload_loose {plan : CanonicalNodeUploadPlan} {body : Bytes} {n : Nat} :
    Loose cfg.codec strict i (streamCanonicalUpload cfg i.scope plan body n) := by
  unfold streamCanonicalUpload
  refine Loose.bind (settled_loose ?_) fun _ => Loose.bind Loose.ret fun _ => Loose.bind Loose.ret fun _ => Loose.pure
  split
  · exact uploadCanonicalNode_loose
  · exact Loose.throw

theorem handleStreamedLease_loose {hash : Hash} {d n : Nat} {body : Bytes} :
    Loose cfg.codec strict i (handleStreamedLease cfg i hash d n body) := by
  unfold handleStreamedLease
  refine Loose.bind (Loose.withMutation (admitUpload_plain
    (Behind.bind beginCanonicalNodeLease_behind fun _ => Behind.pure fun _ hp => hp))) fun admission => ?_
  cases admission with
  | ready result => exact Loose.pure
  | join active => exact joinUpload_loose
  | upload plan =>
    refine runUpload_loose (Loose.bind streamCanonicalUpload_loose fun _ => ?_) Loose.pure
    exact Loose.withMutation finalizeCanonicalNodeLease_behind

theorem prepareDirectUpload_loose {hash : Hash} {length : NumberHeader} {d : Nat} {id : String} :
    Loose cfg.codec strict i (prepareDirectUpload cfg i hash length d id) := by
  unfold prepareDirectUpload
  refine Loose.bind (Loose.withMutation prepareCanonicalNodeUpload_behind) fun prepared => ?_
  cases prepared with
  | ready result => exact Loose.pure
  | upload session replaced =>
    refine Loose.bind ?_ fun _ => Loose.bind Loose.require fun _ => Loose.pure
    cases replaced with
    | some key => exact Loose.deleteTemporary
    | none => exact Loose.pure

theorem publishTemporaryUpload_loose {hash : Hash} {session : DirectUploadSession} :
    Loose cfg.codec strict i (publishTemporaryUpload cfg i.scope hash session) := by
  unfold publishTemporaryUpload
  refine Loose.bind Loose.getTemporary fun temporary => ?_
  split
  · exact Loose.throw
  · refine Loose.tryCatch ?_ fun e => ?_
    · refine Loose.bind (settled_loose Loose.publish) fun stored => ?_
      refine Loose.bind Loose.ret fun node => Loose.bind Loose.ret fun fresh => ?_
      split
      · exact Loose.pure
      · unfold requireSameObject
        exact Loose.bind (Loose.bind Loose.query fun _ => Loose.require) fun _ => Loose.pure
    · cases e <;> exact Loose.throw

theorem finalizeDirectUpload_loose {hash : Hash} {id : String} {d : Nat} :
    Loose cfg.codec strict i (finalizeDirectUpload cfg i hash id d) := by
  unfold finalizeDirectUpload
  refine Loose.bind (Loose.withMutation (admitUpload_plain
    (Behind.bind admitFinalization_behind fun _ => Behind.pure fun _ hp => hp))) fun admission => ?_
  cases admission with
  | ready result => exact Loose.pure
  | join active => exact joinUpload_loose
  | upload session =>
    refine runUpload_loose ?_ ?_
    · refine Loose.bind publishTemporaryUpload_loose fun _ => ?_
      refine Loose.bind (Loose.withMutation finalizeCanonicalNodeLease_behind) fun _ => ?_
      exact Loose.bind Loose.deleteTemporary fun _ => Loose.pure
    · refine Loose.bind (settled_loose Loose.deleteTemporary) fun _ => ?_
      exact Loose.bind (settled_loose (Loose.withMutation deleteSession_behind)) fun _ => Loose.pure

theorem handleLease_loose {r : LeaseRequest} : Loose cfg.codec strict i (handleLease cfg i r) := by
  unfold handleLease
  refine Loose.bind Loose.require fun _ => ?_
  refine Loose.bind ?_ fun d => ?_
  · cases h : r.leaseDuration
    · exact Loose.pure
    · exact Loose.throw
    · exact Loose.pure
  · refine Loose.bind Loose.require fun _ => ?_
    split
    · exact prepareDirectUpload_loose
    · exact finalizeDirectUpload_loose
    · unfold handleBodyLease
      split
      · split
        · split
          · exact Loose.throw
          · exact Loose.throw
          · split
            · exact handleStreamedLease_loose
            · exact Loose.throw
        · exact Loose.throw
      · exact Loose.throw
    · exact Loose.bind (Loose.withMutation leaseReadyNode_behind) fun _ => Loose.pure

theorem handleGc_loose {n : Option Int} : Loose cfg.codec strict i (handleGc i n) := by
  unfold handleGc
  refine Loose.bind Loose.require fun _ => ?_
  exact Loose.bind (Loose.withMutation collectExpiredUnreferencedNodes_behind) fun _ => Loose.pure

theorem respond_loose {p : Op (Response Reply)} (h : Loose cfg.codec strict i p) : Loose cfg.codec strict i (respond p) := by
  refine Loose.tryCatch h fun e => ?_
  cases e <;> exact Loose.pure

end Handlers

end UniDocs.Cas
