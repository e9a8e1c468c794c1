import Matcore.Proof.SessionAtomic

/-!
# The candidate report

Two calls that `begin` lets go on alike leave the same erased session.
-/

namespace Matcore.ClosedHost

open FlatMemory Session

variable {F : Type} {host : Host F}

/-- The session without its candidate report. -/
def Session.erase (s : Session F) : Session F := { s with candidateReport := {} }

namespace Session

@[simp] theorem erase_status (s : Session F) : s.erase.status = s.status := rfl

theorem erase_fail (s : Session F) (code : Code) (f : ℕ) :
    s.erase.fail code f = (s.fail code f).erase := by
  by_cases h : s.status.code = .ok
  · rw [fail_of_ok h, fail_of_ok (s := s.erase) h]; rfl
  · rw [fail_of_failed h, fail_of_failed (s := s.erase) h]

theorem erase_succeed (s : Session F) (f : ℕ) : s.erase.succeed f = (s.succeed f).erase := by
  unfold succeed erase
  split <;> rfl

theorem erase_begin (s : Session F) (host : Host F) (f : ℕ) :
    s.erase.begin host f = ((s.begin host f).1.erase, (s.begin host f).2) := by
  have hfail := erase_fail s
  have htaken : s.erase.resultTaken = s.resultTaken := rfl
  have hactive : s.erase.active = s.active := rfl
  have hfrontier : s.erase.activeFrontier = s.activeFrontier := rfl
  unfold begin
  simp only [hfail, htaken, hactive, hfrontier, erase_status]
  split_ifs <;> rfl

variable {s s' : Session F}

section

variable (h : s.erase = s'.erase)

include h

theorem begin_congr (host : Host F) (f : ℕ) :
    (s.begin host f).1.erase = (s'.begin host f).1.erase ∧
      (s.begin host f).2 = (s'.begin host f).2 := by
  have hb := erase_begin s host f
  rw [h, erase_begin s' host f] at hb
  exact ⟨(congrArg Prod.fst hb).symm, (congrArg Prod.snd hb).symm⟩

theorem fail_congr (code : Code) (f : ℕ) :
    (s.fail code f).leave.erase = (s'.fail code f).leave.erase := by
  have := congrArg leave ((erase_fail s code f).symm.trans (h ▸ erase_fail s' code f))
  exact this

theorem succeed_congr (f : ℕ) :
    (s.succeed f).leave.erase = (s'.succeed f).leave.erase := by
  have := congrArg leave ((erase_succeed s f).symm.trans (h ▸ erase_succeed s' f))
  exact this

/-- Two sessions that differ at most in their reports retire one outcome alike. -/
theorem retire_congr (f : ℕ) (result : Value F)
    {r r' : CandidateReport × Except Code (Storage F)} (hr : r.2 = r'.2) :
    (s.retire f result r).1.erase = (s'.retire f result r').1.erase ∧
      (s.retire f result r).2 = (s'.retire f result r').2 := by
  obtain ⟨report, outcome⟩ := r
  obtain ⟨report', outcome'⟩ := r'
  obtain rfl : outcome = outcome' := hr
  cases outcome with
  | error code =>
    have h' : { s with candidateReport := { report with code } }.erase =
        { s' with candidateReport := { report' with code } }.erase := h
    exact ⟨fail_congr h' code f, rfl⟩
  | ok storage =>
    have h' : { s with candidateReport := { report with valueIssued := true } }.erase =
        { s' with candidateReport := { report' with valueIssued := true } }.erase := h
    exact ⟨succeed_congr h' f, rfl⟩

end

/-- A call that `begin` lets go on as `go`. -/
def guarded {α : Type} (s : Session F) (host : Host F) (f : ℕ) (stop : α)
    (go : Session F → Session F × α) : Session F × α :=
  match s.begin host f with
  | (s, false) => (s, stop)
  | (s, true) => go s

section

variable (h : s.erase = s'.erase)

include h

/-- Sessions that differ at most in their reports stay so if what two calls go on with keeps
them so. -/
theorem guarded_congr {α : Type} (host : Host F) (f : ℕ) (stop : α)
    (go go' : Session F → Session F × α)
    (hgo : ∀ t t' : Session F, t.erase = t'.erase → t.candidate = s.candidate →
      (go t).1.erase = (go' t').1.erase ∧ (go t).2 = (go' t').2) :
    (s.guarded host f stop go).1.erase = (s'.guarded host f stop go').1.erase ∧
      (s.guarded host f stop go).2 = (s'.guarded host f stop go').2 := by
  obtain ⟨h₁, h₂⟩ := begin_congr h host f
  unfold guarded
  rcases begin_cases host s f with ⟨t, ht, hfail⟩ | ⟨-, ht⟩
  all_goals
    rcases hs' : s'.begin host f with ⟨t', ok'⟩
    rw [ht, hs'] at h₁ h₂
    obtain rfl := h₂
    rw [ht]
  · exact ⟨h₁, rfl⟩
  · exact hgo _ t' h₁ rfl

theorem outcome_congr (f : ℕ) (result : Value F) (outcome : Except Code (Storage F)) :
    let run (s : Session F) : Session F × Value F :=
      match outcome with
      | .error code => ((s.fail code f).leave, result)
      | .ok storage => ((s.succeed f).leave, some storage)
    (run s).1.erase = (run s').1.erase ∧ (run s).2 = (run s').2 := by
  cases outcome with
  | error code => exact ⟨fail_congr h code f, rfl⟩
  | ok storage => exact ⟨succeed_congr h f, rfl⟩

theorem candidate_of_erase : s.candidate = s'.candidate := by
  have := congrArg Session.candidate h
  exact this

theorem read_congr (host : Host F) (mem : Mem F) (f : ℕ) (view : ResourceView) (rows columns : ℕ)
    (result : Value F) :
    (s.read host mem f view rows columns result).1.erase =
        (s'.read host mem f view rows columns result).1.erase ∧
      (s.read host mem f view rows columns result).2 =
        (s'.read host mem f view rows columns result).2 :=
  guarded_congr h host f result _ _ fun _ _ ht _ =>
    outcome_congr ht f result (host.readStorage f mem view rows columns)

theorem readForwarded_congr (host : Host F) (f : ℕ) (view : ResourceView) (rows columns : ℕ)
    (published result : Value F) :
    (s.readForwarded host f view rows columns published result).1.erase =
        (s'.readForwarded host f view rows columns published result).1.erase ∧
      (s.readForwarded host f view rows columns published result).2 =
        (s'.readForwarded host f view rows columns published result).2 :=
  guarded_congr h host f result _ _ fun _ _ ht _ =>
    outcome_congr ht f result (forwardedStorage view rows columns published)

theorem gemm_congr (host : Host F) (f : ℕ) (lhs rhs : Value F) (numeric : Numeric)
    (result : Value F) :
    (s.gemm host f lhs rhs numeric result).1.erase =
        (s'.gemm host f lhs rhs numeric result).1.erase ∧
      (s.gemm host f lhs rhs numeric result).2 = (s'.gemm host f lhs rhs numeric result).2 :=
  guarded_congr h host f result (fun s => s.retire f result
      (host.gemmStorage s.candidate f lhs rhs numeric (s.freshReport f numeric))) _
    fun t t' ht _ => retire_congr ht f result (by
      unfold freshReport
      rw [candidate_of_erase ht])

theorem pairTail_congr (host : Host F) (f : ℕ) (a b : Storage F) (d : Value F) (second : Numeric)
    (result : Value F) :
    (s.pairTail host f a b d second result).1.erase =
        (s'.pairTail host f a b d second result).1.erase ∧
      (s.pairTail host f a b d second result).2 = (s'.pairTail host f a b d second result).2 :=
  guarded_congr h host f result (fun s => s.retire f result
      (host.pairStorage s.candidate f a b d second (s.freshReport f second))) _
    fun t t' ht _ => retire_congr ht f result (by
      unfold freshReport
      rw [candidate_of_erase ht])

theorem pair_congr (host : Host F) (f₁ f₂ : ℕ) (a b d : Value F) (first second : Numeric)
    (result : Value F) :
    (s.gemmStrictFusedPair host f₁ f₂ a b d first second result).1.erase =
        (s'.gemmStrictFusedPair host f₁ f₂ a b d first second result).1.erase ∧
      (s.gemmStrictFusedPair host f₁ f₂ a b d first second result).2 =
        (s'.gemmStrictFusedPair host f₁ f₂ a b d first second result).2 := by
  refine guarded_congr h host f₁ result _ _ fun t t' ht _ => ?_
  have hfirst : host.pairFirst t.candidate f₁ f₂ a b first =
      host.pairFirst t'.candidate f₁ f₂ a b first := by
    rw [candidate_of_erase ht]
  simp only [hfirst]
  cases host.pairFirst t'.candidate f₁ f₂ a b first with
  | error code =>
    have ht' : { t with candidateReport := { t.freshReport f₁ first with code } }.erase =
        { t' with candidateReport := { t'.freshReport f₁ first with code } }.erase := ht
    exact ⟨fail_congr ht' code f₁, rfl⟩
  | ok ab =>
    have ht' : { t with candidateReport := t.freshReport f₁ first }.erase =
        { t' with candidateReport := t'.freshReport f₁ first }.erase := ht
    exact pairTail_congr (succeed_congr ht' f₁) host f₂ ab.1 ab.2 d second result

theorem publish_congr (host : Host F) (mem : Mem F) (f : ℕ) (value : Value F)
    (destination : ResourceView) :
    (s.publish host mem f value destination).1.erase =
        (s'.publish host mem f value destination).1.erase ∧
      (s.publish host mem f value destination).2 =
        (s'.publish host mem f value destination).2 := by
  refine guarded_congr h host f mem (fun s =>
    match publishStorage value destination with
    | .error code => ((s.fail code f).leave, mem)
    | .ok storage => (((s.published f).succeed f).leave,
        writeCells floatBytes mem destination.data storage.elements)) _ fun t t' ht _ => ?_
  cases publishStorage value destination with
  | error code => exact ⟨fail_congr ht code f, rfl⟩
  | ok storage =>
    have ht' : (t.published f).erase = (t'.published f).erase := by
      have := congrArg (fun s : Session F => s.published f) ht
      exact this
    exact ⟨succeed_congr ht' f, rfl⟩

theorem observe_congr (host : Host F) (mem : Mem F) (f : ℕ) (view : ResourceView) :
    (s.observe host mem f view).erase = (s'.observe host mem f view).erase := by
  let go (s : Session F) : Session F × Unit :=
    match host.snapshot f mem view with
    | .error code => ((s.fail code f).leave, ())
    | .ok storage =>
      if s.observations.isNone ∧ ¬ host.allocationAllowed f 2 then
        ((s.fail .allocationFailure f).leave, ())
      else if host.recordsFull s.records.length ∧ ¬ host.allocationAllowed f 3 then
        ((s.withRecords.fail .allocationFailure f).leave, ())
      else (((s.observed f storage).succeed f).leave, ())
  have heq : ∀ s : Session F, s.observe host mem f view = (s.guarded host f () go).1 := by
    intro s
    unfold observe guarded
    rcases s.begin host f with ⟨t, ok⟩
    cases ok with
    | false => rfl
    | true =>
      simp only [go]
      cases host.snapshot f mem view with
      | error code => rfl
      | ok storage => dsimp only; split_ifs <;> rfl
  rw [heq, heq]
  refine (guarded_congr h host f () go go fun t t' ht _ => ⟨?_, rfl⟩).1
  have hobs : t.observations = t'.observations := by
    have := congrArg Session.observations ht
    exact this
  have hrec : t.records = t'.records := congrArg (·.getD []) hobs
  have hwith : t.withRecords.erase = t'.withRecords.erase := by
    have := congrArg Session.withRecords ht
    exact this
  simp only [go]
  split
  · exact fail_congr ht _ f
  · rename_i storage _
    have hobserved : (t.observed f storage).erase = (t'.observed f storage).erase := by
      have := congrArg (fun s : Session F => s.observed f storage) ht
      exact this
    rw [hobs, hrec]
    split_ifs
    · exact fail_congr ht _ f
    · exact fail_congr hwith _ f
    · exact succeed_congr hobserved f

theorem complete_congr (host : Host F) (f : ℕ) :
    (s.complete host f).erase = (s'.complete host f).erase := by
  let go (s : Session F) : Session F × Unit :=
    (({ s with status := { s.status with completed := true } }.succeed f).leave, ())
  have heq : ∀ s : Session F, s.complete host f = (s.guarded host f () go).1 := by
    intro s
    unfold complete guarded
    rcases s.begin host f with ⟨t, ok⟩
    cases ok <;> rfl
  rw [heq, heq]
  refine (guarded_congr h host f () go go fun t t' ht _ => ⟨?_, rfl⟩).1
  have hcompleted : { t with status := { t.status with completed := true } }.erase =
      { t' with status := { t'.status with completed := true } }.erase := by
    have := congrArg
      (fun s : Session F => { s with status := { s.status with completed := true } }) ht
    exact this
  exact succeed_congr hcompleted f

end

end Session

/-- `w` and `w'` differ at most in the candidate report of their sessions. -/
structure SameButReport (w w' : World F) : Prop where
  session : w.session.erase = w'.session.erase
  mem : w.mem = w'.mem
  publications : w.publications = w'.publications

variable {w w' : World F}

theorem SameButReport.status (h : SameButReport w w') :
    w.status = w'.status := by
  have := congrArg Session.status h.session
  exact this

/-- What a call does to a world does not depend on its candidate report. -/
theorem apply_congr (host : Host F) (h : SameButReport w w') (r : Request F) :
    SameButReport (r.apply host w).1 (r.apply host w').1 ∧
      (r.apply host w).2 = (r.apply host w').2 := by
  obtain ⟨s, mem, publications⟩ := w
  obtain ⟨s', mem', publications'⟩ := w'
  obtain ⟨h, rfl, rfl⟩ := h
  cases r with
  | read f view rows columns result =>
    obtain ⟨h₁, h₂⟩ := read_congr h host mem f.toNat view rows columns result
    exact ⟨⟨h₁, rfl, rfl⟩, h₂⟩
  | readForwarded f view rows columns published result =>
    obtain ⟨h₁, h₂⟩ := readForwarded_congr h host f.toNat view rows columns published result
    exact ⟨⟨h₁, rfl, rfl⟩, h₂⟩
  | gemm f lhs rhs numeric result =>
    obtain ⟨h₁, h₂⟩ := gemm_congr h host f.toNat lhs rhs numeric result
    exact ⟨⟨h₁, rfl, rfl⟩, h₂⟩
  | gemmStrictFusedPair f₁ f₂ a b d first second result =>
    obtain ⟨h₁, h₂⟩ := pair_congr h host f₁.toNat f₂.toNat a b d first second result
    exact ⟨⟨h₁, rfl, rfl⟩, h₂⟩
  | publish f value destination =>
    obtain ⟨h₁, h₂⟩ := publish_congr h host mem f.toNat value destination
    have hcode := congrArg (fun s : Session F => s.status.code) h₁
    refine ⟨⟨h₁, h₂, ?_⟩, rfl⟩
    cases value with
    | none => rfl
    | some storage =>
      exact if_congr (by exact hcode ▸ Iff.rfl) rfl rfl
  | observe f view =>
    exact ⟨⟨observe_congr h host mem f.toNat view, rfl, rfl⟩, rfl⟩
  | complete f =>
    exact ⟨⟨complete_congr h host f.toNat, rfl, rfl⟩, rfl⟩

end Matcore.ClosedHost
