import Matcore.ClosedHost.Run

/-!
# What one session operation can do

An operation fails and keeps everything a caller can see but the status code and the failed frontier
(`Failed`), or it retires its frontier.
-/

namespace Matcore.ClosedHost

open FlatMemory

variable {F : Type} {host : Host F} {s s' : Session F} {f : ℕ}

namespace Session

/-- The states in which `begin` accepts the frontier `f`. -/
structure Began (host : Host F) (s : Session F) (f : ℕ) : Prop where
  notTaken : s.resultTaken = false
  ok : s.status.code = .ok
  notActive : s.active = false
  notCompleted : s.status.completed = false
  lt : s.status.completedFrontier < f
  supported : host.supportedPlatform = true

/-- The frontiers that `begin` calls invalid. -/
def BadFrontier (s : Session F) (f : ℕ) : Prop := f = 0 ∨ f ≤ s.status.completedFrontier

/-- `s'` is a failed session with the records and counters of `s`. An invalid frontier is
reported only if `s` had it already or the frontier was `bad`. -/
structure Failed (s s' : Session F) (bad : Prop) : Prop where
  code : s'.status.code ≠ .ok
  frontier : s'.status.code = .invalidFrontier → s.status.code = .invalidFrontier ∨ bad
  status : s'.status =
    { s.status with code := s'.status.code, failedFrontier := s'.status.failedFrontier }
  records : s'.records = s.records
  candidate : s'.candidate = s.candidate
  resultTaken : s'.resultTaken = s.resultTaken
  idle : s.active = false → s'.active = false

/-- The session after the frontier `f` is retired, outside any call. -/
def retired (s : Session F) (f : ℕ) : Session F :=
  { s with
    status := { s.status with completedFrontier := f }
    active := false
    activeFrontier := 0 }

theorem fail_of_failed (h : s.status.code ≠ .ok) (code : Code) (f : ℕ) :
    s.fail code f = s := by
  unfold fail; rw [if_neg h]

theorem fail_of_ok (h : s.status.code = .ok) (code : Code) (f : ℕ) :
    s.fail code f = { s with status := { s.status with code, failedFrontier := f } } := by
  unfold fail; rw [if_pos h]

theorem succeed_of_ok (h : s.status.code = .ok) (f : ℕ) :
    s.succeed f = { s with status := { s.status with completedFrontier := f } } := by
  unfold succeed; rw [if_pos h]

variable {bad : Prop}

theorem failed_fail (s : Session F) {code : Code} (hc : code ≠ .ok)
    (hb : code = .invalidFrontier → bad) (f : ℕ) : Failed s (s.fail code f) bad := by
  by_cases h : s.status.code = .ok
  · rw [fail_of_ok h]; exact ⟨hc, fun h => .inr (hb h), rfl, rfl, rfl, rfl, id⟩
  · rw [fail_of_failed h]; exact ⟨h, .inl, rfl, rfl, rfl, rfl, id⟩

theorem Failed.leave {t : Session F} (h : Failed t s' bad) (hs : t.status = s.status)
    (hr : t.records = s.records) (hc : t.candidate = s.candidate)
    (ht : t.resultTaken = s.resultTaken) : Failed s s'.leave bad :=
  ⟨h.code, hs ▸ h.frontier, hs ▸ h.status, hr ▸ h.records, hc ▸ h.candidate, ht ▸ h.resultTaken,
    fun _ => rfl⟩

theorem Failed.mono {bad' : Prop} (h : Failed s s' bad) (hb : bad → bad') : Failed s s' bad' :=
  { h with frontier := fun hf => (h.frontier hf).imp_right hb }

/-- Nothing happens in a failed session. -/
theorem begin_of_failed (h : s.status.code ≠ .ok) (f : ℕ) :
    s.begin host f = (s, false) := by
  unfold begin
  rw [if_pos h]
  split
  · rw [fail_of_failed h]
  · rfl

theorem begin_of_began (h : Began host s f) :
    s.begin host f = ({ s with active := true, activeFrontier := f }, true) := by
  have := h.lt
  unfold begin
  simp only [h.notTaken, h.ok, h.notActive, h.notCompleted, h.supported, Bool.false_eq_true, if_false,
    ne_eq, not_true_eq_false]
  rw [if_neg (by omega)]

/-- **`begin`** accepts a `Began` session and latches a failure in any other. -/
theorem begin_cases (host : Host F) (s : Session F) (f : ℕ) :
    (∃ t, s.begin host f = (t, false) ∧ Failed s t (BadFrontier s f)) ∨
      (Began host s f ∧ s.begin host f = ({ s with active := true, activeFrontier := f }, true)) := by
  by_cases hb : Began host s f
  · exact .inr ⟨hb, begin_of_began hb⟩
  left
  by_cases hok : s.status.code = .ok
  swap
  · exact ⟨s, begin_of_failed hok f, hok, .inl, rfl, rfl, rfl, rfl, id⟩
  unfold begin
  rw [if_neg (not_not.2 hok)]
  split
  · exact ⟨_, rfl, failed_fail s (by decide) nofun f⟩
  split
  · exact ⟨_, rfl, failed_fail s (by decide) nofun _⟩
  split
  · exact ⟨_, rfl, failed_fail s (by decide) nofun f⟩
  split
  · rename_i h
    exact ⟨_, rfl, failed_fail s (by decide) (fun _ => h) f⟩
  split
  · exact ⟨_, rfl, failed_fail s (by decide) nofun f⟩
  · rename_i h₁ h₂ h₃ h₄ h₅
    exact absurd ⟨by simpa using h₁, hok, by simpa using h₂, by simpa using h₃, by omega,
      by simpa using h₅⟩ hb

end Session

/-- What a guard reports: a failure, and not of the frontier. -/
def Code.Guard (code : Code) : Prop := code ≠ .ok ∧ code ≠ .invalidFrontier

variable {code : Code}

theorem guard_allocationFailure : Code.Guard .allocationFailure := ⟨nofun, nofun⟩

theorem guard_of_candidate (h : code.ofCandidate = true) (hc : code ≠ .ok) : code.Guard :=
  ⟨hc, by rintro rfl; cases h⟩

variable {columns rows : ℕ}

theorem guard_extent (h : extent rows columns = .error code) : code.Guard := by
  unfold extent at h
  split at h
  · cases h; exact ⟨nofun, nofun⟩
  · split at h <;> cases h; exact ⟨nofun, nofun⟩

variable {view : ResourceView}

theorem guard_validate {write : Bool} (h : validate view write = .error code) : code.Guard := by
  unfold validate at h
  split at h
  · rename_i he; cases h; exact guard_extent he
  · repeat' split at h
    all_goals cases h
    all_goals exact ⟨nofun, nofun⟩

theorem guard_allocate {attempt : ℕ} (h : host.allocate f attempt rows columns = .error code) :
    code.Guard := by
  unfold Host.allocate at h
  split at h
  · rename_i he; cases h; exact guard_extent he
  · repeat' split at h
    all_goals cases h
    all_goals exact ⟨nofun, nofun⟩

variable {mem : Mem F}

theorem guard_snapshot (h : host.snapshot f mem view = .error code) : code.Guard := by
  unfold Host.snapshot at h
  split at h
  · rename_i he; cases h; exact guard_validate he
  · split at h
    · rename_i he; cases h; exact guard_allocate he
    · cases h

theorem guard_readStorage (h : host.readStorage f mem view rows columns = .error code) :
    code.Guard := by
  unfold Host.readStorage at h
  split at h
  · rename_i he; cases h; exact guard_extent he
  · split at h
    · cases h; exact ⟨nofun, nofun⟩
    · exact guard_snapshot h

theorem guard_forwardedStorage {published : Value F}
    (h : forwardedStorage view rows columns published = .error code) : code.Guard := by
  unfold forwardedStorage at h
  split at h
  · rename_i he; cases h; exact guard_extent he
  · split at h
    · cases h; exact ⟨nofun, nofun⟩
    · split at h
      · rename_i he; cases h; exact guard_validate he
      · repeat' split at h
        all_goals cases h
        all_goals exact ⟨nofun, nofun⟩

variable {destination : ResourceView} {value : Value F}

theorem guard_publishStorage (h : publishStorage value destination = .error code) : code.Guard := by
  unfold publishStorage at h
  split at h
  · cases h; exact ⟨nofun, nofun⟩
  · split at h
    · rename_i he; cases h; exact guard_validate he
    · split at h <;> cases h
      exact ⟨nofun, nofun⟩

theorem ofCandidate_candidateLegality (host : Host F) (request : Candidate) (numeric : Numeric)
    (f : ℕ) (h : host.candidateLegality request numeric f ≠ .invalidCandidate) :
    (host.candidateLegality request numeric f).ofCandidate = true := by
  revert h
  unfold Host.candidateLegality
  split
  all_goals repeat' split
  all_goals first
    | exact fun _ => rfl
    | exact fun _ => (host.cudaCandidateAvailable f).2
    | exact fun _ => (host.rocdlCandidateAvailable f).2
    | exact fun h => absurd rfl h

variable {numeric : Numeric}

theorem guard_candidateLegality {request : Candidate}
    (h : host.candidateLegality request numeric f ≠ .ok) :
    (host.candidateLegality request numeric f).Guard := by
  by_cases hi : host.candidateLegality request numeric f = .invalidCandidate
  · rw [hi]; exact ⟨nofun, nofun⟩
  · exact guard_of_candidate (ofCandidate_candidateLegality host request numeric f hi) h

variable {candidate : Candidate} {lhs rhs : Storage F}

theorem guard_gemmLegality (h : host.gemmLegality candidate numeric f lhs rhs ≠ .ok) :
    (host.gemmLegality candidate numeric f lhs rhs).Guard := by
  revert h
  unfold Host.gemmLegality
  dsimp only
  split
  · split
    · exact fun _ => guard_extent ‹_›
    · split
      · exact fun h => absurd rfl h
      · exact fun _ => ⟨nofun, nofun⟩
  · exact guard_candidateLegality

variable {report : CandidateReport}

theorem guard_providerGuard (h : (host.providerGuard candidate f report).2 ≠ .ok) :
    (host.providerGuard candidate f report).2.Guard := by
  revert h
  unfold Host.providerGuard
  split
  · dsimp only
    split
    · exact guard_of_candidate (host.closedProviderContract f).1.2
    · exact fun _ => ⟨nofun, nofun⟩
  · exact fun h => absurd rfl h

theorem guard_runCandidate (h : (host.runCandidate candidate f lhs rhs report).code ≠ .ok) :
    (host.runCandidate candidate f lhs rhs report).code.Guard := by
  revert h
  unfold Host.runCandidate Host.legacyGemm
  dsimp only
  repeat' split
  all_goals first
    | exact fun h => absurd rfl h
    | exact guard_of_candidate (host.cudaGemmCandidate f lhs rhs).1.2
    | exact guard_of_candidate (host.rocdlGemmCandidate f lhs rhs).1.2
    | exact fun _ => ⟨nofun, nofun⟩

theorem guard_gemmStorage {lhs rhs : Value F}
    (h : (host.gemmStorage candidate f lhs rhs numeric report).2 = .error code) : code.Guard := by
  unfold Host.gemmStorage at h
  split at h
  · split at h
    · cases h; exact ⟨nofun, nofun⟩
    split at h
    · rename_i hl; cases h; exact guard_gemmLegality hl
    split at h
    · rename_i ha; cases h; exact guard_allocate ha
    split at h
    · cases h; exact ⟨nofun, nofun⟩
    dsimp only at h
    split at h
    · rename_i hp; cases h; exact guard_providerGuard hp
    split at h
    · cases h; exact ⟨nofun, nofun⟩
    split at h
    · rename_i hr; cases h; exact guard_runCandidate hr
    · cases h
  · cases h; exact ⟨nofun, nofun⟩

theorem guard_pairLegality (h : host.pairLegality candidate numeric f ≠ .ok) :
    (host.pairLegality candidate numeric f).Guard := by
  revert h
  unfold Host.pairLegality
  split
  · exact fun _ => guard_candidateLegality ‹_›
  split
  · exact fun _ => ⟨nofun, nofun⟩
  repeat' split
  all_goals first
    | exact fun h => absurd rfl h
    | exact guard_of_candidate (host.cudaFusedPairImageAvailable f).2
    | exact guard_of_candidate (host.rocdlFusedPairImageAvailable f).2
    | exact fun _ => ⟨nofun, nofun⟩

theorem guard_pairFirst {f₁ f₂ : ℕ} {a b : Value F} {first : Numeric}
    (h : host.pairFirst candidate f₁ f₂ a b first = .error code) :
    code ≠ .ok ∧ (code = .invalidFrontier → f₁ = sizeMax ∨ f₂ ≠ f₁ + 1) := by
  have of_guard : code.Guard → code ≠ .ok ∧ (code = .invalidFrontier → f₁ = sizeMax ∨ f₂ ≠ f₁ + 1) :=
    fun hg => ⟨hg.1, fun hc => absurd hc hg.2⟩
  unfold Host.pairFirst at h
  split at h
  · cases h; exact ⟨by decide, fun _ => ‹_›⟩
  apply of_guard
  split at h
  · split at h
    · cases h; exact ⟨nofun, nofun⟩
    split at h
    · rename_i hl; cases h; exact guard_pairLegality hl
    split at h
    · rename_i he; cases h; exact guard_extent he
    · repeat' split at h
      all_goals cases h
      all_goals exact ⟨nofun, nofun⟩
  · cases h; exact ⟨nofun, nofun⟩

variable {d a b : Storage F}

theorem guard_pairGpuGuard (h : pairGpuGuard candidate a b d ≠ .ok) :
    (pairGpuGuard candidate a b d).Guard := by
  revert h
  unfold pairGpuGuard
  split
  · split
    · exact fun _ => guard_extent ‹_›
    · split
      · exact fun h => absurd rfl h
      · exact fun _ => ⟨nofun, nofun⟩
  · exact fun h => absurd rfl h

theorem guard_pairWorkspace (h : host.pairWorkspace candidate f a b d ≠ .ok) :
    (host.pairWorkspace candidate f a b d).Guard := by
  revert h
  unfold Host.pairWorkspace
  split
  · split
    · exact fun _ => guard_allocate ‹_›
    · exact fun h => absurd rfl h
  · exact fun h => absurd rfl h

theorem guard_runPair (h : (host.runPair candidate f a b d report).code ≠ .ok) :
    (host.runPair candidate f a b d report).code.Guard := by
  revert h
  unfold Host.runPair
  repeat' split
  all_goals first
    | exact fun h => absurd rfl h
    | exact guard_of_candidate (host.cudaFusedPairCandidate f a b d).1.2
    | exact guard_of_candidate (host.rocdlFusedPairCandidate f a b d).1.2
    | exact fun _ => ⟨nofun, nofun⟩

theorem guard_pairStorage {d : Value F} {second : Numeric}
    (h : (host.pairStorage candidate f a b d second report).2 = .error code) : code.Guard := by
  unfold Host.pairStorage at h
  split at h
  · cases h; exact ⟨nofun, nofun⟩
  split at h
  · cases h; exact ⟨nofun, nofun⟩
  split at h
  · rename_i hl; cases h; exact guard_pairLegality hl
  split at h
  · rename_i hg; cases h; exact guard_pairGpuGuard hg
  split at h
  · rename_i ha; cases h; exact guard_allocate ha
  split at h
  · rename_i hw; cases h; exact guard_pairWorkspace hw
  split at h
  · cases h; exact ⟨nofun, nofun⟩
  dsimp only at h
  split at h
  · cases h; exact ⟨nofun, nofun⟩
  split at h
  · rename_i hr; cases h; exact guard_runPair hr
  · cases h

variable {storage : Storage F}

theorem snapshot_ok (h : host.snapshot f mem view = .ok storage) : storage = view.copy mem := by
  unfold Host.snapshot at h
  split at h
  · cases h
  · split at h
    · cases h
    · exact (Except.ok.inj h).symm

theorem publishStorage_ok (h : publishStorage value destination = .ok storage) :
    value = some storage := by
  unfold publishStorage at h
  split at h
  · cases h
  · split at h
    · cases h
    · split at h
      · cases h
      · exact congrArg some (Except.ok.inj h)

namespace Session

theorem leave_succeed (s : Session F) (f : ℕ) (h : s.status.code = .ok) :
    (s.succeed f).leave = s.retired f := by
  rw [succeed_of_ok h]; rfl

theorem failed_guard (s t : Session F) {bad : Prop} (hc : code.Guard) (f : ℕ)
    (ht : t.status = s.status) (hr : t.records = s.records) (hca : t.candidate = s.candidate)
    (hta : t.resultTaken = s.resultTaken) : Failed s (t.fail code f).leave bad :=
  (failed_fail t hc.1 (fun h => absurd h hc.2) f).leave ht hr hca hta

/-- **`read`** fails, or retires its frontier with the snapshot of the view. -/
theorem read_cases (s : Session F) (host : Host F) (mem : Mem F) (f : ℕ) (view : ResourceView)
    (rows columns : ℕ) (result : Value F) :
    (Failed s (s.read host mem f view rows columns result).1 (BadFrontier s f) ∧
        (s.read host mem f view rows columns result).2 = result) ∨
      (Began host s f ∧ ∃ storage, host.readStorage f mem view rows columns = .ok storage ∧
        s.read host mem f view rows columns result = (s.retired f, some storage)) := by
  unfold read
  rcases begin_cases host s f with ⟨t, ht, hf⟩ | ⟨hb, ht⟩
  · rw [ht]; exact .inl ⟨hf, rfl⟩
  rw [ht]
  cases h : host.readStorage f mem view rows columns with
  | error code =>
    exact .inl ⟨failed_guard s _ (guard_readStorage h) f rfl rfl rfl rfl, rfl⟩
  | ok storage =>
    refine .inr ⟨hb, storage, rfl, ?_⟩
    dsimp only
    rw [leave_succeed]
    · rfl
    · exact hb.ok

/-- **`readForwarded`** fails, or retires its frontier with the published storage. -/
theorem readForwarded_cases (s : Session F) (host : Host F) (f : ℕ) (view : ResourceView)
    (rows columns : ℕ) (published result : Value F) :
    (Failed s (s.readForwarded host f view rows columns published result).1 (BadFrontier s f) ∧
        (s.readForwarded host f view rows columns published result).2 = result) ∨
      (Began host s f ∧ ∃ storage, forwardedStorage view rows columns published = .ok storage ∧
        s.readForwarded host f view rows columns published result =
          (s.retired f, some storage)) := by
  unfold readForwarded
  rcases begin_cases host s f with ⟨t, ht, hf⟩ | ⟨hb, ht⟩
  · rw [ht]; exact .inl ⟨hf, rfl⟩
  rw [ht]
  cases h : forwardedStorage view rows columns published with
  | error code =>
    exact .inl ⟨failed_guard s _ (guard_forwardedStorage h) f rfl rfl rfl rfl, rfl⟩
  | ok storage =>
    refine .inr ⟨hb, storage, rfl, ?_⟩
    dsimp only
    rw [leave_succeed]
    · rfl
    · exact hb.ok

theorem retire_cases (hok : s.status.code = .ok) (f : ℕ) (result : Value F)
    {r : CandidateReport × Except Code (Storage F)} (hr : ∀ code, r.2 = .error code → code.Guard) :
    (∃ (report : CandidateReport) (code : Code), code.Guard ∧
        s.retire f result r =
          (({ s with candidateReport := report }.fail code f).leave, result)) ∨
      ∃ report storage, r.2 = .ok storage ∧
        s.retire f result r = ({ s.retired f with candidateReport := report }, some storage) := by
  obtain ⟨report, outcome⟩ := r
  cases outcome with
  | error code =>
    exact .inl ⟨{ report with code }, code, hr code rfl, rfl⟩
  | ok storage =>
    refine .inr ⟨{ report with valueIssued := true }, storage, rfl, ?_⟩
    simp only [retire]
    rw [leave_succeed]
    · rfl
    · exact hok

/-- **`gemm`** fails, or retires its frontier with the product of a candidate. -/
theorem gemm_cases (s : Session F) (host : Host F) (f : ℕ) (lhs rhs : Value F)
    (numeric : Numeric) (result : Value F) :
    (Failed s (s.gemm host f lhs rhs numeric result).1 (BadFrontier s f) ∧
        (s.gemm host f lhs rhs numeric result).2 = result) ∨
      (Began host s f ∧ ∃ report storage,
        (host.gemmStorage s.candidate f lhs rhs numeric (s.freshReport f numeric)).2 =
          .ok storage ∧
        s.gemm host f lhs rhs numeric result =
          ({ s.retired f with candidateReport := report }, some storage)) := by
  unfold gemm
  rcases begin_cases host s f with ⟨t, ht, hf⟩ | ⟨hb, ht⟩
  · rw [ht]; exact .inl ⟨hf, rfl⟩
  rw [ht]
  rcases retire_cases (s := { s with active := true, activeFrontier := f }) hb.ok f result
    (fun _ => guard_gemmStorage) with
    ⟨report, code, hc, h⟩ | ⟨report, storage, h₁, h₂⟩
  · refine .inl ⟨(congrArg (Failed s · _) (congrArg Prod.fst h)).mpr ?_, congrArg Prod.snd h⟩
    exact failed_guard s _ hc _ rfl rfl rfl rfl
  · exact .inr ⟨hb, report, storage, h₁, h₂⟩

theorem pairTail_cases (s : Session F) (host : Host F) (f₂ : ℕ) (a b : Storage F) (d : Value F)
    (second : Numeric) (result : Value F) :
    (Failed s (s.pairTail host f₂ a b d second result).1 (BadFrontier s f₂) ∧
        (s.pairTail host f₂ a b d second result).2 = result) ∨
      (Began host s f₂ ∧ ∃ report storage,
        (host.pairStorage s.candidate f₂ a b d second (s.freshReport f₂ second)).2 = .ok storage ∧
        s.pairTail host f₂ a b d second result =
          ({ s.retired f₂ with candidateReport := report }, some storage)) := by
  unfold pairTail
  rcases begin_cases host s f₂ with ⟨t, ht, hf⟩ | ⟨hb, ht⟩
  · rw [ht]; exact .inl ⟨hf, rfl⟩
  rw [ht]
  rcases retire_cases (s := { s with active := true, activeFrontier := f₂ }) hb.ok f₂ result
    (fun _ => guard_pairStorage) with
    ⟨report, code, hc, h⟩ | ⟨report, storage, h₁, h₂⟩
  · refine .inl ⟨(congrArg (Failed s · _) (congrArg Prod.fst h)).mpr ?_, congrArg Prod.snd h⟩
    exact failed_guard s _ hc _ rfl rfl rfl rfl
  · exact .inr ⟨hb, report, storage, h₁, h₂⟩

/-- The session after the first frontier of a fused pair alone is retired. -/
def pairRetired (s : Session F) (f₁ : ℕ) (first : Numeric) : Session F :=
  { s.retired f₁ with candidateReport := s.freshReport f₁ first }

/-- **`gemmStrictFusedPair`** fails at its first frontier, or retires it and goes on as
`pairTail`. -/
theorem pair_cases (s : Session F) (host : Host F) (f₁ f₂ : ℕ) (a b d : Value F)
    (first second : Numeric) (result : Value F) :
    (Failed s (s.gemmStrictFusedPair host f₁ f₂ a b d first second result).1
          (BadFrontier s f₁ ∨ f₁ = sizeMax ∨ f₂ ≠ f₁ + 1) ∧
        (s.gemmStrictFusedPair host f₁ f₂ a b d first second result).2 = result ∧
        ¬ (Began host s f₁ ∧ ∃ ab, host.pairFirst s.candidate f₁ f₂ a b first = .ok ab)) ∨
      (Began host s f₁ ∧ ∃ a' b', host.pairFirst s.candidate f₁ f₂ a b first = .ok (a', b') ∧
        s.gemmStrictFusedPair host f₁ f₂ a b d first second result =
          (s.pairRetired f₁ first).pairTail host f₂ a' b' d second result) := by
  unfold gemmStrictFusedPair
  rcases begin_cases host s f₁ with ⟨t, ht, hf⟩ | ⟨hb, ht⟩
  · rw [ht]
    refine .inl ⟨hf.mono .inl, rfl, ?_⟩
    rintro ⟨hb, -⟩
    rw [begin_of_began hb] at ht
    cases ht
  rw [ht]
  dsimp only
  cases h : host.pairFirst s.candidate f₁ f₂ a b first with
  | error code =>
    obtain ⟨hc, hf⟩ := guard_pairFirst h
    refine .inl ⟨(failed_fail _ hc (fun h => .inr (hf h)) f₁).leave rfl rfl rfl rfl, rfl, ?_⟩
    rintro ⟨-, ab, hab⟩
    cases hab
  | ok ab =>
    obtain ⟨a', b'⟩ := ab
    refine .inr ⟨hb, a', b', rfl, ?_⟩
    rw [leave_succeed]
    · rfl
    · exact hb.ok

/-- The session after a publication at the frontier `f`. -/
def publishedAt (s : Session F) (f : ℕ) : Session F := (s.published f).retired f

/-- **`publish`** fails without a write, or writes the storage and retires its frontier. -/
theorem publish_cases (s : Session F) (host : Host F) (mem : Mem F) (f : ℕ) (value : Value F)
    (destination : ResourceView) :
    (Failed s (s.publish host mem f value destination).1 (BadFrontier s f) ∧
        (s.publish host mem f value destination).2 = mem) ∨
      (Began host s f ∧ ∃ storage, publishStorage value destination = .ok storage ∧
        s.publish host mem f value destination =
          (s.publishedAt f, writeCells floatBytes mem destination.data storage.elements)) := by
  unfold publish
  rcases begin_cases host s f with ⟨t, ht, hf⟩ | ⟨hb, ht⟩
  · rw [ht]; exact .inl ⟨hf, rfl⟩
  rw [ht]
  cases h : publishStorage value destination with
  | error code =>
    exact .inl ⟨failed_guard s _ (guard_publishStorage h) f rfl rfl rfl rfl, rfl⟩
  | ok storage =>
    refine .inr ⟨hb, storage, rfl, ?_⟩
    dsimp only
    rw [leave_succeed]
    · rfl
    · exact hb.ok

/-- The session after an observation at the frontier `f`. -/
def observedAt (s : Session F) (f : ℕ) (storage : Storage F) : Session F :=
  (s.observed f storage).retired f

/-- **`observe`** fails without a record, or records the snapshot and retires its frontier. -/
theorem observe_cases (s : Session F) (host : Host F) (mem : Mem F) (f : ℕ) (view : ResourceView) :
    Failed s (s.observe host mem f view) (BadFrontier s f) ∨
      (Began host s f ∧ ∃ storage, host.snapshot f mem view = .ok storage ∧
        s.observe host mem f view = s.observedAt f storage) := by
  unfold observe
  rcases begin_cases host s f with ⟨t, ht, hf⟩ | ⟨hb, ht⟩
  · rw [ht]; exact .inl hf
  rw [ht]
  cases h : host.snapshot f mem view with
  | error code =>
    exact .inl (failed_guard s _ (guard_snapshot h) f rfl rfl rfl rfl)
  | ok storage =>
    dsimp only
    split
    · exact .inl (failed_guard s _ guard_allocationFailure f rfl rfl rfl rfl)
    split
    · exact .inl (failed_guard s _ guard_allocationFailure f rfl rfl rfl rfl)
    refine .inr ⟨hb, storage, rfl, ?_⟩
    rw [leave_succeed]
    · rfl
    · exact hb.ok

/-- The session after `complete` at the frontier `f`. -/
def completedAt (s : Session F) (f : ℕ) : Session F :=
  { s.retired f with status := { (s.retired f).status with completed := true } }

theorem complete_cases (s : Session F) (host : Host F) (f : ℕ) :
    Failed s (s.complete host f) (BadFrontier s f) ∨
      (Began host s f ∧ s.complete host f = s.completedAt f) := by
  unfold complete
  rcases begin_cases host s f with ⟨t, ht, hf⟩ | ⟨hb, ht⟩
  · rw [ht]; exact .inl hf
  rw [ht]
  refine .inr ⟨hb, ?_⟩
  dsimp only
  rw [leave_succeed]
  · rfl
  · exact hb.ok

end Session
end Matcore.ClosedHost
