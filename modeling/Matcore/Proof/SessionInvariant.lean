import Matcore.Proof.SessionAtomic

/-!
# The frontier and record invariant of a session

The invariant holds behind every run of a fresh session.
-/

namespace Matcore.ClosedHost

open FlatMemory Session

variable {F : Type} {host : Host F}

/-- `w'` is `w` after a successful call that adds the publications `P` and the records `O`. -/
structure Advance (w w' : World F) (P : List (Publication F)) (O : List (Observation F)) :
    Prop where
  wasOpen : w.session.resultTaken = false
  notCompleted : w.status.completed = false
  isOpen : w'.session.resultTaken = false
  idle : w'.session.active = false
  lt : w.status.completedFrontier < w'.status.completedFrontier
  bound : w'.status.completedFrontier < 2 ^ 64
  effect : w'.status.completedEffectFrontier = w.status.completedEffectFrontier ∨
    w'.status.completedEffectFrontier = w'.status.completedFrontier
  publications : w'.publications = w.publications ++ P
  records : w'.session.records = w.session.records ++ O
  publicationCount : w'.status.publications = increment^[P.length] w.status.publications
  observationCount : w'.status.observations = increment^[O.length] w.status.observations
  few : P.length + O.length ≤ 1
  frontiers : ∀ o ∈ O, o.frontier = w'.status.completedFrontier

/-- The step of a call. -/
def Request.step (host : Host F) (i : Invocation F) (r : Request F) : Step F :=
  ⟨i, .request r, Action.apply host i (.request r)⟩

variable {f : UInt64} {w : World F}

/-- The effect frontier and the counts say what was added. -/
theorem advance_of_status {w' : World F} {t : Session F} {P : List (Publication F)}
    {O : List (Observation F)} {effect : ℕ} {completed : Bool}
    (hw : w.session.resultTaken = false) (hc : w.status.completed = false)
    (hlt : w.status.completedFrontier < f.toNat) (h : w'.session = t)
    (hs : t.status = { w.status with
      publications := increment^[P.length] w.status.publications
      observations := increment^[O.length] w.status.observations
      completedEffectFrontier := effect
      completedFrontier := f.toNat
      completed })
    (heffect : effect = w.status.completedEffectFrontier ∨ effect = f.toNat)
    (hp : w'.publications = w.publications ++ P) (hr : t.records = w.session.records ++ O)
    (ho : t.resultTaken = w.session.resultTaken) (ha : t.active = false)
    (few : P.length + O.length ≤ 1) (hf : ∀ o ∈ O, o.frontier = f.toNat) : Advance w w' P O := by
  have hst := (congrArg Session.status h).trans hs
  change w'.status = _ at hst
  exact
    { wasOpen := hw
      notCompleted := hc
      isOpen := by rw [h, ho, hw]
      idle := by rw [h, ha]
      lt := by rw [hst]; exact hlt
      bound := by rw [hst]; exact f.toNat_lt
      effect := by rw [hst]; exact heffect
      publications := hp
      records := by rw [h, hr]
      publicationCount := by rw [hst]
      observationCount := by rw [hst]
      few
      frontiers := by rw [hst]; exact hf }

theorem advance_retired {w' : World F} {report : CandidateReport} (hb : Began host w.session f.toNat)
    (hp : w'.publications = w.publications)
    (h : w'.session = { w.session.retired f.toNat with candidateReport := report }) :
    Advance w w' [] [] :=
  advance_of_status hb.notTaken hb.notCompleted hb.lt h rfl (.inl rfl) (by rw [hp, List.append_nil])
    (List.append_nil _).symm rfl rfl (Nat.zero_le _) (by simp)

theorem advance_publish {i : Invocation F} {storage : Storage F} {destination : ResourceView}
    (hb : Began host i.world.session f.toNat)
    (h : (i.world.publish host f.toNat (some storage) destination).session =
      i.world.session.publishedAt f.toNat) :
    Advance i.world (i.world.publish host f.toNat (some storage) destination)
      [⟨f.toNat, destination, storage⟩] [] := by
  have hok : (i.world.publish host f.toNat (some storage) destination).status.code = .ok :=
    (congrArg (·.status.code) h).trans hb.ok
  exact advance_of_status hb.notTaken hb.notCompleted hb.lt h rfl (.inr rfl) (if_pos hok)
    (List.append_nil _).symm rfl rfl le_rfl (by simp)

theorem advance_observe {i : Invocation F} {view : ResourceView} {storage : Storage F}
    (hb : Began host i.world.session f.toNat)
    (h : i.world.session.observe host i.world.mem f.toNat view =
      i.world.session.observedAt f.toNat storage) :
    Advance i.world ((Request.observe f view).apply host i.world).1 []
      [⟨f.toNat, some storage⟩] :=
  advance_of_status hb.notTaken hb.notCompleted hb.lt h rfl (.inr rfl) (List.append_nil _).symm
    rfl rfl rfl le_rfl (by simp)

theorem advance_complete {i : Invocation F} (hb : Began host i.world.session f.toNat)
    (h : i.world.session.complete host f.toNat = i.world.session.completedAt f.toNat) :
    Advance i.world ((Request.complete f).apply host i.world).1 [] [] :=
  advance_of_status hb.notTaken hb.notCompleted hb.lt h rfl (.inl rfl) (List.append_nil _).symm
    (List.append_nil _).symm rfl rfl (Nat.zero_le _) (by simp)

/-- **A successful call advances** by what its step retired. -/
theorem apply_advance (i : Invocation F) (r : Request F)
    (hok : (r.apply host i.world).1.status.code = .ok) :
    Advance i.world (r.apply host i.world).1 (r.step host i).publication?.toList
      (r.step host i).observation?.toList := by
  obtain ⟨hb, h⟩ := (apply_outcome host i.world r).resolve_left fun h => h.session.code hok
  cases r with
  | publish f value destination =>
    obtain ⟨storage, rfl, h⟩ := h
    have hP : ((Request.publish f (some storage) destination).step host i).publication? =
        some ⟨f.toNat, destination, storage⟩ := if_pos hok
    rw [hP]
    exact advance_publish hb h
  | observe f view =>
    have hO : ((Request.observe f view).step host i).observation? =
        some ⟨f.toNat, some (view.copy i.world.mem)⟩ := if_pos hok
    rw [hO]
    exact advance_observe hb h
  | complete f => exact advance_complete hb h
  | _ =>
    obtain ⟨report, h⟩ := h
    exact advance_retired hb rfl h

/-- The invariant of an invocation whose trace retired the publications `P` and the
observations `O`. -/
structure SessionInv (i : Invocation F) (P : List (Publication F)) (O : List (Observation F)) :
    Prop where
  idle : i.world.session.active = false
  effect_le : i.world.status.completedEffectFrontier ≤ i.world.status.completedFrontier
  bound : i.world.status.completedFrontier < 2 ^ 64
  -- every retired effect has a frontier of its own, so the counters cannot wrap
  room : P.length + O.length ≤ i.world.status.completedFrontier
  publications : i.world.publications = P
  publicationCount : i.world.status.publications = P.length
  observationCount : i.world.status.observations = O.length
  records : i.records = O
  sorted : O.Pairwise (·.frontier < ·.frontier)
  below : ∀ o ∈ O, o.frontier ≤ i.world.status.completedFrontier
  handed : (i.results = [] ∧ i.world.session.resultTaken = false) ∨
    (i.world.session.resultTaken = true ∧ i.world.session.records = [] ∧
      ∃ first rest, i.results = first :: rest ∧ first.observations.getD [] = O ∧
        ∀ r ∈ rest, r.observations = none)

theorem increment_iterate (n m : ℕ) (h : m + n < 2 ^ 64) : increment^[n] m = m + n := by
  induction n with
  | zero => rfl
  | succ n ih =>
    rw [Function.iterate_succ_apply', ih (by omega)]
    unfold increment
    omega

theorem inv_init (candidate : Candidate) (mem : Mem F) :
    SessionInv (Invocation.init candidate mem) [] [] where
  idle := rfl
  effect_le := le_rfl
  bound := Nat.two_pow_pos 64
  room := le_rfl
  publications := rfl
  publicationCount := rfl
  observationCount := rfl
  records := rfl
  sorted := .nil
  below := by simp
  handed := .inl ⟨rfl, rfl⟩

variable {i : Invocation F} {P : List (Publication F)} {O : List (Observation F)}

/-- A checkpoint has the counters it found, but for a completed frontier that it may raise. -/
theorem checkpoint_status (host : Host F) (s : Session F) (r : Request F)
    (hs : s.status.completedFrontier < 2 ^ 64) :
    ∃ f, s.status.completedFrontier ≤ f ∧ f < 2 ^ 64 ∧
      (r.checkpoint host s).status = { s.status with completedFrontier := f } ∧
      (r.checkpoint host s).active = (if f = s.status.completedFrontier then s.active else false) ∧
      (r.checkpoint host s).resultTaken = s.resultTaken := by
  by_cases h : r.checkpoint host s = s
  · rw [h]; exact ⟨_, le_rfl, hs, rfl, (if_pos rfl).symm, rfl⟩
  cases r with
  | gemmStrictFusedPair f₁ f₂ a b d first second result =>
    by_cases hb : Began host s f₁.toNat ∧
        ∃ ab, host.pairFirst s.candidate f₁.toNat f₂.toNat a b first = .ok ab
    · obtain ⟨hb, ab, hab⟩ := hb
      rw [checkpoint_pair hb hab]
      exact ⟨f₁.toNat, hb.lt.le, f₁.toNat_lt, rfl, (if_neg hb.lt.ne').symm, rfl⟩
    · exact absurd (checkpoint_pair_first hb) h
  | _ => exact absurd rfl h

theorem inv_failed {r : Request F} (hi : SessionInv i P O) (h : r.Failed host i.world) :
    SessionInv (Action.apply host i (.request r)) P O := by
  obtain ⟨f, hle, hlt, hst, hact, htaken⟩ := checkpoint_status host i.world.session r hi.bound
  have hs := h.session.status
  rw [hst] at hs
  have hcompleted : (Action.apply host i (.request r)).world.status.completedFrontier = f :=
    congrArg Status.completedFrontier hs
  have hrec : (Action.apply host i (.request r)).world.session.records =
      i.world.session.records := h.session.records.trans (checkpoint_records _ _).1
  exact
    { idle := h.session.idle (by rw [hact, hi.idle, ite_self])
      effect_le := by
        rw [hcompleted]
        exact (congrArg Status.completedEffectFrontier hs).trans_le (hi.effect_le.trans hle)
      bound := by rw [hcompleted]; exact hlt
      room := by rw [hcompleted]; exact hi.room.trans hle
      publications := h.publications.trans hi.publications
      publicationCount := (congrArg Status.publications hs).trans hi.publicationCount
      observationCount := (congrArg Status.observations hs).trans hi.observationCount
      records := by
        unfold Invocation.records
        rw [hrec]
        exact hi.records
      sorted := hi.sorted
      below := fun o ho => by rw [hcompleted]; exact (hi.below o ho).trans hle
      handed := by
        have ht : (Action.apply host i (.request r)).world.session.resultTaken =
            i.world.session.resultTaken := h.session.resultTaken.trans htaken
        rcases hi.handed with ⟨h₁, h₂⟩ | ⟨h₁, h₂, h₃⟩
        · exact .inl ⟨h₁, ht.trans h₂⟩
        · exact .inr ⟨ht.trans h₁, hrec.trans h₂, h₃⟩ }

theorem inv_advance {P' : List (Publication F)} {O' : List (Observation F)} (hi : SessionInv i P O)
    (h : Advance i.world w P' O') : SessionInv { i with world := w } (P ++ P') (O ++ O') := by
  have hlt := h.lt
  have hroom := hi.room
  have hbound := h.bound
  have hfew := h.few
  rcases hi.handed with ⟨hres, -⟩ | ⟨ht, -⟩
  swap
  · exact absurd (ht.symm.trans h.wasOpen) (by decide)
  have hrecords : i.world.session.records = O := by
    simpa [Invocation.records, hres] using hi.records
  exact
    { idle := h.idle
      effect_le := by
        have := hi.effect_le
        rcases h.effect with he | he <;> dsimp only <;> omega
      bound := hbound
      room := by simp only [List.length_append]; omega
      publications := by rw [← hi.publications]; exact h.publications
      publicationCount := by
        rw [List.length_append, h.publicationCount, hi.publicationCount]
        exact increment_iterate _ _ (by omega)
      observationCount := by
        rw [List.length_append, h.observationCount, hi.observationCount]
        exact increment_iterate _ _ (by omega)
      records := by simp [Invocation.records, hres, h.records, hrecords]
      sorted := by
        refine List.pairwise_append.2 ⟨hi.sorted, ?_, fun a ha b hb => ?_⟩
        · match O', hfew with
          | [], _ => exact .nil
          | [_], _ => exact List.pairwise_singleton _ _
          | _ :: _ :: _, hfew => simp at hfew; omega
        · rw [h.frontiers b hb]
          exact (hi.below a ha).trans_lt hlt
      below := fun o ho => by
        rcases List.mem_append.1 ho with ho | ho
        · exact (hi.below o ho).trans hlt.le
        · exact (h.frontiers o ho).le
      handed := .inl ⟨hres, h.isOpen⟩ }

theorem takeResult_cases (s : Session F) (failure : SourceLocation) (ha : s.active = false) :
    (s.resultTaken = true ∧
        s.takeResult failure = (s, ⟨{ code := .alreadyComplete }, none, {}⟩)) ∨
      (s.resultTaken = false ∧ ∃ code f location,
        s.takeResult failure =
          ({ s with
              status := { s.status with code, failedFrontier := f }
              resultTaken := true
              observations := none },
            ⟨{ s.status with code, failedFrontier := f }, s.observations, location⟩)) := by
  unfold takeResult
  rw [if_neg (by simp [ha])]
  split
  · exact .inl ⟨‹_›, rfl⟩
  · rename_i ht
    refine .inr ⟨by simpa using ht, ?_⟩
    split
    · rw [fail_of_ok (And.left ‹_›)]
      exact ⟨_, _, _, rfl⟩
    · exact ⟨s.status.code, s.status.failedFrontier, _, rfl⟩

theorem inv_takeResult (hi : SessionInv i P O) (failure : SourceLocation) :
    SessionInv (Action.apply host i (.takeResult failure)) P O := by
  simp only [Action.apply]
  rcases takeResult_cases i.world.session failure hi.idle with ⟨ht, h⟩ | ⟨ht, code, f, loc, h⟩
  · rw [h]
    refine { hi with records := ?_, handed := ?_ }
    · simpa [Invocation.records] using hi.records
    · rcases hi.handed with ⟨-, h₂⟩ | ⟨h₁, h₂, first, rest, h₃, h₄, h₅⟩
      · exact absurd (ht.symm.trans h₂) (by decide)
      · refine .inr ⟨h₁, h₂, first, rest ++ [⟨{ code := .alreadyComplete }, none, {}⟩], ?_, h₄, ?_⟩
        · simp [h₃]
        · intro r hr
          rcases List.mem_append.1 hr with hr | hr
          · exact h₅ r hr
          · rw [List.mem_singleton.1 hr]
  · rcases hi.handed with ⟨hres, -⟩ | ⟨h₁, -⟩
    swap
    · exact absurd (ht.symm.trans h₁) (by decide)
    have hrecords : i.world.session.observations.getD [] = O := by
      simpa [Invocation.records, hres, Session.records] using hi.records
    rw [h]
    exact
      { idle := hi.idle
        effect_le := hi.effect_le
        bound := hi.bound
        room := hi.room
        publications := hi.publications
        publicationCount := hi.publicationCount
        observationCount := hi.observationCount
        records := by simp [Invocation.records, hres, hrecords, Session.records]
        sorted := hi.sorted
        below := hi.below
        handed := .inr ⟨rfl, rfl, _, [], by rw [hres]; rfl, hrecords, by simp⟩ }

theorem step_failed {r : Request F} (h : (r.apply host i.world).1.status.code ≠ .ok) :
    (r.step host i).publication? = none ∧ (r.step host i).observation? = none := by
  cases r with
  | publish f value destination =>
    refine ⟨?_, rfl⟩
    cases value with
    | none => rfl
    | some storage => exact if_neg h
  | observe f view => exact ⟨rfl, if_neg h⟩
  | _ => exact ⟨rfl, rfl⟩

/-- **One action keeps the invariant**, with what its step retired. -/
theorem inv_step (host : Host F) (hi : SessionInv i P O) (a : Action F) :
    SessionInv (a.apply host i)
      (P ++ (Step.publication? ⟨i, a, a.apply host i⟩).toList)
      (O ++ (Step.observation? ⟨i, a, a.apply host i⟩).toList) := by
  cases a with
  | takeResult failure =>
    simpa [Step.publication?, Step.observation?] using inv_takeResult hi failure
  | request r =>
    by_cases hok : (r.apply host i.world).1.status.code = .ok
    · exact inv_advance hi (apply_advance i r hok)
    · obtain ⟨hp, ho⟩ := step_failed hok
      have := inv_failed hi ((apply_cases host i.world r).resolve_right hok)
      unfold Request.step at hp ho
      rw [hp, ho]
      simpa using this

/-- **Every run keeps the invariant**, with what its trace retired. -/
theorem inv_run (host : Host F) (hi : SessionInv i P O) (as : List (Action F)) :
    SessionInv (i.run host as) (P ++ (i.trace host as).filterMap Step.publication?)
      (O ++ (i.trace host as).filterMap Step.observation?) := by
  induction as generalizing i P O with
  | nil => simpa [Invocation.run, Invocation.trace] using hi
  | cons a as ih =>
    have h := ih (inv_step host hi a)
    rw [List.append_assoc, List.append_assoc] at h
    have hcons : ∀ {α : Type} (g : Step F → Option α) (x : Step F) (xs : List (Step F)),
        (g x).toList ++ xs.filterMap g = (x :: xs).filterMap g := by
      intro α g x xs
      cases h : g x <;> simp [h]
    rw [hcons, hcons] at h
    exact h

theorem trace_lt (host : Host F) (i : Invocation F) (as : List (Action F)) :
    ∀ step ∈ i.trace host as, ∀ r, step.action = .request r → step.after.world.status.code = .ok →
      step.before.world.status.completedFrontier < step.after.world.status.completedFrontier := by
  induction as generalizing i with
  | nil => simp [Invocation.trace]
  | cons a as ih =>
    intro step hstep r hr hok
    rcases List.mem_cons.1 hstep with rfl | hstep
    · dsimp only at hr hok ⊢
      subst hr
      exact (apply_advance i r hok).lt
    · exact ih _ step hstep r hr hok

theorem failed_of_completed (h : w.status.completed = true) (r : Request F) :
    r.Failed host w ∧ r.checkpoint host w.session = w.session := by
  have hb : ∀ f, ¬ Began host w.session f := fun f hb =>
    absurd (h.symm.trans hb.notCompleted) (by decide)
  constructor
  · exact (apply_outcome host w r).resolve_right fun h => hb _ h.1
  · cases r with
    | gemmStrictFusedPair f₁ f₂ a b d first second result =>
      exact checkpoint_pair_first fun hp => hb _ hp.1
    | _ => rfl

/-- **The invariant of every run of a fresh session.** -/
theorem session_invariant (host : Host F) (candidate : Candidate) (mem : Mem F)
    (as : List (Action F)) :
    let trace := (Invocation.init candidate mem).trace host as
    let i := (Invocation.init candidate mem).run host as
    let status := i.world.status
    status.completedEffectFrontier ≤ status.completedFrontier ∧
      (∀ step ∈ trace, ∀ r, step.action = .request r → step.after.world.status.code = .ok →
        step.before.world.status.completedFrontier <
          step.after.world.status.completedFrontier) ∧
      i.world.publications = trace.filterMap Step.publication? ∧
      status.publications = i.world.publications.length ∧
      i.records = trace.filterMap Step.observation? ∧
      status.observations = i.records.length ∧
      i.records.Pairwise (·.frontier < ·.frontier) ∧
      (status.completed = true → ∀ r : Request F, r.Failed host i.world ∧
        r.checkpoint host i.world.session = i.world.session) ∧
      ((i.results = [] ∧ i.world.session.resultTaken = false) ∨
        (i.world.session.resultTaken = true ∧ i.world.session.records = [] ∧
          ∃ first rest, i.results = first :: rest ∧ first.observations.getD [] = i.records ∧
            ∀ r ∈ rest, r.observations = none)) := by
  intro trace i status
  have h : SessionInv i (trace.filterMap Step.publication?) (trace.filterMap Step.observation?) :=
    inv_run host (inv_init candidate mem) as
  refine ⟨h.effect_le, trace_lt host _ as, h.publications, ?_, h.records, ?_, ?_,
    fun hc r => failed_of_completed hc r, ?_⟩
  · rw [h.publications]; exact h.publicationCount
  · rw [h.records]; exact h.observationCount
  · rw [h.records]; exact h.sorted
  · rw [h.records]; exact h.handed

end Matcore.ClosedHost
