import Matcore.Proof.Session

/-!
# Failures are sticky and atomic

A call that fails changes nothing else, after any sequence of calls.
-/

namespace Matcore.ClosedHost

open FlatMemory Session
open Prod (fst snd)
open Request (apply run)

variable {F : Type} {host : Host F} {w : World F}

/-- The session a failed call falls back to: the one it found, or for a fused pair whose first
frontier was retired, the session after that frontier alone. -/
def Request.checkpoint (host : Host F) (s : Session F) : Request F → Session F
  | .gemmStrictFusedPair f₁ f₂ a b _ first _ _ =>
    if (s.begin host f₁.toNat).2 then
      match host.pairFirst s.candidate f₁.toNat f₂.toNat a b first with
      | .ok _ => s.pairRetired f₁.toNat first
      | .error _ => s
    else s
  | _ => s

/-- A call that `begin` or the pair protocol rejects for its frontiers. -/
def Request.BadFrontier (s : Session F) : Request F → Prop
  | .read f .. | .readForwarded f .. | .gemm f .. | .publish f .. | .observe f .. | .complete f =>
    s.BadFrontier f.toNat
  | .gemmStrictFusedPair f₁ f₂ .. =>
    s.BadFrontier f₁.toNat ∨ f₁.toNat = sizeMax ∨ f₂.toNat ≠ f₁.toNat + 1

/-- What a failed call leaves: a failed session, and everything else as it was. -/
structure Request.Failed (host : Host F) (w : World F) (r : Request F) : Prop where
  session : Session.Failed (r.checkpoint host w.session) (r.apply host w).1.session
    (r.BadFrontier w.session)
  result : (r.apply host w).2 = r.destination
  mem : (r.apply host w).1.mem = w.mem
  publications : (r.apply host w).1.publications = w.publications

variable {s : Session F} {f₁ f₂ : UInt64} {b d result a : Value F} {second first : Numeric}

theorem checkpoint_pair {ab : Storage F × Storage F} (hb : Began host s f₁.toNat)
    (h : host.pairFirst s.candidate f₁.toNat f₂.toNat a b first = .ok ab) :
    (Request.gemmStrictFusedPair f₁ f₂ a b d first second result).checkpoint host s =
      s.pairRetired f₁.toNat first := by
  unfold Request.checkpoint
  simp only [begin_of_began hb, if_true, h]

theorem checkpoint_pair_first (h : ¬ (Began host s f₁.toNat ∧
      ∃ ab, host.pairFirst s.candidate f₁.toNat f₂.toNat a b first = .ok ab)) :
    (Request.gemmStrictFusedPair f₁ f₂ a b d first second result).checkpoint host s = s := by
  unfold Request.checkpoint
  rcases begin_cases host s f₁.toNat with ⟨t, ht, -⟩ | ⟨hb, ht⟩
  · simp only [ht, Bool.false_eq_true, if_false]
  · simp only [ht, if_true]
    split
    · rename_i ab hab
      exact absurd ⟨hb, ab, hab⟩ h
    · rfl

/-- The counters and records of a checkpoint are those before the call, but for the completed
frontier of a retired first half. -/
theorem checkpoint_records (s : Session F) (r : Request F) :
    (r.checkpoint host s).records = s.records ∧
      (r.checkpoint host s).candidate = s.candidate := by
  cases r <;> try exact ⟨rfl, rfl⟩
  simp only [Request.checkpoint]
  split
  · split <;> exact ⟨rfl, rfl⟩
  · exact ⟨rfl, rfl⟩

variable {f : ℕ}

theorem World.publish_failed {value : Value F} {destination : ResourceView} {bad : Prop}
    (h : Session.Failed w.session (w.session.publish host w.mem f value destination).1 bad ∧
      (w.session.publish host w.mem f value destination).2 = w.mem) :
    Session.Failed w.session (w.publish host f value destination).session bad ∧
      (w.publish host f value destination).mem = w.mem ∧
      (w.publish host f value destination).publications = w.publications := by
  refine ⟨h.1, h.2, ?_⟩
  unfold World.publish
  cases value with
  | none => rfl
  | some storage => exact if_neg h.1.code

/-- The last frontier of a call. -/
def Request.last : Request F → ℕ
  | .read f .. | .readForwarded f .. | .gemm f .. | .publish f .. | .observe f .. | .complete f
  | .gemmStrictFusedPair _ f .. => f.toNat

/-- What a call does that retires its last frontier. -/
def Request.Retires (host : Host F) (w : World F) (r : Request F) : Prop :=
  match r with
  | .publish f value destination => ∃ storage, value = some storage ∧
      (w.publish host f.toNat (some storage) destination).session = w.session.publishedAt f.toNat
  | .observe f view =>
    w.session.observe host w.mem f.toNat view = w.session.observedAt f.toNat (view.copy w.mem)
  | .complete f => w.session.complete host f.toNat = w.session.completedAt f.toNat
  | r => ∃ report, (r.apply host w).1.session =
      { w.session.retired r.last with candidateReport := report }

/-- **A call fails at its checkpoint or retires its last frontier.** -/
theorem apply_outcome (host : Host F) (w : World F) (r : Request F) :
    r.Failed host w ∨ Began host w.session r.last ∧ r.Retires host w := by
  cases r with
  | read f view rows columns result =>
    rcases read_cases w.session host w.mem f.toNat view rows columns result with
      ⟨h₁, h₂⟩ | ⟨hb, storage, -, h⟩
    · exact .inl ⟨h₁, h₂, rfl, rfl⟩
    · exact .inr ⟨hb, _, congrArg fst h⟩
  | readForwarded f view rows columns published result =>
    rcases readForwarded_cases w.session host f.toNat view rows columns published result with
      ⟨h₁, h₂⟩ | ⟨hb, storage, -, h⟩
    · exact .inl ⟨h₁, h₂, rfl, rfl⟩
    · exact .inr ⟨hb, _, congrArg fst h⟩
  | gemm f lhs rhs numeric result =>
    rcases gemm_cases w.session host f.toNat lhs rhs numeric result with
      ⟨h₁, h₂⟩ | ⟨hb, report, storage, -, h⟩
    · exact .inl ⟨h₁, h₂, rfl, rfl⟩
    · exact .inr ⟨hb, report, congrArg fst h⟩
  | gemmStrictFusedPair f₁ f₂ a b d first second result =>
    rcases pair_cases w.session host f₁.toNat f₂.toNat a b d first second result with
      ⟨h₁, h₂, hn⟩ | ⟨hb, a', b', hp, h⟩
    · have hc : (Request.gemmStrictFusedPair f₁ f₂ a b d first second result).checkpoint host
          w.session = w.session := checkpoint_pair_first hn
      exact .inl ⟨hc.symm ▸ h₁, h₂, rfl, rfl⟩
    · have hc : (Request.gemmStrictFusedPair f₁ f₂ a b d first second result).checkpoint host
          w.session = w.session.pairRetired f₁.toNat first := checkpoint_pair hb hp
      rcases pairTail_cases (w.session.pairRetired f₁.toNat first) host f₂.toNat a' b' d second
        result with ⟨h₁, h₂⟩ | ⟨hb', report, storage, -, h'⟩
      · refine .inl ⟨?_, (congrArg snd h).trans h₂, rfl, rfl⟩
        rw [hc]
        refine (congrArg (Session.Failed _ · _) (congrArg fst h)).mpr (h₁.mono fun hf => ?_)
        have hf : f₂.toNat = 0 ∨ f₂.toNat ≤ f₁.toNat := hf
        exact .inr (.inr (by omega))
      · exact .inr ⟨{ hb with lt := hb.lt.trans hb'.lt }, report, congrArg fst (h.trans h')⟩
  | publish f value destination =>
    rcases publish_cases w.session host w.mem f.toNat value destination with
      h | ⟨hb, storage, hv, h⟩
    · obtain ⟨h₁, h₂, h₃⟩ := World.publish_failed h
      exact .inl ⟨h₁, rfl, h₂, h₃⟩
    · obtain rfl := publishStorage_ok hv
      exact .inr ⟨hb, storage, rfl, congrArg fst h⟩
  | observe f view =>
    rcases observe_cases w.session host w.mem f.toNat view with h | ⟨hb, storage, hv, h⟩
    · exact .inl ⟨h, rfl, rfl, rfl⟩
    · obtain rfl := snapshot_ok hv
      exact .inr ⟨hb, h⟩
  | complete f =>
    rcases complete_cases w.session host f.toNat with h | ⟨hb, h⟩
    · exact .inl ⟨h, rfl, rfl, rfl⟩
    · exact .inr ⟨hb, h⟩

theorem Request.Retires.session {r : Request F} (h : r.Retires host w) : ∃ t : Session F,
    (r.apply host w).1.session = t ∧ t.status.code = w.status.code ∧
      t.status.completedFrontier = r.last ∧ t.candidate = w.session.candidate ∧
      t.active = false ∧ t.resultTaken = w.session.resultTaken ∧
      (t.status.completed = w.status.completed ∨ ∃ f, r = .complete f) := by
  cases r with
  | publish f value destination =>
    obtain ⟨storage, rfl, h⟩ := h
    exact ⟨_, h, rfl, rfl, rfl, rfl, rfl, .inl rfl⟩
  | observe f view => exact ⟨_, h, rfl, rfl, rfl, rfl, rfl, .inl rfl⟩
  | complete f => exact ⟨_, h, rfl, rfl, rfl, rfl, rfl, .inr ⟨f, rfl⟩⟩
  | _ =>
    obtain ⟨report, h⟩ := h
    exact ⟨_, h, rfl, rfl, rfl, rfl, rfl, .inl rfl⟩

theorem apply_cases (host : Host F) (w : World F) (r : Request F) :
    r.Failed host w ∨ (r.apply host w).1.status.code = .ok := by
  refine (apply_outcome host w r).imp_right fun ⟨hb, h⟩ => ?_
  obtain ⟨t, ht, hcode, -⟩ := h.session
  exact ((congrArg (·.status.code) ht).trans hcode).trans hb.ok

/-- What a successful call leaves: its last frontier retired, outside any call. -/
structure Request.Succeeded (w w' : World F) (r : Request F) : Prop where
  frontier : w'.status.completedFrontier = r.last
  candidate : w'.session.candidate = w.session.candidate
  idle : w'.session.active = false
  isOpen : w'.session.resultTaken = false
  completed : w'.status.completed = true → ∃ f, r = .complete f

/-- **A call that returns `ok`** has retired its last frontier. -/
theorem apply_ok (r : Request F) (hok : (r.apply host w).1.status.code = .ok) :
    r.Succeeded w (r.apply host w).1 := by
  obtain ⟨hb, h⟩ := (apply_outcome host w r).resolve_left fun h => h.session.code hok
  obtain ⟨t, rfl, -, hfrontier, hcandidate, hidle, htaken, hcompleted⟩ := h.session
  refine ⟨hfrontier, hcandidate, hidle, htaken.trans hb.notTaken, fun hc => ?_⟩
  refine hcompleted.resolve_left fun h => ?_
  exact absurd ((hc.symm.trans h).trans hb.notCompleted) (by decide)

theorem apply_candidate (host : Host F) (w : World F) (r : Request F) :
    (r.apply host w).1.session.candidate = w.session.candidate := by
  rcases apply_cases host w r with h | h
  · exact h.session.candidate.trans (checkpoint_records w.session r).2
  · exact (apply_ok r h).candidate

theorem checkpoint_code (s : Session F) (r : Request F) :
    (r.checkpoint host s).status.code = s.status.code := by
  cases r <;> try rfl
  simp only [Request.checkpoint]
  split
  · split <;> rfl
  · rfl

theorem apply_of_failed (h : w.status.code ≠ .ok) (r : Request F) :
    r.apply host w = (w, r.destination) := by
  have hb : ∀ f, w.session.begin host f = (w.session, false) := begin_of_failed h
  cases r with
  | publish f value destination =>
    have hc : w.session.status.code ≠ .ok := h
    cases value <;>
      simp only [apply, World.publish, Session.publish, hb, Request.destination, hc, if_false]
  | _ =>
    simp only [apply, World.withSession, Session.read, Session.readForwarded, Session.gemm,
      Session.gemmStrictFusedPair, Session.observe, Session.complete, hb, Request.destination]

/-- No sequence of calls changes a failed session. -/
theorem run_of_failed (h : w.status.code ≠ .ok) (rs : List (Request F)) :
    run host w rs = w := by
  induction rs with
  | nil => rfl
  | cons r rs ih =>
    unfold run
    rw [apply_of_failed h]
    exact ih

/-- **Failures are sticky and atomic.** After any sequence of calls, a call that fails leaves
its destination, the memory, both records and the counters as its checkpoint has them, and
every later call returns its status and changes nothing. -/
theorem failures_sticky_atomic (host : Host F) (w₀ : World F) (rs : List (Request F))
    (r : Request F) :
    let w := run host w₀ rs
    let w' := (r.apply host w).1
    w'.status.code ≠ .ok →
      (∀ (rs' : List (Request F)) (r' : Request F),
          run host w' rs' = w' ∧ r'.apply host w' = (w', r'.destination)) ∧
        (r.apply host w).2 = r.destination ∧
        w'.mem = w.mem ∧
        w'.publications = w.publications ∧
        w'.session.records = w.session.records ∧
        w'.status =
          { (r.checkpoint host w.session).status with
            code := w'.status.code
            failedFrontier := w'.status.failedFrontier } := by
  intro w w' hw'
  have hf : r.Failed host w := (apply_cases host w r).resolve_right hw'
  refine ⟨fun rs' r' => ⟨run_of_failed hw' rs', apply_of_failed hw' r'⟩, hf.result, hf.mem,
    hf.publications, ?_, hf.session.status⟩
  exact hf.session.records.trans (checkpoint_records _ _).1

/-- A fused pair whose second right operand has the wrong extents, after a successful read:
its first frontier stays retired. -/
theorem failures_sticky_atomic_pair :
    let host : Host ℕ := .generatedCpu 0 (· + ·) (· * ·)
    let view : ResourceView := { data := 64, rows := 1, columns := 1, capacityElements := 1 }
    let one : Value ℕ := some ⟨1, 1, [3], rfl⟩
    let w := run host ⟨{ candidate := .generatedStrict }, fun _ => 5, []⟩
      [.read 1 view 1 1 none]
    let r : Request ℕ := .gemmStrictFusedPair 2 3 one one (some ⟨2, 1, [3, 4], rfl⟩)
      .strictF32 .strictF32 one
    ((r.apply host w).1.status =
      { code := .shapeMismatch, failedFrontier := 3, completedFrontier := 2 }) ∧
      (r.apply host w).2 = one ∧
      ∀ rs', run host (r.apply host w).1 rs' = (r.apply host w).1 := by
  intro host view one w r
  have h := failures_sticky_atomic host ⟨{ candidate := .generatedStrict }, fun _ => 5, []⟩
    [.read 1 view 1 1 none] r (by decide)
  exact ⟨by decide, h.2.1, fun rs' => (h.1 rs' r).1⟩

end Matcore.ClosedHost
