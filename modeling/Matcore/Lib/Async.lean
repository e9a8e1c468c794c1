import Mathlib.Data.List.Basic

/-!
# Frames of asynchronous work

A client of a driver owns one frame of resources at a time, queues work that uses them, and
retires the frame: it destroys it, or keeps it for ever in a quarantine. `advance` says which
events a frame admits. Resources are released, and the frame is destroyed, only while no queued
work may be running; a result is written only when the last synchronisation proved it and no
release failed; a frame is quarantined only in trouble, and a frame in trouble is not destroyed.
-/

namespace Async

open List (foldlM_cons mem_cons_of_mem mem_cons_self mem_append mem_singleton)

section Triples

variable {σ α β : Type} {P P' : σ → Prop} {Q Q' : α → σ → Prop} {R : β → σ → Prop}
  {m : StateM σ α}

/-- From a state with `P`, `m` leads to a result and a state with `Q`. -/
def Triple (P : σ → Prop) (m : StateM σ α) (Q : α → σ → Prop) : Prop :=
  ∀ s, P s → Q (m s).1 (m s).2

theorem Triple.keep {a : α} : Triple P (pure a) fun _ => P := fun _ h => h

theorem Triple.pure {a : α} (h : ∀ s, P s → Q a s) : Triple P (pure a) Q := h

theorem Triple.bind {f : α → StateM σ β} (hm : Triple P m Q) (hf : ∀ a, Triple (Q a) (f a) R) :
    Triple P (m >>= f) R := by
  intro s hs
  exact hf _ _ (hm s hs)

theorem Triple.imp (hm : Triple P' m Q') (hP : ∀ s, P s → P' s) (hQ : ∀ a s, Q' a s → Q a s) :
    Triple P m Q := by
  intro s hs
  exact hQ _ _ (hm s (hP s hs))

theorem Triple.pre (hm : Triple P' m Q) (hP : ∀ s, P s → P' s) : Triple P m Q :=
  hm.imp hP fun _ _ h => h

theorem Triple.ite {c : Prop} [Decidable c] {m' : StateM σ α} (hm : c → Triple P m Q)
    (hm' : ¬ c → Triple P m' Q) : Triple P (if c then m else m') Q := by
  split
  · exact hm ‹_›
  · exact hm' ‹_›

theorem Triple.get {k : σ → StateM σ β} (h : ∀ s, P s → Triple (fun s' => s' = s) (k s) R) :
    Triple P (get >>= k) R := fun s hs => h s hs s rfl

end Triples

inductive Role (S : Type) where
  | plain
  | queue
  | synchronise
  | release (slot : S)
  | cleanup

inductive Event (C : Type) where
  | call (c : C) (succeeded : Bool)
  | write
  | destroy
  | quarantine
  deriving DecidableEq

inductive Progress where
  | idle
  | pending
  | unproven
  | proven
  deriving DecidableEq

inductive Fate where
  | destroyed
  | quarantined

/-- What the events of a frame say about it. -/
structure FrameState (S : Type) where
  progress : Progress := .idle
  released : List S := []
  broken : Bool := false
  written : Bool := false
  fate : Option Fate := none

variable {C F S R : Type} [DecidableEq S] {role : C → Role S}

/-- No queued work can be running. -/
def FrameState.Settled (s : FrameState S) : Prop := s.progress = .idle ∨ s.progress = .proven

/-- The last synchronisation failed, or a release did. -/
def FrameState.Troubled (s : FrameState S) : Prop := s.progress = .unproven ∨ s.broken = true

instance (s : FrameState S) : Decidable s.Settled := inferInstanceAs (Decidable (_ ∨ _))
instance (s : FrameState S) : Decidable s.Troubled := inferInstanceAs (Decidable (_ ∨ _))

def FrameState.onCall (s : FrameState S) (succeeded : Bool) : Role S → Option (FrameState S)
  | .plain => some s
  | .queue => some { s with progress := .pending }
  | .synchronise => some { s with progress := if succeeded then .proven else .unproven }
  | .release slot =>
    if s.Settled ∧ slot ∉ s.released then
      some { s with released := slot :: s.released, broken := s.broken || !succeeded }
    else none
  | .cleanup => some { s with broken := s.broken || !succeeded }

/-- One event of a frame. A retired frame admits none. -/
def advance (role : C → Role S) (s : FrameState S) (e : Event C) : Option (FrameState S) :=
  if s.fate ≠ none then none
  else match e with
    | .call c succeeded => s.onCall succeeded (role c)
    | .write =>
      if s.progress = .proven ∧ s.broken = false ∧ s.written = false then
        some { s with written := true }
      else none
    | .destroy =>
      if s.Settled ∧ s.broken = false then some { s with fate := some .destroyed } else none
    | .quarantine => if s.Troubled then some { s with fate := some .quarantined } else none

/-- Events with the frame they belong to. -/
abbrev Log (C : Type) := List (Option ℕ × Event C)

def eventsOf (log : Log C) (f : ℕ) : List (Event C) :=
  log.filterMap fun e => if e.1 = some f then some e.2 else none

/-- The state of frame `f`, if all its events were admitted. -/
def replay (role : C → Role S) (log : Log C) (f : ℕ) : Option (FrameState S) :=
  (eventsOf log f).foldlM (advance role) {}

/-- The frame was destroyed, or it was quarantined because it was in trouble. -/
def Retired (role : C → Role S) (log : Log C) (f : ℕ) : Prop :=
  ∃ s, replay role log f = some s ∧
    (s.fate = some .destroyed ∧ ¬ s.Troubled ∨ s.fate = some .quarantined ∧ s.Troubled)

theorem eventsOf_append (log log' : Log C) (f : ℕ) :
    eventsOf (log ++ log') f = eventsOf log f ++ eventsOf log' f :=
  List.filterMap_append

theorem replay_concat_same (log : Log C) (f : ℕ) (e : Event C) :
    replay role (log ++ [(some f, e)]) f = (replay role log f).bind fun s => advance role s e := by
  unfold replay
  rw [eventsOf_append, List.foldlM_append]
  have hlast : eventsOf [(some f, e)] f = [e] := by simp [eventsOf]
  rw [hlast]
  cases (eventsOf log f).foldlM (advance role) {} with
  | none => rfl
  | some s => simp

variable {f : ℕ} {log : Log C} {g : Option ℕ}

theorem replay_concat_other (e : Event C) (hg : g ≠ some f) :
    replay role (log ++ [(g, e)]) f = replay role log f := by
  unfold replay
  have hlast : eventsOf [(g, e)] f = [] := by simp [eventsOf, hg]
  rw [eventsOf_append, hlast, List.append_nil]

/-- Nothing has happened to a frame that no event names. -/
theorem replay_fresh (h : ∀ e ∈ log, e.1 ≠ some f) : replay role log f = some {} := by
  unfold replay
  have hnone : eventsOf log f = [] := by
    unfold eventsOf
    rw [List.filterMap_eq_nil_iff]
    intro e he
    rw [if_neg (h e he)]
  rw [hnone]
  rfl

variable {s s' : FrameState S}

theorem onCall_fate {succeeded : Bool} {r : Role S} (h : s.onCall succeeded r = some s') :
    s'.fate = s.fate := by
  cases r <;> simp only [FrameState.onCall] at h <;> grind

variable {e : Event C}

theorem advance_fate (h : advance role s e = some s') : s.fate = none := by
  unfold advance at h
  split at h
  · cases h
  · rename_i hfate
    exact not_not.1 hfate

theorem replay_split {pre post : Log C} (h : replay role (pre ++ (some f, e) :: post) f = some s) :
    ∃ t t', replay role pre f = some t ∧ advance role t e = some t' ∧
      (eventsOf post f).foldlM (advance role) t' = some s := by
  have hmine : eventsOf ((some f, e) :: post) f = e :: eventsOf post f := by
    simp [eventsOf]
  unfold replay at h
  rw [eventsOf_append, hmine, List.foldlM_append] at h
  obtain ⟨t, ht, h⟩ := Option.bind_eq_some_iff.1 h
  rw [foldlM_cons] at h
  obtain ⟨t', ht', h⟩ := Option.bind_eq_some_iff.1 h
  exact ⟨t, t', ht, ht', h⟩

variable {events : List (Event C)}

theorem foldlM_retired (hs : s.fate ≠ none) (h : events.foldlM (advance role) s = some s') :
    s' = s := by
  cases events with
  | nil =>
    rw [List.foldlM_nil] at h
    exact (Option.some.inj h).symm
  | cons e rest =>
    rw [foldlM_cons] at h
    obtain ⟨t, ht, -⟩ := Option.bind_eq_some_iff.1 h
    exact absurd (advance_fate ht) hs

/-- The fate that an event gives its frame is the one it ends with. -/
theorem fate_of_mem {fate : Fate} (hfate : ∀ t t', advance role t e = some t' → t'.fate = some fate)
    (he : (some f, e) ∈ log) (h : replay role log f = some s) : s.fate = some fate := by
  obtain ⟨pre, post, rfl⟩ := List.append_of_mem he
  obtain ⟨t, t', -, ht', hrest⟩ := replay_split h
  have hretired := hfate t t' ht'
  rw [foldlM_retired (by rw [hretired]; exact Option.some_ne_none fate) hrest]
  exact hretired

variable {t t' : FrameState S}

theorem advance_destroy (h : advance role t .destroy = some t') : t'.fate = some .destroyed := by
  unfold advance at h
  grind

theorem advance_quarantine (h : advance role t .quarantine = some t') :
    t'.fate = some .quarantined := by
  unfold advance at h
  grind

/-- **No frame is both destroyed and quarantined.** -/
theorem Retired.exclusive (h : Retired role log f) :
    ¬ ((some f, .destroy) ∈ log ∧ (some f, .quarantine) ∈ log) := by
  rintro ⟨hd, hq⟩
  obtain ⟨s, hs, -⟩ := h
  have hdestroyed := fate_of_mem (fun _ _ => advance_destroy) hd hs
  have hquarantined := fate_of_mem (fun _ _ => advance_quarantine) hq hs
  rw [hdestroyed] at hquarantined
  cases hquarantined

theorem foldlM_quarantined (h : events.foldlM (advance role) s = some s') (hs : s.fate = none)
    (hs' : s'.fate = some .quarantined) : .quarantine ∈ events := by
  induction events generalizing s with
  | nil =>
    rw [List.foldlM_nil] at h
    rw [← Option.some.inj h, hs] at hs'
    cases hs'
  | cons e rest ih =>
    rw [foldlM_cons] at h
    obtain ⟨t, ht, hrest⟩ := Option.bind_eq_some_iff.1 h
    by_cases hfate : t.fate = none
    · exact mem_cons_of_mem e (ih hrest hfate)
    · have hlast := foldlM_retired hfate hrest
      subst hlast
      cases e with
      | quarantine => exact mem_cons_self
      | destroy =>
        rw [advance_destroy ht] at hs'
        cases hs'
      | call c succeeded =>
        unfold advance at ht
        rw [if_neg (not_not.2 hs)] at ht
        exact absurd ((onCall_fate ht).trans hs) hfate
      | write =>
        unfold advance at ht
        grind

/-- A frame in trouble is in the quarantine. -/
theorem Retired.quarantined (h : Retired role log f) (hs : replay role log f = some s)
    (htroubled : s.Troubled) : (some f, .quarantine) ∈ log := by
  obtain ⟨s', hs', hfate⟩ := h
  rw [hs] at hs'
  cases hs'
  have hmem : Event.quarantine ∈ eventsOf log f := by
    rcases hfate with ⟨-, hno⟩ | ⟨hquarantined, -⟩
    · exact absurd htroubled hno
    · exact foldlM_quarantined hs rfl hquarantined
  obtain ⟨e, he, heq⟩ := List.mem_filterMap.1 hmem
  split at heq
  · rename_i hf
    have hpair : e = (some f, .quarantine) := Prod.ext hf (Option.some.inj heq)
    rwa [hpair] at he
  · cases heq

/-- How a client reads the replies of its driver: the role of a call, the check that decides
whether it succeeded, and what it stores in the frame. -/
structure Adapter (C S F R : Type) where
  role : C → Role S
  accepts : C → F → R → Bool
  update : C → R → F → F

/-- `frames` counts the frames opened so far, `current` is the one in use. -/
structure World (C F : Type) where
  poisoned : Bool := false
  quarantineHead : List F := []
  current : Option ℕ := none
  frame : F
  frames : ℕ := 0
  calls : ℕ := 0
  log : Log C := []

/-- `driver` lists the replies of the driver, in the order of all calls. -/
def call (ad : Adapter C S F R) (driver : ℕ → R) (c : C) : StateM (World C F) (Bool × R) :=
  fun w =>
    let reply := driver w.calls
    let succeeded := ad.accepts c w.frame reply
    ((succeeded, reply),
      { w with
        calls := w.calls + 1
        frame := ad.update c reply w.frame
        log := w.log ++ [(w.current, .call c succeeded)] })

/-- A call of which only the success is read. -/
def perform (ad : Adapter C S F R) (driver : ℕ → R) (c : C) : StateM (World C F) Bool :=
  Prod.fst <$> call ad driver c

/-- Calls in a row, up to the first that fails. -/
def attempt (ad : Adapter C S F R) (driver : ℕ → R) : List C → StateM (World C F) Bool
  | [] => pure true
  | c :: rest => do
    if ← perform ad driver c then attempt ad driver rest else pure false

/-- Releases every slot that is held, whatever becomes of the others. -/
def releaseAll (ad : Adapter C S F R) (driver : ℕ → R) (held : F → S → Bool) (free : S → C) :
    List S → Bool → StateM (World C F) Bool
  | [], okay => pure okay
  | slot :: rest, okay => do
    let w ← get
    if held w.frame slot then
      let succeeded ← perform ad driver (free slot)
      releaseAll ad driver held free rest (okay && succeeded)
    else releaseAll ad driver held free rest okay

def openFrame (fresh : F) : StateM (World C F) Unit :=
  modify fun w => { w with current := some w.frames, frames := w.frames + 1, frame := fresh }

def touch (g : F → F) : StateM (World C F) Unit := modify fun w => { w with frame := g w.frame }

def poison : StateM (World C F) Unit := modify fun w => { w with poisoned := true }

def record (e : Event C) : StateM (World C F) Unit :=
  modify fun w => { w with log := w.log ++ [(w.current, e)] }

def closeFrame : StateM (World C F) Unit := modify fun w => { w with current := none }

/-- The end of the owner of a frame. -/
def destroy : StateM (World C F) Unit := do
  record .destroy
  closeFrame

/-- The owner lets its frame go into the quarantine. -/
def quarantine : StateM (World C F) Unit := do
  poison
  modify fun w => { w with quarantineHead := w.frame :: w.quarantineHead }
  record .quarantine
  closeFrame

/-- One request of a series: what it asked for and returned, and the states around it. -/
structure Record (I α σ : Type) where
  request : I
  result : α
  before : σ
  after : σ

variable {I α σ : Type}

def series (invoke : I → StateM σ α) : List I → σ → List (Record I α σ)
  | [], _ => []
  | request :: rest, w =>
    let outcome := invoke request w
    ⟨request, outcome.1, w, outcome.2⟩ :: series invoke rest outcome.2

/-- The log grew from `base`, and by no write if `quiet` holds. -/
def Grown (base : Log C) (quiet : Prop) (log : Log C) : Prop :=
  ∃ new, log = base ++ new ∧ (quiet → ∀ e ∈ new, e.2 ≠ .write)

/-- Frame `f` is in use, in a state with `P`. -/
structure OpenAt (ad : Adapter C S F R) (base : Log C) (quiet : Prop)
    (P : Bool → FrameState S → F → Prop) (f : ℕ) (s : FrameState S) (w : World C F) : Prop where
  current : w.current = some f
  frames : w.frames = f + 1
  named : ∀ e ∈ w.log, ∀ g, e.1 = some g → g ≤ f
  retired : ∀ g < f, Retired ad.role w.log g
  running : replay ad.role w.log f = some s
  alive : s.fate = none
  clean : ∀ g, (some g, .quarantine) ∉ w.log
  grown : Grown base quiet w.log
  holds : P w.poisoned s w.frame

def Open (ad : Adapter C S F R) (base : Log C) (quiet : Prop)
    (P : Bool → FrameState S → F → Prop) (w : World C F) : Prop :=
  ∃ f s, OpenAt ad base quiet P f s w

/-- No frame is in use: every frame is retired, and the client is poisoned if and only if one is
in the quarantine. -/
structure Closed (ad : Adapter C S F R) (w : World C F) : Prop where
  current : w.current = none
  named : ∀ e ∈ w.log, ∀ g, e.1 = some g → g < w.frames
  retired : ∀ g < w.frames, Retired ad.role w.log g
  poisoned : w.poisoned = true ↔ ∃ g, (some g, .quarantine) ∈ w.log

/-- Between frames, after the log grew from `base`. -/
def Between (ad : Adapter C S F R) (base : Log C) (quiet : Prop) (w : World C F) : Prop :=
  Closed ad w ∧ Grown base quiet w.log

/-- Between frames, and no frame is in the quarantine. -/
def Ready (ad : Adapter C S F R) (base : Log C) (quiet : Prop) (w : World C F) : Prop :=
  Between ad base quiet w ∧ w.poisoned = false

/-- Nothing was released or written yet, and nothing failed for good. -/
structure Using (p : Bool) (s : FrameState S) : Prop where
  unpoisoned : p = false
  released : s.released = []
  broken : s.broken = false
  written : s.written = false

/-- The work of the frame was completed, and nothing failed since. -/
def Done (p : Bool) (s : FrameState S) (_ : F) : Prop :=
  p = false ∧ s.progress = .proven ∧ s.broken = false

section Rules

variable {ad : Adapter C S F R} {driver : ℕ → R} {base : Log C} {quiet quiet' : Prop}
  {P Q : Bool → FrameState S → F → Prop}

/-- **The run rule.** What every request keeps holds around each request of a series. -/
theorem forall_series {invoke : I → StateM σ α} {Inv : σ → Prop} {Step : Record I α σ → Prop}
    (step : ∀ i w, Inv w → Inv (invoke i w).2 ∧ Step ⟨i, (invoke i w).1, w, (invoke i w).2⟩)
    {requests : List I} {w : σ} (hw : Inv w) : ∀ r ∈ series invoke requests w, Step r := by
  induction requests generalizing w with
  | nil => exact fun r hr => absurd hr List.not_mem_nil
  | cons i rest ih =>
    obtain ⟨hafter, hstep⟩ := step i w hw
    refine List.forall_mem_cons.2 ⟨?_, ih hafter⟩
    exact hstep

theorem Grown.refl (base : Log C) (quiet : Prop) : Grown base quiet base :=
  ⟨[], (List.append_nil base).symm, fun _ _ he => absurd he List.not_mem_nil⟩

variable {log : Log C}

theorem Grown.concat (h : Grown base quiet log) {e : Option ℕ × Event C} (he : quiet → e.2 ≠ .write) :
    Grown base quiet (log ++ [e]) := by
  obtain ⟨new, hlog, hnew⟩ := h
  refine ⟨new ++ [e], by rw [hlog, List.append_assoc], fun hq e' he' => ?_⟩
  rcases mem_append.1 he' with hmem | hmem
  · exact hnew hq e' hmem
  · rw [mem_singleton.1 hmem]
    exact he hq

theorem Grown.weaken (h : Grown base quiet log) (hq : quiet' → quiet) : Grown base quiet' log := by
  obtain ⟨new, hlog, hnew⟩ := h
  exact ⟨new, hlog, fun hq' => hnew (hq hq')⟩

variable {w : World C F}

theorem Open.imp (h : Open ad base quiet P w) (hPQ : ∀ p s fr, P p s fr → Q p s fr) :
    Open ad base quiet Q w := by
  obtain ⟨f, s, h⟩ := h
  exact ⟨f, s, { h with holds := hPQ _ _ _ h.holds }⟩

theorem Open.weaken (h : Open ad base quiet P w) (hq : quiet' → quiet) :
    Open ad base quiet' P w := by
  obtain ⟨f, s, h⟩ := h
  exact ⟨f, s, { h with grown := h.grown.weaken hq }⟩

theorem Between.weaken (h : Between ad base quiet w) (hq : quiet' → quiet) :
    Between ad base quiet' w := ⟨h.1, h.2.weaken hq⟩

theorem between_pure {α : Type} {Q : α → Prop} {a : α} :
    Triple (Between ad base True) (pure a) fun a => Between ad base (Q a) :=
  fun _ h => h.weaken fun _ => trivial

variable {f : ℕ}

theorem Retired.concat (h : Retired role log f) (e : Event C) (hg : g ≠ some f) :
    Retired role (log ++ [(g, e)]) f := by
  obtain ⟨s, hs, hfate⟩ := h
  exact ⟨s, by rw [replay_concat_other e hg, hs], hfate⟩

variable {s : FrameState S}

theorem OpenAt.named_concat (h : OpenAt ad base quiet P f s w) (e : Event C) :
    ∀ e' ∈ w.log ++ [(w.current, e)], ∀ g, e'.1 = some g → g ≤ f := by
  intro e' he' g hg
  rcases mem_append.1 he' with hmem | hmem
  · exact h.named e' hmem g hg
  · rw [mem_singleton.1 hmem] at hg
    rw [h.current] at hg
    exact Nat.le_of_eq (Option.some.inj hg).symm

/-- An admitted event of the frame in use. -/
theorem OpenAt.event (h : OpenAt ad base quiet P f s w) (hs : advance ad.role s e = some s')
    (halive : s'.fate = none) (hquiet : quiet → e ≠ .write) {fr : F} {calls : ℕ}
    (hQ : Q w.poisoned s' fr) :
    OpenAt ad base quiet Q f s'
      { w with frame := fr, calls := calls, log := w.log ++ [(w.current, e)] } where
  current := h.current
  frames := h.frames
  named := h.named_concat e
  retired := by
    intro g hg
    refine (h.retired g hg).concat e ?_
    rw [h.current]
    exact fun heq => Nat.ne_of_gt hg (Option.some.inj heq)
  running := by
    rw [h.current, replay_concat_same, h.running]
    exact hs
  alive := halive
  clean := by
    intro g hmem
    rcases mem_append.1 hmem with hmem | hmem
    · exact h.clean g hmem
    · have heq : Event.quarantine = e := congrArg Prod.snd (mem_singleton.1 hmem)
      subst heq
      rw [advance_quarantine hs] at halive
      cases halive
  grown := h.grown.concat hquiet
  holds := hQ

/-- The event that retires the frame in use. -/
theorem OpenAt.retire (h : OpenAt ad base quiet P f s w) (hs : advance ad.role s e = some s')
    (hfate : s'.fate = some .destroyed ∧ ¬ s'.Troubled ∨ s'.fate = some .quarantined ∧ s'.Troubled)
    (hwrite : e ≠ .write) {poisoned : Bool} (hpoisoned : poisoned = true ↔ e = .quarantine)
    {head : List F} :
    Between ad base quiet
      { w with
        poisoned := poisoned, quarantineHead := head, current := none
        log := w.log ++ [(w.current, e)] } := by
  refine ⟨⟨rfl, ?_, ?_, ?_⟩, h.grown.concat fun _ => hwrite⟩
  · intro e' he' g hg
    have hle := h.named_concat e e' he' g hg
    have hframes := h.frames
    simp only
    omega
  · intro g hg
    rw [h.current]
    by_cases hgf : g = f
    · subst hgf
      refine ⟨s', ?_, hfate⟩
      rw [replay_concat_same, h.running]
      exact hs
    · have hframes := h.frames
      simp only at hg
      refine (h.retired g (by omega)).concat e ?_
      exact fun heq => hgf (Option.some.inj heq).symm
  · simp only
    rw [hpoisoned, h.current]
    constructor
    · rintro rfl
      exact ⟨f, List.mem_append_right _ (List.mem_singleton_self _)⟩
    · rintro ⟨g, hmem⟩
      rcases mem_append.1 hmem with hmem | hmem
      · exact absurd hmem (h.clean g)
      · exact (congrArg Prod.snd (mem_singleton.1 hmem)).symm

variable {c : C}

theorem call_spec {K : Bool → R → Bool → FrameState S → F → Prop}
    (h : ∀ p s fr reply, P p s fr → ∃ s', s.onCall (ad.accepts c fr reply) (ad.role c) = some s' ∧
      K (ad.accepts c fr reply) reply p s' (ad.update c reply fr)) :
    Triple (Open ad base quiet P) (call ad driver c)
      fun r => Open ad base quiet (K r.1 r.2) := by
  rintro w ⟨f, s, hw⟩
  obtain ⟨s', hs', hK⟩ := h _ s w.frame (driver w.calls) hw.holds
  have hfate := onCall_fate hs'
  refine ⟨f, s', hw.event ?_ (by rw [hfate, hw.alive]) (fun _ heq => by cases heq) hK⟩
  unfold advance
  rw [if_neg (by rw [hw.alive]; exact fun hne => hne rfl)]
  exact hs'

theorem perform_spec {K : Bool → Bool → FrameState S → F → Prop}
    (h : ∀ p s fr reply, P p s fr → ∃ s', s.onCall (ad.accepts c fr reply) (ad.role c) = some s' ∧
      K (ad.accepts c fr reply) p s' (ad.update c reply fr)) :
    Triple (Open ad base quiet P) (perform ad driver c)
      fun succeeded => Open ad base quiet (K succeeded) :=
  call_spec (K := fun succeeded _ => K succeeded) h

/-- A property of the frame that every call keeps holds after an attempt. -/
theorem attempt_spec {cs : List C} (h : ∀ c ∈ cs, ∀ p s fr reply, P p s fr →
      ∃ s', s.onCall (ad.accepts c fr reply) (ad.role c) = some s' ∧ P p s' (ad.update c reply fr)) :
    Triple (Open ad base quiet P) (attempt ad driver cs) fun _ => Open ad base quiet P := by
  induction cs with
  | nil => exact Triple.pure fun _ hw => hw
  | cons c rest ih =>
    have hcall : Triple (Open ad base quiet P) (perform ad driver c) fun _ => Open ad base quiet P :=
      perform_spec (K := fun _ => P) (h c mem_cons_self)
    refine hcall.bind fun succeeded => ?_
    refine Triple.ite (fun _ => ih fun c' hc' => h c' (mem_cons_of_mem c hc')) fun _ => ?_
    exact Triple.pure fun _ hw => hw

theorem call_between :
    Triple (Ready ad base quiet) (call ad driver c) fun _ => Ready ad base quiet := by
  rintro w ⟨⟨hclosed, hgrown⟩, hclean⟩
  refine ⟨⟨⟨hclosed.current, ?_, ?_, ?_⟩, hgrown.concat fun _ heq => by cases heq⟩, hclean⟩
  · intro e he g hg
    rcases mem_append.1 he with hmem | hmem
    · exact hclosed.named e hmem g hg
    · rw [mem_singleton.1 hmem, hclosed.current] at hg
      cases hg
  · intro g hg
    refine (hclosed.retired g hg).concat _ ?_
    rw [hclosed.current]
    exact fun heq => by cases heq
  · refine hclosed.poisoned.trans ⟨fun ⟨g, hmem⟩ => ⟨g, List.mem_append_left _ hmem⟩, ?_⟩
    rintro ⟨g, hmem⟩
    rcases mem_append.1 hmem with hmem | hmem
    · exact ⟨g, hmem⟩
    · cases congrArg Prod.snd (mem_singleton.1 hmem)

theorem perform_between :
    Triple (Ready ad base quiet) (perform ad driver c) fun _ => Ready ad base quiet :=
  call_between

/-- A client that is poisoned stops at once. -/
theorem guarded_spec {stopped : α} {m : StateM (World C F) α} {Q : α → World C F → Prop}
    (hstop : ∀ w, Between ad base quiet w → Q stopped w) (hm : Triple (Ready ad base quiet) m Q) :
    Triple (Between ad base quiet) (do if (← get).poisoned then return stopped else m) Q := by
  refine Triple.get fun w₀ hw => ?_
  refine Triple.ite (fun _ => Triple.pure ?_) fun hpoisoned => hm.pre ?_
  · rintro w rfl
    exact hstop w hw
  · rintro w rfl
    exact ⟨hw, Bool.of_not_eq_true hpoisoned⟩

/-- The state of a frame while its resources are being released: those in `slots` are left. -/
structure Releasing (slots : List S) (okay : Bool) (progress : Progress) (p : Bool)
    (s : FrameState S) : Prop where
  unpoisoned : p = false
  progress_eq : s.progress = progress
  left : ∀ slot ∈ slots, slot ∉ s.released
  okay_eq : s.broken = !okay
  unwritten : s.written = false

omit [DecidableEq S] in
theorem Using.onProgress (h : Using p s) (progress : Progress) :
    Using p { s with progress := progress } :=
  ⟨h.unpoisoned, h.released, h.broken, h.written⟩

omit [DecidableEq S] in
theorem Using.releasing (h : Using p s) {progress : Progress} (hprogress : s.progress = progress)
    (slots : List S) : Releasing slots true progress p s := by
  refine ⟨h.unpoisoned, hprogress, ?_, h.broken, h.written⟩
  rw [h.released]
  exact fun _ _ => List.not_mem_nil

theorem releaseAll_spec {held : F → S → Bool} {free : S → C} {progress : Progress}
    (hfree : ∀ slot, ad.role (free slot) = .release slot)
    (hprogress : progress = .idle ∨ progress = .proven) {slots : List S} (hnodup : slots.Nodup)
    {more : List S} (hmore : ∀ slot ∈ slots, slot ∉ more) (okay : Bool) :
    Triple (Open ad base quiet fun p s _ => Releasing (slots ++ more) okay progress p s)
      (releaseAll ad driver held free slots okay)
      fun okay => Open ad base quiet fun p s _ => Releasing more okay progress p s := by
  induction slots generalizing okay with
  | nil => exact Triple.pure fun _ hw => hw
  | cons slot rest ih =>
    have ih := ih hnodup.of_cons fun x hx => hmore x (mem_cons_of_mem slot hx)
    have hslot : slot ∉ rest ++ more := by
      intro hmem
      rcases mem_append.1 hmem with hmem | hmem
      · exact (List.nodup_cons.1 hnodup).1 hmem
      · exact hmore slot mem_cons_self hmem
    unfold releaseAll
    refine Triple.get fun w hw => ?_
    split
    · have hcall : Triple (fun w' => w' = w) (perform ad driver (free slot)) fun succeeded =>
          Open ad base quiet fun p s _ =>
            Releasing (rest ++ more) (okay && succeeded) progress p s := by
        refine (perform_spec (K := fun succeeded p s _ =>
          Releasing (rest ++ more) (okay && succeeded) progress p s) ?_).pre fun _ h => h ▸ hw
        intro p s fr reply hs
        have hsettled : s.Settled := by
          unfold FrameState.Settled
          rw [hs.progress_eq]
          exact hprogress
        have hnew := hs.left slot mem_cons_self
        rw [hfree]
        refine ⟨_, if_pos ⟨hsettled, hnew⟩, ⟨hs.unpoisoned, hs.progress_eq, ?_, ?_, hs.unwritten⟩⟩
        · intro x hx hmem
          rcases List.mem_cons.1 hmem with rfl | hmem
          · exact hslot hx
          · exact hs.left x (mem_cons_of_mem slot hx) hmem
        · have hokay := hs.okay_eq
          simp only [hokay, Bool.not_and]
      exact hcall.bind fun succeeded => ih (okay && succeeded)
    · have hskip : Open ad base quiet (fun p s _ => Releasing (rest ++ more) okay progress p s) w :=
        hw.imp fun p s _ hs => { hs with left := fun x hx => hs.left x (mem_cons_of_mem slot hx) }
      exact (ih okay).pre fun _ h => h ▸ hskip

theorem openFrame_spec {fresh : F} :
    Triple (Ready ad base quiet) (openFrame fresh)
      fun _ => Open ad base quiet fun p s fr => p = false ∧ s = {} ∧ fr = fresh := by
  rintro w ⟨⟨hclosed, hgrown⟩, hclean⟩
  refine ⟨w.frames, {}, rfl, rfl, ?_, hclosed.retired, ?_, rfl, ?_, hgrown, hclean, rfl, rfl⟩
  · intro e he g hg
    exact Nat.le_of_lt (hclosed.named e he g hg)
  · exact replay_fresh fun e he heq => Nat.lt_irrefl _ (hclosed.named e he _ heq)
  · intro g hmem
    have hpoisoned := hclosed.poisoned.2 ⟨g, hmem⟩
    rw [hclean] at hpoisoned
    cases hpoisoned

theorem touch_spec {g : F → F} (h : ∀ p s fr, P p s fr → Q p s (g fr)) :
    Triple (Open ad base quiet P) (touch g) fun _ => Open ad base quiet Q := by
  rintro w ⟨f, s, hw⟩
  exact ⟨f, s, { hw with holds := h _ _ _ hw.holds }⟩

theorem poison_spec (h : ∀ p s fr, P p s fr → Q true s fr) :
    Triple (Open ad base quiet P) poison fun _ => Open ad base quiet Q := by
  rintro w ⟨f, s, hw⟩
  exact ⟨f, s, { hw with holds := h _ _ _ hw.holds }⟩

/-- A result is written once, when its completion was proven and nothing failed since. -/
theorem write_spec (hquiet : ¬ quiet) :
    Triple
      (Open ad base quiet fun p s _ =>
        p = false ∧ s.progress = .proven ∧ s.broken = false ∧ s.written = false)
      (record .write)
      fun _ => Open ad base quiet Done := by
  rintro w ⟨f, s, hw⟩
  obtain ⟨hp, hproven, hbroken, hwritten⟩ := hw.holds
  have hstep : advance ad.role s (.write : Event C) = some { s with written := true } := by
    unfold advance
    rw [if_neg (by rw [hw.alive]; exact fun hne => hne rfl)]
    exact if_pos ⟨hproven, hbroken, hwritten⟩
  exact ⟨f, _, hw.event (Q := Done) hstep hw.alive (fun h => absurd h hquiet) ⟨hp, hproven, hbroken⟩⟩

theorem destroy_spec :
    Triple (Open ad base quiet fun p s _ => p = false ∧ s.Settled ∧ s.broken = false) destroy
      fun _ => Between ad base quiet := by
  rintro w ⟨f, s, hw⟩
  obtain ⟨hp, hsettled, hbroken⟩ := hw.holds
  have hpoisoned : w.poisoned = true ↔ (.destroy : Event C) = .quarantine := by
    rw [hp]
    exact ⟨fun h => Bool.noConfusion h, fun h => by cases h⟩
  have hstep : advance ad.role s (.destroy : Event C) = some { s with fate := some .destroyed } := by
    unfold advance
    rw [if_neg (by rw [hw.alive]; exact fun hne => hne rfl)]
    exact if_pos ⟨hsettled, hbroken⟩
  refine hw.retire hstep (Or.inl ⟨rfl, ?_⟩) (fun h => by cases h) hpoisoned
  rintro (hunproven | htrue)
  · rcases hsettled with h | h <;> rw [h] at hunproven <;> cases hunproven
  · rw [hbroken] at htrue
    cases htrue

theorem write_released :
    Triple (Open ad base True fun p s _ => Releasing (S := S) [] true .proven p s) (record .write)
      fun _ => Open ad base False Done :=
  (write_spec not_false).pre fun _ hw => (hw.weaken fun h => h.elim).imp fun _ _ _ hs =>
    ⟨hs.unpoisoned, hs.progress_eq, hs.okay_eq, hs.unwritten⟩

theorem destroy_done : Triple (Open ad base quiet Done) destroy fun _ => Between ad base quiet :=
  destroy_spec.pre fun _ hw => hw.imp fun _ _ _ hs => ⟨hs.1, Or.inr hs.2.1, hs.2.2⟩

theorem quarantine_spec :
    Triple (Open ad base quiet fun _ s _ => s.Troubled) quarantine
      fun _ => Between ad base quiet := by
  rintro w ⟨f, s, hw⟩
  have hstep : advance ad.role s (.quarantine : Event C) =
      some { s with fate := some .quarantined } := by
    unfold advance
    rw [if_neg (by rw [hw.alive]; exact fun hne => hne rfl)]
    exact if_pos hw.holds
  exact hw.retire hstep (Or.inr ⟨rfl, hw.holds⟩) (fun h => by cases h) ⟨fun _ => rfl, fun _ => rfl⟩

end Rules

end Async
