import Mathlib.Data.List.Nodup
import Mathlib.Data.List.Perm.Basic

/-!
# Token chains

Events that consume and produce tokens. In a chain every event consumes the token that the one
before it produces.
-/

namespace Token

open List (mem_cons mem_cons_self nodup_cons)

variable {E T : Type} {consumed produced : E → List T}

/-- The chain of `events` from one token to another, or to its end. -/
inductive Chain (consumed produced : E → List T) : T → List E → Option T → Prop where
  | nil (t : T) : Chain consumed produced t [] (some t)
  | step {t t' : T} {e : E} {rest : List E} {last : Option T} (consumes : consumed e = [t])
      (produces : produced e = [t']) (behind : Chain consumed produced t' rest last) :
      Chain consumed produced t (e :: rest) last
  | last {t : T} {e : E} (consumes : consumed e = [t]) (produces : produced e = []) :
      Chain consumed produced t [e] none

/-- No event consumes a token that a later one produces. -/
def Respects (consumed produced : E → List T) (order : List E) : Prop :=
  order.Pairwise fun e e' => ∀ t ∈ consumed e, t ∉ produced e'

namespace Chain

variable {t t' : T} {events events' : List E} {last : Option T} {a : E}

theorem append (h : Chain consumed produced t events (some t'))
    (h' : Chain consumed produced t' events' last) :
    Chain consumed produced t (events ++ events') last := by
  generalize hs : some t' = mid at h
  induction h with
  | nil =>
    cases hs
    exact h'
  | step hc hp _ ih => exact .step hc hp (ih hs)
  | last => cases hs

section

variable (h : Chain consumed produced t events last)

include h

/-- A chain consumes the token it starts with and those it produces, but for the last. -/
theorem balance :
    events.flatMap consumed ++ last.toList = t :: events.flatMap produced := by
  induction h with
  | nil => rfl
  | step hc hp _ ih => simp [hc, hp, ih]
  | last hc hp => simp [hc, hp]

/-- An event of a chain consumes the first token or one that the chain produces. -/
theorem mem_consumed (ha : a ∈ events) :
    ∃ x, consumed a = [x] ∧ (x = t ∨ ∃ b ∈ events, produced b = [x]) := by
  induction h with
  | nil => cases ha
  | @step t t' e rest _ hc hp _ ih =>
    rcases mem_cons.1 ha with rfl | ha
    · exact ⟨_, hc, .inl rfl⟩
    · obtain ⟨x, hx, heq | ⟨b, hb, hproduced⟩⟩ := ih ha
      · exact ⟨x, hx, .inr ⟨e, mem_cons_self, heq ▸ hp⟩⟩
      · exact ⟨x, hx, .inr ⟨b, List.mem_cons_of_mem _ hb, hproduced⟩⟩
  | last hc _ =>
    rw [List.mem_singleton.1 ha]
    exact ⟨_, hc, .inl rfl⟩

/-- No event consumes what it produces itself, when every token is produced once. -/
theorem not_mem_produced
    (hd : (t :: events.flatMap produced).Nodup) (ha : a ∈ events) {x : T} (hx : consumed a = [x]) :
    x ∉ produced a := by
  induction h with
  | nil => cases ha
  | @step t t' e rest _ hc hp _ ih =>
    have hbehind : (t' :: rest.flatMap produced).Nodup := by simpa [hp] using (nodup_cons.1 hd).2
    rcases mem_cons.1 ha with rfl | ha
    · rw [hc] at hx
      cases hx
      exact fun hmem => (nodup_cons.1 hd).1 (List.mem_flatMap.2 ⟨_, mem_cons_self, hmem⟩)
    · exact ih hbehind ha
  | last _ hp =>
    rw [List.mem_singleton.1 ha, hp]
    exact List.not_mem_nil

end

variable {first : E} {order : List E}

section

variable (h : Chain consumed produced t events last) (hf : produced first = [t])
  (hd : ((first :: events).flatMap produced).Nodup)

include h hf hd

/-- An order that respects the tokens begins as the chain does. -/
theorem head_eq (hperm : (a :: order).Perm (first :: events))
    (hr : Respects consumed produced (a :: order)) : a = first := by
  by_contra hne
  have hd' : (t :: events.flatMap produced).Nodup := by simpa [hf] using hd
  have ha : a ∈ events := by
    have hmem := hperm.subset mem_cons_self
    exact (mem_cons.1 hmem).resolve_left hne
  -- what `a` consumes is produced by an event that is not `a`, hence behind it
  obtain ⟨x, hx, hproducer⟩ := h.mem_consumed ha
  obtain ⟨b, hb, hproduced⟩ : ∃ b ∈ first :: events, produced b = [x] := by
    rcases hproducer with rfl | ⟨b, hb, hproduced⟩
    · exact ⟨first, mem_cons_self, hf⟩
    · exact ⟨b, List.mem_cons_of_mem _ hb, hproduced⟩
  have hself := h.not_mem_produced hd' ha hx
  have hab : b ≠ a := by
    rintro rfl
    exact hself (hproduced ▸ List.mem_singleton_self x)
  have hbehind : b ∈ order := (mem_cons.1 (hperm.symm.subset hb)).resolve_left hab
  exact (List.pairwise_cons.1 hr).1 b hbehind x (hx ▸ List.mem_singleton_self x)
    (hproduced ▸ List.mem_singleton_self x)

theorem eq_cons (hperm : order.Perm (first :: events)) (hr : Respects consumed produced order) :
    ∃ behind, order = first :: behind ∧ behind.Perm events := by
  cases order with
  | nil => exact absurd hperm.nil_eq nofun
  | cons a behind =>
    obtain rfl := h.head_eq hf hd hperm hr
    exact ⟨behind, rfl, hperm.cons_inv⟩

/-- No other order of the events respects their tokens. -/
theorem unique_schedule (hperm : order.Perm (first :: events))
    (hr : Respects consumed produced order) : order = first :: events := by
  induction h generalizing first order with
  | nil => exact List.perm_singleton.1 hperm
  | @step t t' e rest _ hc hp hrest ih =>
    obtain ⟨behind, rfl, hbehind⟩ := (Chain.step hc hp hrest).eq_cons hf hd hperm hr
    have hd' : ((e :: rest).flatMap produced).Nodup := by
      rw [List.flatMap_cons, hf] at hd
      exact (nodup_cons.1 hd).2
    rw [ih hp hd' hbehind (List.pairwise_cons.1 hr).2]
  | last hc hp =>
    obtain ⟨behind, rfl, hbehind⟩ := (Chain.last hc hp).eq_cons hf hd hperm hr
    rw [List.perm_singleton.1 hbehind]

end

end Chain

end Token
