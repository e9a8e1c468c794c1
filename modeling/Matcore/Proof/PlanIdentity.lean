import Matcore.ClosedHost.Derive
import Matcore.Proof.FrontierPath

/-!
# The identity of a derived plan

The records of a plan are hashed as numbers between colons, without anything behind a list that
would end it.
-/

namespace Matcore.ClosedHost

open ClosedRegion
open List (append_cancel_left append_inj)
open Mlir (ascii)
open Texts (Begins Splits)

/-- The text of a list of numbers is that of no other list. -/
theorem numbersText_injective : Function.Injective numbersText := by
  have hnumber : Splits (fun _ : ℕ => True) (fun n => ascii ":" ++ ascii (toString n))
      (Begins fun c => decide (c = 58)) id :=
    ((Splits.lit _).andThen (splits_decimal (by decide))).shows
      fun _ _ _ _ h => (Prod.mk.inj h).2
  intro l m h
  have hlists := hnumber.flatMap (· = []) (fun _ _ _ => .lit rfl _) (by rintro _ rfl; exact .nil)
    (fun _ _ _ => List.cons_ne_nil _ _) l m [] [] (by simp) (by simp) rfl rfl
  simpa using (hlists (congrArg (· ++ []) h)).1

/-- Rows of equal width, behind their number. -/
theorem splits_counted {α : Type} {row : α → List ℕ} {width : ℕ}
    (hrow : Function.Injective row) (hwidth : ∀ a, (row a).length = width) :
    Splits (fun _ : List α => True) (fun l => l.length :: l.flatMap row) (fun _ => True) id := by
  intro l m s t _ _ _ _ h
  obtain ⟨hlength, hrows⟩ := List.cons.inj h
  clear h
  induction l generalizing m with
  | nil =>
    cases m with
    | nil => exact ⟨rfl, hrows⟩
    | cons => cases hlength
  | cons a l ih =>
    cases m with
    | nil => cases hlength
    | cons b m =>
      replace hrows : row a ++ l.flatMap row ++ s = row b ++ m.flatMap row ++ t := hrows
      rw [List.append_assoc, List.append_assoc] at hrows
      obtain ⟨hab, hrows⟩ := append_inj hrows (by rw [hwidth, hwidth])
      obtain ⟨hlm, hst⟩ := ih m (Nat.succ.inj hlength) hrows
      exact ⟨congrArg₂ List.cons (hrow hab) hlm, hst⟩

/-- The numbers of a plan on the stream. -/
def Plan.numbers (plan : Plan) : List ℕ :=
  plan.reads.length :: plan.reads.flatMap (·.numbers) ++
    (strictPairContractRevision :: (plan.pairs.length :: plan.pairs.flatMap (·.numbers) ++ []))

theorem Plan.numbers_injective : Function.Injective numbers := by
  have hfour : ∀ read : ForwardedRead, read.numbers.length = 4 := fun _ => rfl
  have hten : ∀ pair : StrictFusedPair, pair.numbers.length = 10 := fun _ => rfl
  have hreads : Function.Injective ForwardedRead.numbers := by
    rintro ⟨⟩ ⟨⟩ h
    simpa [ForwardedRead.numbers] using h
  have hpairs : Function.Injective StrictFusedPair.numbers := by
    rintro ⟨⟩ ⟨⟩ h
    simpa [StrictFusedPair.numbers] using h
  intro p q h
  unfold numbers at h
  obtain ⟨hp, h⟩ := splits_counted hreads hfour p.reads q.reads _ _ trivial trivial trivial
    trivial h
  obtain ⟨hq, -⟩ := splits_counted hpairs hten p.pairs q.pairs [] [] trivial trivial
    trivial trivial (List.cons.inj h).2
  cases p
  cases q
  exact congrArg₂ Plan.mk hp hq

theorem splits_name : Splits (fun _ : Optimization => True)
    (fun o => ascii (closedHostOptimizationName o)) (Begins fun c => decide (c = 58)) id := by
  refine (Splits.token fun o _ => ?_).shows fun o o' _ _ h => ?_
  · cases o <;> simp [closedHostOptimizationName, ascii]
  · cases o <;> cases o' <;> first | rfl | exact absurd h (by decide)

theorem length_of_digest {value : Text} (h : digest value = true) : value.length = 64 := by
  simp only [digest, Bool.and_eq_true, beq_iff_eq] at h
  exact h.1

theorem Snapshot.length_host (s : Snapshot) : s.hostContextIdentity.length = 71 := by
  have hlength := length_of_digest s.host.2
  rw [List.length_drop] at hlength
  omega

theorem planBytes_eq (s : Snapshot) (o : Optimization) (plan : Plan) :
    planBytes s o plan = ascii "matcore.closed_host.derived_plan:" ++
      (ascii (toString planRevision) ++ (ascii ":" ++ (ascii (closedHostOptimizationName o) ++
        (ascii ":" ++ (s.semanticSha256 ++ (ascii ":" ++ (s.hostContextIdentity ++
          numbersText plan.numbers))))))) := by
  simp only [planBytes, Plan.numbers, numbersText, List.flatMap_cons, List.flatMap_append,
    List.flatMap_assoc, List.flatMap_nil, List.append_assoc, List.append_nil, List.cons_append]

section

variable (s s' : Snapshot) (o o' : Optimization) (plan plan' : Plan)

theorem planBytes_eq_iff : planBytes s o plan = planBytes s' o' plan' ↔
    s = s' ∧ o = o' ∧ plan = plan' := by
  constructor
  · intro h
    rw [planBytes_eq, planBytes_eq] at h
    replace h := append_cancel_left (append_cancel_left (append_cancel_left h))
    obtain ⟨hname, h⟩ := splits_name o o' _ _ trivial trivial (.lit rfl _) (.lit rfl _) h
    replace h := append_cancel_left h
    obtain ⟨hsemantic, h⟩ := append_inj h
      ((length_of_digest s.semantic).trans (length_of_digest s'.semantic).symm)
    replace h := append_cancel_left h
    obtain ⟨hhost, h⟩ := append_inj h (s.length_host.trans s'.length_host.symm)
    exact ⟨Snapshot.ext hsemantic hhost, hname, Plan.numbers_injective (numbersText_injective h)⟩
  · rintro ⟨rfl, rfl, rfl⟩
    rfl

/-- **What is hashed into an identity tells the plan**: with one text the optimization, both
digests and all records are the same, so with one identity they are, or two texts collide. -/
theorem planIdentity_eq_iff (hash : Text → Text) :
    (planBytes s o plan = planBytes s' o' plan' ↔ s = s' ∧ o = o' ∧ plan = plan') ∧
    (planIdentity hash s o plan = planIdentity hash s' o' plan' ↔
      (s = s' ∧ o = o' ∧ plan = plan') ∨ planBytes s o plan ≠ planBytes s' o' plan' ∧
        hash (planBytes s o plan) = hash (planBytes s' o' plan')) := by
  refine ⟨planBytes_eq_iff s s' o o' plan plan', ?_⟩
  rw [← planBytes_eq_iff]
  unfold planIdentity
  constructor
  · intro h
    exact (eq_or_ne _ _).imp_right fun hne => ⟨hne, h⟩
  · rintro (h | ⟨-, h⟩)
    · rw [h]
    · exact h

end

end Matcore.ClosedHost
