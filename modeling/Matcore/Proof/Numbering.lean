import Matcore.ClosedHost.Emit
import Matcore.Proof.Admission

/-!
# The numbering of the traversals

The derivations and the emitter count the operations of a body in source order. A plan that selects,
in the range of a body, what its derivations select (`Follows`) is emitted as `Emits` describes.
-/

namespace Matcore.ClosedHost

open ClosedRegion

/-- The operations of a body with their frontiers, from `n` on. -/
def numbered (b : Body) (n : ℕ) : List (Operation × ℕ) := b.preorder.zipIdx n

@[simp] theorem numbered_nil (n : ℕ) : numbered .nil n = [] := rfl

theorem numbered_cons (op : Operation) (t e rest : Body) (n : ℕ) :
    numbered (.cons op t e rest) n =
      (op, n) :: (numbered t (n + 1) ++
        (numbered e (n + 1 + t.count) ++ numbered rest (n + 1 + t.count + e.count))) := by
  simp [numbered, List.zipIdx_cons, List.zipIdx_append]

/-- The read derivation of a body from a frontier and a current publication. -/
def readsFrom (enabled : Bool) (b : Body) (n : ℕ) (current : Option ForwardedRead) :
    Derivation :=
  Derivation.body enabled b ⟨n, current, [], []⟩

namespace Derivation

theorem forward_eq (enabled : Bool) (d : Derivation) (op : Operation) (f : ℕ) :
    d.forward enabled op f =
      ⟨d.nextFrontier, d.current,
        d.reads ++ (Derivation.forward enabled ⟨0, d.current, [], []⟩ op f).reads, d.visited⟩ := by
  obtain ⟨n, current, reads, visited⟩ := d
  unfold forward
  cases current with
  | none => simp
  | some current => by_cases he : (enabled && current.resource == op.resource) = true <;> simp [he]

/-- **The read derivation** counts the operations in source order. -/
theorem body_eq (enabled : Bool) {b : Body} (hb : b.Nested) (d : Derivation) :
    body enabled b d =
      ⟨d.nextFrontier + b.count, (readsFrom enabled b d.nextFrontier d.current).current,
        d.reads ++ (readsFrom enabled b d.nextFrontier d.current).reads,
        d.visited ++ numbered b d.nextFrontier⟩ := by
  induction b generalizing d with
  | nil => simp [body, readsFrom]
  | cons op t e rest iht ihe ihr =>
    obtain ⟨hflat, ht, he, hr⟩ := hb
    obtain ⟨n, current, reads, visited⟩ := d
    have ihr' : ∀ d, body enabled rest d = _ := fun d => ihr hr d
    cases hk : op.kind with
    | shapeIf =>
      simp only [readsFrom, body, hk, visit, reset]
      simp only [iht ht, ihe he, ihr', numbered_cons, Body.count_cons]
      simp [Nat.add_assoc]
    | read =>
      obtain ⟨rfl, rfl⟩ := hflat (by simp [hk])
      simp only [readsFrom, body, hk, visit]
      simp only [forward_eq enabled ⟨n + 1, _, _, _⟩, ihr', numbered_cons]
      simp [Nat.add_assoc]
    | publish | gemm | observe =>
      obtain ⟨rfl, rfl⟩ := hflat (by simp [hk])
      simp only [readsFrom, body, hk, visit]
      simp only [ihr', numbered_cons]
      simp [Nat.add_assoc]

end Derivation

/-- The pair derivation of a body from a frontier, with the reads in scope. -/
def pairsFrom (uses : UseCounts) (b : Body) (reads : Reads) (n : ℕ) : PairDerivation :=
  PairDerivation.body uses b reads ⟨n, [], []⟩

namespace PairDerivation

variable {uses : UseCounts}

theorem window_eq_some {reads : Reads} {op consumer : Operation} {n m : ℕ} {pair : StrictFusedPair}
    (h : window uses reads op consumer n m = some pair) :
    op.kind = .gemm ∧ op.numericalProfile = .strictF32 ∧ consumer.kind = .gemm ∧
      consumer.numericalProfile = .strictF32 ∧ consumer.lhs = op.result ∧ uses op.result = 1 ∧
      ∃ a b d, reads op.lhs = some a ∧ reads op.rhs = some b ∧ reads consumer.rhs = some d ∧
        pair = ⟨n, m, op.lhs, op.rhs, consumer.rhs, op.result, consumer.result, a, b, d⟩ := by
  unfold window at h
  split at h
  · rename_i hc
    obtain ⟨h₁, h₂, h₃, h₄, h₅, h₆⟩ := hc
    split at h
    · rename_i a b d ha hb hd
      exact ⟨h₁, h₂, h₃, h₄, h₅, h₆, a, b, d, ha, hb, hd, (Option.some.inj h).symm⟩
    · cases h
  · cases h

/-- The rest of a body behind an operation, from a state that has counted it. -/
def behind (uses : UseCounts) (op : Operation) (n : ℕ) : Body → Reads → PairDerivation →
    PairDerivation
  | .nil, _, d => d
  | .cons consumer t e beyond, reads, d =>
    match window uses reads op consumer n d.nextFrontier with
    | some pair => body uses beyond reads { d.visit consumer with pairs := d.pairs ++ [pair] }
    | none => body uses (.cons consumer t e beyond) reads d

theorem body_cons (uses : UseCounts) (op : Operation) (t e rest : Body) (reads : Reads)
    (d : PairDerivation) :
    body uses (.cons op t e rest) reads d =
      behind uses op d.nextFrontier rest (readsAfter reads op d.nextFrontier)
        (if op.kind = .shapeIf then
          body uses e (readsAfter reads op d.nextFrontier)
            (body uses t (readsAfter reads op d.nextFrontier) (d.visit op))
        else d.visit op) := by
  cases rest <;> rfl

theorem behind_of_ne {op : Operation} (hk : op.kind ≠ .gemm) (n : ℕ) (rest : Body) (reads : Reads)
    (d : PairDerivation) : behind uses op n rest reads d = body uses rest reads d := by
  cases rest with
  | nil => rfl
  | cons consumer t e beyond =>
    have hw : window uses reads op consumer n d.nextFrontier = none := if_neg fun h => hk h.1
    simp only [behind, hw]

/-- **The pair derivation** counts the operations in source order. -/
theorem body_eq (uses : UseCounts) {b : Body} (hb : b.Nested) (reads : Reads) (d : PairDerivation) :
    body uses b reads d =
      ⟨d.nextFrontier + b.count, d.pairs ++ (pairsFrom uses b reads d.nextFrontier).pairs,
        d.visited ++ numbered b d.nextFrontier⟩ := by
  induction hc : b.count using Nat.strong_induction_on generalizing b reads d with
  | _ count ih =>
  cases b with
  | nil => simp [body, pairsFrom, ← hc]
  | cons op t e rest =>
    obtain ⟨hflat, ht, he, hr⟩ := hb
    obtain ⟨n, pairs, visited⟩ := d
    simp only [Body.count_cons] at hc
    by_cases hs : op.kind = .shapeIf
    · have hg : op.kind ≠ .gemm := by simp [hs]
      simp only [pairsFrom, body_cons, if_pos hs, behind_of_ne hg]
      have iht := fun r d => ih _ (by omega) ht r d rfl
      have ihe := fun r d => ih _ (by omega) he r d rfl
      have ihr := fun r d => ih _ (by omega) hr r d rfl
      simp only [iht, ihe, ihr, visit, numbered_cons]
      simp [Nat.add_assoc, ← hc]
    · obtain ⟨rfl, rfl⟩ := hflat hs
      have ihr := fun r d => ih _ (by simp at hc; omega) hr r d rfl
      simp only [pairsFrom, body_cons, if_neg hs, visit]
      cases rest with
      | nil => simp [behind, numbered_cons, ← hc]
      | cons consumer t' e' beyond =>
        simp only [behind]
        cases hw : window uses (readsAfter reads op n) op consumer n (n + 1) with
        | none =>
          simp only [ihr, numbered_cons op]
          simp [Nat.add_assoc, ← hc]
        | some pair =>
          obtain ⟨-, -, hk, -⟩ := window_eq_some hw
          obtain ⟨rfl, rfl⟩ := hr.1 (by simp [hk])
          have ihb := fun r d => ih _ (by simp at hc; omega) hr.2.2.2 r d rfl
          simp only [visit, ihb, numbered_cons]
          simp [Nat.add_assoc, ← hc]
          omega

end PairDerivation

/-- The record of a read at `n` after the publication `current`. -/
def forwardedRead (enabled : Bool) (current : Option ForwardedRead) (op : Operation) (n : ℕ) :
    Option ForwardedRead :=
  current.bind fun c =>
    if enabled && c.resource == op.resource then some { c with readFrontier := n } else none

theorem forward_eq_forwardedRead (enabled : Bool) (current : Option ForwardedRead) (op : Operation)
    (n m : ℕ) :
    (Derivation.forward enabled ⟨m, current, [], []⟩ op n).reads =
      (forwardedRead enabled current op n).toList := by
  unfold Derivation.forward forwardedRead
  cases current with
  | none => rfl
  | some c => dsimp only [Option.bind_some]; split <;> rfl

/-- The plan that the derivations make of a body from a frontier, a current publication and the
reads in scope. -/
def planFrom (o : Optimization) (uses : UseCounts) (b : Body) (current : Option ForwardedRead)
    (reads : Reads) (n : ℕ) : Plan :=
  ⟨(readsFrom (o == .publicationReadForwarding) b n current).reads,
    if o = .strictFusedPair then (pairsFrom uses b reads n).pairs else []⟩

/-- The records of one plan, then those of another. -/
def Plan.append (p q : Plan) : Plan := ⟨p.reads ++ q.reads, p.pairs ++ q.pairs⟩

section planFrom

variable (o : Optimization) (uses : UseCounts) {op consumer : Operation} {t e rest beyond : Body}
  (current : Option ForwardedRead) (reads : Reads) (n : ℕ)

theorem planFrom_nil : planFrom o uses .nil current reads n = {} := by
  unfold planFrom readsFrom pairsFrom
  simp [Derivation.body, PairDerivation.body]

theorem pairsFrom_cons (hk : op.kind ≠ .shapeIf) (hg : op.kind ≠ .gemm) (hr : rest.Nested) :
    (pairsFrom uses (.cons op t e rest) reads n).pairs =
      (pairsFrom uses rest (PairDerivation.readsAfter reads op n) (n + 1)).pairs := by
  unfold pairsFrom
  rw [PairDerivation.body_cons, if_neg hk, PairDerivation.behind_of_ne hg,
    PairDerivation.body_eq uses hr]
  rfl

theorem planFrom_read (hk : op.kind = .read) (hr : rest.Nested) :
    planFrom o uses (.cons op t e rest) current reads n =
      Plan.append ⟨(forwardedRead (o == .publicationReadForwarding) current op n).toList, []⟩
        (planFrom o uses rest current (reads.emplace op.result n) (n + 1)) := by
  unfold planFrom Plan.append
  rw [pairsFrom_cons uses reads n (by simp [hk]) (by simp [hk]) hr]
  simp only [readsFrom, Derivation.body, hk, Derivation.visit]
  rw [Derivation.body_eq _ hr, Derivation.forward_eq, forward_eq_forwardedRead]
  simp [PairDerivation.readsAfter, hk, readsFrom]

theorem planFrom_publish (hk : op.kind = .publish) (hr : rest.Nested) :
    planFrom o uses (.cons op t e rest) current reads n =
      planFrom o uses rest (some ⟨0, n, op.resource, op.lhs⟩) reads (n + 1) := by
  unfold planFrom
  rw [pairsFrom_cons uses reads n (by simp [hk]) (by simp [hk]) hr]
  simp only [readsFrom, Derivation.body, hk, Derivation.visit]
  rw [Derivation.body_eq _ hr]
  simp [PairDerivation.readsAfter, hk, readsFrom]

theorem planFrom_observe (hk : op.kind = .observe) (hr : rest.Nested) :
    planFrom o uses (.cons op t e rest) current reads n =
      planFrom o uses rest current reads (n + 1) := by
  unfold planFrom
  rw [pairsFrom_cons uses reads n (by simp [hk]) (by simp [hk]) hr]
  simp only [readsFrom, Derivation.body, hk, Derivation.visit]
  rw [Derivation.body_eq _ hr]
  simp [PairDerivation.readsAfter, hk, readsFrom]

theorem planFrom_shapeIf (hk : op.kind = .shapeIf) (ht : t.Nested) (he : e.Nested)
    (hr : rest.Nested) :
    planFrom o uses (.cons op t e rest) current reads n =
      (planFrom o uses t none reads (n + 1)).append
        ((planFrom o uses e none reads (n + 1 + t.count)).append
          (planFrom o uses rest none reads (n + 1 + t.count + e.count))) := by
  have hp : (pairsFrom uses (.cons op t e rest) reads n).pairs =
      (pairsFrom uses t reads (n + 1)).pairs ++ ((pairsFrom uses e reads (n + 1 + t.count)).pairs ++
        (pairsFrom uses rest reads (n + 1 + t.count + e.count)).pairs) := by
    conv_lhs => unfold pairsFrom
    rw [PairDerivation.body_cons, if_pos hk, PairDerivation.behind_of_ne (by simp [hk]),
      PairDerivation.body_eq uses ht, PairDerivation.body_eq uses he,
      PairDerivation.body_eq uses hr]
    simp [PairDerivation.readsAfter, hk, PairDerivation.visit]
  unfold planFrom Plan.append
  rw [hp]
  conv_lhs => unfold readsFrom
  simp only [Derivation.body, hk, Derivation.visit, Derivation.reset]
  rw [Derivation.body_eq _ ht, Derivation.body_eq _ he, Derivation.body_eq _ hr]
  by_cases hs : o = .strictFusedPair <;> simp [hs]

/-- The window at the head of a body, if pairs are asked for. -/
def headWindow (op : Operation) : Body → Option StrictFusedPair
  | .nil => none
  | .cons consumer _ _ _ =>
    if o = .strictFusedPair then PairDerivation.window uses reads op consumer n (n + 1) else none

theorem planFrom_gemm (hk : op.kind = .gemm) (hr : rest.Nested)
    (hw : headWindow o uses reads n op rest = none) :
    planFrom o uses (.cons op t e rest) current reads n =
      planFrom o uses rest current reads (n + 1) := by
  have hp : o = .strictFusedPair → (pairsFrom uses (.cons op t e rest) reads n).pairs =
      (pairsFrom uses rest reads (n + 1)).pairs := by
    intro ho
    unfold pairsFrom
    rw [PairDerivation.body_cons, if_neg (by simp [hk]), PairDerivation.readsAfter,
      if_neg (by simp [hk])]
    cases rest with
    | nil => rfl
    | cons consumer t' e' beyond =>
      simp only [headWindow, if_pos ho] at hw
      simp only [PairDerivation.behind, PairDerivation.visit, hw]
      rw [PairDerivation.body_eq uses hr]
      rfl
  unfold planFrom
  simp only [readsFrom, Derivation.body, hk, Derivation.visit]
  rw [Derivation.body_eq _ hr]
  by_cases ho : o = .strictFusedPair
  · simp [ho, hp ho, readsFrom]
  · simp [ho, readsFrom]

theorem planFrom_pair {pair : StrictFusedPair} {t' e' : Body} (hr : beyond.Nested)
    (hw : headWindow o uses reads n op (.cons consumer t' e' beyond) = some pair) :
    planFrom o uses (.cons op t e (.cons consumer t' e' beyond)) current reads n =
      Plan.append ⟨[], [pair]⟩ (planFrom o uses beyond current reads (n + 2)) := by
  simp only [headWindow] at hw
  split at hw
  swap
  · cases hw
  rename_i ho
  obtain ⟨hk, -, hk', -⟩ := PairDerivation.window_eq_some hw
  have hp : (pairsFrom uses (.cons op t e (.cons consumer t' e' beyond)) reads n).pairs =
      pair :: (pairsFrom uses beyond reads (n + 2)).pairs := by
    conv_lhs => unfold pairsFrom
    rw [PairDerivation.body_cons, if_neg (by simp [hk]), PairDerivation.readsAfter,
      if_neg (by simp [hk])]
    simp only [PairDerivation.behind, PairDerivation.visit, hw]
    rw [PairDerivation.body_eq uses hr]
    rfl
  unfold planFrom Plan.append
  simp only [readsFrom, Derivation.body, hk, hk', Derivation.visit]
  rw [Derivation.body_eq _ hr]
  simp [ho, hp, readsFrom]

end planFrom

end Matcore.ClosedHost
