import Mathlib.Data.List.Nodup
import Mathlib.Logic.Relation

/-!
# Depth-first search in post-order

The nodes that some roots reach, each behind its children. The children of a node are below it.
-/

namespace PostOrder

open List (mem_singleton mem_append mem_cons)

/-- The nodes that were entered, and those that were left, in this order. -/
structure Walk where
  visited : List ℕ := []
  order : List ℕ := []

variable (children : ℕ → List ℕ)

/-- The search from a node. It is no deeper than `turns`. -/
def visit : ℕ → Walk → ℕ → Walk
  | 0, w, _ => w
  | turns + 1, w, n =>
    if n ∈ w.visited then w
    else
      let w := (children n).foldl (visit turns) { w with visited := n :: w.visited }
      { w with order := w.order ++ [n] }

/-- The search from the roots, one after the other. -/
def order (turns : ℕ) (roots : List ℕ) : List ℕ := (roots.foldl (visit children turns) {}).order

/-- A node has another one at or below it. -/
def Reach : ℕ → ℕ → Prop := Relation.ReflTransGen fun n c => c ∈ children n

/-- Every node is there once, and behind its children. -/
structure Sorted (order : List ℕ) : Prop where
  nodup : order.Nodup
  closed : ∀ before n after, order = before ++ n :: after → ∀ c ∈ children n, c ∈ before

/-- What a search from some nodes adds. -/
structure Extends (starts : List ℕ) (w w' : Walk) : Prop where
  new : ∃ new, w'.order = w.order ++ new ∧ (∀ m, m ∈ w'.visited ↔ m ∈ w.visited ∨ m ∈ new) ∧
    ∀ m ∈ new, m ∉ w.visited ∧ ∃ s ∈ starts, Reach children s m
  starts : ∀ s ∈ starts, s ∈ w'.order
  sorted : Sorted children w.order → Sorted children w'.order

/-- Below a bound the nodes that were entered were left. -/
def Settled (bound : ℕ) (w : Walk) : Prop := ∀ m < bound, m ∈ w.visited ↔ m ∈ w.order

variable {children} {n : ℕ}

theorem Sorted.concat {order : List ℕ} (h : Sorted children order) (hn : n ∉ order)
    (hchildren : ∀ c ∈ children n, c ∈ order) : Sorted children (order ++ [n]) := by
  refine ⟨?_, fun before m after heq c hc => ?_⟩
  · rw [List.nodup_append]
    refine ⟨h.nodup, List.nodup_singleton n, fun a ha b hb => ?_⟩
    rw [mem_singleton.1 hb]
    exact fun hab => hn (hab ▸ ha)
  · rcases List.eq_nil_or_concat after with rfl | ⟨after, last, rfl⟩
    · obtain ⟨rfl, hlast⟩ := List.append_inj' heq rfl
      obtain rfl := (List.cons.inj hlast).1
      exact hchildren c hc
    · have hinit : order ++ [n] = (before ++ m :: after) ++ [last] := by simpa using heq
      obtain ⟨rfl, -⟩ := List.append_inj' hinit rfl
      exact h.closed before m after rfl c hc

variable {w w' : Walk} {starts : List ℕ}

theorem Extends.settled {bound : ℕ} (h : Extends children starts w w') (hw : Settled bound w) :
    Settled bound w' := by
  obtain ⟨new, horder, hvisited, -⟩ := h.new
  intro m hm
  rw [hvisited, horder, mem_append, hw m hm]

theorem Extends.mem (h : Extends children starts w w') {m : ℕ} (hm : m ∈ w.order) :
    m ∈ w'.order := by
  obtain ⟨new, horder, -⟩ := h.new
  rw [horder]
  exact List.mem_append_left new hm

theorem Extends.nil (w : Walk) : Extends children [] w w :=
  ⟨⟨[], by simp, by simp, nofun⟩, nofun, id⟩

theorem Extends.cons {w'' : Walk} (h : Extends children [n] w w')
    (h' : Extends children starts w' w'') : Extends children (n :: starts) w w'' := by
  obtain ⟨new, horder, hvisited, hnew⟩ := h.new
  obtain ⟨new', horder', hvisited', hnew'⟩ := h'.new
  refine ⟨⟨new ++ new', ?_, fun m => ?_, fun m hm => ?_⟩, fun s hs => ?_, fun hw =>
    h'.sorted (h.sorted hw)⟩
  · rw [horder', horder, List.append_assoc]
  · rw [hvisited', hvisited, mem_append, or_assoc]
  · rcases mem_append.1 hm with hm | hm
    · obtain ⟨hout, s, hs, hreach⟩ := hnew m hm
      exact ⟨hout, s, by simpa using .inl (mem_singleton.1 hs), hreach⟩
    · obtain ⟨hout, s, hs, hreach⟩ := hnew' m hm
      exact ⟨fun hin => hout ((hvisited m).2 (.inl hin)), s, List.mem_cons_of_mem n hs, hreach⟩
  · rcases mem_cons.1 hs with rfl | hs
    · exact h'.mem (h.starts s (mem_singleton.2 rfl))
    · exact h'.starts s hs

variable {turns : ℕ}

theorem foldl_extends {bound : ℕ} (hvisit : ∀ n < bound, ∀ w, Settled (n + 1) w →
      Extends children [n] w (visit children turns w n)) (starts : List ℕ)
    (hstarts : ∀ s ∈ starts, s < bound) (w : Walk) (hw : Settled bound w) :
    Extends children starts w (starts.foldl (visit children turns) w) := by
  induction starts generalizing w with
  | nil => exact .nil w
  | cons n starts ih =>
    have hn : n < bound := hstarts n List.mem_cons_self
    have hfirst := hvisit n hn w fun m hm => hw m (by omega)
    exact hfirst.cons (ih (fun s hs => hstarts s (List.mem_cons_of_mem n hs)) _ (hfirst.settled hw))

variable (hlt : ∀ n, ∀ c ∈ children n, c < n)

include hlt

/-- **A search from one node.** The nodes above it may be entered and not left. -/
theorem visit_extends (hturns : n < turns) (w : Walk) (hw : Settled (n + 1) w) :
    Extends children [n] w (visit children turns w n) := by
  induction turns generalizing n w with
  | zero => exact absurd hturns (Nat.not_lt_zero n)
  | succ turns ih =>
    rw [visit]
    have hn := hw n (Nat.lt_succ_self n)
    by_cases hvisited : n ∈ w.visited
    · rw [if_pos hvisited]
      refine ⟨⟨[], by simp, by simp, nofun⟩, fun s hs => ?_, id⟩
      rw [mem_singleton.1 hs]
      exact hn.1 hvisited
    · rw [if_neg hvisited]
      have hout : n ∉ w.order := fun hin => hvisited (hn.2 hin)
      -- the children are below the node, where it does not show that it is entered
      have hentered : Settled n { w with visited := n :: w.visited } := by
        intro m hm
        rw [mem_cons, ← hw m (by omega)]
        exact ⟨fun h => h.resolve_left (by omega), .inr⟩
      have hfold := foldl_extends (fun m hm w hw => ih (by omega) w hw) (children n) (hlt n) _ hentered
      obtain ⟨new, horder, hnewVisited, hnew⟩ := hfold.new
      have hfresh : n ∉ new := fun hin => (hnew n hin).1 List.mem_cons_self
      refine ⟨⟨new ++ [n], ?_, fun m => ?_, fun m hm => ?_⟩, fun s hs => ?_, fun hsorted => ?_⟩
      · simp only [horder, List.append_assoc]
      · rw [hnewVisited, mem_cons, mem_append, mem_singleton]
        tauto
      · rcases mem_append.1 hm with hm | hm
        · obtain ⟨hnot, s, hs, hreach⟩ := hnew m hm
          exact ⟨fun hin => hnot (List.mem_cons_of_mem n hin), n, mem_singleton.2 rfl,
            .head hs hreach⟩
        · rw [mem_singleton.1 hm]
          exact ⟨hvisited, n, mem_singleton.2 rfl, .refl⟩
      · rw [mem_singleton.1 hs]
        simp
      · refine (hfold.sorted hsorted).concat ?_ hfold.starts
        rw [horder, mem_append]
        exact fun h => h.elim hout hfresh

/-- **What the order is.** -/
theorem order_spec {roots : List ℕ} (hroots : ∀ r ∈ roots, r < turns) :
    Sorted children (order children turns roots) ∧
      ∀ n, n ∈ order children turns roots ↔ ∃ r ∈ roots, Reach children r n := by
  have hfold := foldl_extends (fun n hn w hw => visit_extends hlt hn w hw) roots hroots {}
    fun m _ => Iff.rfl
  have hsorted : Sorted children (order children turns roots) :=
    hfold.sorted ⟨List.nodup_nil, fun before n after heq => by simp at heq⟩
  refine ⟨hsorted, fun n => ⟨fun hn => ?_, ?_⟩⟩
  · obtain ⟨new, horder, -, hnew⟩ := hfold.new
    rw [order, horder] at hn
    exact (hnew n hn).2
  · rintro ⟨r, hr, hreach⟩
    induction hreach with
    | refl => exact hfold.starts r hr
    | tail _ hchild ih =>
      obtain ⟨before, after, heq⟩ := List.append_of_mem ih
      have hmem := hsorted.closed before _ after heq _ hchild
      rw [heq]
      exact List.mem_append_left _ hmem

end PostOrder
