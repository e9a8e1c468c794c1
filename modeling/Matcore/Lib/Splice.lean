import Mathlib

/-!
# Splicing edits into a list

An edit replaces the elements of an interval. `splice` applies sorted edits in one pass, and
`place` says where an element that no edit touches ends up.
-/

namespace Splice

variable {α : Type} {source : List α} {start mid first past : ℕ}

/-- The elements from `first` on, up to `past`. -/
def slice (source : List α) (first past : ℕ) : List α := (source.drop first).take (past - first)

structure Edit (α : Type) where
  first : ℕ
  past : ℕ
  text : List α

variable {edits rest : List (Edit α)}

/-- The source from `start` on, with the edits made. -/
def splice (source : List α) : ℕ → List (Edit α) → List α
  | start, [] => source.drop start
  | start, x :: rest => slice source start x.first ++ x.text ++ splice source x.past rest

/-- The edits from `start` on follow one another and end before `bound`. -/
def Sorted (bound : ℕ) : ℕ → List (Edit α) → Prop
  | start, [] => start ≤ bound
  | start, x :: rest => start ≤ x.first ∧ x.first ≤ x.past ∧ Sorted bound x.past rest

/-- The position of `p` in `splice source start edits`. -/
def place : ℕ → List (Edit α) → ℕ → ℕ
  | start, [], p => p - start
  | start, x :: rest, p =>
    if x.past ≤ p then x.first - start + x.text.length + place x.past rest p else p - start

/-- No edit reaches into the interval. -/
def Untouched (edits : List (Edit α)) (first past : ℕ) : Prop :=
  ∀ x ∈ edits, x.past ≤ first ∨ past ≤ x.first

def replace (text : List α) (first past : ℕ) (new : List α) : List α :=
  text.take first ++ new ++ text.drop past

theorem slice_append (h1 : start ≤ mid) (h2 : mid ≤ past) :
    slice source start mid ++ slice source mid past = slice source start past := by
  have hsum : past - start = (mid - start) + (past - mid) := by omega
  have hmid : start + (mid - start) = mid := by omega
  unfold slice
  rw [hsum, List.take_add, List.drop_drop, hmid]

theorem slice_append_drop (h : start ≤ mid) :
    slice source start mid ++ source.drop mid = source.drop start := by
  have hmid : start + (mid - start) = mid := by omega
  unfold slice
  rw [← hmid, ← List.drop_drop, Nat.add_sub_cancel_left, List.take_append_drop]

theorem take_append_slice (h : start ≤ mid) :
    source.take start ++ slice source start mid = source.take mid := by
  have hmid : mid = start + (mid - start) := by omega
  unfold slice
  conv_rhs => rw [hmid, List.take_add]

@[simp] theorem slice_self : slice source start start = [] := by
  unfold slice
  rw [Nat.sub_self, List.take_zero]

@[simp] theorem slice_zero : slice source 0 past = source.take past := by
  unfold slice
  rw [List.drop_zero, Nat.sub_zero]

theorem length_slice (h : past ≤ source.length) : (slice source start past).length = past - start := by
  unfold slice
  rw [List.length_take, List.length_drop]
  omega

theorem slice_of_append (before found after : List α) :
    slice (before ++ found ++ after) before.length (before.length + found.length) = found := by
  unfold slice
  rw [List.append_assoc, List.drop_left, Nat.add_sub_cancel_left, List.take_left]

variable {bound : ℕ}

theorem Sorted.le_bound (h : Sorted bound start edits) : start ≤ bound := by
  induction edits generalizing start with
  | nil => exact h
  | cons x rest ih =>
    obtain ⟨h1, h2, h3⟩ := h
    have hrest := ih h3
    omega

/-- What stands before the first edit is copied. -/
theorem splice_advance (h : start ≤ mid) (hs : Sorted bound mid edits) :
    splice source start edits = slice source start mid ++ splice source mid edits := by
  cases edits with
  | nil => exact (slice_append_drop h).symm
  | cons x rest =>
    obtain ⟨h1, -, -⟩ := hs
    simp only [splice]
    rw [← slice_append h h1]
    simp only [List.append_assoc]

/-- An interval before the first edit is copied with what precedes it. -/
theorem splice_before (h1 : start ≤ first) (h2 : first ≤ past) (hs : Sorted bound past edits) :
    splice source start edits =
      slice source start first ++ slice source first past ++ splice source past edits := by
  rw [splice_advance (Nat.le_trans h1 h2) hs, slice_append h1 h2]

/-- One replacement in front of those already made. -/
theorem replace_splice (rest : List (Edit α)) (x : Edit α) (hx : x.first ≤ x.past)
    (hlen : x.past ≤ source.length) :
    replace (source.take x.past ++ splice source x.past rest) x.first x.past x.text =
      source.take x.first ++ splice source x.first (x :: rest) := by
  have hpast : (source.take x.past).length = x.past := by rw [List.length_take]; omega
  have htake : (source.take x.past ++ splice source x.past rest).take x.first =
      source.take x.first := by
    rw [List.take_append_of_le_length (by omega), List.take_take, Nat.min_eq_left hx]
  have hdrop : (source.take x.past ++ splice source x.past rest).drop x.past =
      splice source x.past rest := List.drop_left' hpast
  unfold replace
  rw [htake, hdrop]
  simp only [splice, slice_self, List.nil_append, List.append_assoc]

theorem Untouched.tail {x : Edit α} (h : Untouched (x :: rest) first past) :
    Untouched rest first past := fun y hy => h y (List.mem_cons_of_mem x hy)

/-- An untouched interval keeps its text at its place, and `kept` says that the elements before it
hold as many `a` as before. -/
theorem splice_eq [BEq α] (a : α) (hs : Sorted source.length start edits) (h1 : start ≤ first)
    (h2 : first < past) (h3 : past ≤ source.length) (hu : Untouched edits first past) :
    ∃ before after, splice source start edits = before ++ slice source first past ++ after ∧
      before.length = place start edits first ∧
      ((∀ x ∈ edits, x.text.count a = (slice source x.first x.past).count a) →
        before.count a = (slice source start first).count a) := by
  induction edits generalizing start with
  | nil =>
    have hsorted : Sorted source.length past ([] : List (Edit α)) := h3
    refine ⟨slice source start first, splice source past [],
      splice_before h1 (Nat.le_of_lt h2) hsorted, ?_, fun _ => rfl⟩
    exact length_slice (by omega)
  | cons x rest ih =>
    obtain ⟨hx1, hx2, hx3⟩ := hs
    by_cases hx : x.past ≤ first
    · obtain ⟨before, after, hsplice, hlength, hcount⟩ := ih hx3 hx hu.tail
      refine ⟨slice source start x.first ++ x.text ++ before, after, ?_, ?_, ?_⟩
      · simp only [splice, hsplice, List.append_assoc]
      · have hle := hx3.le_bound
        simp only [place, if_pos hx, List.length_append, hlength]
        rw [length_slice (by omega)]
      · intro kept
        have hfirst := kept x (List.mem_cons_self ..)
        have hrest := hcount fun y hy => kept y (List.mem_cons_of_mem x hy)
        rw [List.count_append, List.count_append, hfirst, hrest, ← List.count_append,
          ← List.count_append, slice_append hx1 hx2, slice_append (by omega) hx]
    · -- the edit lies behind the interval, and nothing before it has moved
      have hbehind : past ≤ x.first := (hu x (List.mem_cons_self ..)).resolve_left hx
      have hsorted : Sorted source.length past (x :: rest) := ⟨hbehind, hx2, hx3⟩
      refine ⟨slice source start first, splice source past (x :: rest),
        splice_before h1 (Nat.le_of_lt h2) hsorted, ?_, fun _ => rfl⟩
      simp only [place, if_neg hx]
      exact length_slice (by omega)

/-- Untouched intervals keep their order. -/
theorem place_mono {next : ℕ} (hs : Sorted bound start edits) (h1 : start ≤ first)
    (h2 : first < past) (h3 : past ≤ next) (hu : Untouched edits first past) :
    place start edits first + (past - first) ≤ place start edits next := by
  induction edits generalizing start with
  | nil => simp only [place]; omega
  | cons x rest ih =>
    obtain ⟨hx1, _, hx3⟩ := hs
    by_cases hx : x.past ≤ first
    · have hrest := ih hx3 hx hu.tail
      simp only [place, if_pos hx, if_pos (show x.past ≤ next by omega)]
      omega
    · have hbehind : past ≤ x.first := (hu x (List.mem_cons_self ..)).resolve_left hx
      simp only [place, if_neg hx]
      split <;> omega

end Splice
