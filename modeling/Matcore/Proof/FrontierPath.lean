import Matcore.ClosedRegion.Build
import Matcore.Lib.Texts

/-!
# Frontier paths

`buildBody` names an effect by the indices of the operations around it, with dots between them.

No path extends those of two operations of a body (`not_under_sibling`), nor those of two branches
(`not_under_branch`).
-/

namespace Matcore.ClosedRegion

open List (append_assoc cons_append mem_cons)
open Mlir (ascii)
open Texts (Begins Splits natText)

/-- A path that extends another at a dot, or the path itself. -/
def Under (path frontier : Text) : Prop :=
  ∃ rest, frontier = path ++ rest ∧ ∀ c ∈ rest.head?, c = 46

theorem under_refl (path : Text) : Under path path := ⟨[], by simp, by simp⟩

theorem mem_or_under {path frontier : Text} {frontiers : List Text}
    (h : frontier ∈ path :: frontiers) : frontier ∈ frontiers ∨ Under path frontier := by
  rcases mem_cons.1 h with rfl | h
  · exact .inr (under_refl _)
  · exact .inl h

theorem under_append (path rest : Text) : Under path (path ++ (46 :: rest)) :=
  ⟨46 :: rest, rfl, by simp⟩

variable {path frontier : Text}

theorem Under.trans {path' : Text} (h : Under path path') (h' : Under path' frontier) :
    Under path frontier := by
  obtain ⟨rest, rfl, hrest⟩ := h
  obtain ⟨rest', rfl, hrest'⟩ := h'
  refine ⟨rest ++ rest', by rw [append_assoc], ?_⟩
  cases rest with
  | nil => simpa using hrest'
  | cons c rest => simpa using hrest

theorem Under.length (h : Under path frontier) : path.length ≤ frontier.length := by
  obtain ⟨rest, rfl, -⟩ := h
  simp

theorem ascii_toString (n : ℕ) :
    ascii (toString n) = (Nat.toDigits 10 n).map fun c => UInt8.ofNat c.toNat := by
  rw [ascii, Nat.toString_eq_repr, Nat.toList_repr]

variable {n : ℕ}

theorem digit_bounds {c : Char} (h : c ∈ Nat.toDigits 10 n) : 48 ≤ c.toNat ∧ c.toNat ≤ 57 := by
  have hdigit := Nat.isDigit_of_mem_toDigits (by decide) (by decide) h
  simp only [Char.isDigit, Bool.and_eq_true, decide_eq_true_eq] at hdigit
  exact ⟨hdigit.1, hdigit.2⟩

theorem decimal_inj {n' : ℕ} (h : ascii (toString n) = ascii (toString n')) : n = n' := by
  have hback : ∀ n : ℕ, (ascii (toString n)).map (fun b => Char.ofNat b.toNat) = natText n := by
    intro n
    rw [ascii_toString, List.map_map, natText]
    refine (List.map_congr_left fun c hc => ?_).trans (List.map_id _)
    have hc := digit_bounds hc
    rw [Function.comp_apply, UInt8.toNat_ofNat', Nat.mod_eq_of_lt (by omega), Char.ofNat_toNat]
    rfl
  exact Texts.natText_injective (by rw [← hback, ← hback, h])

/-- A decimal ends before a byte that is no digit. -/
theorem splits_decimal {b : UInt8} (hb : b < 48 ∨ 57 < b) :
    Splits (fun _ : ℕ => True) (fun n => ascii (toString n)) (Begins fun c => decide (c = b))
      id := by
  refine (Splits.token fun n _ d hd => decide_eq_false ?_).shows fun _ _ _ _ h => decimal_inj h
  rw [ascii_toString, List.mem_map] at hd
  obtain ⟨c, hc, rfl⟩ := hd
  have hc := digit_bounds hc
  rintro rfl
  rw [UInt8.lt_iff_toNat_lt, UInt8.lt_iff_toNat_lt, UInt8.toNat_ofNat',
    Nat.mod_eq_of_lt (by omega)] at hb
  exact hb.elim (Nat.not_lt.2 hc.1) (Nat.not_lt.2 hc.2)

theorem operationPath_eq (base : Text) (i : ℕ) :
    operationPath base i = base ++ (46 :: ascii (toString i)) := by
  rw [operationPath, append_assoc]
  rfl

/-- No path extends those of two operations of a body. -/
theorem not_under_sibling {base : Text} {i j : ℕ} (hne : i ≠ j)
    (h : Under (operationPath base i) frontier) : ¬ Under (operationPath base j) frontier := by
  intro h'
  obtain ⟨rest, rfl, hrest⟩ := h
  obtain ⟨rest', heq, hrest'⟩ := h'
  rw [operationPath_eq, operationPath_eq, append_assoc, append_assoc] at heq
  have htail := List.append_cancel_left heq
  rw [cons_append, cons_append, List.cons.injEq] at htail
  have hsplits := splits_decimal (b := 46) (by decide) i j rest rest' trivial trivial
  exact hne (hsplits (by simpa [Begins] using hrest) (by simpa [Begins] using hrest') htail.2).1

theorem under_operation {base : Text} {i : ℕ} (h : Under (operationPath base i) frontier) :
    Under base frontier := by
  rw [operationPath_eq] at h
  exact (under_append base _).trans h

/-- The paths of the operations from `index` on are new. -/
def Unused (base : Text) (index : ℕ) (frontiers : List Text) : Prop :=
  ∀ f ∈ frontiers, ∀ j, index ≤ j → ¬ Under (operationPath base j) f

/-- Every further frontier is below an operation from `index` on. -/
def Extends (base : Text) (index : ℕ) (frontiers frontiers' : List Text) : Prop :=
  ∀ f ∈ frontiers', f ∈ frontiers ∨ ∃ j, index ≤ j ∧ Under (operationPath base j) f

variable {base : Text} {index : ℕ} {frontiers frontiers' frontiers'' : List Text}

theorem extends_refl : Extends base index frontiers frontiers := fun _ hf => .inl hf

theorem Extends.behind (h : ∀ f ∈ frontiers', f ∈ frontiers ∨ Under (operationPath base index) f)
    (h' : Extends base (index + 1) frontiers' frontiers'') :
    Extends base index frontiers frontiers'' := by
  intro f hf
  rcases h' f hf with hf | ⟨j, hj, hu⟩
  · rcases h f hf with hf | hu
    · exact .inl hf
    · exact .inr ⟨index, le_rfl, hu⟩
  · exact .inr ⟨j, by omega, hu⟩

theorem Unused.not_mem (h : Unused base index frontiers) {f : Text}
    (hu : Under (operationPath base index) f) : f ∉ frontiers :=
  fun hf => h f hf index le_rfl hu

theorem Unused.behind (h : Unused base index frontiers)
    (h' : ∀ f ∈ frontiers', f ∈ frontiers ∨ Under (operationPath base index) f) :
    Unused base (index + 1) frontiers' := by
  intro f hf j hj
  rcases h' f hf with hf | hu
  · exact h f hf j (by omega)
  · exact not_under_sibling (by omega) hu

variable {word : String} {c : UInt8}

section

variable (hword : ascii word = 46 :: c :: rest)

include hword

theorem under_word (h : Under (path ++ ascii word) frontier) :
    ∃ rest', frontier = path ++ (46 :: c :: rest') := by
  obtain ⟨rest', rfl, -⟩ := h
  exact ⟨rest ++ rest', by rw [hword, append_assoc]; rfl⟩

theorem under_of_branch (h : Under (path ++ ascii word) frontier) : Under path frontier := by
  obtain ⟨rest', rfl⟩ := under_word hword h
  exact under_append _ _

theorem not_under_branch {word' : String} {c' : UInt8} {rest' : Text}
    (hword' : ascii word' = 46 :: c' :: rest') (hne : c ≠ c')
    (h : Under (path ++ ascii word) frontier) : ¬ Under (path ++ ascii word') frontier := by
  intro h'
  obtain ⟨tail, rfl⟩ := under_word hword h
  obtain ⟨tail', heq⟩ := under_word hword' h'
  have htail := List.append_cancel_left heq
  rw [List.cons.injEq, List.cons.injEq] at htail
  exact hne htail.2.1

end

theorem then_word : ascii ".then" = 46 :: 116 :: ascii "hen" := by decide

theorem else_word : ascii ".else" = 46 :: 101 :: ascii "lse" := by decide

theorem join_word : ascii ".join" = 46 :: 106 :: ascii "oin" := by decide

theorem check_word : ascii ".check" = 46 :: 99 :: ascii "heck" := by decide

theorem not_under_self {j : ℕ} (hword : ascii word = 46 :: c :: rest) :
    ¬ Under (operationPath (path ++ ascii word) j) path := by
  intro h
  have hlength := h.length
  simp only [operationPath_eq, hword, List.length_append, List.length_cons] at hlength
  omega

section

variable (h : Unused base index frontiers)

include h

theorem Unused.first :
    Unused (operationPath base index ++ ascii ".then") 0 (operationPath base index :: frontiers) := by
  intro f hf j _ hu
  rcases mem_cons.1 hf with rfl | hf
  · exact not_under_self then_word hu
  · exact h f hf index le_rfl (under_of_branch then_word (under_operation hu))

theorem Unused.second (h' : Extends (operationPath base index ++ ascii ".then") 0
      (operationPath base index :: frontiers) frontiers') :
    Unused (operationPath base index ++ ascii ".else") 0 frontiers' := by
  intro f hf j _ hu
  rcases h' f hf with hf | ⟨k, -, hk⟩
  · rcases mem_cons.1 hf with rfl | hf
    · exact not_under_self else_word hu
    · exact h f hf index le_rfl (under_of_branch else_word (under_operation hu))
  · exact not_under_branch then_word else_word (by decide) (under_operation hk)
      (under_operation hu)

theorem Unused.join (h' : Extends (operationPath base index ++ ascii ".then") 0
      (operationPath base index :: frontiers) frontiers')
    (h'' : Extends (operationPath base index ++ ascii ".else") 0 frontiers' frontiers'') :
    operationPath base index ++ ascii ".join" ∉ frontiers'' := by
  intro hf
  rcases h'' _ hf with hf | ⟨k, -, hk⟩
  · rcases h' _ hf with hf | ⟨k, -, hk⟩
    · rcases mem_cons.1 hf with heq | hf
      · have := congrArg List.length heq
        simp [join_word] at this
      · exact h _ hf index le_rfl (under_of_branch join_word (under_refl _))
    · exact not_under_branch then_word join_word (by decide) (under_operation hk) (under_refl _)
  · exact not_under_branch else_word join_word (by decide) (under_operation hk) (under_refl _)

end

theorem under_of_branches (h' : Extends (operationPath base index ++ ascii ".then") 0
      (operationPath base index :: frontiers) frontiers')
    (h'' : Extends (operationPath base index ++ ascii ".else") 0 frontiers' frontiers'') :
    ∀ f ∈ (operationPath base index ++ ascii ".join") :: frontiers'',
      f ∈ frontiers ∨ Under (operationPath base index) f := by
  intro f hf
  rcases mem_cons.1 hf with rfl | hf
  · exact .inr (under_of_branch join_word (under_refl _))
  · rcases h'' f hf with hf | ⟨k, -, hk⟩
    · rcases h' f hf with hf | ⟨k, -, hk⟩
      · exact mem_or_under hf
      · exact .inr (under_of_branch then_word (under_operation hk))
    · exact .inr (under_of_branch else_word (under_operation hk))

end Matcore.ClosedRegion
