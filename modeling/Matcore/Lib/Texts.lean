import Mathlib

/-!
# Texts that come apart

A text of several parts, without anything that tells their lengths, can be taken apart where the
rest behind each part begins with a character that the part cannot go on with.
-/

namespace Texts

open List (mem_cons_self mem_cons_of_mem append_assoc flatMap_cons)

variable {σ α β γ δ : Type}

/-- The rest is empty, or begins with such a character. -/
def Begins (p : σ → Bool) (rest : List σ) : Prop := ∀ c ∈ rest.head?, p c = true

variable {p : σ → Bool}

theorem Begins.nil : Begins p [] := nofun

variable {l : List σ}

theorem Begins.lit (h : l.head?.map p = some true) (rest : List σ) : Begins p (l ++ rest) := by
  cases l with
  | nil => cases h
  | cons c l =>
    intro c' hc
    obtain rfl := Option.some.inj hc
    exact Option.some.inj h

theorem Begins.imp {q : σ → Bool} (h : ∀ c, p c = true → q c = true) {rest : List σ}
    (hp : Begins p rest) : Begins q rest := fun c hc => h c (hp c hc)

theorem Begins.excludes {rest : List σ} (h : Begins p rest) (hl : l.head?.map p = some false) :
    ¬ l <+: rest := by
  rintro ⟨s, rfl⟩
  cases l with
  | nil => cases hl
  | cons c l =>
    have hc : p c = true := h c rfl
    exact absurd (hc.symm.trans (Option.some.inj hl)) nofun

variable {c : σ}

theorem getElem?_append {l' : List σ} {i : ℕ} (h : l[i]? = some c) : (l ++ l')[i]? = some c := by
  obtain ⟨hi, -⟩ := List.getElem?_eq_some_iff.1 h
  rwa [List.getElem?_append_left hi]

theorem Begins.of_getElem? (h : l[0]? = some c) (hc : p c = true) (rest : List σ) :
    Begins p (l ++ rest) := by
  refine .lit ?_ rest
  rw [List.head?_eq_getElem?, h]
  exact congrArg some hc

/-- Of values in a domain, two texts that agree with what follows agree in what they show and in what
follows. -/
def Splits (Dom : α → Prop) (text : α → List σ) (Rest : List σ → Prop) (shown : α → β) :
    Prop :=
  ∀ a b s t, Dom a → Dom b → Rest s → Rest t → text a ++ s = text b ++ t →
    shown a = shown b ∧ s = t

variable {Dom : α → Prop} {text text' : α → List σ} {Rest Rest' : List σ → Prop}
  {shown : α → β} {shown' : α → γ}

theorem Splits.lit (l : List σ) : Splits Dom (fun _ => l) (fun _ => True) (fun _ => ()) := by
  intro _ _ s t _ _ _ _ h
  exact ⟨rfl, List.append_cancel_left h⟩

theorem Splits.token (htoken : ∀ a, Dom a → ∀ c ∈ text a, p c = false) :
    Splits Dom text (Begins p) text := by
  intro a b s t ha hb hs ht h
  have hx := htoken a ha
  have hy := htoken b hb
  generalize text a = x at h hx ⊢
  generalize text b = y at h hy ⊢
  induction x generalizing y with
  | nil =>
    cases y with
    | nil => exact ⟨rfl, h⟩
    | cons c y =>
      have hc := hs c (by simp [show s = c :: (y ++ t) from h])
      exact absurd hc (by simp [hy c mem_cons_self])
  | cons c x ih =>
    cases y with
    | nil =>
      have hc := ht c (by simp [show t = c :: (x ++ s) from h.symm])
      exact absurd hc (by simp [hx c mem_cons_self])
    | cons d y =>
      obtain ⟨rfl, hrest⟩ := List.cons.inj h
      obtain ⟨hxy, hst⟩ := ih (fun e he => hx e (mem_cons_of_mem _ he)) y hrest
        fun e he => hy e (mem_cons_of_mem _ he)
      exact ⟨congrArg _ hxy, hst⟩

theorem Splits.flag (b : α → Bool) (hrest : ∀ s, Rest s → ¬ l <+: s) :
    Splits Dom (fun a => if b a then l else []) Rest b := by
  intro x y s t _ _ hs ht h
  cases hx : b x <;> cases hy : b y <;> simp only [hx, hy, if_true] at h
  · exact ⟨rfl, h⟩
  · exact absurd ⟨t, h.symm⟩ (hrest s hs)
  · exact absurd ⟨s, h⟩ (hrest t ht)
  · exact ⟨rfl, List.append_cancel_left h⟩

section

variable (h : Splits Dom text Rest shown)

include h

/-- Equal in what the parts show is equal in other things. -/
theorem Splits.shows (hshown : ∀ a b, Dom a → Dom b → shown a = shown b → shown' a = shown' b) :
    Splits Dom text Rest shown' := by
  intro a b s t ha hb hs ht heq
  obtain ⟨hab, hst⟩ := h a b s t ha hb hs ht heq
  exact ⟨hshown a b ha hb hab, hst⟩

theorem Splits.restrict {Dom' : α → Prop} (hdom : ∀ a, Dom' a → Dom a)
    (hrest : ∀ s, Rest' s → Rest s) : Splits Dom' text Rest' shown :=
  fun a b s t ha hb hs ht => h a b s t (hdom a ha) (hdom b hb) (hrest s hs) (hrest t ht)

theorem Splits.comap (f : δ → α) :
    Splits (fun d => Dom (f d)) (fun d => text (f d)) Rest (fun d => shown (f d)) :=
  fun a b s t => h (f a) (f b) s t

theorem Splits.seq (h' : Splits Dom text' Rest' shown')
    (hrest : ∀ a s, Dom a → Rest' s → Rest (text' a ++ s)) :
    Splits Dom (fun a => text a ++ text' a) Rest' (fun a => (shown a, shown' a)) := by
  intro a b s t ha hb hs ht heq
  simp only [append_assoc] at heq
  obtain ⟨hfirst, heq⟩ := h a b _ _ ha hb (hrest a s ha hs) (hrest b t hb ht) heq
  obtain ⟨hsecond, hst⟩ := h' a b s t ha hb hs ht heq
  exact ⟨Prod.ext hfirst hsecond, hst⟩

end

theorem Splits.thenLit (h : Splits Dom text (Begins p) shown) (l : List σ)
    (hl : l.head?.map p = some true) : Splits Dom (fun a => text a ++ l) (fun _ => True) shown := by
  refine (h.seq (Splits.lit l) fun _ s _ _ => .lit hl s).shows fun a b _ _ hab => ?_
  exact (Prod.mk.inj hab).1

theorem Splits.andThen (h : Splits Dom text (fun _ => True) shown)
    (h' : Splits Dom text' Rest' shown') :
    Splits Dom (fun a => text a ++ text' a) Rest' (fun a => (shown a, shown' a)) :=
  h.seq h' fun _ _ _ _ => trivial

theorem Splits.flatMap (End : List σ → Prop) (h : Splits Dom text Rest shown)
    (hnext : ∀ a s, Dom a → Rest (text a ++ s)) (hend : ∀ s, End s → Rest s)
    (hmore : ∀ a s, Dom a → ¬ End (text a ++ s)) :
    Splits (fun l : List α => ∀ a ∈ l, Dom a) (fun l => l.flatMap text) End (List.map shown) := by
  have hstep : ∀ (l : List α) s, (∀ a ∈ l, Dom a) → End s → Rest (l.flatMap text ++ s) := by
    intro l s hl hs
    cases l with
    | nil => exact hend s hs
    | cons a l =>
      rw [flatMap_cons, append_assoc]
      exact hnext a _ (hl a mem_cons_self)
  intro l m s t hl hm hs ht heq
  beta_reduce at heq
  induction l generalizing m with
  | nil =>
    cases m with
    | nil => exact ⟨rfl, heq⟩
    | cons b m =>
      rw [flatMap_cons, append_assoc] at heq
      obtain rfl : s = text b ++ (m.flatMap text ++ t) := heq
      exact absurd hs (hmore b _ (hm b mem_cons_self))
  | cons a l ih =>
    cases m with
    | nil =>
      rw [flatMap_cons, append_assoc] at heq
      obtain rfl : text a ++ (l.flatMap text ++ s) = t := heq
      exact absurd ht (hmore a _ (hl a mem_cons_self))
    | cons b m =>
      simp only [flatMap_cons, append_assoc] at heq
      have hl' := fun a ha => hl a (mem_cons_of_mem _ ha)
      have hm' := fun b hb => hm b (mem_cons_of_mem _ hb)
      obtain ⟨hab, heq⟩ := h a b _ _ (hl a mem_cons_self) (hm b mem_cons_self)
        (hstep l s hl' hs) (hstep m t hm' ht) heq
      obtain ⟨hlm, hst⟩ := ih m hl' hm' heq
      exact ⟨congrArg₂ List.cons hab hlm, hst⟩

theorem Splits.tagged {ι : Type} {tag : α → ι} (h : Splits Dom text Rest tag)
    (h' : ∀ i, Splits (fun a => Dom a ∧ tag a = i) text' Rest' shown')
    (hrest : ∀ a s, Dom a → Rest' s → Rest (text' a ++ s)) :
    Splits Dom (fun a => text a ++ text' a) Rest' (fun a => (tag a, shown' a)) := by
  intro a b s t ha hb hs ht heq
  simp only [append_assoc] at heq
  obtain ⟨htag, heq⟩ := h a b _ _ ha hb (hrest a s ha hs) (hrest b t hb ht) heq
  obtain ⟨hshown, hst⟩ := h' (tag b) a b s t ⟨ha, htag⟩ ⟨hb, rfl⟩ hs ht heq
  exact ⟨Prod.ext htag hshown, hst⟩

/-- A decimal of a natural number. -/
def natText (n : ℕ) : List Char := Nat.toDigits 10 n

/-- A decimal of an integer. -/
def intText : ℤ → List Char
  | .ofNat n => natText n
  | .negSucc n => '-' :: natText (n + 1)

/-- A character that a decimal cannot go on with. -/
def notDecimal (c : Char) : Bool := !(c.isDigit || c == '-')

variable {c : Char}

theorem natText_injective : Function.Injective natText := by
  intro n m h
  rw [← Nat.ofDigitChars_ten_toDigits (n := n), ← Nat.ofDigitChars_ten_toDigits (n := m)]
  exact congrArg (Nat.ofDigitChars 10 · 0) h

theorem isDigit_of_mem_natText {n : ℕ} (h : c ∈ natText n) : c.isDigit = true :=
  Nat.isDigit_of_mem_toDigits (by decide) (by decide) h

theorem natText_ne_nil (n : ℕ) : natText n ≠ [] := Nat.toDigits_ne_nil

theorem notDecimal_natText {n : ℕ} (h : c ∈ natText n) : notDecimal c = false := by
  simp [notDecimal, isDigit_of_mem_natText h]

theorem notDecimal_intText {n : ℤ} (h : c ∈ intText n) : notDecimal c = false := by
  cases n with
  | ofNat n => exact notDecimal_natText h
  | negSucc n =>
    cases h with
    | head => rfl
    | tail _ h => exact notDecimal_natText h

theorem minus_notin_natText (n : ℕ) : '-' ∉ natText n := by
  intro h
  exact absurd (isDigit_of_mem_natText h) (by decide)

theorem intText_injective : Function.Injective intText := by
  intro n m h
  cases n with
  | ofNat n =>
    cases m with
    | ofNat m => exact congrArg Int.ofNat (natText_injective h)
    | negSucc m =>
      have hminus : '-' ∈ natText n := (show natText n = _ from h) ▸ mem_cons_self
      exact absurd hminus (minus_notin_natText n)
  | negSucc n =>
    cases m with
    | ofNat m =>
      have hminus : '-' ∈ natText m := (show _ = natText m from h) ▸ mem_cons_self
      exact absurd hminus (minus_notin_natText m)
    | negSucc m =>
      have hnat := natText_injective (List.cons.inj h).2
      exact congrArg Int.negSucc (Nat.succ.inj hnat)

theorem intText_ne_nil (n : ℤ) : intText n ≠ [] := by
  cases n with
  | ofNat n => exact natText_ne_nil n
  | negSucc n => exact List.cons_ne_nil _ _

theorem Splits.nat (f : α → ℕ) : Splits Dom (fun a => natText (f a)) (Begins notDecimal) f :=
  (Splits.token fun _ _ _ hc => notDecimal_natText hc).shows
    fun _ _ _ _ h => natText_injective h

theorem Splits.int (f : α → ℤ) : Splits Dom (fun a => intText (f a)) (Begins notDecimal) f :=
  (Splits.token fun _ _ _ hc => notDecimal_intText hc).shows
    fun _ _ _ _ h => intText_injective h

/-- The end of a list of decimals cannot be taken for one more. -/
theorem not_begins_intText (n : ℤ) (s : List Char) : ¬ Begins notDecimal (intText n ++ s) := by
  intro h
  cases htext : intText n with
  | nil => exact intText_ne_nil n htext
  | cons c l =>
    have hc : notDecimal c = true := h c (by simp [htext])
    have hno := notDecimal_intText (n := n) (c := c) (htext ▸ mem_cons_self)
    exact absurd (hc.symm.trans hno) nofun

theorem not_begins_natText (n : ℕ) (s : List Char) : ¬ Begins notDecimal (natText n ++ s) :=
  not_begins_intText (.ofNat n) s

end Texts
