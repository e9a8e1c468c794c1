import Mathlib

/-!
# Programs with regions

Operations in order. Some have blocks of their own, which are entered as often as the state of the
run says. What an operation does is left to a `Machine`.

* `Exec.simulate`: a relation that every operation keeps is kept by a run.
-/

namespace Regions

variable {L L' R R' S T : Type*}

inductive Ops (L R : Type*) where
  | nil
  | leaf (op : L) (rest : Ops L R)
  | region (op : R) (n : ℕ) (blocks : Fin n → Ops L R) (rest : Ops L R)

def Ops.append : Ops L R → Ops L R → Ops L R
  | .nil, ops => ops
  | .leaf op rest, ops => .leaf op (rest.append ops)
  | .region op n blocks rest, ops => .region op n blocks (rest.append ops)

def Ops.map (f : L → L') (g : R → R') : Ops L R → Ops L' R'
  | .nil => .nil
  | .leaf op rest => .leaf (f op) (rest.map f g)
  | .region op n blocks rest => .region (g op) n (fun i => (blocks i).map f g) (rest.map f g)

/-- The operations, those of the blocks before the operation that they belong to. -/
def Ops.walk : Ops L R → List (L ⊕ R)
  | .nil => []
  | .leaf op rest => .inl op :: rest.walk
  | .region op n blocks rest =>
    (List.finRange n).flatMap (fun i => (blocks i).walk) ++ .inr op :: rest.walk

def Ops.ofList (ops : List L) (rest : Ops L R) : Ops L R := ops.foldr .leaf rest

/-- Every operation without blocks is replaced by some of these. -/
def Ops.expand (f : L → List L') : Ops L R → Ops L' R
  | .nil => .nil
  | .leaf op rest => .ofList (f op) (rest.expand f)
  | .region op n blocks rest => .region op n (fun i => (blocks i).expand f) (rest.expand f)

/-- The target stands in the program, with all that follows it in its block. -/
inductive Occurs (target : Ops L R) : Ops L R → Prop
  | here : Occurs target target
  | leaf {op rest} : Occurs target rest → Occurs target (.leaf op rest)
  | region {op n blocks rest} : Occurs target rest → Occurs target (.region op n blocks rest)
  | inside {op n blocks rest} (i : Fin n) :
      Occurs target (blocks i) → Occurs target (.region op n blocks rest)

/-- `control` says which block is entered next, if any. -/
structure Machine (L R S : Type*) where
  step : L → S → S
  control : R → (n : ℕ) → S → Option (Fin n) × S

namespace Machine

variable (M : Machine L R S)

/-- The runs from the first operation behind the last one. -/
inductive Exec : Ops L R → S → S → Prop
  | nil {s} : Exec .nil s s
  | leaf {op rest s s'} : Exec rest (M.step op s) s' → Exec (.leaf op rest) s s'
  | leave {op n blocks rest s s'} : (M.control op n s).1 = none →
      Exec rest (M.control op n s).2 s' → Exec (.region op n blocks rest) s s'
  | enter {op n blocks rest s s₁ s'} (i : Fin n) : (M.control op n s).1 = some i →
      Exec (blocks i) (M.control op n s).2 s₁ → Exec (.region op n blocks rest) s₁ s' →
      Exec (.region op n blocks rest) s s'

def steps (ops : List L) (s : S) : S := ops.foldl (fun s op => M.step op s) s

/-- The runs to some operation, also inside a block. -/
inductive Reaches (target : Ops L R) : Ops L R → S → S → Prop
  | here {s} : Reaches target target s s
  | leaf {op rest s s'} : Reaches target rest (M.step op s) s' →
      Reaches target (.leaf op rest) s s'
  | leave {op n blocks rest s s'} : (M.control op n s).1 = none →
      Reaches target rest (M.control op n s).2 s' → Reaches target (.region op n blocks rest) s s'
  | inside {op n blocks rest s s'} (i : Fin n) : (M.control op n s).1 = some i →
      Reaches target (blocks i) (M.control op n s).2 s' →
      Reaches target (.region op n blocks rest) s s'
  | again {op n blocks rest s s₁ s'} (i : Fin n) : (M.control op n s).1 = some i →
      M.Exec (blocks i) (M.control op n s).2 s₁ → Reaches target (.region op n blocks rest) s₁ s' →
      Reaches target (.region op n blocks rest) s s'

end Machine

namespace Occurs

variable {target mid ops : Ops L R}

theorem trans (h : Occurs target mid) (h' : Occurs mid ops) : Occurs target ops := by
  induction h' with
  | here => exact h
  | leaf _ ih => exact .leaf ih
  | region _ ih => exact .region ih
  | inside i _ ih => exact .inside i ih

variable {rest : Ops L R}

theorem append_leaf {op : L} (h : Occurs (.leaf op rest) ops) (ops' : Ops L R) :
    ∃ rest', Occurs (.leaf op rest') (ops.append ops') := by
  induction ops with
  | nil => cases h
  | leaf op' rest' ih =>
    cases h with
    | here => exact ⟨_, .here⟩
    | leaf h => exact (ih h).imp fun _ hr => .leaf hr
  | region op' n blocks rest' _ ih =>
    cases h with
    | region h => exact (ih h).imp fun _ hr => .region hr
    | inside i h => exact ⟨rest, .inside i h⟩

theorem append_region {op : R} {n : ℕ} {blocks : Fin n → Ops L R}
    (h : Occurs (.region op n blocks rest) ops) (ops' : Ops L R) :
    ∃ rest', Occurs (.region op n blocks rest') (ops.append ops') := by
  induction ops with
  | nil => cases h
  | leaf op' rest' ih =>
    cases h with
    | leaf h => exact (ih h).imp fun _ hr => .leaf hr
  | region op' n' blocks' rest' _ ih =>
    cases h with
    | here => exact ⟨_, .here⟩
    | region h => exact (ih h).imp fun _ hr => .region hr
    | inside i h => exact ⟨rest, .inside i h⟩

variable {ops' : Ops L R}

theorem append_right (h : Occurs target ops') (ops : Ops L R) :
    Occurs target (ops.append ops') := by
  induction ops with
  | nil => exact h
  | leaf op rest ih => exact .leaf ih
  | region op n blocks rest _ ih => exact .region ih

theorem of_append_leaf {op : L} (h : Occurs (.leaf op rest) (ops.append ops')) :
    (∃ rest', Occurs (.leaf op rest') ops) ∨ Occurs (.leaf op rest) ops' := by
  induction ops with
  | nil => exact .inr h
  | leaf op' rest' ih =>
    cases h with
    | here => exact .inl ⟨_, .here⟩
    | leaf h => exact (ih h).imp (fun ⟨r, hr⟩ => ⟨r, .leaf hr⟩) id
  | region op' n blocks rest' _ ih =>
    cases h with
    | region h => exact (ih h).imp (fun ⟨r, hr⟩ => ⟨r, .region hr⟩) id
    | inside i h => exact .inl ⟨rest, .inside i h⟩

theorem of_append_region {op : R} {n : ℕ} {blocks : Fin n → Ops L R}
    (h : Occurs (.region op n blocks rest) (ops.append ops')) :
    (∃ rest', Occurs (.region op n blocks rest') ops) ∨ Occurs (.region op n blocks rest) ops' := by
  induction ops with
  | nil => exact .inr h
  | leaf op' rest' ih =>
    cases h with
    | leaf h => exact (ih h).imp (fun ⟨r, hr⟩ => ⟨r, .leaf hr⟩) id
  | region op' n' blocks' rest' _ ih =>
    cases h with
    | here => exact .inl ⟨_, .here⟩
    | region h => exact (ih h).imp (fun ⟨r, hr⟩ => ⟨r, .region hr⟩) id
    | inside i h => exact .inl ⟨rest, .inside i h⟩

end Occurs

namespace Machine

variable {M : Machine L R S} {ops ops' : Ops L R} {s s' : S} {target : Ops L R}

theorem Reaches.occurs (h : M.Reaches target ops s s') : Occurs target ops := by
  induction h with
  | here => exact .here
  | leaf _ ih => exact .leaf ih
  | leave _ _ ih => exact .region ih
  | inside i _ _ ih => exact .inside i ih
  | again _ _ _ _ ih => exact ih

theorem Exec.append {s₁ : S} (h : M.Exec ops s s₁) (h' : M.Exec ops' s₁ s') :
    M.Exec (ops.append ops') s s' := by
  induction h with
  | nil => exact h'
  | leaf _ ih => exact .leaf (ih h')
  | leave hleave _ ih => exact .leave hleave (ih h')
  | enter i henter hblock _ _ ih => exact .enter i henter hblock (ih h')

theorem Exec.split (h : M.Exec (ops.append ops') s s') :
    ∃ s₁, M.Exec ops s s₁ ∧ M.Exec ops' s₁ s' := by
  generalize hall : ops.append ops' = all at h
  induction h generalizing ops with
  | nil =>
    cases ops with
    | nil =>
      subst hall
      exact ⟨_, .nil, .nil⟩
    | leaf _ _ => cases hall
    | region _ _ _ _ => cases hall
  | leaf h ih =>
    cases ops with
    | nil =>
      subst hall
      exact ⟨_, .nil, .leaf h⟩
    | leaf _ _ =>
      obtain ⟨rfl, hrest⟩ := Ops.leaf.inj hall
      obtain ⟨s₁, hfirst, hlast⟩ := ih hrest
      exact ⟨s₁, .leaf hfirst, hlast⟩
    | region _ _ _ _ => cases hall
  | leave hleave h ih =>
    cases ops with
    | nil =>
      subst hall
      exact ⟨_, .nil, .leave hleave h⟩
    | leaf _ _ => cases hall
    | region _ _ _ _ =>
      obtain ⟨rfl, rfl, _, hrest⟩ := Ops.region.inj hall
      obtain ⟨s₁, hfirst, hlast⟩ := ih hrest
      exact ⟨s₁, .leave hleave hfirst, hlast⟩
  | enter i henter hblock h _ ih =>
    cases ops with
    | nil =>
      subst hall
      exact ⟨_, .nil, .enter i henter hblock h⟩
    | leaf _ _ => cases hall
    | region op n blocks rest =>
      have hself : (Ops.region op n blocks rest).append ops' = _ := hall
      obtain ⟨rfl, rfl, hblocks, _⟩ := Ops.region.inj hall
      obtain rfl := eq_of_heq hblocks
      obtain ⟨s₁, hfirst, hlast⟩ := ih hself
      exact ⟨s₁, .enter i henter hblock hfirst, hlast⟩

variable {I : S → Prop}

/-- What every operation keeps is kept by a run. -/
theorem Exec.invariant (hstep : ∀ op s, I s → I (M.step op s))
    (hcontrol : ∀ op n s, I s → I (M.control op n s).2) (h : M.Exec ops s s') (hs : I s) :
    I s' := by
  induction h with
  | nil => exact hs
  | leaf _ ih => exact ih (hstep _ _ hs)
  | leave _ _ ih => exact ih (hcontrol _ _ _ hs)
  | enter _ _ _ _ ihblock ih => exact ih (ihblock (hcontrol _ _ _ hs))

theorem Reaches.invariant (hstep : ∀ op s, I s → I (M.step op s))
    (hcontrol : ∀ op n s, I s → I (M.control op n s).2) (h : M.Reaches target ops s s') (hs : I s) :
    I s' := by
  induction h with
  | here => exact hs
  | leaf _ ih => exact ih (hstep _ _ hs)
  | leave _ _ ih => exact ih (hcontrol _ _ _ hs)
  | inside _ _ _ ih => exact ih (hcontrol _ _ _ hs)
  | again i _ hblock _ ih => exact ih (hblock.invariant hstep hcontrol (hcontrol _ _ _ hs))

/-- The relation is kept by every operation of a program. -/
structure Keeps (M : Machine L R S) (N : Machine L R T) (Rel : S → T → Prop)
    (ops : Ops L R) : Prop where
  step : ∀ op rest, Occurs (.leaf op rest) ops → ∀ s t, Rel s t → Rel (M.step op s) (N.step op t)
  control : ∀ op n blocks rest, Occurs (.region op n blocks rest) ops → ∀ s t, Rel s t →
    (M.control op n s).1 = (N.control op n t).1 ∧ Rel (M.control op n s).2 (N.control op n t).2

variable {N : Machine L R T} {Rel : S → T → Prop}

theorem Keeps.of_occurs (h : Keeps M N Rel ops) (hoccurs : Occurs ops' ops) : Keeps M N Rel ops' :=
  ⟨fun op rest ho => h.step op rest (ho.trans hoccurs),
    fun op n blocks rest ho => h.control op n blocks rest (ho.trans hoccurs)⟩

variable {t : T}

theorem Exec.simulate (hkeeps : Keeps M N Rel ops) (h : M.Exec ops s s') (ht : Rel s t) :
    ∃ t', N.Exec ops t t' ∧ Rel s' t' := by
  induction h generalizing t with
  | nil => exact ⟨t, .nil, ht⟩
  | leaf _ ih =>
    have hnext := hkeeps.step _ _ .here _ _ ht
    obtain ⟨t', hexec, hrel⟩ := ih (hkeeps.of_occurs (.leaf .here)) hnext
    exact ⟨t', .leaf hexec, hrel⟩
  | leave hleave _ ih =>
    obtain ⟨hsame, hnext⟩ := hkeeps.control _ _ _ _ .here _ _ ht
    obtain ⟨t', hexec, hrel⟩ := ih (hkeeps.of_occurs (.region .here)) hnext
    exact ⟨t', .leave (hsame ▸ hleave) hexec, hrel⟩
  | enter i henter _ _ ihblock ih =>
    obtain ⟨hsame, hnext⟩ := hkeeps.control _ _ _ _ .here _ _ ht
    obtain ⟨t₁, hblock, hmid⟩ := ihblock (hkeeps.of_occurs (.inside i .here)) hnext
    obtain ⟨t', hexec, hrel⟩ := ih hkeeps hmid
    exact ⟨t', .enter i (hsame ▸ henter) hblock hexec, hrel⟩

theorem Reaches.simulate (hkeeps : Keeps M N Rel ops) (h : M.Reaches target ops s s') (ht : Rel s t) :
    ∃ t', N.Reaches target ops t t' ∧ Rel s' t' := by
  induction h generalizing t with
  | here => exact ⟨t, .here, ht⟩
  | leaf _ ih =>
    have hnext := hkeeps.step _ _ .here _ _ ht
    obtain ⟨t', hreach, hrel⟩ := ih (hkeeps.of_occurs (.leaf .here)) hnext
    exact ⟨t', .leaf hreach, hrel⟩
  | leave hleave _ ih =>
    obtain ⟨hsame, hnext⟩ := hkeeps.control _ _ _ _ .here _ _ ht
    obtain ⟨t', hreach, hrel⟩ := ih (hkeeps.of_occurs (.region .here)) hnext
    exact ⟨t', .leave (hsame ▸ hleave) hreach, hrel⟩
  | inside i henter _ ih =>
    obtain ⟨hsame, hnext⟩ := hkeeps.control _ _ _ _ .here _ _ ht
    obtain ⟨t', hreach, hrel⟩ := ih (hkeeps.of_occurs (.inside i .here)) hnext
    exact ⟨t', .inside i (hsame ▸ henter) hreach, hrel⟩
  | again i henter hblock _ ih =>
    obtain ⟨hsame, hnext⟩ := hkeeps.control _ _ _ _ .here _ _ ht
    obtain ⟨t₁, hexec, hmid⟩ := hblock.simulate (hkeeps.of_occurs (.inside i .here)) hnext
    obtain ⟨t', hreach, hrel⟩ := ih hkeeps hmid
    exact ⟨t', .again i (hsame ▸ henter) hexec hreach, hrel⟩

theorem exec_ofList {rest : Ops L R} {leaves : List L} :
    M.Exec (.ofList leaves rest) s s' ↔ M.Exec rest (M.steps leaves s) s' := by
  induction leaves generalizing s with
  | nil => exact Iff.rfl
  | cons op leaves ih =>
    refine Iff.trans ⟨fun h => ?_, .leaf⟩ ih
    cases h with
    | leaf h => exact h

/-- A run is one of the program with other operations where each of these does, from the states
that the run reaches, what the operation did. -/
theorem Exec.expand {N : Machine L' R T} (Rel : S → T → Prop) (Ok : L → S → Prop) (f : L → List L')
    (hstep : ∀ op s t, Ok op s → Rel s t → Rel (M.step op s) (N.steps (f op) t))
    (hcontrol : ∀ op n s t, Rel s t →
      (M.control op n s).1 = (N.control op n t).1 ∧ Rel (M.control op n s).2 (N.control op n t).2)
    (h : M.Exec ops s s') (hok : ∀ op rest st, M.Reaches (.leaf op rest) ops s st → Ok op st)
    (ht : Rel s t) : ∃ t', N.Exec (ops.expand f) t t' ∧ Rel s' t' := by
  induction h generalizing t with
  | nil => exact ⟨t, .nil, ht⟩
  | leaf _ ih =>
    have hnext := hstep _ _ _ (hok _ _ _ .here) ht
    obtain ⟨t', hexec, hrel⟩ := ih (fun op rest st h => hok op rest st (.leaf h)) hnext
    exact ⟨t', exec_ofList.2 hexec, hrel⟩
  | leave hleave _ ih =>
    obtain ⟨hsame, hnext⟩ := hcontrol _ _ _ _ ht
    obtain ⟨t', hexec, hrel⟩ := ih (fun op rest st h => hok op rest st (.leave hleave h)) hnext
    exact ⟨t', .leave (hsame ▸ hleave) hexec, hrel⟩
  | enter i henter hblock _ ihblock ih =>
    obtain ⟨hsame, hnext⟩ := hcontrol _ _ _ _ ht
    obtain ⟨t₁, hexec₁, hmid⟩ :=
      ihblock (fun op rest st h => hok op rest st (.inside i henter h)) hnext
    obtain ⟨t', hexec, hrel⟩ :=
      ih (fun op rest st h => hok op rest st (.again i henter hblock h)) hmid
    exact ⟨t', .enter i (hsame ▸ henter) hexec₁ hexec, hrel⟩

/-- There is one run at most. -/
theorem Exec.deterministic {s'' : S} (h : M.Exec ops s s') (h' : M.Exec ops s s'') : s' = s'' := by
  induction h generalizing s'' with
  | nil =>
    cases h'
    rfl
  | leaf _ ih =>
    cases h' with
    | leaf h' => exact ih h'
  | leave hleave _ ih =>
    cases h' with
    | leave _ h' => exact ih h'
    | enter i henter _ _ => exact absurd (hleave.symm.trans henter) nofun
  | enter i henter _ _ ihblock ih =>
    cases h' with
    | leave hleave _ => exact absurd (henter.symm.trans hleave) nofun
    | enter j henter' hblock h' =>
      obtain rfl := Option.some.inj (henter.symm.trans henter')
      obtain rfl := ihblock hblock
      exact ih h'

/-- A run stays one where the blocks are replaced. -/
theorem Exec.region_mono (hstep : ∀ op s, I s → I (M.step op s))
    (hcontrol : ∀ op n s, I s → I (M.control op n s).2) {op : R} {n : ℕ}
    {blocks blocks' : Fin n → Ops L R} {rest rest' : Ops L R}
    (hblocks : ∀ i s s', I s → M.Exec (blocks i) s s' → M.Exec (blocks' i) s s')
    (hrest : ∀ s s', I s → M.Exec rest s s' → M.Exec rest' s s') (hs : I s)
    (h : M.Exec (.region op n blocks rest) s s') : M.Exec (.region op n blocks' rest') s s' := by
  generalize hall : Ops.region op n blocks rest = all at h
  induction h with
  | nil => cases hall
  | leaf _ _ => cases hall
  | leave hleave h _ =>
    obtain ⟨rfl, rfl, _, rfl⟩ := Ops.region.inj hall
    exact .leave hleave (hrest _ _ (hcontrol _ _ _ hs) h)
  | enter i henter hblock h _ ih =>
    obtain ⟨rfl, rfl, hsame, rfl⟩ := Ops.region.inj hall
    obtain rfl := eq_of_heq hsame
    have hmid := hcontrol op n _ hs
    exact .enter i henter (hblocks i _ _ hmid hblock)
      (ih (hblock.invariant hstep hcontrol hmid) rfl)

end Machine

end Regions
