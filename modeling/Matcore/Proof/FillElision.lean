import Matcore.Proof.FullSubview

/-!
# When an erased fill is dead

The erased fills are dead if and only if no operation up to the copy names a memref that can share an
element with the buffer.
-/

namespace Matcore.Gpu.FillElision

open Regions

variable {X V : Type} {Occurring : Env → Prop}

/-- Behind an erased fill, no operation up to the copy reads an element of its buffer, and the copy
writes all of them. -/
def Dead (M : Meaning X V Occurring) (body : Body) (s : State X V) : Prop :=
  ∀ fill rest buffer mid copy s₁, M.machine.Reaches (.leaf fill rest) body s s₁ →
    erased fill rest = some (buffer, mid, copy) →
    (∀ op rest' s₂, M.machine.Reaches (.leaf op rest') (mid.append (.leaf copy .nil))
        (M.machine.step fill s₁) s₂ →
      ∀ a ∈ M.readSet op s₂, a ∉ buffer.elements s₁.env) ∧
    ∀ s₂, M.machine.Exec mid (M.machine.step fill s₁) s₂ →
      ∀ a ∈ buffer.elements s₁.env, a ∈ M.writeSet copy s₂

/-- Every erased fill is dead, and the function does the same without them. -/
def Preserves (f : FuncOp) (Occurring : Env → Prop) : Prop :=
  ∀ (X V : Type) (M : Meaning X V Occurring),
    (∀ s, Occurring s.env → Dead M f.body s) ∧
    ∀ s s', Occurring s.env → (M.machine.Exec f.body s s' ↔ M.machine.Exec (elide f.body) s s')

/-- No operation names a memref to read that can share an element with the buffer. -/
def Blind (Occurring : Env → Prop) (buffer : MemRef) (ops : Body) : Prop :=
  ∀ op rest, Occurs (.leaf op rest) ops → ∀ m ∈ op.reads, ∀ env, Occurring env →
    ∀ a ∈ m.elements env, a ∉ buffer.elements env

/-- The condition: between an erased fill and its copy, at any nesting, no memref to read can share
an element with the buffer, nor can the input of the copy. Where the shape that the pass infers for
the buffer leaves out dimensions, the copy writes all of the buffer nevertheless. -/
def Careful (Occurring : Env → Prop) (body : Body) : Prop :=
  ∀ fill rest buffer mid copy, Occurs (.leaf fill rest) body →
    erased fill rest = some (buffer, mid, copy) →
    Blind Occurring buffer (mid.append (.leaf copy .nil)) ∧
    (¬ buffer.Sharp → ∀ env, Occurring env → ∀ a ∈ buffer.elements env,
      ∃ output ∈ copy.writes, a ∈ output.elements env)

variable {buffer : MemRef} {rest mid body : Body} {op fill copy : Op}

theorem scan_eq_some (h : scan buffer rest = some (mid, copy)) :
    copy.copyFullyOverwritesBuffer buffer = true ∧
      ∃ post, rest = mid.append (.leaf copy post) := by
  induction rest generalizing mid with
  | nil => cases h
  | leaf op rest ih =>
    rw [scan] at h
    split at h
    · rename_i hcopy
      cases h
      exact ⟨hcopy, rest, rfl⟩
    · split at h
      · cases h
      · obtain ⟨⟨mid', copy'⟩, hscan, hsame⟩ := Option.map_eq_some_iff.1 h
        cases hsame
        obtain ⟨hcopy, post, hpost⟩ := ih hscan
        exact ⟨hcopy, post, congrArg _ hpost⟩
  | region op n blocks rest _ ih =>
    obtain ⟨⟨mid', copy'⟩, hscan, hsame⟩ := Option.map_eq_some_iff.1 h
    cases hsame
    obtain ⟨hcopy, post, hpost⟩ := ih hscan
    exact ⟨hcopy, post, congrArg _ hpost⟩

theorem erased_eq_some (h : erased fill rest = some (buffer, mid, copy)) :
    (∃ value, fill = .fill value [buffer]) ∧ copy.copyFullyOverwritesBuffer buffer = true ∧
      ∃ post, rest = mid.append (.leaf copy post) := by
  unfold erased at h
  split at h
  · split at h
    · obtain ⟨⟨mid', copy'⟩, hscan, hsame⟩ := Option.map_eq_some_iff.1 h
      cases hsame
      exact ⟨⟨_, rfl⟩, scan_eq_some hscan⟩
    · cases h
  · cases h

/-- No operation defines one of these values again. -/
structure Unchanged (names : List ℕ) (ops : Body) : Prop where
  leaf : ∀ op rest, Occurs (.leaf op rest) ops → ∀ name ∈ names, name ∉ op.results
  region : ∀ op n blocks rest, Occurs (.region op n blocks rest) ops → ∀ name ∈ names,
    name ∉ op.args ++ op.results

variable {defined : List ℕ} {target : Body}

theorem Scoped.occurs (h : Scoped defined body) (hoccurs : Occurs target body) :
    ∃ defined', defined ⊆ defined' ∧ Scoped defined' target := by
  induction hoccurs generalizing defined with
  | here => exact ⟨defined, List.Subset.refl _, h⟩
  | leaf _ ih | region _ ih =>
    obtain ⟨defined', hle, htarget⟩ := ih h.2.2
    exact ⟨defined', fun n hn => hle (List.mem_append_right _ hn), htarget⟩
  | inside i _ ih =>
    obtain ⟨defined', hle, htarget⟩ := ih (h.2.1 i)
    exact ⟨defined', fun n hn => hle (List.mem_append_right _ hn), htarget⟩

variable {names : List ℕ}

theorem Scoped.unchanged (h : Scoped defined body) (hle : names ⊆ defined) :
    Unchanged names body := by
  constructor
  · intro op rest hoccurs name hname
    obtain ⟨defined', hle', hleaf⟩ := h.occurs hoccurs
    exact fun hresult => hleaf.2.1 name hresult (hle' (hle hname))
  · intro op n blocks rest hoccurs name hname
    obtain ⟨defined', hle', hregion⟩ := h.occurs hoccurs
    exact fun hresult => hregion.1 name hresult (hle' (hle hname))

theorem Unchanged.upTo {post : Body} (h : Unchanged names (mid.append (.leaf copy post))) :
    Unchanged names (mid.append (.leaf copy .nil)) := by
  constructor
  · intro op rest hoccurs
    rcases hoccurs.of_append_leaf with ⟨rest', hmid⟩ | hcopy
    · obtain ⟨rest'', hleaf⟩ := hmid.append_leaf (.leaf copy post)
      exact h.leaf op rest'' hleaf
    · cases hcopy with
      | here => exact h.leaf copy post (Occurs.here.append_right mid)
      | leaf hnil => cases hnil
  · intro op n blocks rest hoccurs
    rcases hoccurs.of_append_region with ⟨rest', hmid⟩ | hcopy
    · obtain ⟨rest'', hregion⟩ := hmid.append_region (.leaf copy post)
      exact h.region op n blocks rest'' hregion
    · cases hcopy with
      | leaf hnil => cases hnil

variable {M : Meaning X V Occurring} {s t s' : State X V} {a : Address}

theorem readSet_elements (h : a ∈ M.readSet op s) : ∃ m ∈ op.reads, a ∈ m.elements s.env := by
  cases op with
  | fill value outputs => cases h
  | copy input outputs => exact ⟨input, List.mem_cons_self, h⟩
  | other op => exact M.reads_elements op _ _ a h

theorem occurs_step (op : Op) (s : State X V) (h : Occurring s.env) :
    Occurring (M.machine.step op s).env := by
  cases op with
  | fill value outputs => exact h
  | copy input outputs => exact h
  | other op => exact M.next_occurs op _ _ _ h

theorem occurs_control (op : RegionOp) (n : ℕ) (s : State X V) (h : Occurring s.env) :
    Occurring (M.machine.control op n s).2.env :=
  M.control_occurs op n _ _ h

/-- Two runs are at the same place, and differ in the elements that the buffer had at the start. -/
structure Near (Occurring : Env → Prop) (buffer : MemRef) (start : Env) (s t : State X V) :
    Prop where
  occurs : Occurring s.env
  env : s.env = t.env
  data : s.data = t.data
  names : AgreesOn buffer.names s.env start
  mem : ∀ a ∉ buffer.elements start, s.mem a = t.mem a

variable {start env : Env}

theorem AgreesOn.of_outside {changed : List ℕ} {env' : Env} (h : AgreesOn names env start)
    (houtside : AgreesOutside changed env env') (hnames : ∀ name ∈ names, name ∉ changed) :
    AgreesOn names env' start := by
  intro name hname
  obtain ⟨hindex, hplace⟩ := houtside name (hnames name hname)
  rw [← hindex, ← hplace]
  exact h name hname

section

variable (h : Near Occurring buffer start s t)
  (hreads : ∀ m ∈ op.reads, ∀ env, Occurring env → ∀ a ∈ m.elements env, a ∉ buffer.elements env)

include h hreads

theorem Near.same :
    M.seen op s = M.seen op t ∧ M.writeSet op s = M.writeSet op t ∧ M.after op s = M.after op t := by
  obtain ⟨env, data, mem⟩ := s
  obtain ⟨env', data', mem'⟩ := t
  obtain ⟨hoccurs, rfl : env = env', rfl : data = data', hnames, hmem⟩ := h
  have hseen : M.seen op ⟨env, data, mem⟩ = M.seen op ⟨env, data, mem'⟩ := by
    funext a
    have hset : M.readSet op ⟨env, data, mem⟩ = M.readSet op ⟨env, data, mem'⟩ := by
      cases op <;> rfl
    unfold Meaning.seen
    rw [← hset]
    split
    · rename_i hread
      obtain ⟨m, hm, ha⟩ := readSet_elements hread
      have hfar := hreads m hm env hoccurs a ha
      rw [MemRef.elements_congr hnames] at hfar
      exact congrArg some (hmem a hfar)
    · rfl
  refine ⟨hseen, ?_, ?_⟩
  · cases op <;> rfl
  · cases op with
    | fill value outputs => rfl
    | copy input outputs => rfl
    | other op => exact congrArg (M.next op env data) hseen

theorem Near.step (hresults : ∀ name ∈ buffer.names, name ∉ op.results) :
    Near Occurring buffer start (M.machine.step op s) (M.machine.step op t) := by
  obtain ⟨hseen, hwrites, hafter⟩ := h.same (M := M) hreads
  refine ⟨occurs_step op s h.occurs, congrArg Prod.fst hafter, congrArg Prod.snd hafter, ?_, ?_⟩
  · cases op with
    | fill value outputs => exact h.names
    | copy input outputs => exact h.names
    | other op => exact h.names.of_outside (M.next_agrees op _ _ _) hresults
  · intro a ha
    simp only [Meaning.machine, ← hwrites, ← hseen, ← h.env, ← h.data, h.mem a ha]

end

theorem near_keeps {ops : Body} (hblind : Blind Occurring buffer ops)
    (hunchanged : Unchanged buffer.names ops) :
    Machine.Keeps M.machine M.machine (Near Occurring buffer start) ops := by
  constructor
  · intro op rest hoccurs s t h
    exact h.step (hblind op rest hoccurs) (hunchanged.leaf op rest hoccurs)
  · intro op n blocks rest hoccurs s t h
    obtain ⟨env, data, mem⟩ := s
    obtain ⟨env', data', mem'⟩ := t
    obtain ⟨hoccurs', rfl : env = env', rfl : data = data', hnames, hmem⟩ := h
    refine ⟨rfl, M.control_occurs op n _ _ hoccurs', rfl, rfl, ?_, hmem⟩
    exact hnames.of_outside (M.control_agrees op n _ _)
      (hunchanged.region op n blocks rest hoccurs)

theorem Near.overwrite (h : Near Occurring buffer start s t)
    (hreads : ∀ m ∈ op.reads, ∀ env, Occurring env → ∀ a ∈ m.elements env, a ∉ buffer.elements env)
    (hwrites : ∀ a ∈ buffer.elements start, a ∈ M.writeSet op s) :
    M.machine.step op s = M.machine.step op t := by
  obtain ⟨hseen, hsame, hafter⟩ := h.same (M := M) hreads
  have hmem : (M.machine.step op s).mem = (M.machine.step op t).mem := by
    funext a
    simp only [Meaning.machine, ← hsame, ← hseen, ← h.env, ← h.data]
    split
    · rfl
    · rename_i hnot
      exact h.mem a fun ha => hnot (hwrites a ha)
  unfold Meaning.machine at hmem ⊢
  rw [State.mk.injEq]
  exact ⟨congrArg Prod.fst hafter, congrArg Prod.snd hafter, hmem⟩

/-- What the scan has found, and what the condition says about it. -/
structure Window (Occurring : Env → Prop) (buffer : MemRef) (mid : Body) (copy : Op) : Prop where
  blind : Blind Occurring buffer (mid.append (.leaf copy .nil))
  unchanged : Unchanged buffer.names (mid.append (.leaf copy .nil))
  isCopy : ∃ input outputs, copy = .copy input outputs
  covers : ∀ env, Occurring env → ∀ a ∈ buffer.elements env,
    ∃ output ∈ copy.writes, a ∈ output.elements env

namespace Window

section

variable (h : Window Occurring buffer mid copy)

include h

theorem blind_mid : Blind Occurring buffer mid := by
  intro op rest hoccurs
  obtain ⟨rest', hleaf⟩ := hoccurs.append_leaf (.leaf copy .nil)
  exact h.blind op rest' hleaf

theorem unchanged_mid : Unchanged buffer.names mid := by
  constructor
  · intro op rest hoccurs
    obtain ⟨rest', hleaf⟩ := hoccurs.append_leaf (.leaf copy .nil)
    exact h.unchanged.leaf op rest' hleaf
  · intro op n blocks rest hoccurs
    obtain ⟨rest', hregion⟩ := hoccurs.append_region (.leaf copy .nil)
    exact h.unchanged.region op n blocks rest' hregion

theorem mem_writeSet (hoccurs : Occurring s.env) (hnames : AgreesOn buffer.names s.env start) :
    ∀ a ∈ buffer.elements start, a ∈ M.writeSet copy s := by
  intro a ha
  rw [← MemRef.elements_congr hnames] at ha
  obtain ⟨output, houtput, hmem⟩ := h.covers _ hoccurs a ha
  obtain ⟨input, outputs, rfl⟩ := h.isCopy
  exact List.mem_flatMap.2 ⟨output, houtput, hmem⟩

theorem exec {post : Body} (hnear : Near Occurring buffer start s t)
    (hexec : M.machine.Exec (mid.append (.leaf copy post)) s s') :
    M.machine.Exec (mid.append (.leaf copy post)) t s' := by
  obtain ⟨s₁, hmid, hrest⟩ := hexec.split
  obtain ⟨t₁, hmid', hnear'⟩ := hmid.simulate (near_keeps h.blind_mid h.unchanged_mid) hnear
  have hcopy : M.machine.step copy s₁ = M.machine.step copy t₁ :=
    hnear'.overwrite (h.blind copy .nil (Occurs.here.append_right mid))
      (h.mem_writeSet hnear'.occurs hnear'.names)
  cases hrest with
  | leaf hpost =>
    rw [hcopy] at hpost
    exact hmid'.append (.leaf hpost)

end

end Window

theorem near_fill (hoccurs : Occurring s.env) (value : ℕ) (buffer : MemRef) :
    Near Occurring buffer s.env s (M.machine.step (.fill value [buffer]) s) := by
  refine ⟨hoccurs, rfl, rfl, fun _ _ => ⟨rfl, rfl⟩, fun a ha => ?_⟩
  have hnot : a ∉ M.writeSet (.fill value [buffer]) s := by
    intro hwrite
    obtain ⟨output, houtput, hmem⟩ := List.mem_flatMap.1 hwrite
    rw [List.mem_singleton.1 houtput] at hmem
    exact ha hmem
  exact (if_neg hnot).symm

theorem Near.symm (h : Near Occurring buffer start s t) : Near Occurring buffer start t s :=
  ⟨h.env ▸ h.occurs, h.env.symm, h.data.symm, h.env ▸ h.names, fun a ha => (h.mem a ha).symm⟩

/-- Under the condition, what the scan finds is a window. -/
theorem Careful.window (hcareful : Careful Occurring body) (hoccurs : Occurs (.leaf fill rest) body)
    (hscope : Scoped defined (.leaf fill rest))
    (herased : erased fill rest = some (buffer, mid, copy)) : Window Occurring buffer mid copy := by
  obtain ⟨⟨value, rfl⟩, hcopy, post, rfl⟩ := erased_eq_some herased
  obtain ⟨hblind, hragged⟩ := hcareful _ _ _ _ _ hoccurs herased
  obtain ⟨hbuffer, hnames⟩ := hscope.1 buffer List.mem_cons_self
  have hunchanged := hscope.2.2.unchanged hnames
  cases copy with
  | fill value outputs => cases hcopy
  | other op => cases hcopy
  | copy input outputs =>
    refine ⟨hblind, hunchanged.upTo, ⟨input, outputs, rfl⟩, fun env henv a ha => ?_⟩
    by_cases hsharp : buffer.Sharp
    · obtain ⟨output, houtput, hsame⟩ := List.any_eq_true.1 hcopy
      obtain ⟨defined', -, hscopeCopy⟩ := hscope.2.2.occurs (Occurs.here.append_right mid)
      have hverified := (hscopeCopy.1 output (List.mem_append_right _ houtput)).1
      rw [← elements_of_isSameBufferOrFullSubview env hverified hbuffer hsharp hsame] at ha
      exact ⟨output, houtput, ha⟩
    · exact hragged hsharp env henv a ha

/-- An erased fill changes nothing. -/
theorem exec_fill_iff (h : Window Occurring buffer mid copy) (hoccurs : Occurring s.env)
    (value : ℕ) (post : Body) :
    M.machine.Exec (.leaf (.fill value [buffer]) (mid.append (.leaf copy post))) s s' ↔
      M.machine.Exec (mid.append (.leaf copy post)) s s' := by
  constructor
  · intro hexec
    cases hexec with
    | leaf hrest => exact h.exec (near_fill hoccurs value buffer).symm hrest
  · intro hexec
    exact .leaf (h.exec (near_fill hoccurs value buffer) hexec)

/-- **The runs with and without the erased fills are the same.** -/
theorem exec_elide (hscope : Scoped defined body) (hcareful : Careful Occurring body)
    (hoccurs : Occurring s.env) : M.machine.Exec body s s' ↔ M.machine.Exec (elide body) s s' := by
  induction body generalizing defined s s' with
  | nil => exact Iff.rfl
  | leaf op rest ih =>
    have hrest : ∀ t : State X V, Occurring t.env →
        (M.machine.Exec rest t s' ↔ M.machine.Exec (elide rest) t s') := fun t ht =>
      ih hscope.2.2 (fun fill rest buffer mid copy ho => hcareful fill rest buffer mid copy (.leaf ho))
        ht
    rw [elide]
    cases herased : erased op rest with
    | none =>
      rw [if_neg (by simp)]
      constructor
      · intro hexec
        cases hexec with
        | leaf h => exact .leaf ((hrest _ (occurs_step op s hoccurs)).1 h)
      · intro hexec
        cases hexec with
        | leaf h => exact .leaf ((hrest _ (occurs_step op s hoccurs)).2 h)
    | some found =>
      obtain ⟨buffer, mid, copy⟩ := found
      rw [if_pos Option.isSome_some, ← hrest s hoccurs]
      have hwindow := hcareful.window .here hscope herased
      obtain ⟨⟨value, rfl⟩, -, post, rfl⟩ := erased_eq_some herased
      exact exec_fill_iff hwindow hoccurs value post
  | region op n blocks rest ihblocks ih =>
    have hblock : ∀ i, ∀ t t' : State X V, Occurring t.env →
        (M.machine.Exec (blocks i) t t' ↔ M.machine.Exec (elide (blocks i)) t t') :=
      fun i t t' ht => ihblocks i (hscope.2.1 i)
        (fun fill rest buffer mid copy ho => hcareful fill rest buffer mid copy (.inside i ho)) ht
    have hrest : ∀ t t' : State X V, Occurring t.env →
        (M.machine.Exec rest t t' ↔ M.machine.Exec (elide rest) t t') := fun t t' ht =>
      ih hscope.2.2
        (fun fill rest buffer mid copy ho => hcareful fill rest buffer mid copy (.region ho))
        ht
    constructor
    · exact Machine.Exec.region_mono (I := fun t : State X V => Occurring t.env) occurs_step
        occurs_control (fun i t t' ht => (hblock i t t' ht).1) (fun t t' ht => (hrest t t' ht).1)
        hoccurs
    · exact Machine.Exec.region_mono (I := fun t : State X V => Occurring t.env) occurs_step
        occurs_control (fun i t t' ht => (hblock i t t' ht).2) (fun t t' ht => (hrest t t' ht).2)
        hoccurs

theorem dead (hscope : Scoped defined body) (hcareful : Careful Occurring body)
    (hoccurs : Occurring s.env) : Dead M body s := by
  intro fill rest buffer mid copy s₁ hreach herased
  have hoccurs₁ : Occurring s₁.env := hreach.invariant (I := fun t : State X V => Occurring t.env)
    occurs_step occurs_control hoccurs
  obtain ⟨defined', -, hscope'⟩ := hscope.occurs hreach.occurs
  have hwindow := hcareful.window hreach.occurs hscope' herased
  obtain ⟨⟨value, rfl⟩, -, post, rfl⟩ := erased_eq_some herased
  have hnear := (near_fill (M := M) hoccurs₁ value buffer).symm
  constructor
  · intro op rest' s₂ hinside a hread hmem
    obtain ⟨t₂, -, hnear₂⟩ := hinside.simulate (near_keeps hwindow.blind hwindow.unchanged) hnear
    obtain ⟨m, hm, ha⟩ := readSet_elements hread
    refine hwindow.blind op rest' hinside.occurs m hm s₂.env hnear₂.occurs a ha ?_
    rw [MemRef.elements_congr hnear₂.names]
    exact hmem
  · intro s₂ hmid
    obtain ⟨t₂, -, hnear₂⟩ :=
      hmid.simulate (near_keeps hwindow.blind_mid hwindow.unchanged_mid) hnear
    exact hwindow.mem_writeSet hnear₂.occurs hnear₂.names

/-- The blocks that are entered next, or `none` where a region operation is left. -/
abbrev Script := List (Option ℕ)

/-- A meaning in which the control follows a script, and an operation reads all that it names. -/
def scripted (Occurring : Env → Prop) : Meaning Script Unit Occurring where
  reads op env _ := op.reads.flatMap (·.elements env)
  writes _ _ _ := []
  value _ _ _ _ _ := ()
  next _ env script _ := (env, script)
  control _ n env script :=
    (script.head?.join.bind fun i => if h : i < n then some ⟨i, h⟩ else none, env, script.tail)
  reads_elements _ _ _ _ h := List.mem_flatMap.1 h
  writes_elements _ _ _ _ h := nomatch h
  next_agrees _ _ _ _ := fun _ _ => ⟨rfl, rfl⟩
  next_occurs _ _ _ _ h := h
  control_agrees _ _ _ _ := fun _ _ => ⟨rfl, rfl⟩
  control_occurs _ _ _ _ h := h

/-- A state of the scripted meaning. -/
def scriptState (env : Env) (script : Script) : State Script Unit := ⟨env, script, fun _ => ()⟩

theorem scripted_step (op : Op) (env : Env) (script : Script) :
    (scripted Occurring).machine.step op (scriptState env script) = scriptState env script := by
  cases op <;> rfl

theorem scripted_reaches (Occurring : Env → Prop) (h : Occurs target body) (env : Env)
    (rest : Script) :
    ∃ script, (scripted Occurring).machine.Reaches target body (scriptState env script)
      (scriptState env rest) := by
  induction h with
  | here => exact ⟨rest, .here⟩
  | leaf _ ih =>
    obtain ⟨script, hreach⟩ := ih
    refine ⟨script, .leaf ?_⟩
    rw [scripted_step]
    exact hreach
  | region _ ih =>
    obtain ⟨script, hreach⟩ := ih
    exact ⟨none :: script, .leave rfl hreach⟩
  | inside i _ ih =>
    obtain ⟨script, hreach⟩ := ih
    exact ⟨some (i : ℕ) :: script, .inside i (dif_pos i.isLt) hreach⟩

theorem scripted_exec (Occurring : Env → Prop) (body : Body) (env : Env) (rest : Script) :
    ∃ script, (scripted Occurring).machine.Exec body (scriptState env script)
      (scriptState env rest) := by
  induction body with
  | nil => exact ⟨rest, .nil⟩
  | leaf op body ih =>
    obtain ⟨script, hexec⟩ := ih
    refine ⟨script, .leaf ?_⟩
    rw [scripted_step]
    exact hexec
  | region op n blocks body _ ih =>
    obtain ⟨script, hexec⟩ := ih
    exact ⟨none :: script, .leave rfl hexec⟩

theorem mem_readSet_scripted {m : MemRef} (hm : m ∈ op.reads) {script : Script}
    (ha : a ∈ m.elements env) : a ∈ (scripted Occurring).readSet op (scriptState env script) := by
  cases op with
  | fill value outputs => cases hm
  | copy input outputs =>
    obtain rfl := List.mem_singleton.1 hm
    exact ha
  | other op => exact List.mem_flatMap.2 ⟨m, hm, ha⟩

theorem careful_of_preserves {f : FuncOp} (hpreserves : Preserves f Occurring) :
    Careful Occurring f.body := by
  intro fill rest buffer mid copy hoccurs herased
  have hdead := (hpreserves _ _ (scripted Occurring)).1
  constructor
  · intro op rest' hinside m hm env henv a ha
    -- the fill is reached, and then the operation
    obtain ⟨script₁, hreach₁⟩ := scripted_reaches Occurring hinside env []
    obtain ⟨script, hreach⟩ := scripted_reaches Occurring hoccurs env script₁
    have hreads := (hdead (scriptState env script) henv _ _ _ _ _ _ hreach herased).1
    refine hreads op rest' (scriptState env []) ?_ a (mem_readSet_scripted hm ha)
    rw [scripted_step]
    exact hreach₁
  · intro _ env henv a ha
    obtain ⟨script₁, hexec⟩ := scripted_exec Occurring mid env []
    obtain ⟨script, hreach⟩ := scripted_reaches Occurring hoccurs env script₁
    have hwrites := (hdead (scriptState env script) henv _ _ _ _ _ _ hreach herased).2
    have hwrite := hwrites (scriptState env []) (by rw [scripted_step]; exact hexec) a ha
    obtain ⟨-, hcopy, -⟩ := erased_eq_some herased
    cases copy with
    | fill value outputs => cases hcopy
    | other op => cases hcopy
    | copy input outputs => exact List.mem_flatMap.1 hwrite

/-- **When the pass preserves a function.** -/
theorem elide_preserves_iff (f : FuncOp) (Occurring : Env → Prop) :
    Preserves f Occurring ↔ Careful Occurring f.body := by
  constructor
  · exact careful_of_preserves
  · intro hcareful X V M
    constructor
    · exact fun s hs => dead f.inScope hcareful hs
    · exact fun s s' hs => exec_elide f.inScope hcareful hs

/-- A workgroup buffer of one byte. -/
def smallBuffer : MemRef := .value 0 [some 1] 1 true

def loadBuffer : Op := .other ⟨0, [smallBuffer], [], [], true⟩

def copyToBuffer : Op := .copy (.value 1 [some 1] 1 false) [smallBuffer]

/-- A fill, a loop that loads from the buffer, and a copy. -/
def nestedLoad : FuncOp where
  args := [0, 1]
  body := .leaf (.fill 0 [smallBuffer])
    (.region ⟨0, [2], []⟩ 1 (fun _ => .leaf loadBuffer .nil) (.leaf copyToBuffer .nil))
  inScope := by simp [Scoped, Op.reads, Op.writes, Op.results, smallBuffer, loadBuffer, copyToBuffer,
    MemRef.Verified, MemRef.names]

/-- **A fill that a loop reads is erased.** -/
theorem nested_load_not_preserved : ¬ Preserves nestedLoad fun _ => True := by
  intro hpreserves
  have hcareful := careful_of_preserves hpreserves
  have hblind := (hcareful _ _ smallBuffer _ copyToBuffer .here rfl).1
  refine hblind loadBuffer .nil (.inside 0 .here) smallBuffer List.mem_cons_self
    ⟨fun _ => 0, fun _ => ⟨0, 0, fun _ => 0, fun _ => 0⟩⟩ trivial (0, 0) ?_ ?_
  · decide
  · decide

end Matcore.Gpu.FillElision
