import Matcore.Engine.CacheKey

/-!
# What the key of the execution cache shows

Where no name has one of the key's own marks, the key can be taken apart: each part of it is read off
before the next one begins, whatever follows. So requests with the same key agree in what the key
shows, and in all that lowering reads where the rest is what the frontends put there.
-/

namespace Matcore.Engine.CacheKey

open List (append_assoc mem_cons_self mem_append mem_map_of_mem map map_map getElem?_map
  mem_of_getElem?)
open Texts
open Prod (fst ext_iff snd)
open Nat (digitChar mod_lt)

section
variable {α : Type} {Dom : α → Prop}

/-- A mark behind a number in a key. -/
def isMark (c : Char) : Bool := c == ':' || c == ';' || c == '|' || c == ',' || c == '/'

theorem splits_bool (b : α → Bool) :
    Splits Dom (fun a => boolText (b a)) (fun _ => True) b := by
  intro x y s t _ _ _ _ h
  cases hx : b x <;> cases hy : b y <;> simp [boolText, hx, hy] at h ⊢
  · exact h
  · exact h

theorem splits_ids (ids : α → List ℕ) (mark : Char) (hmark : notDecimal mark = true) :
    Splits Dom (fun a => idsText (ids a) mark) (Begins notDecimal) ids := by
  have hitem : Splits (fun _ : ℕ => True) (fun n => natText n ++ [mark]) (fun _ => True) id :=
    (Splits.nat id).thenLit [mark] (congrArg some hmark)
  have hlist := hitem.flatMap (Begins notDecimal) (fun _ _ _ => trivial)
    (fun _ _ => trivial) fun n s _ => by
      rw [append_assoc]
      exact not_begins_natText n _
  refine ((hlist.comap ids).restrict (fun _ _ _ _ => trivial) fun _ hs => hs).shows ?_
  intro a b _ _ h
  simpa using h

theorem splits_code {δ : Type} {code : δ → ℕ} {decode : ℕ → δ}
    (hdecode : ∀ x, decode (code x) = x) (f : α → δ) :
    Splits Dom (fun a => natText (code (f a))) (Begins notDecimal) f := by
  refine (Splits.nat fun a => code (f a)).shows fun a b _ _ h => ?_
  rw [← hdecode (f a), ← hdecode (f b)]
  exact congrArg decode h

theorem splits_dims (dims : α → List ℤ) :
    Splits Dom (fun a => dimsText (dims a)) (Begins notDecimal) dims := by
  have hitem : Splits (fun _ : ℤ => True) (fun n => intText n ++ [',']) (fun _ => True) id :=
    (Splits.int id).thenLit [','] rfl
  have hlist := hitem.flatMap (Begins notDecimal) (fun _ _ _ => trivial)
    (fun _ _ => trivial) fun n s _ => by
      rw [append_assoc]
      exact not_begins_intText n _
  refine ((hlist.comap dims).restrict (fun _ _ _ _ => trivial) fun _ hs => hs).shows ?_
  intro a b _ _ h
  simpa using h

variable {s : List Char} {c : Char}

theorem digit_of_natText {n : ℕ} {t : List Char} (h : natText n ++ s = c :: t) :
    c.isDigit = true := by
  cases htext : natText n with
  | nil => exact absurd htext (natText_ne_nil n)
  | cons d l =>
    rw [htext] at h
    obtain rfl := (List.cons.inj h).1
    exact isDigit_of_mem_natText (n := n) (htext ▸ mem_cons_self)

theorem splits_sign {n m : Bool} {t : List Char} (hs : ∀ c ∈ s.head?, c ≠ '-')
    (ht : ∀ c ∈ t.head?, c ≠ '-') (h : signText n ++ s = signText m ++ t) : n = m ∧ s = t := by
  have hflag : Splits (fun _ : Bool => True) signText (fun s => ∀ c ∈ s.head?, c ≠ '-') id :=
    Splits.flag id fun s hs hminus => by
      obtain ⟨t, rfl⟩ := hminus
      exact hs '-' rfl rfl
  exact hflag n m s t trivial trivial hs ht h

theorem digitChar_injective {a b : ℕ} (ha : a < 10) (hb : b < 10)
    (h : digitChar a = digitChar b) : a = b := by
  have key : ∀ a < 10, ∀ b < 10, digitChar a = digitChar b → a = b := by decide
  exact key a ha b hb h

theorem sixDigits_injective {n m : ℕ} (hn : n < 1000000) (hm : m < 1000000)
    (h : sixDigits n = sixDigits m) : n = m := by
  simp only [sixDigits, List.map_cons, List.map_nil, List.cons.injEq, and_true] at h
  obtain ⟨h5, h4, h3, h2, h1, h0⟩ := h
  have hdigit : ∀ x y : ℕ, digitChar (x % 10) = digitChar (y % 10) → x % 10 = y % 10 :=
    fun x y => digitChar_injective (mod_lt _ (by decide)) (mod_lt _ (by decide))
  have := hdigit _ _ h5
  have := hdigit _ _ h4
  have := hdigit _ _ h3
  have := hdigit _ _ h2
  have := hdigit _ _ h1
  have := hdigit _ _ h0
  omega

def isNegative : Double → Bool
  | .finite negative _ | .infinite negative | .nan negative => negative

theorem text_eq (d : Double) : d.text = signText (isNegative d) ++ magnitudeText d := by
  cases d <;> simp [Double.text, magnitudeText, isNegative]

theorem magnitudeText_head (d : Double) : ∀ c ∈ (magnitudeText d).head?, c ≠ '-' := by
  rintro c hc rfl
  cases d with
  | finite _ magnitude =>
    obtain ⟨t, ht⟩ := List.head?_eq_some_iff.1 hc
    rw [magnitudeText, append_assoc] at ht
    exact absurd (digit_of_natText ht) (by decide)
  | infinite _ => exact absurd (Option.some.inj hc) (by decide)
  | nan _ => exact absurd (Option.some.inj hc) (by decide)

/-- The printed number shows the number up to six digits behind the point. -/
theorem rounded_of_text {d e : Double} (h : d.text = e.text) : d.rounded = e.rounded := by
  rw [text_eq, text_eq] at h
  obtain ⟨hsign, hmagnitude⟩ := splits_sign (magnitudeText_head d) (magnitudeText_head e) h
  cases d with
  | finite n x =>
    cases e with
    | finite m y =>
      obtain rfl : n = m := hsign
      have hsplits : Splits (fun _ : ℕ × ℕ => True)
          (fun x => natText x.1 ++ ".".toList ++ sixDigits x.2) (Begins fun _ => false)
          (fun x => (x.1, sixDigits x.2)) :=
        ((Splits.nat fst).thenLit ".".toList rfl).andThen (Splits.token fun _ _ _ _ => rfl)
      obtain ⟨hpair, -⟩ := hsplits (_, _) (_, _) [] [] trivial trivial .nil .nil
        (congrArg (· ++ []) hmagnitude)
      obtain ⟨hint, hfraction⟩ := Prod.mk.inj hpair
      have hrest := sixDigits_injective (mod_lt _ (by decide)) (mod_lt _ (by decide))
        hfraction
      have hmicros : roundHalfEven (x * 1000000) = roundHalfEven (y * 1000000) := by
        rw [← Nat.div_add_mod (roundHalfEven (x * 1000000)) 1000000, hrest, show _ / 1000000 = _
          from hint, Nat.div_add_mod]
      simp only [Double.rounded, hmicros]
    | infinite m | nan m =>
      rw [magnitudeText, append_assoc] at hmagnitude
      exact absurd (digit_of_natText hmagnitude) (by decide)
  | infinite n =>
    cases e with
    | finite m y =>
      rw [magnitudeText, magnitudeText, append_assoc] at hmagnitude
      exact absurd (digit_of_natText hmagnitude.symm) (by decide)
    | infinite m => exact congrArg Double.infinite hsign
    | nan m => exact absurd (List.cons.inj hmagnitude).1 (by decide)
  | nan n =>
    cases e with
    | finite m y =>
      rw [magnitudeText, magnitudeText, append_assoc] at hmagnitude
      exact absurd (digit_of_natText hmagnitude.symm) (by decide)
    | infinite m => exact absurd (List.cons.inj hmagnitude).1 (by decide)
    | nan m => exact congrArg Double.nan hsign

theorem mark_of_digit (h : c.isDigit = true) : isMark c = false := by
  have hne : ∀ d : Char, d.isDigit = false → c ≠ d := by
    rintro d hd rfl
    exact absurd (h.symm.trans hd) nofun
  simp [isMark, hne ':' rfl, hne ';' rfl, hne '|' rfl, hne ',' rfl, hne '/' rfl]

theorem mark_of_text {d : Double} (h : c ∈ d.text) : isMark c = false := by
  have hsign : ∀ n : Bool, c ∈ signText n → isMark c = false := by
    intro n hc
    cases n with
    | false => cases hc
    | true =>
      obtain rfl := List.mem_singleton.1 hc
      rfl
  rw [text_eq] at h
  obtain h | h := mem_append.1 h
  · exact hsign _ h
  cases d with
  | finite n x =>
    simp only [magnitudeText, mem_append] at h
    obtain (h | h) | h := h
    · exact mark_of_digit (isDigit_of_mem_natText h)
    · obtain rfl := List.mem_singleton.1 h
      rfl
    · obtain ⟨k, -, rfl⟩ := List.mem_map.1 h
      have hdigit : ∀ k < 10, isMark (digitChar k) = false := by decide
      exact hdigit _ (mod_lt _ (by decide))
  | infinite _ =>
    have hall : ∀ c ∈ "inf".toList, isMark c = false := by simp [isMark]
    exact hall c h
  | nan _ =>
    have hall : ∀ c ∈ "nan".toList, isMark c = false := by simp [isMark]
    exact hall c h

theorem splits_double (f : α → Double) :
    Splits Dom (fun a => (f a).text) (Begins isMark) (fun a => (f a).rounded) :=
  (Splits.token fun _ _ _ hc => mark_of_text hc).shows fun _ _ _ _ h => rounded_of_text h

/-- An item of a kernel's description ends at the next one or at the next list. -/
def itemEnd (c : Char) : Bool := c == ';' || c == '|'

theorem itemEnd_mark (h : itemEnd c = true) : isMark c = true := by
  simp only [itemEnd, isMark, Bool.or_eq_true] at h ⊢
  tauto

theorem itemEnd_notDecimal (h : itemEnd c = true) : notDecimal c = true := by
  simp only [itemEnd, Bool.or_eq_true, beq_iff_eq] at h
  obtain rfl | rfl := h <;> rfl

variable {f : α → String}

theorem splits_symbol (h : ∀ a, Dom a → ':' ∉ (f a).toList) :
    Splits Dom (fun a => (f a).toList) (Begins (· == ':')) f := by
  refine (Splits.token fun a ha c hc => ?_).shows fun a b _ _ heq => String.toList_inj.1 heq
  simp only [beq_eq_false_iff_ne, ne_eq]
  rintro rfl
  exact h a ha hc

theorem splits_flags : Splits (fun _ : TensorDesc => True) flagsText (Begins itemEnd)
    (fun v => ((v.isParameter, v.isOutput), v.isDeviceResident)) := by
  have hparameter : Splits (fun _ : TensorDesc => True) (fun v => flagText v.isParameter ":p")
      (fun s => ¬ ":p".toList <+: s) TensorDesc.isParameter := Splits.flag _ fun _ hs => hs
  have houtput : Splits (fun _ : TensorDesc => True) (fun v => flagText v.isOutput ":o")
      (fun s => ¬ ":o".toList <+: s ∧ ¬ ":p".toList <+: s) TensorDesc.isOutput :=
    Splits.flag _ fun _ hs => hs.1
  have hresident : Splits (fun _ : TensorDesc => True)
      (fun v => flagText v.isDeviceResident ":dev") (Begins itemEnd)
      TensorDesc.isDeviceResident := Splits.flag _ fun _ hs => hs.excludes rfl
  refine (hparameter.seq houtput fun v s _ hs => ?_).seq hresident fun v s _ hs => ?_
  · cases hv : v.isOutput with
    | false => exact hs.2
    | true => simp [flagText]
  · cases hv : v.isDeviceResident with
    | false => exact ⟨hs.excludes rfl, hs.excludes rfl⟩
    | true => simp [flagText]

theorem flags_begin (v : TensorDesc) (hs : Begins itemEnd s) :
    Begins notDecimal (flagsText v ++ s) := by
  have hs := hs.imp fun c => itemEnd_notDecimal
  simp only [flagsText, flagText]
  cases v.isParameter <;> cases v.isOutput <;> cases v.isDeviceResident <;>
    first | exact hs | exact .lit rfl s

theorem splits_valueHead : Splits (fun v : TensorDesc => ':' ∉ v.symbol.toList)
    (fun v => ";v:".toList ++ v.symbol.toList ++ ":".toList ++ natText v.dtype.ctorIdx ++
      ":".toList ++ natText v.valueKind.ctorIdx) (Begins notDecimal)
    (fun v => ((v.symbol, v.dtype), v.valueKind)) := by
  have h : Splits (fun v : TensorDesc => ':' ∉ v.symbol.toList) _ _ _ := Splits.lit ";v:".toList
  have h := (h.andThen (splits_symbol fun v hv => hv)).thenLit ":".toList rfl
  have h := (h.andThen (splits_code TensorDType.ofNat_ctorIdx TensorDesc.dtype)).thenLit
    ":".toList rfl
  have h := h.andThen (splits_code ValueKind.ofNat_ctorIdx TensorDesc.valueKind)
  refine h.shows fun v w _ _ heq => ?_
  simpa using heq

theorem splits_regionValue : Splits (fun v : TensorDesc => ':' ∉ v.symbol.toList) regionValueText
    (Begins itemEnd) TensorDesc.shownInRegion := by
  have h := (splits_valueHead.thenLit ":s=".toList rfl).andThen (splits_dims TensorDesc.shape)
  have h := h.seq (splits_flags.restrict (fun _ _ => trivial) fun _ hs => hs)
    fun v s _ hs => flags_begin v hs
  refine h.shows fun v w _ _ heq => ?_
  simp only [Prod.mk.injEq] at heq
  obtain ⟨⟨⟨⟨hsymbol, hdtype⟩, hkind⟩, hshape⟩, ⟨hparameter, houtput⟩, hresident⟩ := heq
  simp only [TensorDesc.shownInRegion, TensorDesc.shownInGraph, hsymbol, hdtype, hkind, hshape,
    hparameter, houtput, hresident]

theorem splits_graphValue : Splits (fun v : TensorDesc => ':' ∉ v.symbol.toList) graphValueText
    (Begins itemEnd) TensorDesc.shownInGraph := by
  have h := (splits_valueHead.thenLit ":".toList rfl).andThen
    (splits_code StorageHint.ofNat_ctorIdx TensorDesc.storageHint)
  have h := (h.thenLit ":".toList rfl).andThen
    (splits_code EscapeKind.ofNat_ctorIdx TensorDesc.escape)
  have h := (h.thenLit ":s=".toList rfl).andThen (splits_dims TensorDesc.shape)
  have h := (h.thenLit ":t=".toList rfl).andThen (splits_dims TensorDesc.strides)
  have h := h.seq (splits_flags.restrict (fun _ _ => trivial) fun _ hs => hs)
    fun v s _ hs => flags_begin v hs
  refine h.shows fun v w _ _ heq => ?_
  simp only [Prod.mk.injEq] at heq
  obtain ⟨⟨⟨⟨⟨⟨⟨hsymbol, hdtype⟩, hkind⟩, hhint⟩, hescape⟩, hshape⟩, hstrides⟩,
    ⟨hparameter, houtput⟩, hresident⟩ := heq
  simp only [TensorDesc.shownInGraph, hsymbol, hdtype, hkind, hhint, hescape, hshape, hstrides,
    hparameter, houtput, hresident]

theorem splits_regionNode : Splits (fun _ : RegionNode => True) regionNodeText (Begins itemEnd)
    RegionNode.shown := by
  have h : Splits (fun _ : RegionNode => True) _ _ _ := Splits.lit ";rn:".toList
  have h := (h.andThen (Splits.nat RegionNode.id)).thenLit ":".toList rfl
  have h := (h.andThen (splits_code RegionOpKind.ofNat_ctorIdx RegionNode.kind)).thenLit
    ":in=".toList rfl
  have h := (h.andThen (splits_ids RegionNode.inputs ',' rfl)).thenLit ":out=".toList rfl
  have h := (h.andThen (splits_ids RegionNode.outputs ',' rfl)).thenLit ":attr=bar:".toList rfl
  have h := (h.andThen (Splits.nat fun n => n.attrs.blocks)).thenLit ",".toList rfl
  have h := (h.andThen (Splits.nat fun n => n.attrs.partialValue)).thenLit ",".toList rfl
  have h := (h.andThen (Splits.nat fun n => n.attrs.query)).thenLit ",".toList rfl
  have h := (h.andThen (Splits.int fun n => n.attrs.blockCount)).thenLit ",".toList rfl
  have h := (h.andThen (splits_bool fun n => n.attrs.hasPartial)).andThen (Splits.lit ",".toList)
  have h := h.andThen (splits_double fun n => n.attrs.eps)
  refine (h.restrict (fun _ h => h) fun _ hs => hs.imp fun c => itemEnd_mark).shows
    fun n m _ _ heq => ?_
  simp only [Prod.mk.injEq, true_and, and_true] at heq
  obtain ⟨⟨⟨⟨⟨⟨⟨⟨hid, hinputs⟩, houtputs⟩, hblocks⟩, hpartial⟩, hquery⟩, hcount⟩, hhas⟩, heps⟩ := heq
  simp only [RegionNode.shown, hid, hinputs, houtputs, hblocks, hpartial, hquery, hcount, hhas,
    heps]

theorem splits_operand (f : α → OperandRef) :
    Splits Dom (fun a => operandText (f a)) (fun _ => True) f := by
  have h : Splits Dom _ _ _ := (Splits.nat fun a => (f a).valueId).thenLit "/".toList rfl
  have h := h.andThen (splits_bool fun a => (f a).transposeLast2)
  refine h.shows fun a b _ _ heq => ?_
  obtain ⟨_, _⟩ := Prod.mk.inj heq
  cases hfa : f a
  cases hfb : f b
  simp_all

theorem splits_matmul : Splits (fun _ : OperandRef × OperandRef × TensorDType × Bool => True)
    (fun x => (NodeAttrs.matmul x.1 x.2.1 x.2.2.1 x.2.2.2).text) (fun _ => True) id := by
  have h : Splits (fun _ : OperandRef × OperandRef × TensorDType × Bool => True) _ _ _ :=
    Splits.lit "mm:".toList
  have h := (h.andThen (splits_operand fun x => x.1)).andThen (Splits.lit ",".toList)
  have h := (h.andThen (splits_operand fun x => x.2.1)).andThen (Splits.lit ",".toList)
  have h := (h.andThen (splits_code TensorDType.ofNat_ctorIdx fun x => x.2.2.1)).thenLit
    ",".toList rfl
  have h := h.andThen (splits_bool fun x => x.2.2.2)
  refine h.shows fun x y _ _ heq => ?_
  simpa [ext_iff, and_assoc] using heq

theorem splits_immediates (f : α → List Double) :
    Splits Dom (fun a => (f a).flatMap fun s => s.text ++ ['/'])
      (fun s => ¬ ∃ d : Double, ∃ t, s = d.text ++ '/' :: t) (fun a => (f a).map Double.rounded) := by
  have hitem : Splits (fun _ : Double => True) (fun s => s.text ++ ['/']) (fun _ => True)
      Double.rounded := (splits_double id).thenLit ['/'] rfl
  have hlist := hitem.flatMap (fun s => ¬ ∃ d : Double, ∃ t, s = d.text ++ '/' :: t)
    (fun _ _ _ => trivial) (fun _ _ => trivial) fun d s _ hs => hs ⟨d, s, by simp⟩
  exact (hlist.comap f).restrict (fun _ _ _ _ => trivial) fun _ hs => hs

theorem bool_not_immediate (b : Bool) (hs : Begins itemEnd s) :
    ¬ ∃ d : Double, ∃ t, boolText b ++ s = d.text ++ '/' :: t := by
  rintro ⟨d, t, h⟩
  have htoken : Splits (fun x : List Char => ∀ c ∈ x, isMark c = false) id (Begins isMark) id :=
    Splits.token fun _ hx => hx
  have hbool : ∀ c ∈ boolText b, isMark c = false := by
    cases b <;> simp [boolText, isMark]
  obtain ⟨-, rfl⟩ := htoken (boolText b) d.text s ('/' :: t) hbool (fun c => mark_of_text)
    (hs.imp fun c => itemEnd_mark) (Begins.lit (l := ['/']) rfl t) h
  exact absurd (hs '/' rfl) (by decide)

theorem splits_elementwise : Splits (fun _ : ElementwiseKind × List ℕ × List Double × Bool => True)
    (fun x => (NodeAttrs.elementwise x.1 x.2.1 x.2.2.1 x.2.2.2).text) (Begins itemEnd)
    (fun x => (NodeAttrs.elementwise x.1 x.2.1 x.2.2.1 x.2.2.2).shown) := by
  have h : Splits (fun _ : ElementwiseKind × List ℕ × List Double × Bool => True) _ _ _ :=
    Splits.lit "ew:".toList
  have h := (h.andThen (splits_code ElementwiseKind.ofNat_ctorIdx fun x => x.1)).thenLit
    ",in=".toList rfl
  have h := (h.andThen (splits_ids (fun x => x.2.1) '/' rfl)).thenLit ",im=".toList rfl
  have h := (h.andThen (splits_immediates fun x => x.2.2.1)).seq
    ((splits_bool fun x => x.2.2.2).restrict (fun _ h => h)
      fun _ (_ : Begins itemEnd _) => trivial) fun x s _ hs => bool_not_immediate x.2.2.2 hs
  refine h.shows fun x y _ _ heq => ?_
  simp only [Prod.mk.injEq, true_and] at heq
  obtain ⟨⟨⟨hkind, hinputs⟩, himmediates⟩, hinplace⟩ := heq
  simp only [NodeAttrs.shown, hkind, hinputs, himmediates, hinplace]

theorem splits_cast : Splits (fun _ : ℕ × TensorDType => True)
    (fun x => (NodeAttrs.cast x.1 x.2).text) (Begins notDecimal) id := by
  have h : Splits (fun _ : ℕ × TensorDType => True) _ _ _ := Splits.lit "cast:".toList
  have h := (h.andThen (Splits.nat fst)).thenLit ",".toList rfl
  have h := h.andThen (splits_code TensorDType.ofNat_ctorIdx snd)
  refine h.shows fun x y _ _ heq => ?_
  simpa [ext_iff] using heq

theorem splits_reduce : Splits (fun _ : ReductionKind × ℕ × ReductionAxisKind × Bool => True)
    (fun x => (NodeAttrs.reduce x.1 x.2.1 x.2.2.1 x.2.2.2).text) (fun _ => True) id := by
  have h : Splits (fun _ : ReductionKind × ℕ × ReductionAxisKind × Bool => True) _ _ _ :=
    Splits.lit "red:".toList
  have h := (h.andThen (splits_code ReductionKind.ofNat_ctorIdx fun x => x.1)).thenLit
    ",".toList rfl
  have h := (h.andThen (Splits.nat fun x => x.2.1)).thenLit ",".toList rfl
  have h := (h.andThen (splits_code ReductionAxisKind.ofNat_ctorIdx fun x => x.2.2.1)).thenLit
    ",".toList rfl
  have h := h.andThen (splits_bool fun x => x.2.2.2)
  refine h.shows fun x y _ _ heq => ?_
  simpa [ext_iff, and_assoc] using heq

theorem splits_softmax : Splits (fun _ : ℕ × ℤ × Bool × Bool => True)
    (fun x => (NodeAttrs.softmax x.1 x.2.1 x.2.2.1 x.2.2.2).text) (fun _ => True) id := by
  have h : Splits (fun _ : ℕ × ℤ × Bool × Bool => True) _ _ _ := Splits.lit "sm:".toList
  have h := (h.andThen (Splits.nat fun x => x.1)).thenLit ",".toList rfl
  have h := (h.andThen (Splits.int fun x => x.2.1)).thenLit ",".toList rfl
  have h := (h.andThen (splits_bool fun x => x.2.2.1)).andThen (Splits.lit ",".toList)
  have h := h.andThen (splits_bool fun x => x.2.2.2)
  refine h.shows fun x y _ _ heq => ?_
  simpa [ext_iff, and_assoc] using heq

theorem splits_store : Splits (fun _ : ℕ × ℕ => True)
    (fun x => (NodeAttrs.store x.1 x.2).text) (Begins notDecimal) id := by
  have h : Splits (fun _ : ℕ × ℕ => True) _ _ _ := Splits.lit "st:".toList
  have h := (h.andThen (Splits.nat fst)).thenLit ",".toList rfl
  have h := h.andThen (Splits.nat snd)
  refine h.shows fun x y _ _ heq => ?_
  simpa [ext_iff] using heq

theorem splits_attrs (i : ℕ) : Splits (fun a : NodeAttrs => True ∧ a.ctorIdx = i) NodeAttrs.text
    (Begins itemEnd) NodeAttrs.shown := by
  have hend : ∀ {s}, Begins itemEnd s → Begins notDecimal s :=
    fun hs => hs.imp fun c => itemEnd_notDecimal
  intro a b s t ha hb hs ht h
  have hindex := ha.2.trans hb.2.symm
  cases a <;> cases b <;> simp [NodeAttrs.ctorIdx] at hindex
  case matmul.matmul =>
    obtain ⟨heq, rfl⟩ := splits_matmul (_, _, _, _) (_, _, _, _) s t trivial trivial trivial
      trivial h
    cases heq
    exact ⟨rfl, rfl⟩
  case elementwise.elementwise =>
    exact splits_elementwise (_, _, _, _) (_, _, _, _) s t trivial trivial hs ht h
  case transpose.transpose =>
    have hsplits : Splits (fun _ : ℕ => True) (fun n => "tp:".toList ++ natText n)
      (Begins notDecimal) _ := (Splits.lit "tp:".toList).andThen (Splits.nat id)
    obtain ⟨heq, rfl⟩ := hsplits _ _ s t trivial trivial (hend hs) (hend ht) h
    cases heq
    exact ⟨rfl, rfl⟩
  case cast.cast =>
    obtain ⟨heq, rfl⟩ := splits_cast (_, _) (_, _) s t trivial trivial (hend hs) (hend ht) h
    cases heq
    exact ⟨rfl, rfl⟩
  case reduce.reduce =>
    obtain ⟨heq, rfl⟩ := splits_reduce (_, _, _, _) (_, _, _, _) s t trivial trivial trivial
      trivial h
    cases heq
    exact ⟨rfl, rfl⟩
  case softmax.softmax =>
    obtain ⟨heq, rfl⟩ := splits_softmax (_, _, _, _) (_, _, _, _) s t trivial trivial trivial
      trivial h
    cases heq
    exact ⟨rfl, rfl⟩
  case store.store =>
    obtain ⟨heq, rfl⟩ := splits_store (_, _) (_, _) s t trivial trivial (hend hs) (hend ht) h
    cases heq
    exact ⟨rfl, rfl⟩

theorem splits_graphNode : Splits (fun _ : KernelNode => True) graphNodeText (Begins itemEnd)
    KernelNode.shown := by
  have h : Splits (fun _ : KernelNode => True) _ _ _ := Splits.lit ";n:".toList
  have h := (h.andThen (Splits.nat KernelNode.id)).thenLit ":".toList rfl
  have h := (h.andThen (splits_code OpKind.ofNat_ctorIdx KernelNode.kind)).thenLit
    ":in=".toList rfl
  have h := (h.andThen (splits_ids KernelNode.inputs ',' rfl)).thenLit ":out=".toList rfl
  have h := (h.andThen (splits_ids KernelNode.outputs ',' rfl)).thenLit ":sef=".toList rfl
  have h := (h.andThen (splits_bool KernelNode.sideEffectFree)).andThen
    (Splits.lit ":attr=".toList)
  have h := (h.andThen (Splits.nat fun n => n.attrs.ctorIdx)).thenLit ":".toList rfl
  have h := h.tagged (fun i => ((splits_attrs i.2).comap KernelNode.attrs).restrict
    (fun n hn => ⟨trivial, congrArg snd hn.2⟩) fun _ hs => hs) fun _ _ _ _ => trivial
  refine h.shows fun n m _ _ heq => ?_
  simp only [Prod.mk.injEq, true_and, and_true] at heq
  obtain ⟨⟨⟨⟨⟨⟨hid, hkind⟩, hinputs⟩, houtputs⟩, hfree⟩, -⟩, hattrs⟩ := heq
  simp only [KernelNode.shown, hid, hkind, hinputs, houtputs, hfree, hattrs]

theorem splits_items {text : α → List Char} {β : Type} {shown : α → β}
    (h : Splits Dom text (Begins itemEnd) shown) (hstart : ∀ a, (text a)[0]? = some ';') :
    Splits (fun l : List α => ∀ a ∈ l, Dom a) (fun l => l.flatMap text) (Begins (· == '|'))
      (map shown) := by
  refine h.flatMap _ (fun a s _ => .of_getElem? (hstart a) rfl s) (fun s hs => hs.imp ?_)
    fun a s _ hs => ?_
  · intro c hc
    simp only [beq_iff_eq] at hc
    subst hc
    rfl
  · have hhead : (text a ++ s).head? = some ';' := by
      rw [List.head?_eq_getElem?]
      exact getElem?_append (hstart a)
    exact absurd (hs ';' hhead) (by decide)

theorem items_begin {text : α → List Char} (hstart : ∀ a, (text a)[0]? = some ';') (l : List α)
    (hs : Begins (· == '|') s) : Begins notDecimal (l.flatMap text ++ s) := by
  cases l with
  | nil =>
    refine hs.imp fun c hc => ?_
    simp only [beq_iff_eq] at hc
    subst hc
    rfl
  | cons a l =>
    rw [List.flatMap_cons, append_assoc]
    exact .of_getElem? (hstart a) rfl _

theorem regionValueText_head (v : TensorDesc) : (regionValueText v)[0]? = some ';' := by
  unfold regionValueText
  repeat apply getElem?_append
  rfl

theorem graphValueText_head (v : TensorDesc) : (graphValueText v)[0]? = some ';' := by
  unfold graphValueText
  repeat apply getElem?_append
  rfl

theorem regionNodeText_head (n : RegionNode) : (regionNodeText n)[0]? = some ';' := by
  unfold regionNodeText
  repeat apply getElem?_append
  rfl

theorem graphNodeText_head (n : KernelNode) : (graphNodeText n)[0]? = some ';' := by
  unfold graphNodeText
  repeat apply getElem?_append
  rfl

theorem opText_head (op : KernelOp) : (opText op)[0]? = some ';' := by
  unfold opText
  repeat apply getElem?_append
  rfl

theorem splits_region : Splits (fun r : RegionIR => ∀ v ∈ r.values, ':' ∉ v.symbol.toList)
    regionText (Begins (· == '|')) (fun r => Program.shown (.region r)) := by
  have hvalues := (splits_items splits_regionValue regionValueText_head).comap RegionIR.values
  have hnodes := (splits_items splits_regionNode regionNodeText_head).comap RegionIR.nodes
  have h : Splits (fun r : RegionIR => ∀ v ∈ r.values, ':' ∉ v.symbol.toList) _ _ _ :=
    Splits.lit "|rv1|nv=".toList
  have h := h.andThen (Splits.nat fun r => r.values.length)
  have h := h.seq hvalues fun r s _ hs => items_begin regionValueText_head r.values hs
  have h := (h.thenLit "|iv=".toList rfl).andThen (splits_ids RegionIR.inputValues ',' rfl)
  have h := (h.thenLit "|ov=".toList rfl).andThen (splits_ids RegionIR.outputValues ',' rfl)
  have h := (h.thenLit "|topo=".toList rfl).andThen (splits_ids RegionIR.topoOrder ',' rfl)
  have h := (h.thenLit "|nn=".toList rfl).andThen (Splits.nat fun r => r.nodes.length)
  have h := h.seq (hnodes.restrict (fun _ _ _ _ => trivial) fun _ hs => hs)
    fun r s _ hs => items_begin regionNodeText_head r.nodes hs
  refine h.shows fun r r' _ _ heq => ?_
  simp only [Prod.mk.injEq, true_and] at heq
  obtain ⟨⟨⟨⟨⟨⟨-, hvalues⟩, hinputs⟩, houtputs⟩, htopo⟩, -⟩, hnodes⟩ := heq
  simp only [Program.shown, hvalues, hinputs, houtputs, htopo, hnodes]

theorem splits_graph : Splits (fun g : KernelGraphIR => ∀ v ∈ g.values, ':' ∉ v.symbol.toList)
    graphText (Begins (· == '|')) (fun g => Program.shown (.graph g)) := by
  have hvalues := (splits_items splits_graphValue graphValueText_head).comap KernelGraphIR.values
  have hnodes := (splits_items splits_graphNode graphNodeText_head).comap KernelGraphIR.nodes
  have h : Splits (fun g : KernelGraphIR => ∀ v ∈ g.values, ':' ∉ v.symbol.toList) _ _ _ :=
    Splits.lit "|gv2|nv=".toList
  have h := h.andThen (Splits.nat fun g => g.values.length)
  have h := h.seq hvalues fun g s _ hs => items_begin graphValueText_head g.values hs
  have h := (h.thenLit "|iv=".toList rfl).andThen (splits_ids KernelGraphIR.inputValues ',' rfl)
  have h := (h.thenLit "|ov=".toList rfl).andThen (splits_ids KernelGraphIR.outputValues ',' rfl)
  have h := (h.thenLit "|topo=".toList rfl).andThen (splits_ids KernelGraphIR.topoOrder ',' rfl)
  have h := (h.thenLit "|nn=".toList rfl).andThen (Splits.nat fun g => g.nodes.length)
  have h := h.seq (hnodes.restrict (fun _ _ _ _ => trivial) fun _ hs => hs)
    fun g s _ hs => items_begin graphNodeText_head g.nodes hs
  refine h.shows fun g g' _ _ heq => ?_
  simp only [Prod.mk.injEq, true_and] at heq
  obtain ⟨⟨⟨⟨⟨⟨-, hvalues⟩, hinputs⟩, houtputs⟩, htopo⟩, -⟩, hnodes⟩ := heq
  simp only [Program.shown, hvalues, hinputs, houtputs, htopo, hnodes]

theorem opShown_of_code {op op' : KernelOp} (h : op.ctorIdx = op'.ctorIdx) :
    opShown op = opShown op' := by
  cases op <;> cases op' <;> simp [KernelOp.ctorIdx] at h <;> rfl

theorem splits_linear : Splits (fun _ : List KernelOp => True)
    (fun ops => "|ops=".toList ++ natText ops.length ++ ops.flatMap opText) (Begins (· == '|'))
    (fun ops => Program.shown (.linear ops)) := by
  have hop : Splits (fun _ : KernelOp => True) opText (Begins itemEnd) opShown := by
    have h : Splits (fun _ : KernelOp => True) _ _ _ :=
      (Splits.lit ";op".toList).andThen (Splits.nat KernelOp.ctorIdx)
    refine (h.restrict (fun _ h => h) fun _ hs => hs.imp fun c => itemEnd_notDecimal).shows
      fun op op' _ _ heq => opShown_of_code (Prod.mk.inj heq).2
  have h : Splits (fun _ : List KernelOp => True) _ _ _ := Splits.lit "|ops=".toList
  have h := h.andThen (Splits.nat List.length)
  have h := h.seq ((splits_items hop opText_head).restrict (fun _ _ _ _ => trivial)
    fun _ hs => hs) fun ops s _ hs => items_begin opText_head ops hs
  refine h.shows fun ops ops' _ _ heq => ?_
  exact congrArg Program.linear (Prod.mk.inj heq).2

/-- The symbols of a program's values. -/
def Program.symbols : Program → List String
  | region r => r.values.map (·.symbol)
  | graph g => g.values.map (·.symbol)
  | linear _ => []

theorem region_head {r : RegionIR} : (regionText r ++ s)[1]? = some 'r' := by
  unfold regionText
  repeat apply getElem?_append
  rfl

theorem graph_head {g : KernelGraphIR} : (graphText g ++ s)[1]? = some 'g' := by
  unfold graphText
  repeat apply getElem?_append
  rfl

theorem linear_head {ops : List KernelOp} :
    (kernelStructure (.linear ops) ++ s)[1]? = some 'o' := by
  unfold kernelStructure
  repeat apply getElem?_append
  rfl

theorem splits_structure : Splits
    (fun p : Program => ∀ symbol ∈ p.symbols, ':' ∉ symbol.toList) kernelStructure
    (Begins (· == '|')) Program.shown := by
  intro p q s t hp hq hs ht h
  cases p with
  | region r =>
    cases q with
    | region r' =>
      exact splits_region r r' s t (fun v hv => hp _ (mem_map_of_mem hv))
        (fun v hv => hq _ (mem_map_of_mem hv)) hs ht h
    | graph g => exact absurd (region_head.symm.trans ((congrArg (·[1]?) h).trans graph_head)) nofun
    | linear ops =>
      exact absurd (region_head.symm.trans ((congrArg (·[1]?) h).trans linear_head)) nofun
  | graph g =>
    cases q with
    | region r => exact absurd (graph_head.symm.trans ((congrArg (·[1]?) h).trans region_head)) nofun
    | graph g' =>
      exact splits_graph g g' s t (fun v hv => hp _ (mem_map_of_mem hv))
        (fun v hv => hq _ (mem_map_of_mem hv)) hs ht h
    | linear ops =>
      exact absurd (graph_head.symm.trans ((congrArg (·[1]?) h).trans linear_head)) nofun
  | linear ops =>
    cases q with
    | region r =>
      exact absurd (linear_head.symm.trans ((congrArg (·[1]?) h).trans region_head)) nofun
    | graph g => exact absurd (linear_head.symm.trans ((congrArg (·[1]?) h).trans graph_head)) nofun
    | linear ops' => exact splits_linear ops ops' s t trivial trivial hs ht h

def kindOfName : String → TargetKind
  | "x86-auto" => .x86Auto
  | "x86-avx2" => .x86AVX2
  | "x86-avx512" => .x86AVX512
  | "nvidia-dgpu" => .nvidiaDGPU
  | "amd-igpu" => .amdIGPU
  | "amd-npu" => .amdNPU
  | "arm" => .arm
  | _ => .tpu

theorem kindOfName_canonical (kind : TargetKind) :
    kindOfName (canonicalTargetName kind) = normalizeTarget kind := by
  cases kind <;> rfl

theorem canonicalTargetName_mark (kind : TargetKind) :
    ∀ c ∈ (canonicalTargetName kind).toList, c ≠ ':' ∧ c ≠ '|' := by
  cases kind <;> simp [canonicalTargetName, normalizeTarget]

/-- The part of the canonical string behind the name. -/
def targetSuffix (profile : RequestedTargetProfile) : List Char :=
  match normalizeTarget profile.kind, profile.nvidiaSmMajor, profile.nvidiaSmMinor with
  | .nvidiaDGPU, some major, some minor => ":sm_".toList ++ natText major ++ natText minor
  | .amdIGPU, _, _ => if profile.amdChip = "" then [] else ":".toList ++ profile.amdChip.toList
  | _, _, _ => []

/-- The minor number has one digit, and the chip no bar. -/
structure RequestedTargetProfile.Clean (profile : RequestedTargetProfile) : Prop where
  minor : ∀ minor, profile.nvidiaSmMinor = some minor → minor < 10
  chip : '|' ∉ profile.amdChip.toList

theorem targetSuffix_begins (profile : RequestedTargetProfile) :
    Begins (· == ':') (targetSuffix profile) := by
  unfold targetSuffix
  split
  · rw [append_assoc]
    exact .lit rfl _
  · split
    · exact .nil
    · exact .lit rfl _
  · exact .nil

theorem targetSuffix_mark {profile : RequestedTargetProfile} (h : profile.Clean) :
    '|' ∉ targetSuffix profile := by
  have hnat : ∀ n, '|' ∉ natText n := fun n hn => absurd (isDigit_of_mem_natText hn) (by decide)
  unfold targetSuffix
  split
  · simp [hnat]
  · split
    · exact List.not_mem_nil
    · simp [h.chip]
  · exact List.not_mem_nil

theorem sm_injective {major major' minor minor' : ℕ} (hminor : minor < 10) (hminor' : minor' < 10)
    (h : natText major ++ natText minor = natText major' ++ natText minor') :
    major = major' ∧ minor = minor' := by
  rw [natText, natText, natText, natText, Nat.toDigits_of_lt_base hminor,
    Nat.toDigits_of_lt_base hminor'] at h
  obtain ⟨hmajor, hdigit⟩ := List.append_inj' h rfl
  exact ⟨natText_injective hmajor, digitChar_injective hminor hminor' (List.cons.inj hdigit).1⟩

theorem inForce_of_suffix {p q : RequestedTargetProfile} (hp : p.Clean) (hq : q.Clean)
    (hkind : normalizeTarget p.kind = normalizeTarget q.kind)
    (hsuffix : targetSuffix p = targetSuffix q) : p.inForce = q.inForce := by
  obtain ⟨pkind, pmajor, pminor, pchip⟩ := p
  obtain ⟨qkind, qmajor, qminor, qchip⟩ := q
  simp only [targetSuffix, RequestedTargetProfile.inForce] at hkind hsuffix ⊢
  rw [hkind] at hsuffix ⊢
  generalize normalizeTarget qkind = kind at hsuffix ⊢
  cases kind
  case nvidiaDGPU =>
    cases pmajor <;> cases pminor <;> cases qmajor <;> cases qminor <;>
      simp only at hsuffix ⊢ <;> try cases hsuffix
    rename_i M m M' m'
    rw [append_assoc, append_assoc] at hsuffix
    obtain ⟨rfl, rfl⟩ := sm_injective (hp.minor m rfl) (hq.minor m' rfl)
      (List.append_cancel_left hsuffix)
    rfl
  case amdIGPU =>
    have hchip : pchip = qchip := by
      by_cases hp : pchip = "" <;> by_cases hq : qchip = "" <;>
        simp only [hp, hq, if_true, if_false] at hsuffix
      · rw [hp, hq]
      · cases hsuffix
      · cases hsuffix
      · exact String.toList_inj.1 (List.append_cancel_left hsuffix)
    rw [hchip]
  all_goals rfl

theorem splits_target : Splits RequestedTargetProfile.Clean CanonicalTargetString
    (Begins (· == '|')) RequestedTargetProfile.inForce := by
  have htoken : Splits RequestedTargetProfile.Clean CanonicalTargetString (Begins (· == '|'))
      CanonicalTargetString := Splits.token fun p hp c hc => by
    simp only [beq_eq_false_iff_ne, ne_eq]
    rintro rfl
    obtain hc | hc := mem_append.1 hc
    · exact (canonicalTargetName_mark p.kind _ hc).2 rfl
    · exact targetSuffix_mark hp hc
  refine htoken.shows fun p q hp hq h => ?_
  have hname : Splits (fun _ : RequestedTargetProfile => True)
      (fun p => (canonicalTargetName p.kind).toList) (Begins (· == ':'))
      (fun p => (canonicalTargetName p.kind).toList) := Splits.token fun p _ c hc => by
    simp only [beq_eq_false_iff_ne, ne_eq]
    exact (canonicalTargetName_mark p.kind c hc).1
  obtain ⟨hkind, hsuffix⟩ := hname p q _ _ trivial trivial (targetSuffix_begins p)
    (targetSuffix_begins q) h
  refine inForce_of_suffix hp hq ?_ hsuffix
  rw [← kindOfName_canonical, ← kindOfName_canonical, String.toList_inj.1 hkind]

structure X86TargetProfile.Clean (profile : X86TargetProfile) : Prop where
  cpu : '|' ∉ profile.cpu.toList
  features : '|' ∉ profile.features.toList

theorem splits_bar (h : ∀ a, Dom a → '|' ∉ (f a).toList) :
    Splits Dom (fun a => (f a).toList) (Begins (· == '|')) f := by
  refine (Splits.token fun a ha c hc => ?_).shows fun a b _ _ heq => String.toList_inj.1 heq
  simp only [beq_eq_false_iff_ne, ne_eq]
  rintro rfl
  exact h a ha hc

theorem splits_tag : Splits X86TargetProfile.Clean X86TargetProfile.cacheTag (Begins (· == '|'))
    id := by
  have htier : Splits X86TargetProfile.Clean (fun x => x.tier.text) (Begins (· == '|'))
      (fun x => x.tier) := by
    refine (Splits.token fun x _ => ?_).shows fun x y _ _ h => ?_
    · have hall : x.tier.text.all (fun c => !(c == '|')) = true := by
        generalize x.tier = tier
        cases tier <;> decide
      intro c hc
      simpa using List.all_eq_true.1 hall c hc
    · generalize x.tier = tier at h ⊢
      generalize y.tier = tier' at h ⊢
      cases tier <;> cases tier' <;> first | rfl | exact absurd h (by decide)
  have h := (htier.thenLit "|cpu=".toList rfl).andThen
    (splits_bar (f := X86TargetProfile.cpu) fun x hx => hx.cpu)
  have h := (h.thenLit "|mattr=".toList rfl).andThen
    (splits_bar (f := X86TargetProfile.features) fun x hx => hx.features)
  refine h.shows fun x y _ _ heq => ?_
  obtain ⟨⟨htier, hcpu⟩, hfeatures⟩ := by simpa using heq
  cases x
  cases y
  simp_all

theorem bar_notDecimal (h : (c == '|') = true) : notDecimal c = true := by
  simp only [beq_iff_eq] at h
  subst h
  rfl

theorem splits_quantization (mark : String) {Rest : List Char → Prop}
    (hend : ∀ s, Rest s → Begins notDecimal s)
    (hnot : ∀ s, Rest s → ∀ d n t, s ≠ mark.toList ++ Double.text d ++ ":".toList ++ intText n ++ t) :
    Splits (fun _ : QuantizationParams => True) (quantizationText mark) Rest
      (fun q => q.inForce.shown) := by
  have h : Splits (fun _ : QuantizationParams => True) _ _ _ := Splits.lit mark.toList
  have h := (h.andThen (splits_double QuantizationParams.scale)).thenLit ":".toList rfl
  have h := h.andThen (Splits.int QuantizationParams.zeroPoint)
  intro p q s t _ _ hs ht heq
  cases hp : p.enabled <;> cases hq : q.enabled <;>
    simp only [quantizationText, hp, hq, if_true] at heq
  · simp only [QuantizationParams.inForce, hp, hq]
    exact ⟨rfl, heq⟩
  · exact absurd heq (hnot s hs _ _ _)
  · exact absurd heq.symm (hnot t ht _ _ _)
  · obtain ⟨hparts, rfl⟩ := h p q s t trivial trivial (hend s hs) (hend t ht) heq
    simp only [Prod.mk.injEq, true_and] at hparts
    simp only [QuantizationParams.inForce, QuantizationParams.shown, hp, hq, if_true, hparts]
    exact ⟨trivial, trivial⟩

/-- What follows the dtype of a tensor and shows no dimensions. -/
structure NoDims (s : List Char) : Prop where
  begins : Begins (fun c => c == ':' || c == '|') s
  noDims : ∀ n t, s ≠ ':' :: (intText n ++ t)

theorem NoDims.of_bar (h : Begins (· == '|') s) : NoDims s where
  begins := h.imp fun c hc => by simp only [hc, Bool.or_true]
  noDims := by
    rintro n t rfl
    exact absurd (h ':' rfl) (by decide)

theorem NoDims.of_letter (hc : notDecimal c = true) (s : List Char) :
    NoDims (':' :: c :: s) where
  begins := .lit (l := [':']) rfl _
  noDims := by
    intro n t h
    have hnot := not_begins_intText n t
    rw [← (List.cons.inj h).2] at hnot
    exact hnot (.lit (l := [c]) (congrArg some hc) s)

theorem NoDims.notDecimal (h : NoDims s) : Begins notDecimal s := by
  refine h.begins.imp fun c hc => ?_
  simp only [Bool.or_eq_true, beq_iff_eq] at hc
  obtain rfl | rfl := hc <;> rfl

theorem splits_shape : Splits (fun _ : List ℤ => True) shapeText NoDims shapeShown := by
  have h : Splits (fun _ : ℤ × ℤ => True) _ _ _ := Splits.lit ":".toList
  have h := (h.andThen (Splits.int fst)).thenLit "x".toList rfl
  have h := h.andThen (Splits.int snd)
  have hnone : ∀ {m n : ℤ} {s t : List Char}, NoDims s →
      s ≠ ":".toList ++ intText m ++ "x".toList ++ intText n ++ t := by
    intro m n s t hs heq
    refine hs.noDims m ("x".toList ++ intText n ++ t) (heq.trans ?_)
    simp
  intro a b s t _ _ hs ht heq
  match a, b with
  | m :: n :: _, m' :: n' :: _ =>
    obtain ⟨hparts, rfl⟩ := h (m, n) (m', n') s t trivial trivial hs.notDecimal ht.notDecimal heq
    simp only [Prod.mk.injEq, true_and] at hparts
    exact ⟨by rw [shapeShown, shapeShown, hparts.1, hparts.2], rfl⟩
  | m :: n :: _, [] => exact absurd heq.symm (hnone ht)
  | m :: n :: _, [_] => exact absurd heq.symm (hnone ht)
  | [], m :: n :: _ => exact absurd heq (hnone hs)
  | [_], m :: n :: _ => exact absurd heq (hnone hs)
  | [], [] => exact ⟨rfl, heq⟩
  | [], [_] => exact ⟨rfl, heq⟩
  | [_], [] => exact ⟨rfl, heq⟩
  | [_], [_] => exact ⟨rfl, heq⟩

theorem shape_begins (shape : List ℤ) (hs : NoDims s) :
    Begins (fun c => c == ':' || c == '|') (shapeText shape ++ s) := by
  match shape with
  | m :: n :: _ =>
    rw [shapeText, append_assoc, append_assoc, append_assoc]
    exact .lit rfl _
  | [] => exact hs.begins
  | [_] => exact hs.begins

theorem dtypeName_mark (dtype : TensorDType) :
    ∀ c ∈ (dtypeName dtype).toList, (c == ':' || c == '|') = false := by
  cases dtype <;> simp [dtypeName]

def dtypeOfName : String → TensorDType
  | "float32" => .float32
  | "float16" => .float16
  | "bfloat16" => .bfloat16
  | "int8" => .int8
  | "int32" => .int32
  | _ => .float8E4M3FN

theorem dtypeOfName_dtypeName (dtype : TensorDType) : dtypeOfName (dtypeName dtype) = dtype := by
  cases dtype <;> rfl

theorem splits_dtype : Splits (fun t : RuntimeTensorView => ':' ∉ t.symbol.toList)
    (fun t => (dtypeName t.dtype).toList) (Begins fun c => c == ':' || c == '|')
    RuntimeTensorView.dtype := by
  refine (Splits.token fun t _ => dtypeName_mark t.dtype).shows fun t u _ _ h => ?_
  rw [← dtypeOfName_dtypeName t.dtype, ← dtypeOfName_dtypeName u.dtype, String.toList_inj.1 h]

theorem splits_tensor : Splits (fun t : RuntimeTensorView => ':' ∉ t.symbol.toList) tensorText
    (Begins (· == '|')) (fun t => t.inForce.shown) := by
  have hquantization : Splits (fun _ : QuantizationParams => True) (quantizationText ":q=")
      (Begins (· == '|')) (fun q => q.inForce.shown) := by
    refine splits_quantization ":q=" (fun s hs => hs.imp fun c => bar_notDecimal) ?_
    rintro s hs d n t rfl
    exact absurd (hs ':' rfl) (by decide)
  have hresident : Splits (fun t : RuntimeTensorView => ':' ∉ t.symbol.toList)
      (fun t => flagText t.isDeviceResident ":dev") (fun s => NoDims s ∧ ¬ ":dev".toList <+: s)
      RuntimeTensorView.isDeviceResident := Splits.flag _ fun _ hs => hs.2
  have h : Splits (fun t : RuntimeTensorView => ':' ∉ t.symbol.toList) _ _ _ :=
    Splits.lit "|".toList
  have h := (h.andThen (splits_symbol fun t ht => ht)).thenLit ":".toList rfl
  have h := h.andThen splits_dtype
  have h := h.seq ((splits_shape.comap RuntimeTensorView.shape).restrict (fun _ _ => trivial)
    fun _ hs => hs) fun t s _ hs => shape_begins t.shape hs
  have h := h.seq hresident fun t s _ hs => by
    cases ht : t.isDeviceResident with
    | false => exact hs.1
    | true => exact .of_letter rfl _
  have h := h.seq ((hquantization.comap RuntimeTensorView.quantization).restrict
    (fun _ _ => trivial) fun _ hs => hs) fun t s _ hs => by
      cases ht : t.quantization.enabled with
      | false =>
        simp only [quantizationText, ht]
        exact ⟨.of_bar hs, hs.excludes rfl⟩
      | true =>
        simp only [quantizationText, ht, if_true, append_assoc]
        exact ⟨.of_letter rfl _, by simp⟩
  refine h.shows fun t u _ _ heq => ?_
  simp only [Prod.mk.injEq, true_and] at heq
  obtain ⟨⟨⟨⟨hsymbol, hdtype⟩, hshape⟩, hresident⟩, hquantization⟩ := heq
  simp only [RuntimeTensorView.inForce, RuntimeTensorView.shown, hsymbol, hdtype, hshape, hresident,
    hquantization]

theorem tensorText_head (t : RuntimeTensorView) : (tensorText t)[0]? = some '|' := by
  unfold tensorText
  repeat apply getElem?_append
  rfl

/-- The names have none of the marks that end them. -/
structure Request.Clean (r : Request) : Prop where
  name : '|' ∉ r.kernel.kernelName.toList
  profile : r.profile.Clean
  x86Profile : ∀ x ∈ r.x86Profile, x.Clean
  symbols : ∀ symbol ∈ r.kernel.program.symbols, ':' ∉ symbol.toList
  tensors : ∀ t ∈ r.tensors.take 3, ':' ∉ t.symbol.toList

/-- The description of a kernel begins with one of these. -/
def StructureStart (s : List Char) : Prop :=
  ∃ l ∈ ["|rv1".toList, "|gv2".toList, "|ops".toList], l <+: s

theorem structureStart (p : Program) (s : List Char) : StructureStart (kernelStructure p ++ s) := by
  cases p with
  | region r =>
    refine ⟨"|rv1".toList, mem_cons_self, ?_⟩
    unfold kernelStructure regionText
    repeat apply List.prefix_append_of_prefix
    decide
  | graph g =>
    refine ⟨"|gv2".toList, List.mem_cons_of_mem _ mem_cons_self, ?_⟩
    unfold kernelStructure graphText
    repeat apply List.prefix_append_of_prefix
    decide
  | linear ops =>
    refine ⟨"|ops".toList, List.mem_cons_of_mem _ (List.mem_cons_of_mem _ mem_cons_self), ?_⟩
    unfold kernelStructure
    repeat apply List.prefix_append_of_prefix
    decide

theorem StructureStart.begins (h : StructureStart s) : Begins (· == '|') s := by
  obtain ⟨l, hl, t, rfl⟩ := h
  refine .lit ?_ t
  revert l
  decide

theorem StructureStart.excludes {l : List Char} (h : StructureStart s)
    (hl : ∀ k ∈ ["|rv1".toList, "|gv2".toList, "|ops".toList], ¬ k <+: l ∧ ¬ l <+: k) :
    ¬ l <+: s := by
  intro hprefix
  obtain ⟨k, hk, hks⟩ := h
  obtain hkl | hlk := List.prefix_or_prefix_of_prefix hks hprefix
  · exact (hl k hk).1 hkl
  · exact (hl k hk).2 hlk

def tagText (profile : Option X86TargetProfile) : List Char :=
  match profile.map (·.cacheTag) with
  | some tag => "|".toList ++ tag
  | none => []

theorem tagText_tier (x : X86TargetProfile) (s : List Char) :
    "|x86-tier=".toList <+: tagText (some x) ++ s := by
  simp only [tagText, Option.map_some, X86TargetProfile.cacheTag, append_assoc]
  cases x.tier <;> exact ⟨_, rfl⟩

theorem splits_tagText : Splits (fun o : Option X86TargetProfile => ∀ x ∈ o, x.Clean) tagText
    StructureStart id := by
  have hnone : ∀ {x : X86TargetProfile} {s t : List Char}, StructureStart t →
      tagText (some x) ++ s ≠ t := by
    rintro x s t ht rfl
    exact ht.excludes (by decide) (tagText_tier x s)
  intro o o' s t ho ho' hs ht h
  match o, o' with
  | none, none => exact ⟨rfl, h⟩
  | none, some x => exact absurd h.symm (hnone hs)
  | some x, none => exact absurd h (hnone ht)
  | some x, some y =>
    have htag : x.cacheTag ++ s = y.cacheTag ++ t := (List.cons.inj h).2
    obtain ⟨rfl, rfl⟩ := splits_tag x y s t (ho x rfl) (ho' y rfl) hs.begins ht.begins htag
    exact ⟨rfl, rfl⟩

/-- Tensors follow, or nothing does. -/
def TensorsStart (s : List Char) : Prop :=
  s = [] ∨ ∃ symbol : String, ∃ dtype t, ':' ∉ symbol.toList ∧
    s = "|".toList ++ symbol.toList ++ ":".toList ++ (dtypeName dtype).toList ++ t

theorem TensorsStart.begins (h : TensorsStart s) : Begins (· == '|') s := by
  obtain rfl | ⟨symbol, dtype, t, -, rfl⟩ := h
  · exact .nil
  · simp only [append_assoc]
    exact .lit rfl _

theorem dtypeName_begins (dtype : TensorDType) (s : List Char) :
    Begins notDecimal ((dtypeName dtype).toList ++ s) := by
  cases dtype <;> exact .lit rfl s

/-- A tensor is no global quantization, whatever its symbol: a dtype is no number. -/
theorem TensorsStart.not_quantization (h : TensorsStart s) (d : Double) (n : ℤ) (t : List Char) :
    s ≠ "|gq=".toList ++ d.text ++ ":".toList ++ intText n ++ t := by
  rintro rfl
  obtain h | ⟨symbol, dtype, u, hsymbol, h⟩ := h
  · simp at h
  have htoken : Splits (fun x : List Char => ':' ∉ x) id (Begins (· == ':')) id :=
    Splits.token fun x hx c hc => by
      simp only [beq_eq_false_iff_ne, ne_eq]
      rintro rfl
      exact hx hc
  have hscale : ':' ∉ "gq=".toList ++ d.text := by
    rw [mem_append]
    rintro (hc | hc)
    · exact absurd hc (by decide)
    · exact absurd (mark_of_text hc) (by decide)
  obtain ⟨-, hrest⟩ := htoken ("gq=".toList ++ d.text) symbol.toList
    (":".toList ++ intText n ++ t) (":".toList ++ (dtypeName dtype).toList ++ u) hscale hsymbol
    (.lit rfl _) (.lit rfl _) (by simpa using h)
  have hnumber : intText n ++ t = (dtypeName dtype).toList ++ u := by simpa using hrest
  exact not_begins_intText n t (hnumber ▸ dtypeName_begins dtype u)

theorem splits_tensors : Splits (fun l : List RuntimeTensorView => ∀ t ∈ l, ':' ∉ t.symbol.toList)
    (fun l => l.flatMap tensorText) (· = []) (map fun t => t.inForce.shown) := by
  refine splits_tensor.flatMap _ (fun t s _ => .of_getElem? (tensorText_head t) rfl s) ?_ ?_
  · rintro _ rfl
    exact .nil
  · intro t s _ h
    have hhead := tensorText_head t
    rw [(List.append_eq_nil_iff.1 h).1] at hhead
    cases hhead

theorem tensorsStart {l : List RuntimeTensorView} (h : ∀ t ∈ l, ':' ∉ t.symbol.toList) :
    TensorsStart (l.flatMap tensorText ++ []) := by
  cases l with
  | nil => exact .inl rfl
  | cons t l =>
    refine .inr ⟨t.symbol, t.dtype, shapeText t.shape ++ (flagText t.isDeviceResident ":dev" ++
      (quantizationText ":q=" t.quantization ++ l.flatMap tensorText)), h t mem_cons_self, ?_⟩
    simp [List.flatMap_cons, tensorText]

theorem quantization_begins (q : QuantizationParams) (h : Begins (· == '|') s) :
    Begins (· == '|') (quantizationText "|gq=" q ++ s) := by
  cases hq : q.enabled with
  | false => simpa [quantizationText, hq] using h
  | true =>
    simp only [quantizationText, hq, if_true, append_assoc]
    exact .lit rfl _

theorem name_clean {r : Request} (h : r.Clean) : '|' ∉ r.kernel.name.toList := by
  unfold KernelIR.name
  split
  · decide
  · exact h.name

theorem splits_key : Splits Request.Clean Request.key (· = []) (fun r => r.input.shown) := by
  have hquantization : Splits (fun _ : QuantizationParams => True) (quantizationText "|gq=")
      TensorsStart (fun q => q.inForce.shown) :=
    splits_quantization "|gq=" (fun s hs => hs.begins.imp fun c => bar_notDecimal)
      fun s hs => hs.not_quantization
  have hmode : Splits Request.Clean (fun r => flagText r.graphMode "|graph_mode")
      (fun s => Begins (· == '|') s ∧ ¬ "|graph_mode".toList <+: s) Request.graphMode :=
    Splits.flag _ fun _ hs => hs.2
  have h : Splits Request.Clean _ _ _ :=
    (splits_bar (f := fun r : Request => r.kernel.name) fun r => name_clean).thenLit
      "|target=".toList rfl
  have h := h.andThen ((splits_target.comap Request.profile).restrict (fun r hr => hr.profile)
    fun _ hs => hs)
  have h := h.seq hmode fun r s _ hs => by
    cases hr : r.graphMode with
    | false => exact hs.1
    | true => exact .lit rfl s
  have h := h.seq ((splits_tagText.comap Request.x86Profile).restrict
    (fun r hr => hr.x86Profile) fun _ hs => hs) fun r s _ hs => by
      cases hr : r.x86Profile with
      | none => exact ⟨hs.begins, hs.excludes (by decide)⟩
      | some x =>
        refine ⟨.lit rfl _, fun hprefix => ?_⟩
        obtain h | h := List.prefix_or_prefix_of_prefix hprefix (tagText_tier x s)
        · exact absurd h (by decide)
        · exact absurd h (by decide)
  have h := h.seq ((splits_structure.comap fun r : Request => r.kernel.program).restrict
    (fun r hr => hr.symbols) fun _ hs => hs) fun r s _ _ => structureStart _ s
  have h := h.seq ((hquantization.comap fun r : Request => r.kernel.globalQuantization).restrict
    (fun _ _ => trivial) fun _ hs => hs) fun r s _ hs => quantization_begins _ hs.begins
  have h := h.seq ((splits_tensors.comap fun r : Request => r.tensors.take 3).restrict
    (fun r hr => hr.tensors) fun _ hs => hs) fun r s hr hs => by
      obtain rfl : s = [] := hs
      exact tensorsStart hr.tensors
  refine h.shows fun r r' _ _ heq => ?_
  simp only [Prod.mk.injEq] at heq
  obtain ⟨⟨⟨⟨⟨⟨hname, hprofile⟩, hmode⟩, htag⟩, hprogram⟩, hquantization⟩, htensors⟩ := heq
  have htag : r.x86Profile = r'.x86Profile := htag
  have hshown : ∀ q : Request, (q.input.tensors.take 3).map (·.shown) =
      (q.tensors.take 3).map fun t => t.inForce.shown := fun q => by
    simp only [Request.input, ← List.map_take, map_map, Function.comp_def]
  unfold Input.shown
  rw [hshown, hshown, htensors]
  simp only [Request.input, hname, hprofile, hmode, htag, hprogram, hquantization]

end

theorem roundHalfEven_natCast (n : ℕ) : roundHalfEven (n : ℚ≥0) = n := by
  simp [roundHalfEven, Nat.mod_one]

theorem text_rounded (d : Double) : d.rounded.text = d.text := by
  cases d with
  | finite negative magnitude =>
    have hmicros : (roundHalfEven (magnitude * 1000000) / 1000000 : ℚ≥0) * 1000000 =
        roundHalfEven (magnitude * 1000000) := div_mul_cancel₀ _ (by norm_num)
    simp only [Double.rounded, Double.text, hmicros, roundHalfEven_natCast]
  | infinite _ => rfl
  | nan _ => rfl

/-- Requests with the same key agree in what the key shows. -/
theorem shown_of_key {r r' : Request} (hr : r.Clean) (hr' : r'.Clean) (h : r.key = r'.key) :
    r.input.shown = r'.input.shown := by
  have h : r.key ++ [] = r'.key ++ [] := by rw [h]
  exact (splits_key r r' [] [] hr hr' rfl rfl h).1

section Told
variable (read : List Char → Double)

/-- A number that its printed text is read back to. -/
def Double.Short (d : Double) : Prop := read d.text = d

/-- The producer and the consumers of a value as the tracers fill them in, node after node. A node is
its number, its inputs and its outputs here. -/
structure TensorDesc.Linked (nodes : List (ℕ × List ℕ × List ℕ)) (i : ℕ) (v : TensorDesc) :
    Prop where
  producer : v.producer = ((nodes.filter fun n => i ∈ n.2.2).getLast?).map (·.1)
  consumers : v.consumers = nodes.flatMap fun n => (n.2.1.filter (· = i)).map fun _ => n.1

def NodeAttrs.Short : NodeAttrs → Prop
  | elementwise _ _ scalarImmediates _ => ∀ s ∈ scalarImmediates, s.Short read
  | _ => True

/-- Graphs and regions as the frontends make them. The key tells almost nothing of a linear
kernel. -/
def Program.Told : Program → Prop
  | .region r =>
    (∀ (i : ℕ) (v : TensorDesc), r.values[i]? = some v →
      v.Linked (r.nodes.map fun n => (n.id, n.inputs, n.outputs)) i ∧
        v.strides = [] ∧ v.storageHint = .auto ∧ v.escape = .noEscape) ∧
      ∀ n ∈ r.nodes, n.attrs.eps.Short read
  | .graph g =>
    (∀ (i : ℕ) (v : TensorDesc), g.values[i]? = some v →
      v.Linked (g.nodes.map fun n => (n.id, n.inputs, n.outputs)) i) ∧
      ∀ n ∈ g.nodes, n.attrs.Short read
  | .linear ops => ops = []

/-- The parameters that the binding gives a kernel: those of a region are its inputs. -/
def Program.params : Program → List String
  | .region r => r.inputValues.filterMap fun i => (r.values[i]?).map (·.symbol)
  | _ => []

/-- A matrix whose rows follow one another. -/
structure RuntimeTensorView.Told (t : RuntimeTensorView) : Prop where
  rank : t.shape.length = 2
  strides : t.strides = [max (t.shape.getD 1 0) 1, 1]
  quantization : t.quantization.inForce.scale.Short read

/-- **Requests that their key tells**: what it leaves out is as the frontends make it, and what it
cuts off is not there. -/
structure Request.Told (r : Request) : Prop where
  clean : r.Clean
  loops : r.kernel.loops = []
  params : r.kernel.params = r.kernel.program.params
  program : r.kernel.program.Told read
  quantization : r.kernel.globalQuantization.inForce.scale.Short read
  count : r.tensors.length ≤ 3
  tensors : ∀ t ∈ r.tensors, t.Told read

variable {read}

theorem Double.Short.eq {d e : Double} (hd : d.Short read) (he : e.Short read)
    (h : d.rounded = e.rounded) : d = e := by
  have htext : d.text = e.text := by rw [← text_rounded d, h, text_rounded]
  exact (hd.symm.trans (congrArg read htext)).trans he

theorem eq_of_map_eq {α β : Type} {f : α → β} {l l' : List α} (h : l.map f = l'.map f)
    (heq : ∀ (i : ℕ) (a b : α), l[i]? = some a → l'[i]? = some b → f a = f b → a = b) : l = l' := by
  refine List.ext_getElem? fun i => ?_
  have hi : (l[i]?).map f = (l'[i]?).map f := by rw [← getElem?_map, h, getElem?_map]
  cases ha : l[i]? with
  | none =>
    rw [ha] at hi
    exact (Option.map_eq_none_iff.1 hi.symm).symm
  | some a =>
    rw [ha] at hi
    obtain ⟨b, hb, hfb⟩ := Option.map_eq_some_iff.1 hi.symm
    rw [hb, heq i a b ha hb hfb.symm]

theorem attrs_of_shown {a b : NodeAttrs} (ha : a.Short read) (hb : b.Short read)
    (h : a.shown = b.shown) : a = b := by
  cases a <;> cases b <;> simp only [NodeAttrs.shown, reduceCtorEq] at h
  case elementwise.elementwise =>
    obtain ⟨rfl, rfl, himmediates, rfl⟩ := NodeAttrs.elementwise.inj h
    congr 1
    exact eq_of_map_eq himmediates fun i s s' hs hs' =>
      (ha s (mem_of_getElem? hs)).eq (hb s' (mem_of_getElem? hs'))
  all_goals exact h

theorem node_of_shown {n m : KernelNode} (hn : n.attrs.Short read) (hm : m.attrs.Short read)
    (h : n.shown = m.shown) : n = m := by
  obtain ⟨hid, hkind, hinputs, houtputs, hattrs, hfree⟩ := KernelNode.mk.inj h
  have hattrs := attrs_of_shown hn hm hattrs
  cases n
  cases m
  simp_all

theorem regionNode_of_shown {n m : RegionNode} (hn : n.attrs.eps.Short read)
    (hm : m.attrs.eps.Short read) (h : n.shown = m.shown) : n = m := by
  obtain ⟨hid, hkind, hinputs, houtputs, hattrs⟩ := RegionNode.mk.inj h
  obtain ⟨hblocks, hpartial, hquery, hcount, hhas, heps⟩ := BlockAttnResAttrs.mk.inj hattrs
  have heps := hn.eq hm heps
  obtain ⟨_, _, _, _, ⟨_, _, _, _, _, _⟩⟩ := n
  obtain ⟨_, _, _, _, ⟨_, _, _, _, _, _⟩⟩ := m
  simp_all

variable {nodes : List (ℕ × List ℕ × List ℕ)} {i : ℕ} {v w : TensorDesc}

theorem value_of_shown (hv : v.Linked nodes i) (hw : w.Linked nodes i)
    (h : v.shownInGraph = w.shownInGraph) : v = w := by
  have hproducer := hv.producer.trans hw.producer.symm
  have hconsumers := hv.consumers.trans hw.consumers.symm
  cases v
  cases w
  simp_all [TensorDesc.shownInGraph]

theorem regionValue_of_shown
    (hv : v.Linked nodes i ∧ v.strides = [] ∧ v.storageHint = .auto ∧ v.escape = .noEscape)
    (hw : w.Linked nodes i ∧ w.strides = [] ∧ w.storageHint = .auto ∧ w.escape = .noEscape)
    (h : v.shownInRegion = w.shownInRegion) : v = w := by
  obtain ⟨hv, hv'⟩ := hv
  obtain ⟨hw, hw'⟩ := hw
  refine value_of_shown hv hw ?_
  cases v
  cases w
  simp_all [TensorDesc.shownInRegion, TensorDesc.shownInGraph]

theorem program_of_shown {p q : Program} (hp : p.Told read) (hq : q.Told read)
    (h : p.shown = q.shown) : p = q := by
  cases p <;> cases q <;> simp only [Program.shown, reduceCtorEq] at h
  case region.region r r' =>
    obtain ⟨hvalues, hnodes, hinputs, houtputs, htopo⟩ := RegionIR.mk.inj (Program.region.inj h)
    have hnodes : r.nodes = r'.nodes := eq_of_map_eq hnodes fun i n m hn hm =>
      regionNode_of_shown (hp.2 n (mem_of_getElem? hn)) (hq.2 m (mem_of_getElem? hm))
    have hvalues : r.values = r'.values := eq_of_map_eq hvalues fun i v w hv hw =>
      regionValue_of_shown (hnodes ▸ hp.1 i v hv) (hq.1 i w hw)
    cases r
    cases r'
    simp_all
  case graph.graph g g' =>
    obtain ⟨hvalues, hnodes, hinputs, houtputs, htopo⟩ := KernelGraphIR.mk.inj (Program.graph.inj h)
    have hnodes : g.nodes = g'.nodes := eq_of_map_eq hnodes fun i n m hn hm =>
      node_of_shown (hp.2 n (mem_of_getElem? hn)) (hq.2 m (mem_of_getElem? hm))
    have hvalues : g.values = g'.values := eq_of_map_eq hvalues fun i v w hv hw =>
      value_of_shown (hnodes ▸ hp.1 i v hv) (hq.1 i w hw)
    cases g
    cases g'
    simp_all
  case linear.linear ops ops' =>
    obtain rfl : ops = [] := hp
    obtain rfl : ops' = [] := hq
    rfl

theorem quantization_of_shown {q q' : QuantizationParams} (hq : q.scale.Short read)
    (hq' : q'.scale.Short read) (h : q.shown = q'.shown) : q = q' := by
  obtain ⟨henabled, hscale, hzero⟩ := QuantizationParams.mk.inj h
  have hscale := hq.eq hq' hscale
  cases q
  cases q'
  simp_all

theorem tensor_of_shown {t u : RuntimeTensorView} (ht : t.Told read) (hu : u.Told read)
    (h : t.inForce.shown = u.inForce.shown) : t.inForce = u.inForce := by
  have hshape : ∀ {shape : List ℤ}, shape.length = 2 → shapeShown shape = shape := by
    intro shape hrank
    obtain ⟨m, n, rfl⟩ := List.length_eq_two.1 hrank
    rfl
  obtain ⟨hsymbol, hdtype, hsame, -, hresident, hquantization⟩ := RuntimeTensorView.mk.inj h
  have hsame : t.shape = u.shape := (hshape ht.rank).symm.trans (hsame.trans (hshape hu.rank))
  have hstrides : t.strides = u.strides := by rw [ht.strides, hu.strides, hsame]
  have hquantization : t.quantization.inForce = u.quantization.inForce :=
    quantization_of_shown ht.quantization hu.quantization hquantization
  cases t
  cases u
  simp_all [RuntimeTensorView.inForce]

/-- **A told request is all in its key.** -/
theorem input_of_key {r r' : Request} (hr : r.Told read) (hr' : r'.Told read)
    (h : r.key = r'.key) : r.input = r'.input := by
  obtain ⟨hname, -, -, hprogram, hquantization, hprofile, hx86, htensors, hmode⟩ :=
    Input.mk.inj (shown_of_key hr.clean hr'.clean h)
  have hprogram : r.kernel.program = r'.kernel.program :=
    program_of_shown hr.program hr'.program hprogram
  have hquantization : r.kernel.globalQuantization.inForce = r'.kernel.globalQuantization.inForce :=
    quantization_of_shown hr.quantization hr'.quantization hquantization
  have htensors : r.tensors.map (·.inForce) = r'.tensors.map (·.inForce) := by
    have htake : ∀ {r : Request}, r.Told read →
        ((r.input.tensors.take 3).map (·.shown)) = r.tensors.map (·.inForce.shown) := by
      intro r hr
      rw [List.take_of_length_le (by simpa [Request.input] using hr.count), Request.input,
        map_map]
      rfl
    rw [htake hr, htake hr'] at htensors
    refine List.ext_getElem? fun i => ?_
    have hi := congrArg (·[i]?) htensors
    simp only [getElem?_map] at hi ⊢
    cases ht : r.tensors[i]? with
    | none =>
      rw [ht] at hi
      rw [Option.map_eq_none_iff.1 hi.symm]
    | some t =>
      rw [ht] at hi
      obtain ⟨u, hu, heq⟩ := Option.map_eq_some_iff.1 hi.symm
      rw [hu]
      exact congrArg some (tensor_of_shown (hr.tensors t (mem_of_getElem? ht))
        (hr'.tensors u (mem_of_getElem? hu)) heq.symm)
  have hparams : r.kernel.params = r'.kernel.params := by
    rw [hr.params, hr'.params, hprogram]
  have hloops : r.kernel.loops = r'.kernel.loops := hr.loops.trans hr'.loops.symm
  have hname : r.kernel.name = r'.kernel.name := hname
  have hprofile : r.profile.inForce = r'.profile.inForce := hprofile
  have hx86 : r.x86Profile = r'.x86Profile := hx86
  have hmode : r.graphMode = r'.graphMode := hmode
  unfold Request.input
  rw [hname, hparams, hloops, hprogram, hquantization, hprofile, hx86, htensors, hmode]

end Told

end Matcore.Engine.CacheKey
