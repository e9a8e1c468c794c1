import Matcore.Frontend.Trace
import Matcore.Lib.Except

/-!
# What a trace records

Behind every step the builder has a value for each expression that is no transpose, with the node
that makes it, and every tensor stands for an expression: for the value of what is below its
transposes, with a flag for their number.
-/

namespace Matcore.Frontend

open Except (bind_eq_ok ok)
open Engine
open LoopNest (Tensor)
open Option (bind_eq_some_iff)

variable {E : Type}

structure Facts where
  id : ℕ
  dtype : String
  shape : List ℕ
  kind : ValueKind
  producer : Option ℕ

def TraceValue.facts (value : TraceValue) : Facts :=
  ⟨value.id, value.dtype, value.shape, value.kind, value.producer⟩

def Builder.facts (b : Builder) (v : ℕ) : Option Facts := (b.values[v]?).map (·.facts)

theorem Builder.producer_eq (b : Builder) (v : ℕ) : b.producer v = (b.facts v).bind (·.producer) := by
  unfold Builder.producer Builder.facts
  cases b.values[v]? with
  | none => rfl
  | some value => rfl

theorem facts_appendConsumer (n : ℕ) (values : List TraceValue) (u v : ℕ) :
    ((appendConsumer n values u)[v]?).map (·.facts) = (values[v]?).map (·.facts) := by
  unfold appendConsumer
  rw [List.getElem?_modify]
  by_cases h : u = v
  · simp only [h, if_true]
    cases values[v]? with
    | none => rfl
    | some value => rfl
  · simp [h]

theorem facts_foldl_appendConsumer (n : ℕ) (inputs : List ℕ) (values : List TraceValue) (v : ℕ) :
    ((inputs.foldl (appendConsumer n) values)[v]?).map (·.facts) = (values[v]?).map (·.facts) := by
  induction inputs generalizing values with
  | nil => rfl
  | cons u inputs ih => rw [List.foldl_cons, ih, facts_appendConsumer]

theorem facts_setProducer (n : ℕ) (values : List TraceValue) (u v : ℕ) :
    ((setProducer n values u)[v]?).map (·.facts) =
      ((values[v]?).map (·.facts)).map fun f => if u = v then { f with producer := some n } else f := by
  unfold setProducer
  rw [List.getElem?_modify]
  cases values[v]? with
  | none =>
    split
    · rfl
    · rfl
  | some value =>
    by_cases h : u = v
    · simp only [h, if_true]
      rfl
    · simp [h]

theorem length_foldl_appendConsumer (n : ℕ) (inputs : List ℕ) (values : List TraceValue) :
    (inputs.foldl (appendConsumer n) values).length = values.length := by
  induction inputs generalizing values with
  | nil => rfl
  | cons u inputs ih => rw [List.foldl_cons, ih, appendConsumer, List.length_modify]

section builder

variable (b : Builder) (op : String) (inputs : List ℕ) (attrs : Attrs) (dtype : String)
  (shape : List ℕ)

theorem Builder.facts_newValue (kind : ValueKind) (v : ℕ) :
    (b.newValue dtype shape kind).facts v =
      if v = b.values.length then some ⟨v, dtype, shape, kind, none⟩ else b.facts v := by
  unfold Builder.facts Builder.newValue
  by_cases hv : v = b.values.length
  · simp [hv, TraceValue.facts]
  · simp only [hv, if_false]
    rcases Nat.lt_or_gt_of_ne hv with hlt | hgt
    · rw [List.getElem?_append_left hlt]
    · rw [List.getElem?_eq_none (by simp; omega), List.getElem?_eq_none (by omega)]

theorem Builder.length_record :
    (b.record op inputs attrs dtype shape).1.values.length = b.values.length + 1 := by
  simp [Builder.record, Builder.newNode, Builder.newValue, setProducer,
    length_foldl_appendConsumer]

theorem Builder.nodes_record : (b.record op inputs attrs dtype shape).1.nodes =
    b.nodes ++ [⟨b.nodes.length, op, inputs, [b.values.length], attrs⟩] := rfl

theorem Builder.facts_record (v : ℕ) : (b.record op inputs attrs dtype shape).1.facts v =
    if v = b.values.length then some ⟨v, dtype, shape, .intermediate, some b.nodes.length⟩
    else b.facts v := by
  have hnew := b.facts_newValue dtype shape .intermediate v
  unfold Builder.facts at hnew ⊢
  simp only [Builder.record, Builder.newNode, List.foldl_cons, List.foldl_nil]
  rw [facts_setProducer, facts_foldl_appendConsumer, hnew]
  by_cases hv : v = b.values.length
  · rw [if_pos hv, if_pos hv, Option.map_some, if_pos hv.symm]
    rfl
  · have hne : ¬ b.values.length = v := fun h => hv h.symm
    rw [if_neg hv, if_neg hv]
    simp only [hne, if_false]
    exact Option.map_id'

end builder

/-- What is below the transposes of an expression. -/
def Expr.core : Expr E → Expr E
  | .T x => x.core
  | e => e

/-- The node of an expression: its operation, its attributes and the operands. -/
def Expr.made : Expr E → Option (String × Attrs × List (Expr E))
  | .input _ => none
  | .T _ => none
  | .matmul lhs rhs => some ("matmul", { transposeRhs := some rhs.flag }, [lhs, rhs])
  | .binary op x y => some (op.op, {}, [x, y])
  | .unary op x => some (op.op, {}, [x])
  | .softmax x axis => some ("softmax", { axis := some axis }, [x])
  | .cast x targetDtype => some ("cast", { targetDtype := some (dtypeName targetDtype) }, [x])

/-- A node that makes the value of an expression from those of its operands. -/
def Records (defs : List (Expr E)) (op : String) (attrs : Attrs) (inputs : List ℕ) (e : Expr E) :
    Prop :=
  ∃ operands, e.made = some (op, attrs, operands) ∧
    List.Forall₂ (fun u x => defs[u]? = some x.core) inputs operands

/-- The value of an expression. -/
inductive Made (b : Builder) (defs : List (Expr E)) (v : ℕ) : Expr E → Prop where
  | input (array : NdArray E)
      (hfacts : b.facts v = some ⟨v, dtypeName array.dtype, array.tensor.shape, .input, none⟩) :
      Made b defs v (.input array)
  | node {e : Expr E} {n : ℕ} {dtype : TensorDType} {shape : List ℕ} {op : String} {attrs : Attrs}
      {inputs : List ℕ}
      (hfacts : b.facts v = some ⟨v, dtypeName dtype, shape, .intermediate, some n⟩)
      (hnode : b.nodes[n]? = some ⟨n, op, inputs, [v], attrs⟩)
      (hrecords : Records defs op attrs inputs e)
      (hbefore : ∀ u ∈ inputs, ∀ m, b.producer u = some m → m < n) : Made b defs v e

/-- A builder with the expressions of its values. -/
structure Recorded (b : Builder) (defs : List (Expr E)) : Prop where
  length : b.values.length = defs.length
  made : ∀ v e, defs[v]? = some e → Made b defs v e
  node : ∀ (n : ℕ) (node : TraceNode), b.nodes[n]? = some node →
    ∃ v e, defs[v]? = some e ∧ node.id = n ∧
    node.outputs = [v] ∧ Records defs node.op node.attrs node.inputs e ∧ b.producer v = some n

variable {b : Builder} {defs : List (Expr E)} {op : String} {attrs : Attrs} {inputs : List ℕ}

theorem Records.lt {e : Expr E} (h : Records defs op attrs inputs e) {u : ℕ} (hu : u ∈ inputs) :
    u < defs.length := by
  obtain ⟨operands, -, hinputs⟩ := h
  induction hinputs with
  | nil => exact absurd hu List.not_mem_nil
  | cons hx _ ih =>
    rcases List.mem_cons.1 hu with rfl | hu
    · exact (List.getElem?_eq_some_iff.1 hx).1
    · exact ih hu

theorem Records.append {e : Expr E} (h : Records defs op attrs inputs e) (more : List (Expr E)) :
    Records (defs ++ more) op attrs inputs e := by
  obtain ⟨operands, hmade, hinputs⟩ := h
  refine ⟨operands, hmade, hinputs.imp fun u x hx => ?_⟩
  rw [List.getElem?_append_left (List.getElem?_eq_some_iff.1 hx).1, hx]

variable {v : ℕ}

theorem Recorded.facts_none (h : Recorded b defs) (hv : defs.length ≤ v) : b.facts v = none := by
  rw [Builder.facts, List.getElem?_eq_none (h.length ▸ hv), Option.map_none]

theorem Recorded.producer_lt (h : Recorded b defs) {n : ℕ} (hn : b.producer v = some n) :
    n < b.nodes.length := by
  by_cases hv : v < defs.length
  · rw [b.producer_eq] at hn
    obtain ⟨e, he⟩ : ∃ e, defs[v]? = some e := ⟨_, List.getElem?_eq_getElem hv⟩
    cases h.made v e he with
    | input array hfacts =>
      rw [hfacts] at hn
      cases hn
    | node hfacts hnode =>
      rw [hfacts] at hn
      cases hn
      exact (List.getElem?_eq_some_iff.1 hnode).1
  · rw [b.producer_eq, h.facts_none (by omega)] at hn
    cases hn

theorem getElem?_concat {α : Type} {l : List α} {x y : α} {n : ℕ} (h : (l ++ [x])[n]? = some y) :
    l[n]? = some y ∨ n = l.length ∧ x = y := by
  by_cases hn : n < l.length
  · exact .inl (by rwa [List.getElem?_append_left hn] at h)
  · have hbound := (List.getElem?_eq_some_iff.1 h).1
    rw [List.length_append, List.length_singleton] at hbound
    obtain rfl : n = l.length := by omega
    exact .inr ⟨rfl, by simpa using h⟩

variable {b' : Builder}

theorem Made.grow {e : Expr E} (more : List (Expr E)) (h : Made b defs v e) (hv : v < defs.length)
    (hfacts : ∀ u < defs.length, b'.facts u = b.facts u)
    (hnodes : ∀ (n : ℕ) (node : TraceNode), b.nodes[n]? = some node → b'.nodes[n]? = some node) :
    Made b' (defs ++ more) v e := by
  cases h with
  | input array hold => exact .input array ((hfacts v hv).trans hold)
  | node hold hnode hrecords hbefore =>
    refine .node ((hfacts v hv).trans hold) (hnodes _ _ hnode) (hrecords.append more) ?_
    intro u hu m hm
    rw [b'.producer_eq, hfacts u (hrecords.lt hu), ← b.producer_eq] at hm
    exact hbefore u hu m hm

theorem Recorded.grow {e : Expr E} (h : Recorded b defs)
    (hlength : b'.values.length = b.values.length + 1)
    (hfacts : ∀ u < defs.length, b'.facts u = b.facts u)
    (hnodes : ∀ (n : ℕ) (node : TraceNode), b.nodes[n]? = some node → b'.nodes[n]? = some node)
    (hlast : Made b' (defs ++ [e]) defs.length e)
    (hnew : ∀ (n : ℕ) (node : TraceNode), b'.nodes[n]? = some node → b.nodes[n]? = some node ∨
      node.id = n ∧ node.outputs = [defs.length] ∧
        Records defs node.op node.attrs node.inputs e ∧ b'.producer defs.length = some n) :
    Recorded b' (defs ++ [e]) := by
  refine ⟨by simp [hlength, h.length], fun v e' he' => ?_, fun n node hnode => ?_⟩
  · by_cases hv : v < defs.length
    · rw [List.getElem?_append_left hv] at he'
      exact (h.made v e' he').grow [e] hv hfacts hnodes
    · rcases getElem?_concat he' with hold | ⟨rfl, rfl⟩
      · exact absurd (List.getElem?_eq_some_iff.1 hold).1 hv
      · exact hlast
  · rcases hnew n node hnode with hold | ⟨hid, houtputs, hrecords, hproducer⟩
    · obtain ⟨v, e', he', hid, houtputs, hrecords, hproducer⟩ := h.node n node hold
      have hv := (List.getElem?_eq_some_iff.1 he').1
      refine ⟨v, e', by rw [List.getElem?_append_left hv, he'], hid, houtputs, hrecords.append [e], ?_⟩
      rw [b'.producer_eq, hfacts v hv, ← b.producer_eq, hproducer]
    · exact ⟨defs.length, e, by simp, hid, houtputs, hrecords.append [e], hproducer⟩

theorem Recorded.record (h : Recorded b defs) {e : Expr E}
    (hrecords : Records defs op attrs inputs e) (dtype : TensorDType) (shape : List ℕ) :
    Recorded (b.record op inputs attrs (dtypeName dtype) shape).1 (defs ++ [e]) := by
  have hfacts : ∀ u < defs.length,
      (b.record op inputs attrs (dtypeName dtype) shape).1.facts u = b.facts u := by
    intro u hu
    rw [b.facts_record, if_neg (by rw [h.length]; omega)]
  have hlast : (b.record op inputs attrs (dtypeName dtype) shape).1.facts defs.length =
      some ⟨defs.length, dtypeName dtype, shape, .intermediate, some b.nodes.length⟩ := by
    rw [b.facts_record, if_pos h.length.symm]
  refine h.grow (b.length_record ..) hfacts (fun n node hnode => ?_) ?_ fun n node hnode => ?_
  · rw [b.nodes_record, List.getElem?_append_left (List.getElem?_eq_some_iff.1 hnode).1, hnode]
  · refine .node hlast ?_ (hrecords.append [e]) fun u hu m hm => ?_
    · rw [b.nodes_record, h.length]
      simp
    · rw [Builder.producer_eq, hfacts u (hrecords.lt hu), ← b.producer_eq] at hm
      exact h.producer_lt hm
  · rw [b.nodes_record] at hnode
    rcases getElem?_concat hnode with hold | ⟨rfl, rfl⟩
    · exact .inl hold
    · refine .inr ⟨rfl, by rw [h.length], hrecords, ?_⟩
      rw [Builder.producer_eq, hlast]
      rfl

theorem Recorded.addInput (h : Recorded b defs) (array : NdArray E) :
    Recorded (b.addInput array.dtype array.tensor.shape).1 (defs ++ [.input array]) := by
  refine h.grow (by simp [Builder.addInput, Builder.newValue]) (fun u hu => ?_)
    (fun n node hnode => hnode)
    (.input array ?_) fun n node hnode => .inl hnode
  · rw [Builder.addInput, b.facts_newValue, if_neg (by rw [h.length]; omega)]
  · rw [Builder.addInput, b.facts_newValue, if_pos h.length.symm]

variable {library : ArrayLibrary E} {arith : GraphArith E} {t : TracerTensor} {e : Expr E}
  {a' a : Tensor E}

theorem Expr.Matrix.shape_eq (h : e.Matrix library arith) (ha : e.tensor library arith = some a) :
    ∃ m n, a.shape = [m, n] := by
  obtain ⟨m, n, hshape⟩ := h
  rw [Expr.shape, ha] at hshape
  exact ⟨m, n, Option.some.inj hshape⟩

/-- A tensor of a trace that stands for an expression. Its dtype and shape are those on arrays only
where the expression is plain: a trace neither promotes nor broadcasts. -/
structure Stands (library : ArrayLibrary E) (arith : GraphArith E) (b : Builder)
    (defs : List (Expr E)) (t : TracerTensor) (e : Expr E) : Prop where
  defined : defs[t.valueId]? = some e.core
  flag : t.transposed = e.flag
  named : ∃ d, t.dtype = dtypeName d
  dtype : e.Plain library arith → t.dtype = e.dtype library
  shape : e.Plain library arith → ∀ a, e.tensor library arith = some a → t.shape = a.shape
  /-- the shape that is recorded is that below the transposes -/
  facts : ∃ f, b.facts t.valueId = some f ∧ f.dtype = t.dtype ∧ (e.Plain library arith →
    ∀ a, e.tensor library arith = some a → f.shape = if e.flag then a.shape.reverse else a.shape)

theorem Stands.lt (h : Stands library arith b defs t e) : t.valueId < defs.length :=
  (List.getElem?_eq_some_iff.1 h.defined).1

theorem Stands.grow (more : List (Expr E)) (h : Stands library arith b defs t e)
    (hfacts : ∀ u < defs.length, b'.facts u = b.facts u) :
    Stands library arith b' (defs ++ more) t e := by
  refine ⟨?_, h.flag, h.named, h.dtype, h.shape, ?_⟩
  · rw [List.getElem?_append_left h.lt, h.defined]
  · rw [hfacts _ h.lt]
    exact h.facts

theorem Stands.T {t' : TracerTensor} (h : Stands library arith b defs t e) (hT : t.T = .ok t') :
    Stands library arith b defs t' (.T e) := by
  unfold TracerTensor.T at hT
  split at hT
  · rename_i m' n' rest hpattern
    cases hT
    obtain ⟨f, hfacts, hdtype, hshape⟩ := h.facts
    refine ⟨h.defined, by rw [h.flag, Expr.flag], h.named, fun hplain => h.dtype hplain.1,
      fun hplain a' ha' => ?_, f, hfacts, hdtype, fun hplain a' ha' => ?_⟩
    · obtain ⟨a, ha, hnew⟩ := bind_eq_some_iff.1 ha'
      cases hnew
      obtain ⟨m, n, hold⟩ := hplain.2.shape_eq ha
      rw [h.shape hplain.1 a ha, hold] at hpattern
      cases hpattern
      simp [reversedAxes, hold]
    · obtain ⟨a, ha, hnew⟩ := bind_eq_some_iff.1 ha'
      cases hnew
      rw [hshape hplain.1 a ha, Expr.flag, reversedAxes, List.reverse_reverse]
      cases e.flag with
      | true => rfl
      | false => rfl
  · cases hT

variable {shape : List ℕ}

theorem Recorded.stands (h : Recorded b defs) {dtype : TensorDType} (hcore : e.core = e)
    (hflag : e.flag = false) (hdtype : e.Plain library arith → dtypeName dtype = e.dtype library)
    (hshape : e.Plain library arith → ∀ a, e.tensor library arith = some a → shape = a.shape) :
    Stands library arith (b.record op inputs attrs (dtypeName dtype) shape).1 (defs ++ [e])
      (b.record op inputs attrs (dtypeName dtype) shape).2 e := by
  refine ⟨?_, hflag.symm, ⟨dtype, rfl⟩, hdtype, hshape,
    ⟨b.values.length, dtypeName dtype, shape, .intermediate, some b.nodes.length⟩, ?_, rfl,
    fun hplain a ha => ?_⟩
  · rw [hcore, Builder.record, h.length]
    simp
  · exact (b.facts_record ..).trans (if_pos rfl)
  · rw [hflag, if_neg Bool.false_ne_true]
    exact hshape hplain a ha

theorem Recorded.stands_addInput (h : Recorded b defs) (array : NdArray E) :
    Stands library arith (b.addInput array.dtype array.tensor.shape).1 (defs ++ [.input array])
      (b.addInput array.dtype array.tensor.shape).2 (.input array) := by
  refine ⟨?_, rfl, ⟨array.dtype, rfl⟩, fun _ => rfl, fun _ a ha => ?_,
    ⟨b.values.length, dtypeName array.dtype, array.tensor.shape, .input, none⟩, ?_, rfl,
    fun _ a ha => ?_⟩
  · rw [Builder.addInput, h.length]
    simp [Expr.core]
  · cases ha
    rfl
  · exact (b.facts_newValue ..).trans (if_pos rfl)
  · cases ha
    rfl

theorem normalizeDtypeName_dtypeName (d : TensorDType) :
    normalizeDtypeName (dtypeName d) = dtypeName d := by
  cases d <;> decide

theorem dtypeName_injective : Function.Injective dtypeName := by
  intro d d' h
  cases d <;> cases d' <;> first | rfl | exact absurd h (by decide)

theorem dtypeOf_dtypeName (d : TensorDType) : dtypeOf (dtypeName d) = some d := by
  cases d <;> decide

variable {name : String}

theorem dtypeOf_of_supported (h : name ∈ supportedInputDtypes) : ∃ d, name = dtypeName d := by
  simp only [supportedInputDtypes, List.mem_cons, List.not_mem_nil, or_false] at h
  rcases h with rfl | rfl | rfl | rfl | rfl | rfl
  · exact ⟨.float32, rfl⟩
  · exact ⟨.float16, rfl⟩
  · exact ⟨.bfloat16, rfl⟩
  · exact ⟨.int8, rfl⟩
  · exact ⟨.int32, rfl⟩
  · exact ⟨.float8E4M3FN, rfl⟩

theorem inferTracedMatmulDtype_ok {d d' : TensorDType}
    (h : inferTracedMatmulDtype (dtypeName d) (dtypeName d') = .ok name) :
    d = d' ∧ name = dtypeName (matmulDtype d) := by
  unfold inferTracedMatmulDtype at h
  simp only [normalizeDtypeName_dtypeName] at h
  by_cases hsame : dtypeName d = dtypeName d'
  · rw [if_neg (not_not.2 hsame)] at h
    refine ⟨dtypeName_injective hsame, ?_⟩
    cases d <;> exact (ok.inj h).symm
  · rw [if_pos hsame] at h
    cases h

def Expr.inputTensor : Expr E → Option (Tensor E)
  | .input array => some array.tensor
  | _ => none

/-- A trace behind some steps of a function. -/
structure Traced (library : ArrayLibrary E) (arith : GraphArith E) (done : List (Call E)) (s : Tracing)
    (exprs defs : List (Expr E)) : Prop where
  recorded : Recorded s.builder defs
  stands : List.Forall₂ (Stands library arith s.builder defs) s.tensors exprs
  inputs : defs.filterMap Expr.inputTensor = done.filterMap inputOf

variable {done : List (Call E)} {s s' : Tracing} {exprs : List (Expr E)}

theorem getElem?_of_forall₂ {α β : Type} {R : α → β → Prop} {l : List α} {m : List β}
    (h : List.Forall₂ R l m) {i : ℕ} {a : α} (ha : l[i]? = some a) : ∃ b, m[i]? = some b ∧ R a b := by
  induction h generalizing i with
  | nil => cases ha
  | cons hab _ ih =>
    cases i with
    | zero =>
      cases ha
      exact ⟨_, rfl, hab⟩
    | succ i => exact ih ha

section

variable (h : Traced library arith done s exprs defs)

include h

theorem Traced.tensor {x : ℕ} (ht : s.tensor x = .ok t) :
    ∃ e, exprs[x]? = some e ∧ Stands library arith s.builder defs t e := by
  unfold Tracing.tensor at ht
  split at ht
  · cases ht
    exact getElem?_of_forall₂ h.stands ‹_›
  · cases ht

theorem Traced.record (call : Call E) (e : Expr E) (hcall : inputOf call = none)
    (hrecords : Records defs op attrs inputs e) (hname : ∃ d, name = dtypeName d)
    (hdtype : e.Plain library arith → name = e.dtype library)
    (hshape : e.Plain library arith → ∀ a, e.tensor library arith = some a → shape = a.shape) :
    ∃ defs', Traced library arith (done ++ [call])
      (s.push (s.builder.record op inputs attrs name shape))
      (exprs ++ [e]) defs' := by
  obtain ⟨dtype, rfl⟩ := hname
  have hnot : e.core = e ∧ e.flag = false ∧ e.inputTensor = none := by
    obtain ⟨operands, hmade, -⟩ := hrecords
    cases e with
    | input => cases hmade
    | T => cases hmade
    | matmul | binary | unary | softmax | cast => exact ⟨rfl, rfl, rfl⟩
  refine ⟨defs ++ [e], h.recorded.record hrecords dtype shape, ?_, ?_⟩
  · refine List.rel_append ?_ (.cons (h.recorded.stands hnot.1 hnot.2.1 hdtype hshape) .nil)
    refine h.stands.imp fun t e' ht => ht.grow [e] fun u hu => ?_
    exact (s.builder.facts_record ..).trans (if_neg (by rw [h.recorded.length]; omega))
  · rw [List.filterMap_append, List.filterMap_append, h.inputs]
    simp [hnot.2.2, hcall]

theorem Traced.addInput (array : NdArray E) :
    ∃ defs', Traced library arith (done ++ [.input array])
      (s.push (s.builder.addInput array.dtype array.tensor.shape)) (exprs ++ [.input array]) defs' := by
  refine ⟨defs ++ [.input array], ?_, ?_, ?_⟩
  · exact h.recorded.addInput array
  · refine List.rel_append ?_ (.cons (h.recorded.stands_addInput array) .nil)
    refine h.stands.imp fun t e' ht => ht.grow [.input array] fun u hu => ?_
    exact (s.builder.facts_newValue ..).trans (if_neg (by rw [h.recorded.length]; omega))
  · rw [List.filterMap_append, List.filterMap_append, h.inputs]
    rfl

end

variable {c : Tensor E}

theorem arrayBinary_shape {op : BinaryOp} (hsame : a.shape = a'.shape)
    (h : arrayBinary library arith op a a' = some c) : a.shape = c.shape := by
  rw [arrayBinary, if_pos hsame, binaryOf, if_pos hsame] at h
  cases h
  rfl

theorem softmaxOf_shape {axis : ℤ} (h : softmaxOf arith axis a = some c) : a.shape = c.shape := by
  obtain ⟨p, -, h⟩ := bind_eq_some_iff.1 h
  cases h
  rfl

theorem arrayMatmul_shape {m k k' n : ℕ} (ha : a.shape = [m, k]) (ha' : a'.shape = [k', n])
    (h : arrayMatmul library arith a a' = some c) : c.shape = [m, n] := by
  rw [arrayMatmul, if_pos (by simp [ha, ha']), matmulOf, ha, ha'] at h
  simp only at h
  by_cases hinner : k = k'
  · rw [if_pos hinner] at h
    cases h
    rfl
  · rw [if_neg hinner] at h
    cases h

theorem Traced.step (h : Traced library arith done s exprs defs) {call : Call E}
    (hstep : s.step call = .ok s') :
    ∃ exprs' defs', exprStep exprs call = some exprs' ∧
      Traced library arith (done ++ [call]) s' exprs' defs' := by
  cases call with
  | input array =>
    obtain rfl := ok.inj hstep
    obtain ⟨defs', h'⟩ := h.addInput array
    exact ⟨_, defs', rfl, h'⟩
  | T x =>
    obtain ⟨t, ht, hstep⟩ := bind_eq_ok hstep
    obtain ⟨t', hT, hstep⟩ := bind_eq_ok hstep
    obtain rfl := ok.inj hstep
    obtain ⟨e, he, hstands⟩ := h.tensor ht
    refine ⟨exprs ++ [.T e], defs, by simp [exprStep, he], h.recorded, ?_, ?_⟩
    · exact List.rel_append h.stands (.cons (hstands.T hT) .nil)
    · rw [List.filterMap_append, ← h.inputs]
      simp [inputOf]
  | matmul lhs rhs =>
    obtain ⟨t, ht, hstep⟩ := bind_eq_ok hstep
    obtain ⟨u, hu, hstep⟩ := bind_eq_ok hstep
    obtain ⟨result, hmatmul, hstep⟩ := bind_eq_ok hstep
    obtain rfl := ok.inj hstep
    obtain ⟨e, he, hstands⟩ := h.tensor ht
    obtain ⟨e', he', hstands'⟩ := h.tensor hu
    obtain ⟨d, hname⟩ := hstands.named
    obtain ⟨d', hname'⟩ := hstands'.named
    unfold TracerTensor.matmul Builder.addMatmul at hmatmul
    split at hmatmul
    · rename_i m n hm hn
      obtain ⟨name, hinfer, hmatmul⟩ := bind_eq_ok hmatmul
      obtain rfl := ok.inj hmatmul
      rw [hname, hname'] at hinfer
      obtain ⟨rfl, rfl⟩ := inferTracedMatmulDtype_ok hinfer
      rw [hstands'.flag]
      -- a plain product has the dtype that the trace infers
      have hdtype : (Expr.matmul e e').Plain library arith →
          dtypeName (matmulDtype d) = (Expr.matmul e e').dtype library := by
        rintro ⟨hlhs, hrhs, haccumulated⟩
        have hd := (hstands.dtype hlhs.1).symm.trans hname
        have hd' := (hstands'.dtype hrhs.1).symm.trans hname'
        rw [Expr.dtype, hd, hd', haccumulated d hd hd']
      have hshape : (Expr.matmul e e').Plain library arith →
          ∀ a, (Expr.matmul e e').tensor library arith = some a → [m, n] = a.shape := by
        intro hplain a ha
        obtain ⟨l, hl, ha⟩ := bind_eq_some_iff.1 ha
        obtain ⟨r, hr, ha⟩ := bind_eq_some_iff.1 ha
        obtain ⟨m', k, hlshape⟩ := hplain.1.2.2.shape_eq hl
        obtain ⟨k', n', hrshape⟩ := hplain.2.1.2.shape_eq hr
        rw [hstands.shape hplain.1.1 l hl, hlshape] at hm
        rw [hstands'.shape hplain.2.1.1 r hr, hrshape] at hn
        cases hm
        cases hn
        exact (arrayMatmul_shape hlshape hrshape ha).symm
      obtain ⟨defs', hdefs'⟩ := h.record (.matmul lhs rhs) (.matmul e e') rfl
        ⟨_, rfl, .cons hstands.defined (.cons hstands'.defined .nil)⟩ ⟨_, rfl⟩ hdtype hshape
      exact ⟨_, defs', by simp [exprStep, he, he'], hdefs'⟩
    · cases hmatmul
  | binary op x y =>
    obtain ⟨t, ht, hstep⟩ := bind_eq_ok hstep
    obtain ⟨u, hu, hstep⟩ := bind_eq_ok hstep
    obtain rfl := ok.inj hstep
    obtain ⟨e, he, hstands⟩ := h.tensor ht
    obtain ⟨e', he', hstands'⟩ := h.tensor hu
    have hdtype : (Expr.binary op e e').Plain library arith →
        t.dtype = (Expr.binary op e e').dtype library :=
      fun hplain => (hstands.dtype hplain.1.1).trans hplain.2.2.2.symm
    have hshape : (Expr.binary op e e').Plain library arith →
        ∀ a, (Expr.binary op e e').tensor library arith = some a → t.shape = a.shape := by
      intro hplain a ha
      obtain ⟨l, hl, ha⟩ := bind_eq_some_iff.1 ha
      obtain ⟨r, hr, ha⟩ := bind_eq_some_iff.1 ha
      have hsame := hplain.2.2.1
      rw [Expr.shape, Expr.shape, hl, hr] at hsame
      exact (hstands.shape hplain.1.1 l hl).trans (arrayBinary_shape (Option.some.inj hsame) ha)
    obtain ⟨defs', hdefs'⟩ := h.record (.binary op x y) (.binary op e e') rfl
      ⟨_, rfl, .cons hstands.defined (.cons hstands'.defined .nil)⟩ hstands.named hdtype hshape
    exact ⟨_, defs', by simp [exprStep, he, he'], hdefs'⟩
  | unary op x =>
    obtain ⟨t, ht, hstep⟩ := bind_eq_ok hstep
    obtain rfl := ok.inj hstep
    obtain ⟨e, he, hstands⟩ := h.tensor ht
    have hdtype : (Expr.unary op e).Plain library arith → t.dtype = (Expr.unary op e).dtype library :=
      fun hplain => (hstands.dtype hplain.1.1).trans hplain.2.symm
    have hshape : (Expr.unary op e).Plain library arith →
        ∀ a, (Expr.unary op e).tensor library arith = some a → t.shape = a.shape := by
      intro hplain a ha
      obtain ⟨l, hl, ha⟩ := bind_eq_some_iff.1 ha
      cases ha
      exact hstands.shape hplain.1.1 l hl
    obtain ⟨defs', hdefs'⟩ := h.record (.unary op x) (.unary op e) rfl
      ⟨_, rfl, .cons hstands.defined .nil⟩ hstands.named hdtype hshape
    exact ⟨_, defs', by simp [exprStep, he], hdefs'⟩
  | softmax x axis =>
    obtain ⟨t, ht, hstep⟩ := bind_eq_ok hstep
    obtain rfl := ok.inj hstep
    obtain ⟨e, he, hstands⟩ := h.tensor ht
    have hdtype : (Expr.softmax e axis).Plain library arith →
        t.dtype = (Expr.softmax e axis).dtype library :=
      fun hplain => (hstands.dtype hplain.1.1).trans hplain.2.symm
    have hshape : (Expr.softmax e axis).Plain library arith →
        ∀ a, (Expr.softmax e axis).tensor library arith = some a → t.shape = a.shape := by
      intro hplain a ha
      obtain ⟨l, hl, ha⟩ := bind_eq_some_iff.1 ha
      exact (hstands.shape hplain.1.1 l hl).trans (softmaxOf_shape ha)
    obtain ⟨defs', hdefs'⟩ := h.record (.softmax x axis) (.softmax e axis) rfl
      ⟨_, rfl, .cons hstands.defined .nil⟩ hstands.named hdtype hshape
    exact ⟨_, defs', by simp [exprStep, he], hdefs'⟩
  | cast x targetDtype =>
    obtain ⟨t, ht, hstep⟩ := bind_eq_ok hstep
    obtain ⟨result, hcast, hstep⟩ := bind_eq_ok hstep
    obtain rfl := ok.inj hstep
    obtain ⟨e, he, hstands⟩ := h.tensor ht
    unfold Builder.addCast at hcast
    rw [Except.error_ite_eq_ok, not_not] at hcast
    obtain ⟨hsupported, hcast⟩ := hcast
    obtain rfl := ok.inj hcast
    -- a cast has the dtype that it names, whatever its operand has
    obtain ⟨target, htarget⟩ := dtypeOf_of_supported hsupported
    have hshape : (Expr.cast e target).Plain library arith →
        ∀ a, (Expr.cast e target).tensor library arith = some a → t.shape = a.shape := by
      intro hplain a ha
      obtain ⟨l, hl, ha⟩ := bind_eq_some_iff.1 ha
      cases ha
      exact hstands.shape hplain.1 l hl
    obtain ⟨defs', hdefs'⟩ := h.record (.cast x targetDtype) (.cast e target) rfl
      ⟨_, rfl, .cons hstands.defined .nil⟩ ⟨target, rfl⟩ (fun _ => rfl) hshape
    refine ⟨exprs ++ [.cast e target], defs', by simp [exprStep, he, htarget, dtypeOf_dtypeName], ?_⟩
    rw [htarget]
    exact hdefs'

variable {calls : List (Call E)}

theorem Traced.run (h : Traced library arith done s exprs defs)
    (hrun : calls.foldlM Tracing.step s = .ok s') :
    ∃ exprs' defs', calls.foldlM exprStep exprs = some exprs' ∧
      Traced library arith (done ++ calls) s' exprs' defs' := by
  induction calls generalizing done s exprs defs with
  | nil =>
    obtain rfl := ok.inj hrun
    exact ⟨exprs, defs, rfl, by rwa [List.append_nil]⟩
  | cons call calls ih =>
    rw [List.foldlM_cons] at hrun
    obtain ⟨s'', hstep, hrun⟩ := bind_eq_ok hrun
    obtain ⟨exprs'', defs'', hexprs, h''⟩ := h.step hstep
    obtain ⟨exprs', defs', hexprs', h'⟩ := ih h'' hrun
    refine ⟨exprs', defs', ?_, by rwa [List.append_assoc, List.singleton_append] at h'⟩
    rw [List.foldlM_cons, hexprs]
    exact hexprs'

theorem trace_spec (library : ArrayLibrary E) (arith : GraphArith E) (h : trace calls = .ok s) :
    ∃ exprs defs, exprsOf calls = some exprs ∧ Traced library arith calls s exprs defs := by
  have hempty : Traced library arith ([] : List (Call E)) {} [] [] :=
    ⟨⟨rfl, nofun, nofun⟩, .nil, rfl⟩
  exact hempty.run h

end Matcore.Frontend
