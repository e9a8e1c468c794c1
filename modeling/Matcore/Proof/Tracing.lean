import Matcore.Proof.TraceGraph

/-!
# When a trace keeps its function

The nodes in their order give what the graph makes of the expressions.
-/

namespace Matcore.Frontend

open Option (bind_eq_some_iff)
open Engine
open LoopNest (Tensor)
open List (mem_filterMap mem_cons_self mem_cons_of_mem)

variable {E : Type} {arith : GraphArith E} {b : Builder} {defs : List (Expr E)}
  {outs : List TracerTensor} {graph : KernelGraphIR}

variable {n : ℕ} {node : TraceNode}

theorem Recorded.node_of_producer (h : Recorded b defs) (hnode : b.nodes[n]? = some node) :
    ∃ v e, defs[v]? = some e ∧ node.outputs = [v] ∧
      Records defs node.op node.attrs node.inputs e ∧ b.producer v = some n ∧
      ∀ u ∈ node.inputs, ∀ m, b.producer u = some m → m < n := by
  obtain ⟨v, e, he, -, houtputs, hrecords, hproducer⟩ := h.node n node hnode
  refine ⟨v, e, he, houtputs, hrecords, hproducer, ?_⟩
  rw [b.producer_eq] at hproducer
  cases h.made v e he with
  | input array hfacts =>
    rw [hfacts] at hproducer
    cases hproducer
  | node hfacts hnode' _ hbefore =>
    rw [hfacts] at hproducer
    cases hproducer
    cases hnode.symm.trans hnode'
    exact hbefore

theorem Recorded.producers_lt (h : Recorded b defs) : ∀ n, ∀ c ∈ b.producers n, c < n := by
  intro n c hc
  unfold Builder.producers at hc
  split at hc
  · rename_i node hnode
    obtain ⟨u, hu, hproducer⟩ := mem_filterMap.1 hc
    obtain ⟨v, e, -, -, -, -, hbefore⟩ := h.node_of_producer hnode
    exact hbefore u hu c hproducer
  · exact absurd hc List.not_mem_nil

variable {e : Expr E} {v : ℕ}

theorem Made.producer (h : Made b defs v e) :
    e.inputTensor.isSome ∨ ∃ n, b.producer v = some n := by
  cases h with
  | input array => exact .inl rfl
  | @node _ n _ _ _ _ _ hfacts => exact .inr ⟨n, by rw [b.producer_eq, hfacts]; rfl⟩

theorem Recorded.outputs_of_producer (h : Recorded b defs) (hproducer : b.producer v = some n)
    (hnode : b.nodes[n]? = some node) : node.outputs = [v] := by
  have hv : v < defs.length := by
    by_contra hv
    rw [b.producer_eq, h.facts_none (by omega)] at hproducer
    cases hproducer
  rw [b.producer_eq] at hproducer
  obtain ⟨e, he⟩ : ∃ e, defs[v]? = some e := ⟨_, List.getElem?_eq_getElem hv⟩
  cases h.made v e he with
  | input array hfacts =>
    rw [hfacts] at hproducer
    cases hproducer
  | node hfacts hnode' =>
    rw [hfacts] at hproducer
    cases hproducer
    cases hnode.symm.trans hnode'
    rfl

/-- The nodes that make the outputs. -/
def roots (b : Builder) (outs : List TracerTensor) : List ℕ :=
  outs.filterMap fun output => b.producer output.valueId

theorem Recorded.roots_lt (h : Recorded b defs) : ∀ r ∈ roots b outs, r < b.nodes.length := by
  intro r hr
  obtain ⟨output, -, hproducer⟩ := mem_filterMap.1 hr
  exact h.producer_lt hproducer

/-- The topological order of a trace. -/
theorem Recorded.ordered (h : Recorded b defs) (hread : Read b outs graph) : graph.Ordered := by
  have hspec := PostOrder.order_spec h.producers_lt
    (show ∀ r ∈ roots b outs, r < b.nodes.length from h.roots_lt)
  have hproducers : graph.producers = b.producers := funext hread.producers
  refine ⟨?_, fun n => ?_⟩
  · rw [hproducers, hread.topoOrder]
    exact hspec.1
  · have hroots : graph.outputValues.filterMap graph.producer = roots b outs := by
      rw [hread.outputValues, List.filterMap_map]
      exact List.filterMap_congr fun output _ => hread.producer output.valueId
    rw [hproducers, hread.topoOrder, hroots]
    exact hspec.2 n

/-- The values that are known behind some nodes. -/
structure Known (arith : GraphArith E) (b : Builder) (defs : List (Expr E)) (before : List ℕ)
    (env : Env E) : Prop where
  inputs : ∀ v, ∀ e, defs[v]? = some e → e.inputTensor.isSome → env v = valueOf arith defs v
  nodes : ∀ n ∈ before, ∀ v, b.producer v = some n → env v = valueOf arith defs v

theorem Known.evalNode {before : List ℕ} {env : Env E} (hknown : Known arith b defs before env)
    (h : Recorded b defs) (hread : Read b outs graph) (hnode : b.nodes[n]? = some node)
    (hbefore : ∀ c ∈ b.producers n, c ∈ before) :
    ∃ v, b.producer v = some n ∧ graph.evalNode arith env n =
      (valueOf arith defs v).map fun t => Function.update env v (some t) := by
  obtain ⟨v, e, he, houtputs, hrecords, hproducer, -⟩ := h.node_of_producer hnode
  obtain ⟨found, hfound, _, hfoundOutputs, hparse⟩ := hread.nodes n node hnode
  obtain ⟨attrs, hattrs, heval⟩ := hrecords.parse node.outputs
  cases hparse.symm.trans hattrs
  have hoperands : ∀ u ∈ node.inputs, env u = valueOf arith defs u := by
    intro u hu
    obtain ⟨x, hx⟩ : ∃ x, defs[u]? = some x := ⟨_, List.getElem?_eq_getElem (hrecords.lt hu)⟩
    rcases (h.made u x hx).producer with hinput | ⟨m, hm⟩
    · exact hknown.inputs u x hx hinput
    · have hmem : m ∈ b.producers n := by
        unfold Builder.producers
        rw [hnode]
        exact mem_filterMap.2 ⟨u, hu, hm⟩
      exact hknown.nodes m (hbefore m hmem) u hm
  refine ⟨v, hproducer, ?_⟩
  have hvalue : valueOf arith defs v = e.traced arith := by
    rw [valueOf, he]
    rfl
  unfold KernelGraphIR.evalNode
  rw [hfound, Option.bind_eq_bind, Option.bind_some, hfoundOutputs, houtputs, hvalue,
    ← heval arith env hoperands]
  cases found.attrs.eval arith env with
  | none => rfl
  | some t => rfl

theorem evalNodes (h : Recorded b defs) (hread : Read b outs graph) {order : List ℕ}
    (hsorted : PostOrder.Sorted b.producers order) (after before : List ℕ) (env : Env E)
    (horder : order = before ++ after) (hrange : ∀ n ∈ after, n < b.nodes.length)
    (hvalues : ∀ n ∈ after, ∀ v, b.producer v = some n → (valueOf arith defs v).isSome)
    (hknown : Known arith b defs before env) :
    ∃ env', after.foldlM (graph.evalNode arith) env = some env' ∧ Known arith b defs order env' := by
  induction after generalizing before env with
  | nil =>
    rw [List.append_nil] at horder
    exact ⟨env, rfl, horder ▸ hknown⟩
  | cons n after ih =>
    obtain ⟨node, hnode⟩ : ∃ node, b.nodes[n]? = some node :=
      ⟨_, List.getElem?_eq_getElem (hrange n mem_cons_self)⟩
    obtain ⟨v, hproducer, heval⟩ :=
      hknown.evalNode h hread hnode (hsorted.closed before n after horder)
    obtain ⟨t, hvalue⟩ := Option.isSome_iff_exists.1 (hvalues n mem_cons_self v hproducer)
    have hnext : Known arith b defs (before ++ [n]) (Function.update env v (some t)) := by
      refine ⟨fun u e he hinput => ?_, fun m hm u hu => ?_⟩
      · by_cases huv : u = v
        · rw [huv, Function.update_self, hvalue]
        · rw [Function.update_of_ne huv]
          exact hknown.inputs u e he hinput
      · by_cases huv : u = v
        · rw [huv, Function.update_self, hvalue]
        · rw [Function.update_of_ne huv]
          rcases List.mem_append.1 hm with hm | hm
          · exact hknown.nodes m hm u hu
          · -- the node makes no other value
            rw [List.mem_singleton.1 hm] at hu
            have hother := h.outputs_of_producer hu hnode
            rw [h.outputs_of_producer hproducer hnode] at hother
            exact absurd (List.singleton_injective hother).symm huv
    rw [List.foldlM_cons, heval, hvalue]
    exact ih (before ++ [n]) _ (by simpa using horder)
      (fun m hm => hrange m (mem_cons_of_mem n hm))
      (fun m hm => hvalues m (mem_cons_of_mem n hm)) hnext

theorem start_known (h : Recorded b defs) (hread : Read b outs graph) :
    Known arith b defs [] (graph.start (defs.filterMap Expr.inputTensor)) := by
  have hfacts : ∀ (v : ℕ) (value : TraceValue), b.values[v]? = some value →
      b.facts v = some value.facts := fun v value hv => by rw [Builder.facts, hv]; rfl
  have hlookup := lookup_inputs 0 h.length
    (fun v value hv => by rw [Nat.zero_add]; exact (h.facts (hfacts v value hv)).2.1)
    (fun v value e hv he => by
      obtain ⟨-, -, e', he', hkind⟩ := h.facts (hfacts v value hv)
      cases he.symm.trans he'
      exact hkind)
  refine ⟨fun v e he hinput => ?_, by simp⟩
  rw [KernelGraphIR.start, hread.inputValues]
  refine (hlookup v).trans ?_
  rw [if_neg (Nat.not_lt_zero v), Nat.sub_zero, valueOf, he]
  cases e with
  | input array => rfl
  | _ => cases hinput

theorem Recorded.needed_isSome (h : Recorded b defs)
    (houtputs : ∀ output ∈ outs, (valueOf arith defs output.valueId).isSome) {r : ℕ}
    (hr : r ∈ roots b outs) (hreach : PostOrder.Reach b.producers r n) (hv : b.producer v = some n) :
    (valueOf arith defs v).isSome := by
  have hsame : ∀ {u v m : ℕ}, b.producer u = some m → b.producer v = some m → u = v := by
    intro u v m hu hv
    obtain ⟨node, hnode⟩ : ∃ node, b.nodes[m]? = some node :=
      ⟨_, List.getElem?_eq_getElem (h.producer_lt hu)⟩
    have houtputs := h.outputs_of_producer hu hnode
    rw [h.outputs_of_producer hv hnode] at houtputs
    exact (List.singleton_injective houtputs).symm
  induction hreach generalizing v with
  | refl =>
    obtain ⟨output, hmem, hproducer⟩ := mem_filterMap.1 hr
    rw [hsame hv hproducer]
    exact houtputs output hmem
  | @tail n c _ hchild ih =>
    unfold Builder.producers at hchild
    split at hchild
    · rename_i node hnode
      obtain ⟨u, hu, hproducer⟩ := mem_filterMap.1 hchild
      obtain ⟨w, e, he, -, hrecords, hw, -⟩ := h.node_of_producer hnode
      have hvalue := ih hw
      rw [valueOf, he] at hvalue
      rw [hsame hv hproducer]
      exact hrecords.strict hvalue hu
    · exact absurd hchild List.not_mem_nil

/-- Evaluating the nodes of a graph in its order gives the outputs the dtypes, shapes and elements of
these arrays. -/
def Faithful (arith : GraphArith E) (calls : List (Call E)) (graph : KernelGraphIR)
    (results : List (Eager E)) : Prop :=
  ∃ env, graph.eval arith (calls.filterMap inputOf) = some env ∧
    List.Forall₂ (fun v (a : Eager E) => (∃ desc, graph.values[v]? = some desc ∧
        dtypeName desc.dtype = a.dtype ∧ desc.shape = a.tensor.shape) ∧ env v = some a.tensor)
      graph.outputValues results

variable {a a' : Tensor E}

theorem transposed_eq_some (h : transposed a = some a') :
    ∃ m n, a.shape = [m, n] ∧ a'.shape = [n, m] ∧ a'.get = fun key => a.get key.reverse := by
  unfold transposed at h
  split at h
  · cases h
    exact ⟨_, _, ‹_›, rfl, rfl⟩
  · cases h

theorem transposed_twice (h : transposed a = some a') : transposed a' = some a := by
  obtain ⟨m, n, hshape, hshape', hget⟩ := transposed_eq_some h
  obtain ⟨shape', get'⟩ := a'
  obtain ⟨shape, get⟩ := a
  cases hshape
  cases hshape'
  cases hget
  simp [transposed]

variable {library : ArrayLibrary E}

theorem Expr.Matrix.transposed {a : Tensor E} (h : e.Matrix library arith)
    (ha : e.tensor library arith = some a) : transposed a = some (reversedAxes a) := by
  obtain ⟨m, n, hshape⟩ := h.shape_eq ha
  rw [Engine.transposed, hshape, reversedAxes, hshape]
  rfl

/-- What is left of a plain expression in the graph, short of its last transposes. -/
theorem Expr.Plain.traced (h : e.Plain library arith) {a : Tensor E}
    (ha : e.tensor library arith = some a) :
    if e.flag then ∃ a', e.traced arith = some a' ∧ transposed a' = some a
    else e.traced arith = some a := by
  have hkeep : ∀ {x : Expr E} {a : Tensor E}, ¬ x.flag → (if x.flag then
      ∃ a', x.traced arith = some a' ∧ transposed a' = some a
      else x.traced arith = some a) → x.traced arith = some a := by
    intro x a hflag hx
    rwa [if_neg hflag] at hx
  induction e generalizing a with
  | input array => exact ha
  | T x ih =>
    obtain ⟨a', ha', hnew⟩ := bind_eq_some_iff.1 ha
    cases hnew
    have htransposed := h.2.transposed ha'
    have hx := ih h.1 ha'
    -- a second transpose takes the flag back
    cases hflag : x.flag with
    | true =>
      rw [hflag, if_pos rfl] at hx
      obtain ⟨a'', ha'', htwice⟩ := hx
      cases (transposed_twice htwice).symm.trans htransposed
      simpa [Expr.flag, Expr.traced, hflag] using ha''
    | false =>
      rw [hflag, if_neg Bool.false_ne_true] at hx
      simpa [Expr.flag, hflag] using ⟨a', hx, htransposed⟩
  | matmul lhs rhs ihl ihr =>
    obtain ⟨⟨hlplain, hlflag, hlmatrix⟩, ⟨hrplain, hrmatrix⟩, -⟩ := h
    obtain ⟨l, hl, ha⟩ := bind_eq_some_iff.1 ha
    obtain ⟨r, hr, ha⟩ := bind_eq_some_iff.1 ha
    have hleft := hkeep hlflag (ihl hlplain hl)
    have hright : turned rhs.flag (rhs.traced arith) = some r := by
      have hrhs := ihr hrplain hr
      cases hflag : rhs.flag with
      | true =>
        rw [hflag, if_pos rfl] at hrhs
        obtain ⟨r', hr', htransposed⟩ := hrhs
        simp [turned, hr', htransposed]
      | false => simpa [turned, hflag] using hrhs
    have hmatrices : l.shape.length = 2 ∧ r.shape.length = 2 := by
      obtain ⟨m, k, hlshape⟩ := hlmatrix.shape_eq hl
      obtain ⟨k', n, hrshape⟩ := hrmatrix.shape_eq hr
      simp [hlshape, hrshape]
    rw [arrayMatmul, if_pos hmatrices] at ha
    simpa [Expr.flag, Expr.traced, hleft, hright] using ha
  | binary op x y ihx ihy =>
    obtain ⟨⟨hxplain, hxflag⟩, ⟨hyplain, hyflag⟩, hsame, -⟩ := h
    obtain ⟨l, hl, ha⟩ := bind_eq_some_iff.1 ha
    obtain ⟨r, hr, ha⟩ := bind_eq_some_iff.1 ha
    rw [Expr.shape, Expr.shape, hl, hr] at hsame
    rw [arrayBinary, if_pos (Option.some.inj hsame)] at ha
    have hleft := hkeep hxflag (ihx hxplain hl)
    have hright := hkeep hyflag (ihy hyplain hr)
    simpa [Expr.flag, Expr.traced, hleft, hright] using ha
  | unary op x ih | softmax x axis ih =>
    obtain ⟨l, hl, ha⟩ := bind_eq_some_iff.1 ha
    have hleft := hkeep h.1.2 (ih h.1.1 hl)
    simpa [Expr.flag, Expr.traced, hleft] using ha
  | cast x targetDtype ih =>
    obtain ⟨l, hl, ha⟩ := bind_eq_some_iff.1 ha
    have hleft := hkeep h.2 (ih h.1 hl)
    simpa [Expr.flag, Expr.traced, hleft] using ha

variable {calls : List (Call E)} {outputs : List ℕ} {recorded : TraceGraph} {exprs es : List (Expr E)}
  {results : List (Eager E)} {s : Tracing}

theorem Traced.standsAll (h : Traced library arith calls s exprs defs)
    (houts : List.Forall₂ (fun x t => s.tensor x = .ok t) outputs outs)
    (hexprs : List.Forall₂ (fun x e => exprs[x]? = some e) outputs es) :
    List.Forall₂ (Stands library arith s.builder defs) outs es := by
  induction houts generalizing es with
  | nil =>
    cases hexprs
    exact .nil
  | cons ht _ ih =>
    cases hexprs with
    | cons he hexprs =>
      obtain ⟨e, he', hstands⟩ := h.tensor ht
      cases he.symm.trans he'
      exact .cons hstands (ih hexprs)

theorem Known.output {env : Env E} (hknown : Known arith b defs graph.topoOrder env)
    (h : Recorded b defs) (hread : Read b outs graph) {t : TracerTensor} (ht : t ∈ outs)
    (hstands : Stands library arith b defs t e) : env t.valueId = e.traced arith := by
  rw [← valueOf_eq hstands.defined]
  rcases (h.made _ _ hstands.defined).producer with hinput | ⟨n, hn⟩
  · exact hknown.inputs _ _ hstands.defined hinput
  · have hmem : n ∈ graph.topoOrder := by
      rw [(h.ordered hread).needed, hread.outputValues, List.filterMap_map]
      exact ⟨n, mem_filterMap.2 ⟨t, ht, (hread.producer t.valueId).trans hn⟩, .refl⟩
    exact hknown.nodes n hmem _ hn

variable {a : Eager E}

theorem eval_eq_some (h : e.eval library arith = some a) :
    e.dtype library = a.dtype ∧ e.tensor library arith = some a.tensor := by
  obtain ⟨t, ht, h⟩ := bind_eq_some_iff.1 h
  cases h
  exact ⟨rfl, ht⟩

/-- A plain output has its value in the graph. -/
theorem Expr.traced_of_eval (hplain : e.Plain library arith ∧ ¬ e.flag)
    (heval : e.eval library arith = some a) : e.traced arith = some a.tensor := by
  have htraced := hplain.1.traced (eval_eq_some heval).2
  rwa [if_neg hplain.2] at htraced

theorem Stands.desc {t : TracerTensor} (h : Stands library arith b defs t e)
    (hread : Read b outs graph) (hplain : e.Plain library arith ∧ ¬ e.flag)
    (heval : e.eval library arith = some a) : ∃ desc, graph.values[t.valueId]? = some desc ∧
      dtypeName desc.dtype = a.dtype ∧ desc.shape = a.tensor.shape := by
  obtain ⟨hdtype, htensor⟩ := eval_eq_some heval
  obtain ⟨f, hf, hfdtype, hfshape⟩ := h.facts
  obtain ⟨desc, hdesc, hshape, hdescDtype⟩ := hread.values _ f hf
  refine ⟨desc, hdesc, ?_, ?_⟩
  · rw [← hdescDtype, hfdtype, h.dtype hplain.1, hdtype]
  · rw [hshape, hfshape hplain.1 _ htensor, if_neg hplain.2]

theorem isSome_of_plain (hstands : List.Forall₂ (Stands library arith b defs) outs es)
    (hevals : List.Forall₂ (fun e a => e.eval library arith = some a) es results)
    (hplain : ∀ e ∈ es, e.Plain library arith ∧ ¬ e.flag) :
    ∀ output ∈ outs, (valueOf arith defs output.valueId).isSome := by
  induction hstands generalizing results with
  | nil => exact nofun
  | cons hstand _ ih =>
    cases hevals with
    | cons hfirst hrest =>
      obtain ⟨hplain, hothers⟩ := List.forall_mem_cons.1 hplain
      refine List.forall_mem_cons.2 ⟨?_, ih hrest hothers⟩
      rw [valueOf_eq hstand.defined, Expr.traced_of_eval hplain hfirst]
      rfl

theorem forall₂_trans {α β γ : Type} {R : α → β → Prop} {S : β → γ → Prop} {P : α → γ → Prop}
    {l : List α} {m : List β} {k : List γ} (hR : List.Forall₂ R l m) (hS : List.Forall₂ S m k)
    (h : ∀ a ∈ l, ∀ b ∈ m, ∀ c, R a b → S b c → P a c) : List.Forall₂ P l k := by
  induction hR generalizing k with
  | nil =>
    cases hS
    exact .nil
  | cons hab _ ih =>
    cases hS with
    | cons hbc hS =>
      exact .cons (h _ mem_cons_self _ mem_cons_self _ hab hbc)
        (ih hS fun a ha b hb => h a (mem_cons_of_mem _ ha) b (mem_cons_of_mem _ hb))

/-- **A trace keeps a plain function.** Its topological order is right for every function. -/
theorem faithful_of_plain (library : ArrayLibrary E) (arith : GraphArith E)
    (htraced : traceGraph calls outputs = .ok recorded) (hexprs : outputExprs calls outputs = some es) :
    ∃ graph, parseKernelGraphIR recorded = .ok graph ∧ graph.Ordered ∧
      ∀ results, es.mapM (Expr.eval library arith) = some results →
        (∀ e ∈ es, e.Plain library arith ∧ ¬ e.flag) → Faithful arith calls graph results := by
  obtain ⟨s, htrace, htraced⟩ := Except.bind_eq_ok htraced
  obtain ⟨outs, houts, htraced⟩ := Except.bind_eq_ok htraced
  obtain rfl := Except.ok.inj htraced
  obtain ⟨exprs, defs, hexprsOf, h⟩ := trace_spec library arith htrace
  obtain ⟨exprs', hexprs', hexprs⟩ := bind_eq_some_iff.1 hexprs
  cases hexprsOf.symm.trans hexprs'
  obtain ⟨graph, hparse, hread⟩ := h.recorded.read outs
  refine ⟨graph, hparse, h.recorded.ordered hread, fun results hresults hplain => ?_⟩
  have hstands := h.standsAll (Except.forall₂_of_mapM houts) (Option.forall₂_of_mapM hexprs)
  have hevals := Option.forall₂_of_mapM hresults
  have hspec := PostOrder.order_spec h.recorded.producers_lt
    (show ∀ r ∈ roots s.builder outs, r < s.builder.nodes.length from h.recorded.roots_lt)
  have hneeded : ∀ n ∈ graph.topoOrder, ∃ r ∈ roots s.builder outs,
      PostOrder.Reach s.builder.producers r n := by
    intro n hn
    rw [hread.topoOrder] at hn
    exact (hspec.2 n).1 hn
  have hrange : ∀ n ∈ graph.topoOrder, n < s.builder.nodes.length := by
    intro n hn
    obtain ⟨r, hr, hreach⟩ := hneeded n hn
    have hle : n ≤ r := by
      clear hn
      induction hreach with
      | refl => exact le_rfl
      | tail _ hchild ih => exact ((h.recorded.producers_lt _ _ hchild).trans_le ih).le
    exact hle.trans_lt (h.recorded.roots_lt r hr)
  have hvalues : ∀ n ∈ graph.topoOrder, ∀ v, s.builder.producer v = some n →
      (valueOf arith defs v).isSome := by
    intro n hn v hv
    obtain ⟨r, hr, hreach⟩ := hneeded n hn
    exact h.recorded.needed_isSome (isSome_of_plain hstands hevals hplain) hr hreach hv
  obtain ⟨env, heval, hknown⟩ := evalNodes h.recorded hread (hread.topoOrder ▸ hspec.1)
    graph.topoOrder [] _ rfl hrange hvalues (start_known h.recorded hread)
  rw [h.inputs] at heval
  refine ⟨env, heval, ?_⟩
  rw [hread.outputValues, List.forall₂_map_left_iff]
  refine forall₂_trans hstands hevals fun t ht e he a hstand hea =>
    ⟨hstand.desc hread (hplain e he) hea, ?_⟩
  rw [hknown.output h.recorded hread ht hstand]
  exact Expr.traced_of_eval (hplain e he) hea

/-- Integers. -/
def integerGraph : GraphArith ℤ where
  zero := 0
  contract acc a b := acc + a * b
  elementwise kind a b := match kind with
    | .relu => max a 0
    | _ => a + b
  softmax row j := row.getD j 0
  cast _ x := x
  reduce _ row := row.sum

/-- What NumPy gives for `float32`. -/
def float32Arrays : ArrayLibrary ℤ where
  matmulDtype lhs _ := lhs
  binaryDtype _ x _ := x
  unaryDtype _ x := x
  softmaxDtype x := x
  broadcast _ _ _ := none
  stackedMatmul _ _ := none

/-- A matrix of two rows and columns with a single one. -/
def unit (i j : ℕ) : NdArray ℤ := ⟨.float32, [2, 2], fun key => if key = [i, j] then 1 else 0⟩

/-- `relu(a @ b.T + a)`. -/
def rightTransposed : List (Call ℤ) := [.input (unit 0 1), .input (unit 0 0), .T 1, .matmul 0 2,
  .binary .add 3 0, .unary .relu 4]

/-- `a.T @ b`. -/
def leftTransposed : List (Call ℤ) := [.input (unit 0 1), .input (unit 0 0), .T 0, .matmul 2 1]

theorem faithful_rightTransposed : ∃ recorded graph results,
    traceGraph rightTransposed [5] = .ok recorded ∧ parseKernelGraphIR recorded = .ok graph ∧
      graph.Ordered ∧ Faithful integerGraph rightTransposed graph results := by
  obtain ⟨graph, hparse, hordered, hfaithful⟩ := faithful_of_plain float32Arrays integerGraph
    (show traceGraph rightTransposed [5] = .ok _ from rfl)
    (show outputExprs rightTransposed [5] = some _ from rfl)
  refine ⟨_, graph, _, rfl, hparse, hordered, hfaithful _ rfl ?_⟩
  have hmatmul : (Expr.matmul (.input (unit 0 1)) (.T (.input (unit 0 0)))).Plain
      float32Arrays integerGraph := by
    refine ⟨⟨trivial, Bool.false_ne_true, 2, 2, rfl⟩, ⟨⟨trivial, 2, 2, rfl⟩, 2, 2, rfl⟩,
      fun d hd _ => ?_⟩
    obtain rfl := dtypeName_injective (hd : dtypeName .float32 = dtypeName d)
    rfl
  exact List.forall_mem_singleton.2
    ⟨⟨⟨⟨⟨hmatmul, Bool.false_ne_true⟩, ⟨trivial, Bool.false_ne_true⟩, rfl, rfl⟩,
    Bool.false_ne_true⟩, rfl⟩, Bool.false_ne_true⟩

/-- **A transpose on the left operand is lost.** -/
theorem transposed_lhs_lost : ∃ recorded graph es results,
    traceGraph leftTransposed [3] = .ok recorded ∧ outputExprs leftTransposed [3] = some es ∧
      es.mapM (Expr.eval float32Arrays integerGraph) = some results ∧
      parseKernelGraphIR recorded = .ok graph ∧
        ¬ Faithful integerGraph leftTransposed graph results := by
  refine ⟨_, _, _, _, rfl, rfl, rfl, rfl, ?_⟩
  rintro ⟨env, heval, hvalues⟩
  cases heval
  obtain ⟨⟨-, hsame⟩, -⟩ := List.forall₂_cons.1 hvalues
  have hget := congrArg (fun t : Option (Tensor ℤ) => t.map fun t => t.get [1, 0]) hsame
  exact absurd hget (by decide)

end Matcore.Frontend
