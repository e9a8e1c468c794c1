import Matcore.Proof.TraceRecord

/-!
# The graph of a trace

The inputs, the values and the nodes of the graph that is read are those of the trace, and a node
computes what is left of its expression.
-/

namespace Matcore.Frontend

open Engine
open LoopNest (Tensor)
open NodeAttrs (eval)

variable {E : Type} {arith : GraphArith E}

def turned (flag : Bool) (value : Option (Tensor E)) : Option (Tensor E) :=
  if flag then value.bind transposed else value

/-- What the graph makes of an expression: no transpose is left, but for the right operands of a
matmul, and the engine's elementwise operations are on tensors of one shape. -/
def Expr.traced (arith : GraphArith E) : Expr E → Option (Tensor E)
  | .input array => some array.tensor
  | .T x => x.traced arith
  | .matmul lhs rhs => do
    matmulOf arith (← lhs.traced arith) (← turned rhs.flag (rhs.traced arith))
  | .binary op x y => do binaryOf arith op.kind (← x.traced arith) (← y.traced arith)
  | .unary op x => do return unaryOf arith op.kind (← x.traced arith)
  | .softmax x axis => do softmaxOf arith axis (← x.traced arith)
  | .cast x targetDtype => do return castOf arith targetDtype (← x.traced arith)

theorem Expr.traced_core (e : Expr E) : e.core.traced arith = e.traced arith := by
  induction e with
  | T _ ih => exact ih
  | input => rfl
  | matmul => rfl
  | binary => rfl
  | unary => rfl
  | softmax => rfl
  | cast => rfl

variable {defs : List (Expr E)} {e : Expr E} {op : String} {attrs : Attrs} {inputs outputs : List ℕ}

/-- The value of a definition in the graph. -/
def valueOf (arith : GraphArith E) (defs : List (Expr E)) (v : ℕ) : Option (Tensor E) :=
  (defs[v]?).bind fun e => e.traced arith

variable {v : ℕ}

theorem valueOf_eq {x : Expr E} (h : defs[v]? = some x.core) :
    valueOf arith defs v = x.traced arith := by
  rw [valueOf, h, Option.bind_some, Expr.traced_core]

theorem UnaryOp.parse (op : UnaryOp) : toLower op.op = op.op ∧ parseOpKind op.op = .elementwise ∧
    parseElementwiseKindFromOp op.op = .ok op.kind ∧ isUnaryOp op.kind ∧ op.kind ≠ .softmax := by
  cases op <;> decide

theorem BinaryOp.parse (op : BinaryOp) : toLower op.op = op.op ∧ parseOpKind op.op = .elementwise ∧
    parseElementwiseKindFromOp op.op = .ok op.kind ∧ ¬ isUnaryOp op.kind := by
  cases op <;> decide

theorem parseTensorDType_dtypeName (d : TensorDType) : parseTensorDType (dtypeName d) = .ok d := by
  cases d <;> rfl

theorem Records.parse (h : Records defs op attrs inputs e) (outputs : List ℕ) :
    ∃ nodeAttrs, parseNodeAttrs (parseOpKind (toLower op)) (toLower op) attrs inputs outputs =
        .ok nodeAttrs ∧
      ∀ (arith : GraphArith E) (env : Env E), (∀ u ∈ inputs, env u = valueOf arith defs u) →
        nodeAttrs.eval arith env = e.traced arith := by
  obtain ⟨operands, hmade, hinputs⟩ := h
  cases e with
  | input => cases hmade
  | T => cases hmade
  | matmul lhs rhs =>
    cases hmade
    obtain ⟨⟩ | ⟨hl, ⟨⟩ | ⟨hr, ⟨⟩⟩⟩ := hinputs
    rename_i l r
    -- the flag of the right operand is recorded, that of the left one is not
    refine ⟨.matmul ⟨l, false⟩ ⟨r, rhs.flag⟩, ?_, fun arith env henv => ?_⟩
    · cases rhs.flag with
      | true => rfl
      | false => rfl
    · have hleft := (henv l (by simp)).trans (valueOf_eq hl)
      have hright := (henv r (by simp)).trans (valueOf_eq hr)
      simp only [eval, OperandRef.eval, Expr.traced, hleft, hright]
      cases rhs.flag with
      | true => rfl
      | false => rfl
  | binary op x y =>
    cases hmade
    obtain ⟨⟩ | ⟨hx, ⟨⟩ | ⟨hy, ⟨⟩⟩⟩ := hinputs
    rename_i l r
    obtain ⟨hlower, hkind, hparse, hbinary⟩ := op.parse
    refine ⟨.elementwise op.kind [l, r], ?_, fun arith env henv => ?_⟩
    · simp only [hlower, hkind, parseNodeAttrs, hparse]
      rfl
    · have hleft := (henv l (by simp)).trans (valueOf_eq hx)
      have hright := (henv r (by simp)).trans (valueOf_eq hy)
      have hinputs : [l, r].mapM env = (x.traced arith).bind fun a =>
          (y.traced arith).bind fun a' => some [a, a'] := by
        rw [List.mapM_cons, List.mapM_cons, List.mapM_nil, hleft, hright]
        cases x.traced arith with
        | none => rfl
        | some a =>
          cases y.traced arith with
          | none => rfl
          | some a' => rfl
      simp only [eval, Expr.traced, hinputs]
      cases x.traced arith with
      | none => rfl
      | some a =>
        cases y.traced arith with
        | none => rfl
        | some a' => exact if_neg hbinary
  | unary op x =>
    cases hmade
    obtain ⟨⟩ | ⟨hx, ⟨⟩⟩ := hinputs
    rename_i l
    obtain ⟨hlower, hkind, hparse, hunary⟩ := op.parse
    refine ⟨.elementwise op.kind [l], ?_, fun arith env henv => ?_⟩
    · simp only [hlower, hkind, parseNodeAttrs, hparse]
      rfl
    · have hleft := (henv l (by simp)).trans (valueOf_eq hx)
      have hinputs : [l].mapM env = (x.traced arith).bind fun a => some [a] := by
        rw [List.mapM_cons, List.mapM_nil, hleft]
        rfl
      simp only [eval, Expr.traced, hinputs]
      cases x.traced arith with
      | none => rfl
      | some a => exact if_pos hunary
  | softmax x axis =>
    cases hmade
    obtain ⟨⟩ | ⟨hx, ⟨⟩⟩ := hinputs
    rename_i l
    refine ⟨.softmax l axis, rfl, fun arith env henv => ?_⟩
    have hleft := (henv l (by simp)).trans (valueOf_eq hx)
    simp only [eval, Expr.traced, hleft]
  | cast x targetDtype =>
    cases hmade
    obtain ⟨⟩ | ⟨hx, ⟨⟩⟩ := hinputs
    rename_i l
    refine ⟨.cast l targetDtype, ?_, fun arith env henv => ?_⟩
    · cases targetDtype <;> rfl
    · have hleft := (henv l (by simp)).trans (valueOf_eq hx)
      simp only [eval, Expr.traced, hleft]

theorem Records.strict (h : Records defs op attrs inputs e) (he : (e.traced arith).isSome)
    {u : ℕ} (hu : u ∈ inputs) : (valueOf arith defs u).isSome := by
  have hbind : ∀ {α β : Type} {o : Option α} {f : α → Option β}, (o.bind f).isSome → o.isSome := by
    intro α β o f ho
    cases o with
    | none => cases ho
    | some => rfl
  have hsecond : ∀ {α β γ : Type} {o : Option α} {o' : Option β} {f : α → β → Option γ},
      (o.bind fun a => o'.bind (f a)).isSome → o'.isSome := by
    intro α β γ o o' f ho
    cases o with
    | none => cases ho
    | some a => exact hbind ho
  obtain ⟨operands, hmade, hinputs⟩ := h
  cases e with
  | input => cases hmade
  | T => cases hmade
  | matmul lhs rhs =>
    cases hmade
    obtain ⟨⟩ | ⟨hl, ⟨⟩ | ⟨hr, ⟨⟩⟩⟩ := hinputs
    simp only [List.mem_cons, List.not_mem_nil, or_false] at hu
    rcases hu with rfl | rfl
    · rw [valueOf_eq hl]
      exact hbind he
    · rw [valueOf_eq hr]
      have hright : (turned rhs.flag (rhs.traced arith)).isSome := hsecond he
      cases hflag : rhs.flag with
      | true =>
        rw [hflag] at hright
        exact hbind hright
      | false =>
        rw [hflag] at hright
        exact hright
  | binary op x y =>
    cases hmade
    obtain ⟨⟩ | ⟨hx, ⟨⟩ | ⟨hy, ⟨⟩⟩⟩ := hinputs
    simp only [List.mem_cons, List.not_mem_nil, or_false] at hu
    rcases hu with rfl | rfl
    · rw [valueOf_eq hx]
      exact hbind he
    · rw [valueOf_eq hy]
      exact hsecond he
  | unary op x | softmax x axis | cast x targetDtype =>
    cases hmade
    obtain ⟨⟩ | ⟨hx, ⟨⟩⟩ := hinputs
    rw [List.mem_singleton.1 hu, valueOf_eq hx]
    exact hbind he

variable {b : Builder}

theorem facts_markOutput (values : List TraceValue) (u v : ℕ) :
    ((markOutput values u)[v]?).map (·.facts) =
      ((values[v]?).map (·.facts)).map fun f => if u = v then { f with kind := .output } else f := by
  unfold markOutput
  rw [List.getElem?_modify]
  cases values[v]? with
  | none =>
    split
    · rfl
    · rfl
  | some value =>
    by_cases h : u = v
    · simp only [h, if_true]
      rfl
    · simp [h]

/-- Marking the outputs changes kinds. -/
theorem facts_foldl_markOutput (vids : List ℕ) (values : List TraceValue) (v : ℕ) :
    ((vids.foldl markOutput values)[v]?).map (·.facts) =
      ((values[v]?).map (·.facts)).map fun f => if v ∈ vids then { f with kind := .output } else f := by
  induction vids generalizing values with
  | nil =>
    exact Option.map_id'.symm
  | cons u vids ih =>
    rw [List.foldl_cons, ih, facts_markOutput, Option.map_map]
    congr 1
    funext f
    by_cases hu : u = v
    · simp [hu]
    · have hne : v ≠ u := fun h => hu h.symm
      simp [hu, hne]

theorem lookup_inputs {values : List TraceValue} (first : ℕ) (hlength : values.length = defs.length)
    (hid : ∀ (v : ℕ) (value : TraceValue), values[v]? = some value → value.id = first + v)
    (hkind : ∀ (v : ℕ) (value : TraceValue) (e : Expr E), values[v]? = some value →
      defs[v]? = some e → (value.kind = .input ↔ e.inputTensor.isSome)) (v : ℕ) :
    (((values.filter (·.kind = .input)).map (·.id)).zip (defs.filterMap Expr.inputTensor)).lookup v =
      if v < first then none else (defs[v - first]?).bind Expr.inputTensor := by
  induction values generalizing defs first with
  | nil =>
    obtain rfl : defs = [] := List.length_eq_zero_iff.1 hlength.symm
    simp
  | cons value values ih =>
    cases defs with
    | nil => cases hlength
    | cons e defs =>
      have hrest := ih (first + 1) (by simpa using hlength)
        (fun v value hv => by rw [hid (v + 1) value hv]; omega)
        fun v value e hv he => hkind (v + 1) value e hv he
      have hthis := hkind 0 value e rfl rfl
      have hfirst : value.id = first := hid 0 value rfl
      have hlater : first ≠ v →
          (if v < first + 1 then none else (defs[v - (first + 1)]?).bind Expr.inputTensor) =
          if v < first then none else ((e :: defs)[v - first]?).bind Expr.inputTensor := by
        intro hne
        by_cases hlt : v < first
        · rw [if_pos hlt, if_pos (by omega)]
        · rw [if_neg hlt, if_neg (by omega)]
          obtain ⟨k, hk⟩ : ∃ k, v - first = k + 1 := ⟨v - first - 1, by omega⟩
          rw [hk, List.getElem?_cons_succ]
          congr 2
          omega
      cases he : e.inputTensor with
      | none =>
        have hnot : value.kind ≠ .input := fun h => by simp [he] at hthis; exact hthis h
        rw [List.filter_cons_of_neg (by simpa using hnot), List.filterMap_cons_none he, hrest]
        by_cases hv : first = v
        · subst hv
          simp [he]
        · exact hlater hv
      | some a =>
        have hyes : value.kind = .input := hthis.2 (by rw [he]; rfl)
        rw [List.filter_cons_of_pos (by simpa using hyes), List.filterMap_cons_some he, List.map_cons,
          List.zip_cons_cons, List.lookup_cons, hfirst]
        by_cases hv : v = first
        · subst hv
          simp [he]
        · have hbeq : (v == first) = false := beq_eq_false_iff_ne.2 hv
          rw [hbeq]
          exact hrest.trans (hlater (Ne.symm hv))

/-- A graph that was read from a dictionary. -/
structure Read (b : Builder) (outs : List TracerTensor) (graph : KernelGraphIR) : Prop where
  values : ∀ v f, b.facts v = some f → ∃ desc, graph.values[v]? = some desc ∧ desc.shape = f.shape ∧
    f.dtype = dtypeName desc.dtype
  producer : ∀ v, graph.producer v = b.producer v
  nodes : ∀ (n : ℕ) (node : TraceNode), b.nodes[n]? = some node →
    ∃ found, graph.nodes[n]? = some found ∧
    found.inputs = node.inputs ∧ found.outputs = node.outputs ∧
    parseNodeAttrs (parseOpKind (toLower node.op)) (toLower node.op) node.attrs node.inputs
      node.outputs = .ok found.attrs
  producers : ∀ n, graph.producers n = b.producers n
  inputValues : graph.inputValues = (b.finish outs).inputValues
  outputValues : graph.outputValues = outs.map (·.valueId)
  topoOrder : graph.topoOrder = (b.finish outs).topoOrder

theorem getElem?_none_of_forall₂ {α β : Type} {R : α → β → Prop} {l : List α} {m : List β}
    (h : List.Forall₂ R l m) {i : ℕ} (hi : l[i]? = none) : m[i]? = none := by
  rw [List.getElem?_eq_none_iff] at hi ⊢
  rwa [← h.length_eq]

theorem parseValue_ok {value : TraceValue} {d : TensorDType} (h : value.dtype = dtypeName d) :
    parseValue value = .ok ⟨d, value.shape, value.kind, value.producer, value.consumers⟩ := by
  unfold parseValue
  rw [h, parseTensorDType_dtypeName]
  rfl

theorem parseNode_ok {node : TraceNode} {found : KernelNode} (h : parseNode node = .ok found) :
    found.inputs = node.inputs ∧ found.outputs = node.outputs ∧
      parseNodeAttrs (parseOpKind (toLower node.op)) (toLower node.op) node.attrs node.inputs
        node.outputs = .ok found.attrs := by
  obtain ⟨attrs, hattrs, h⟩ := Except.bind_eq_ok h
  cases h
  exact ⟨rfl, rfl, hattrs⟩

theorem Made.facts (h : Made b defs v e) :
    ∃ f d, b.facts v = some f ∧ f.dtype = dtypeName d ∧ f.id = v ∧
      (f.kind = .input ↔ e.inputTensor.isSome) := by
  cases h with
  | input array hfacts => exact ⟨_, _, hfacts, rfl, rfl, by simp [Expr.inputTensor]⟩
  | node hfacts _ hrecords =>
    refine ⟨_, _, hfacts, rfl, rfl, ?_⟩
    obtain ⟨operands, hmade, -⟩ := hrecords
    cases e with
    | input => cases hmade
    | T => cases hmade
    | matmul | binary | unary | softmax | cast => simp [Expr.inputTensor]

theorem Recorded.facts (h : Recorded b defs) {f : Facts} (hf : b.facts v = some f) :
    (∃ d, f.dtype = dtypeName d) ∧ f.id = v ∧
      ∃ e, defs[v]? = some e ∧ (f.kind = .input ↔ e.inputTensor.isSome) := by
  have hv : v < defs.length := by
    by_contra hv
    rw [h.facts_none (by omega)] at hf
    cases hf
  obtain ⟨e, he⟩ : ∃ e, defs[v]? = some e := ⟨_, List.getElem?_eq_getElem hv⟩
  obtain ⟨f', d, hf', hdtype, hid, hkind⟩ := (h.made v e he).facts
  cases hf.symm.trans hf'
  exact ⟨⟨d, hdtype⟩, hid, e, he, hkind⟩

/-- **The dictionary of a trace is read.** -/
theorem Recorded.read (h : Recorded b defs) (outs : List TracerTensor) :
    ∃ graph, parseKernelGraphIR (b.finish outs) = .ok graph ∧ Read b outs graph := by
  -- marking the outputs changes nothing but the kind of a value
  have hmarked : ∀ v, ((b.finish outs).values[v]?).map (·.facts) =
      (b.facts v).map fun f => if v ∈ outs.map (·.valueId) then { f with kind := .output } else f :=
    fun v => facts_foldl_markOutput (outs.map TracerTensor.valueId) b.values v
  have hvalues : ∀ value ∈ (b.finish outs).values, ∃ desc, parseValue value = .ok desc := by
    intro value hvalue
    obtain ⟨v, hv⟩ := List.mem_iff_getElem?.1 hvalue
    have hfacts := hmarked v
    rw [hv, Option.map_some] at hfacts
    obtain ⟨f, hf, hsame⟩ := Option.map_eq_some_iff.1 hfacts.symm
    obtain ⟨⟨d, hd⟩, -⟩ := h.facts hf
    have hdtype : value.dtype = f.dtype := by
      split at hsame
      · exact (congrArg Facts.dtype hsame).symm
      · exact (congrArg Facts.dtype hsame).symm
    exact ⟨_, parseValue_ok (hdtype.trans hd)⟩
  have hnodes : ∀ node ∈ b.nodes, ∃ found, parseNode node = .ok found := by
    intro node hnode
    obtain ⟨n, hn⟩ := List.mem_iff_getElem?.1 hnode
    obtain ⟨v, e, -, -, -, hrecords, -⟩ := h.node n node hn
    obtain ⟨attrs, hattrs, -⟩ := hrecords.parse node.outputs
    refine ⟨⟨node.id, parseOpKind (toLower node.op), node.inputs, node.outputs, attrs⟩, ?_⟩
    simp only [parseNode, hattrs]
    rfl
  obtain ⟨values, hparsed, hvaluesRel⟩ := Except.mapM_eq_ok hvalues
  obtain ⟨nodes, hparsedNodes, hnodesRel⟩ := Except.mapM_eq_ok hnodes
  have hread : ∀ v f, b.facts v = some f → ∃ desc, values[v]? = some desc ∧ desc.shape = f.shape ∧
      f.dtype = dtypeName desc.dtype ∧ desc.producer = f.producer := by
    intro v f hf
    obtain ⟨⟨d, hd⟩, -⟩ := h.facts hf
    have hfacts := hmarked v
    rw [hf, Option.map_some] at hfacts
    obtain ⟨value, hvalue, hsame⟩ := Option.map_eq_some_iff.1 hfacts
    obtain ⟨desc, hdesc, hparse⟩ := getElem?_of_forall₂ hvaluesRel hvalue
    have hfields : value.dtype = f.dtype ∧ value.shape = f.shape ∧ value.producer = f.producer := by
      split at hsame
      · exact ⟨congrArg Facts.dtype hsame, congrArg Facts.shape hsame, congrArg Facts.producer hsame⟩
      · exact ⟨congrArg Facts.dtype hsame, congrArg Facts.shape hsame, congrArg Facts.producer hsame⟩
    rw [parseValue_ok (hfields.1.trans hd)] at hparse
    cases hparse
    exact ⟨_, hdesc, hfields.2.1, hd, hfields.2.2⟩
  let graph : KernelGraphIR := ⟨values, nodes, (b.finish outs).inputValues,
    (b.finish outs).outputValues,
    (b.finish outs).topoOrder⟩
  have hproducer : ∀ v, graph.producer v = b.producer v := by
    intro v
    rw [b.producer_eq]
    cases hf : b.facts v with
    | some f =>
      obtain ⟨desc, hdesc, -, -, hproducer⟩ := hread v f hf
      rw [KernelGraphIR.producer, hdesc]
      exact hproducer
    | none =>
      have hnone : (b.finish outs).values[v]? = none := by
        have hfacts := hmarked v
        rw [hf] at hfacts
        simpa using hfacts
      rw [KernelGraphIR.producer, getElem?_none_of_forall₂ hvaluesRel hnone]
      rfl
  have hnode : ∀ (n : ℕ) (node : TraceNode), b.nodes[n]? = some node →
      ∃ found, nodes[n]? = some found ∧ parseNode node = .ok found := fun n node hn =>
    getElem?_of_forall₂ hnodesRel hn
  refine ⟨graph, ?_, ⟨fun v f hf => ?_, hproducer, fun n node hn => ?_, fun n => ?_, rfl, rfl, rfl⟩⟩
  · unfold parseKernelGraphIR
    rw [hparsed, Except.ok_bind, show (b.finish outs).nodes = b.nodes from rfl, hparsedNodes]
    rfl
  · obtain ⟨desc, hdesc, hshape, hdtype, -⟩ := hread v f hf
    exact ⟨desc, hdesc, hshape, hdtype⟩
  · obtain ⟨found, hfound, hparse⟩ := hnode n node hn
    exact ⟨found, hfound, parseNode_ok hparse⟩
  · unfold KernelGraphIR.producers Builder.producers
    cases hn : b.nodes[n]? with
    | some node =>
      obtain ⟨found, hfound, hparse⟩ := hnode n node hn
      rw [show graph.nodes[n]? = some found from hfound]
      simp only [(parseNode_ok hparse).1]
      exact List.filterMap_congr fun v _ => hproducer v
    | none =>
      rw [show graph.nodes[n]? = none from getElem?_none_of_forall₂ hnodesRel hn]

end Matcore.Frontend
