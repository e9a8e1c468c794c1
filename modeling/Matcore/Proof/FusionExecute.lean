import Matcore.Lib.Except
import Matcore.Lib.Trace
import Matcore.Proof.FusionGraph

/-!
# Captured graphs against capture order

In every run whose calls meet the condition, each call of `execute` launches every node once and
leaves what capture order leaves.
-/

namespace Matcore.Frontend.FusionGraph

open List (nodup_range range mem_range getElem_mem)
open Reorder (Footprint)
open scoped BigOperators

variable {Cell Content : Type} {python : Python} {cells : ℕ → Set Cell} {nodes : List Node}

theorem mem_inferEdges {edge : Edge} :
    edge ∈ inferEdges python nodes ↔ ∃ producer consumer, nodes[edge.src]? = some producer ∧
      nodes[edge.dst]? = some consumer ∧ edge.src < edge.dst ∧
      hazards python (metadata python producer) (metadata python consumer) ≠ [] ∧
      edge.hazards = hazards python (metadata python producer) (metadata python consumer) := by
  simp only [inferEdges, List.mem_flatMap, List.mem_filterMap, Prod.exists,
    List.mem_zipIdx_iff_getElem?]
  constructor
  · rintro ⟨producer, src, hsrc, consumer, dst, hdst, h⟩
    split at h
    · rename_i hedge
      cases h
      exact ⟨producer, consumer, hsrc, hdst, hedge.1, hedge.2, rfl⟩
    · cases h
  · rintro ⟨producer, consumer, hsrc, hdst, hlt, hne, hhazards⟩
    refine ⟨producer, edge.src, hsrc, consumer, edge.dst, hdst, ?_⟩
    rw [if_pos ⟨hlt, hne⟩, ← hhazards]

variable {src dst : ℕ}

theorem mem_outgoing {edges : List Edge} :
    dst ∈ outgoing edges src ↔ ∃ edge ∈ edges, edge.src = src ∧ edge.dst = dst := by
  simp only [outgoing, List.mem_insertionSort, List.mem_map, List.mem_filter, decide_eq_true_eq,
    and_assoc]

theorem count_outgoing (edges : List Edge) (src dst : ℕ) :
    (outgoing edges src).count dst =
      edges.countP fun edge => decide (edge.src = src) && decide (edge.dst = dst) := by
  rw [outgoing, (List.perm_insertionSort _ _).count_eq, List.count, List.countP_map,
    List.countP_filter]
  refine List.countP_congr fun edge _ => ?_
  simp [and_comm]

/-- The edges to a node, by the nodes that they come from. -/
theorem indegree_eq_sum (edges : List Edge) {nodeCount : ℕ}
    (h : ∀ edge ∈ edges, edge.src < nodeCount) (dst : ℕ) :
    indegree edges dst = ∑ src ∈ Finset.range nodeCount, (outgoing edges src).count dst := by
  simp only [count_outgoing, indegree]
  induction edges with
  | nil => simp
  | cons edge edges ih =>
    have hsrc := h edge List.mem_cons_self
    have hrest := ih fun e he => h e (List.mem_cons_of_mem _ he)
    simp only [List.countP_cons, Finset.sum_add_distrib, ← hrest]
    -- the new edge counts at its own source only
    rw [Finset.sum_eq_single edge.src]
    · simp
    · intro src _ hne
      simp [Ne.symm hne]
    · intro hnot
      exact absurd (Finset.mem_range.2 hsrc) hnot

theorem inferEdges_forward {edge : Edge} (h : edge ∈ inferEdges python nodes) :
    edge.src < edge.dst ∧ edge.dst < nodes.length := by
  obtain ⟨producer, consumer, -, hdst, hlt, -⟩ := mem_inferEdges.1 h
  exact ⟨hlt, (List.getElem?_eq_some_iff.1 hdst).1⟩

theorem outgoing_forward (h : dst ∈ outgoing (inferEdges python nodes) src) :
    src < dst ∧ dst < nodes.length := by
  obtain ⟨edge, hedge, rfl, rfl⟩ := mem_outgoing.1 h
  exact inferEdges_forward hedge

/-- There is an edge from one node to another. -/
def Edge.Between (edges : List Edge) (src dst : ℕ) : Prop :=
  ∃ edge ∈ edges, edge.src = src ∧ edge.dst = dst

/-- **No cycle.** -/
theorem acyclic (nodes : List Node) (node : ℕ) :
    ¬ Relation.TransGen (Edge.Between (inferEdges python nodes)) node node := by
  have hgrows : ∀ {a b}, Relation.TransGen (Edge.Between (inferEdges python nodes)) a b → a < b := by
    intro a b h
    induction h with
    | single hedge => exact (outgoing_forward (mem_outgoing.2 hedge)).1
    | tail _ hedge ih => exact ih.trans (outgoing_forward (mem_outgoing.2 hedge)).1
  exact fun h => lt_irrefl node (hgrows h)

theorem kahn_start (python : Python) (nodes : List Node) :
    Kahn.Inv (outgoing (inferEdges python nodes)) (Finset.range nodes.length) []
      (sources nodes.length (inferEdges python nodes)) (indegree (inferEdges python nodes)) := by
  have hdegree := indegree_eq_sum (inferEdges python nodes) fun edge hedge =>
    (inferEdges_forward hedge).1.trans (inferEdges_forward hedge).2
  rw [← List.toFinset_range nodes.length] at hdegree ⊢
  exact Kahn.inv_start nodup_range hdegree

theorem kahn_order (python : Python) (nodes : List Node) :
    Kahn.Sorted (outgoing (inferEdges python nodes)) (Finset.range nodes.length)
      (Kahn.order (outgoing (inferEdges python nodes)) nodes.length
        (indegree (inferEdges python nodes)) (sources nodes.length (inferEdges python nodes))) :=
  Kahn.order_sorted id
    (fun _ _ _ hd => Finset.mem_range.2 (outgoing_forward hd).2)
    (fun _ _ _ hd => (outgoing_forward hd).1) (kahn_start python nodes) List.Pairwise.nil (by simp)

variable {order : List ℕ}

theorem perm_of_sorted {next : ℕ → List ℕ} {count : ℕ}
    (h : Kahn.Sorted next (Finset.range count) order) : order.Perm (range count) := by
  refine (List.perm_ext_iff_of_nodup h.nodup nodup_range).2 fun index => ?_
  rw [h.all index, Finset.mem_range, mem_range]

theorem kahn_levels (python : Python) (nodes : List Node) :
    (parallelizableLevels nodes.length (inferEdges python nodes)).flatten.Perm
        (range nodes.length) ∧
      ∀ level ∈ parallelizableLevels nodes.length (inferEdges python nodes),
        ∀ src ∈ level, ∀ dst ∈ level, dst ∉ outgoing (inferEdges python nodes) src := by
  have hrounds : (Finset.range nodes.length).card ≤ ([] : List ℕ).length + nodes.length := by simp
  obtain ⟨hnodup, hall, hlevel⟩ := Kahn.levels_sorted id
    (fun _ _ _ hd => Finset.mem_range.2 (outgoing_forward hd).2)
    (fun _ _ _ hd => (outgoing_forward hd).1) (fun l => List.perm_insertionSort (· ≤ ·) l)
    (kahn_start python nodes) hrounds
  rw [List.nil_append] at hnodup hall
  refine ⟨(List.perm_ext_iff_of_nodup hnodup nodup_range).2 fun index => ?_,
    fun level hl src hsrc dst hdst => hlevel level hl dst hdst src hsrc⟩
  rw [hall index, Finset.mem_range, mem_range]

/-- What an analysis reports. -/
structure Report.Sound (python : Python) (nodes : List Node) (report : Report) : Prop where
  nodeCount : report.nodeCount = nodes.length
  edges : report.edges = inferEdges python nodes
  order : Kahn.Sorted (outgoing report.edges) (Finset.range nodes.length) report.executionOrder
  levels : report.parallelizableLevels.flatten.Perm (range nodes.length)
  level : ∀ level ∈ report.parallelizableLevels, ∀ src ∈ level, ∀ dst ∈ level,
    dst ∉ outgoing report.edges src

/-- **The analysis.** -/
theorem analyze_spec (python : Python) (nodes : List Node) : ∃ report,
    analyzeFusionOpportunities python nodes = .ok report ∧ report.Sound python nodes := by
  have horder := kahn_order python nodes
  have hlength := (perm_of_sorted horder).length_eq
  rw [List.length_range] at hlength
  obtain ⟨hperm, hlevel⟩ := kahn_levels python nodes
  have hstable : stableTopologicalOrder nodes.length (inferEdges python nodes) = .ok
      (Kahn.order (outgoing (inferEdges python nodes)) nodes.length
        (indegree (inferEdges python nodes)) (sources nodes.length (inferEdges python nodes))) :=
    if_neg (not_not.2 hlength)
  unfold analyzeFusionOpportunities
  simp only [hstable, Except.ok_bind]
  exact ⟨_, rfl, rfl, rfl, horder, hperm, hlevel⟩

section

variable (python : Python) (cells : ℕ → Set Cell)

/-- Every conflict of two nodes is one over a store target. -/
def StoresSeen (nodes : List Node) : Prop :=
  nodes.Pairwise fun producer consumer =>
    producer.Conflicts python cells consumer → producer.StoreConflicts python cells consumer

/-- The condition on a call: the analysis sees the conflicts, and `execute` has targets to launch on
and no report of fewer nodes. -/
def Meets (s : State Cell Content) : Call → Prop
  | .addNode _ => True
  | .analyze => StoresSeen python cells s.nodes
  | .execute => StoresSeen python cells s.nodes ∧ (∀ node ∈ s.nodes, node.target ≠ none) ∧
      ∀ report, s.analysisReport = some report → report.nodeCount = s.nodes.length

variable (launchImmediate : KernelIR → String → List ℕ → (Cell → Content) → Cell → Content)

/-- The launch of a node. -/
def Node.launch (node : Node) (memory : Cell → Content) : Cell → Content :=
  match node.target with
  | none => memory
  | some target => launchImmediate node.kernelIr target node.arrays memory

/-- The kernel of a node reads only what its operations name as operands, and writes only what they
name as a store target or as an output. -/
def Node.Keeps (node : Node) : Prop :=
  Footprint (node.reads python cells) (node.writes cells) (node.launch launchImmediate)

/-- The launch of the node of an index. -/
def launchAt (nodes : List Node) (memory : Cell → Content) (index : ℕ) : Cell → Content :=
  match nodes[index]? with
  | none => memory
  | some node => node.launch launchImmediate memory

theorem launchAll_ok (htarget : ∀ node ∈ nodes, node.target ≠ none)
    (horder : ∀ index ∈ order, index < nodes.length)
    (memory : Cell → Content) :
    launchAll launchImmediate nodes order memory =
      (order, order.foldl (launchAt launchImmediate nodes) memory, none) := by
  induction order generalizing memory with
  | nil => rfl
  | cons index order ih =>
    have hindex := horder index List.mem_cons_self
    have hrest := ih fun i hi => horder i (List.mem_cons_of_mem _ hi)
    have hnode : nodes[index]? = some nodes[index] := List.getElem?_eq_getElem hindex
    obtain ⟨target, htarget⟩ := Option.ne_none_iff_exists'.1 (htarget _ (getElem_mem hindex))
    simp only [launchAll, hnode, htarget, hrest, List.foldl_cons, launchAt, Node.launch]

/-- What a run shows is as in capture order. -/
def Event.Sound : Event Cell Content → Prop
  | .added _ => True
  | .analyzed nodes report =>
    (∀ node, ¬ Relation.TransGen (Edge.Between report.edges) node node) ∧
      ∀ level ∈ report.parallelizableLevels, ∀ src ∈ level, ∀ dst ∈ level, src ≠ dst →
        ∀ producer consumer, nodes[src]? = some producer → nodes[dst]? = some consumer →
          ¬ producer.Conflicts python cells consumer
  | .executed nodes launched before after =>
    launched.Perm (range nodes.length) ∧
      after = nodes.foldl (fun memory node => node.launch launchImmediate memory) before
  | .raised _ => False

/-- The kernels that a call captures keep to what their operations name. -/
def Call.Keeps : Call → Prop
  | .addNode node => node.Keeps python cells launchImmediate
  | .analyze => True
  | .execute => True

/-- What holds between two calls. -/
structure Inv (events : List (Event Cell Content)) (s : State Cell Content) : Prop where
  sound : ∀ event ∈ events, event.Sound python cells launchImmediate
  keeps : ∀ node ∈ s.nodes, node.Keeps python cells launchImmediate
  report : ∀ report, s.analysisReport = some report →
    ∃ analyzed, analyzed <+: s.nodes ∧ report.Sound python analyzed

end

variable {launchImmediate : KernelIR → String → List ℕ → (Cell → Content) → Cell → Content}

theorem foldl_launchAt (nodes : List Node) (memory : Cell → Content) :
    (range nodes.length).foldl (launchAt launchImmediate nodes) memory =
      nodes.foldl (fun memory node => node.launch launchImmediate memory) memory := by
  induction nodes using List.reverseRecOn with
  | nil => rfl
  | append_singleton nodes node ih =>
    have hsame : (range nodes.length).foldl (launchAt launchImmediate (nodes ++ [node])) memory =
        (range nodes.length).foldl (launchAt launchImmediate nodes) memory := by
      refine List.foldl_ext _ _ _ fun m index hindex => ?_
      rw [launchAt, launchAt, List.getElem?_append_left (mem_range.1 hindex)]
    rw [List.length_append, List.length_singleton, List.range_succ, List.foldl_append,
      List.foldl_append, hsame, ih]
    simp [launchAt]

section

variable (h : Numpy python cells)

include h

/-- Nodes without an edge between them have no conflict. -/
theorem no_conflict (hseen : StoresSeen python cells nodes)
    {producer consumer : Node} (hlt : src < dst) (hsrc : nodes[src]? = some producer)
    (hdst : nodes[dst]? = some consumer) (hedge : dst ∉ outgoing (inferEdges python nodes) src) :
    ¬ producer.Conflicts python cells consumer := by
  intro hconflict
  obtain ⟨hsrc', rfl⟩ := List.getElem?_eq_some_iff.1 hsrc
  obtain ⟨hdst', rfl⟩ := List.getElem?_eq_some_iff.1 hdst
  have hstore := List.pairwise_iff_getElem.1 hseen src dst hsrc' hdst' hlt hconflict
  have hmem : ⟨src, dst, hazards python (metadata python nodes[src]) (metadata python nodes[dst])⟩ ∈
      inferEdges python nodes :=
    mem_inferEdges.2 ⟨_, _, hsrc, hdst, hlt, hazards_of_storeConflict h hstore, rfl⟩
  exact hedge (mem_outgoing.2 ⟨_, hmem, rfl, rfl⟩)

/-- An order along the edges leaves what capture order leaves. -/
theorem launchAll_capture (hseen : StoresSeen python cells nodes)
    (hkeeps : ∀ node ∈ nodes, node.Keeps python cells launchImmediate)
    (horder : Kahn.Sorted (outgoing (inferEdges python nodes)) (Finset.range nodes.length) order)
    (memory : Cell → Content) : order.foldl (launchAt launchImmediate nodes) memory =
      nodes.foldl (fun memory node => node.launch launchImmediate memory) memory := by
  rw [← foldl_launchAt]
  refine Reorder.foldl_reorder (perm_of_sorted horder) horder.nodup
    (fun src dst hcapture hlater m => ?_)
    memory
  have hlt : src < dst := List.pairwise_iff_forall_sublist.1 List.pairwise_lt_range hcapture
  have hdst : dst < nodes.length := mem_range.1 (hcapture.subset (by simp))
  -- the second one comes out first, so that there is no edge to it
  have hedge : dst ∉ outgoing (inferEdges python nodes) src :=
    List.pairwise_iff_forall_sublist.1 horder.forward hlater
  have hsrc' := List.getElem?_eq_getElem (hlt.trans hdst)
  have hdst' := List.getElem?_eq_getElem hdst
  have hfree := no_conflict h hseen hlt hsrc' hdst' hedge
  have hproducer := hkeeps _ (getElem_mem (hlt.trans hdst))
  have hconsumer := hkeeps _ (getElem_mem hdst)
  simp only [launchAt, hsrc', hdst']
  exact (hproducer.commute hconsumer hfree m).symm

theorem level_free {report : Report}
    (hseen : StoresSeen python cells nodes) (hreport : report.Sound python nodes) :
    (Event.analyzed nodes report : Event Cell Content).Sound python cells launchImmediate := by
  obtain ⟨-, hedges, -, -, hlevel⟩ := hreport
  rw [hedges] at hlevel
  refine ⟨fun node => hedges ▸ acyclic nodes node, ?_⟩
  intro level hl src hsrc dst hdst hne producer consumer hproducer hconsumer
  rcases Nat.lt_or_gt_of_ne hne with hlt | hgt
  · exact no_conflict h hseen hlt hproducer hconsumer (hlevel level hl src hsrc dst hdst)
  · -- the edge would go the other way, and a conflict has no direction
    intro hconflict
    exact no_conflict h hseen hgt hconsumer hproducer (hlevel level hl dst hdst src hsrc)
      hconflict.symm

/-- The report that `execute` uses is one of all nodes. -/
theorem reportFor_spec {events : List (Event Cell Content)}
    {s : State Cell Content} (hinv : Inv python cells launchImmediate events s)
    (hseen : StoresSeen python cells s.nodes)
    (hcount : ∀ report, s.analysisReport = some report → report.nodeCount = s.nodes.length) :
    ∃ report shown, reportFor python s = .ok (report, shown) ∧ report.Sound python s.nodes ∧
      ∀ event ∈ shown, event.Sound python cells launchImmediate := by
  unfold reportFor
  cases hreport : s.analysisReport with
  | some report =>
    obtain ⟨analyzed, hprefix, hsound⟩ := hinv.report report hreport
    have hall : analyzed = s.nodes :=
      hprefix.eq_of_length (hsound.nodeCount.symm.trans (hcount report hreport))
    exact ⟨report, [], rfl, hall ▸ hsound, nofun⟩
  | none =>
    obtain ⟨report, hok, hsound⟩ := analyze_spec python s.nodes
    refine ⟨report, [.analyzed s.nodes report], by rw [hok]; rfl, hsound, fun event hevent => ?_⟩
    rw [List.mem_singleton.1 hevent]
    exact level_free h hseen hsound

theorem next_inv {events shown : List (Event Cell Content)}
    {s t : State Cell Content} {call : Call} (hinv : Inv python cells launchImmediate events s)
    (hmeets : Meets python cells s call) (hcall : call.Keeps python cells launchImmediate)
    (hnext : next python launchImmediate s call = some (t, shown)) :
    Inv python cells launchImmediate (events ++ shown) t := by
  have hgrow : (∀ event ∈ shown, event.Sound python cells launchImmediate) →
      ∀ event ∈ events ++ shown, event.Sound python cells launchImmediate := fun hshown =>
    List.forall_mem_append.2 ⟨hinv.sound, hshown⟩
  cases call with
  | addNode node =>
    cases hnext
    refine ⟨hgrow (by simp [Event.Sound]), ?_, fun report hreport => ?_⟩
    · exact List.forall_mem_append.2 ⟨hinv.keeps, List.forall_mem_singleton.2 hcall⟩
    · obtain ⟨analyzed, hprefix, hsound⟩ := hinv.report report hreport
      exact ⟨analyzed, hprefix.trans (List.prefix_append _ _), hsound⟩
  | analyze =>
    obtain ⟨report, hok, hsound⟩ := analyze_spec python s.nodes
    rw [next, hok] at hnext
    cases hnext
    refine ⟨hgrow ?_, hinv.keeps, fun r hr => ?_⟩
    · exact List.forall_mem_singleton.2 (level_free h hmeets hsound)
    · cases hr
      exact ⟨s.nodes, List.prefix_rfl, hsound⟩
  | execute =>
    obtain ⟨hseen, htarget, hcount⟩ := hmeets
    obtain ⟨report, before, hok, hsound, hbefore⟩ := reportFor_spec h hinv hseen hcount
    have hperm := perm_of_sorted hsound.order
    have hlaunch := launchAll_ok launchImmediate htarget
      (fun index hindex => mem_range.1 (hperm.subset hindex)) s.memory
    rw [next, hok] at hnext
    simp only [hlaunch] at hnext
    cases hnext
    refine ⟨hgrow (List.forall_mem_append.2 ⟨hbefore, ?_⟩), hinv.keeps, fun r hr => ?_⟩
    · refine List.forall_mem_singleton.2 ⟨hperm, ?_⟩
      exact launchAll_capture h hseen hinv.keeps (hsound.edges ▸ hsound.order) s.memory
    · cases hr
      exact ⟨s.nodes, List.prefix_rfl, hsound⟩

end

/-- **Every run whose calls meet the condition is as in capture order.** -/
theorem graph_sound (h : Numpy python cells) {memory : Cell → Content} {calls : List Call}
    (hkeeps : ∀ call ∈ calls, call.Keeps python cells launchImmediate)
    (hmeets : Trace.Along (next python launchImmediate) (Meets python cells) { memory } calls)
    {t : State Cell Content} {events : List (Event Cell Content)}
    (hrun : Trace.run (next python launchImmediate) { memory } calls = some (t, events)) :
    ∀ event ∈ events, event.Sound python cells launchImmediate := by
  have hstart : Inv python cells launchImmediate [] { memory } :=
    ⟨nofun, fun node hnode => absurd hnode List.not_mem_nil, nofun⟩
  have hinv := Trace.run_along hstart
    (fun es u call es' t hi hm hn => next_inv h hi hm.1 hm.2 hn) (hmeets.and hkeeps) hrun
  exact hinv.sound

/-- Objects that are no views, each with a cell of its own. -/
def plainObjects : Python where
  objects := 2
  array _ := none
  base _ := none
  arrayInterface _ := none
  mayShareMemory l r := some (l = r)
  names _ := []

def ownCell (object : ℕ) : Set ℕ := {object}

theorem plainObjects_numpy : Numpy plainObjects ownCell where
  wrapper := nofun
  view := nofun
  overlap a b h hne := by
    refine absurd ?_ h
    rw [ownCell, ownCell, Set.disjoint_singleton]
    exact hne

/-- A kernel of one operation on the array `C`. -/
def oneOp (fields : List (String × Value)) : Node :=
  ⟨⟨["C"], [.dict fields]⟩, [0], some "nvidia"⟩

/-- A launch that adds one to the first array. -/
def increment (_ : KernelIR) (_ : String) (arrays : List ℕ) (memory : ℕ → ℕ) : ℕ → ℕ :=
  Function.update memory (arrays.headD 0) (memory (arrays.headD 0) + 1)

def storeC : Node := oneOp [("op", .str "store"), ("tensor", .str "C")]

theorem storeC_stores : storeC.stores ownCell = {0} := by
  have hsymbols : storeC.kernelIr.dicts.flatMap (writeSymbols storeC.kernelIr.params) = ["C"] := by
    decide
  ext cell
  simp [Node.stores, hsymbols, Node.cellsOf, ownCell, show storeC.arrayOf "C" = some 0 by decide]

theorem storeC_writes : storeC.writes ownCell = {0} := by
  have hsymbols :
      storeC.kernelIr.dicts.flatMap (writtenSymbols storeC.kernelIr.params) = ["C"] := by
    decide
  ext cell
  simp [Node.writes, hsymbols, Node.cellsOf, ownCell, show storeC.arrayOf "C" = some 0 by decide]

theorem storeC_keeps : storeC.Keeps plainObjects ownCell increment := by
  refine ⟨fun memory cell hcell => ?_, fun memory memory' _ cell hcell => ?_⟩
  · rw [storeC_writes, Set.mem_singleton_iff] at hcell
    exact Function.update_of_ne hcell _ _
  · by_cases h : cell = 0
    · subst h
      simpa [Node.launch, storeC, oneOp, increment] using hcell
    · simpa [Node.launch, storeC, oneOp, increment, h] using hcell

theorem storeC_seen : StoresSeen plainObjects ownCell [storeC, storeC] := by
  refine List.pairwise_pair.2 fun _ => .inl ?_
  rw [storeC_stores, storeC_writes, Set.not_disjoint_iff]
  exact ⟨0, rfl, .inr rfl⟩

/-- Two launches on one array. -/
theorem graph_sound_twoStores : ∃ (t : State ℕ ℕ) (events : List (Event ℕ ℕ)),
    Trace.run (next plainObjects increment) { memory := fun _ => 0 }
        [.addNode storeC, .addNode storeC, .execute] = some (t, events) ∧
      ∀ event ∈ events, event.Sound plainObjects ownCell increment := by
  have hrun : ∃ t events, Trace.run (next plainObjects increment) { memory := fun _ => 0 }
      [.addNode storeC, .addNode storeC, .execute] = some (t, events) := ⟨_, _, rfl⟩
  obtain ⟨t, events, hrun⟩ := hrun
  refine ⟨t, events, hrun, graph_sound plainObjects_numpy ?_ ?_ hrun⟩
  · simp [Call.Keeps, storeC_keeps]
  · refine ⟨trivial, fun t es ht => ?_⟩
    cases ht
    refine ⟨trivial, fun t es ht => ?_⟩
    cases ht
    exact ⟨⟨storeC_seen, by simp [storeC, oneOp], nofun⟩, fun t es _ => trivial⟩

/-- A node captured behind a call of `execute`: the next one uses the old order, and does not launch
it. -/
theorem stale_order_drops_node :
    Numpy plainObjects ownCell ∧ storeC.Keeps plainObjects ownCell increment ∧
      storeC.target = some "nvidia" ∧
      ∃ (t : State ℕ ℕ) (events : List (Event ℕ ℕ)),
        Trace.run (next plainObjects increment) { memory := fun _ => 0 }
            [.addNode storeC, .execute, .addNode storeC, .execute] = some (t, events) ∧
          ∃ before after, Event.executed [storeC, storeC] [0] before after ∈ events ∧
            ¬ (Event.executed [storeC, storeC] [0] before after).Sound plainObjects ownCell
              increment := by
  refine ⟨plainObjects_numpy, storeC_keeps, rfl, _, _, rfl,
    increment storeC.kernelIr "nvidia" [0] fun _ => 0,
    increment storeC.kernelIr "nvidia" [0] (increment storeC.kernelIr "nvidia" [0] fun _ => 0),
    List.mem_of_getElem? (i := 4) rfl, fun hsound => ?_⟩
  exact absurd hsound.1.length_eq (by decide)

end Matcore.Frontend.FusionGraph
