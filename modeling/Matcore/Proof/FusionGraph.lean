import Matcore.Frontend.Graph
import Matcore.Lib.Reorder

/-!
# The hazards of captured graphs

The memory that a kernel may use, by what its operations name.
-/

namespace Matcore.Frontend.FusionGraph

open Reorder (Conflict)
open List (any_eq_true mem_flatMap mem_filter)

variable {Cell Content : Type} (python : Python) (cells : ℕ → Set Cell)

/-- Documented behaviour: a wrapper and a view have their memory in that of the object behind them,
and two different objects with memory in common may share memory. -/
structure Numpy (python : Python) (cells : ℕ → Set Cell) : Prop where
  wrapper : ∀ v u, python.array v = some u → cells v ⊆ cells u
  view : ∀ v u, python.base v = some u → cells v ⊆ cells u
  overlap : ∀ a b, ¬ Disjoint (cells a) (cells b) → a ≠ b → python.mayShareMemory a b = some true

/-- The parameters in a value. -/
def valueNames (params : List String) : Value → List String
  | .str text => if text ∈ params then [text] else (python.names text).filter (· ∈ params)
  | .list items => items.reduceOption.filter (· ∈ params)
  | .other => []

/-- The parameters that an operation names as operands. -/
def operandSymbols (params : List String) (fields : List (String × Value)) : List String :=
  fields.flatMap fun (key, value) =>
    if key = "output" ∨ key = "tensor" ∧ fields.lookup "op" = some (.str "store") then []
    else valueNames python params value

/-- The parameters that an operation names as its store target or as its output. -/
def writtenSymbols (params : List String) (fields : List (String × Value)) : List String :=
  params.filter fun symbol =>
    isStoreTo fields symbol || ("output", Value.str symbol) ∈ fields

/-- The memory of the arrays of some parameters. -/
def Node.cellsOf (node : Node) (symbols : List String) : Set Cell :=
  {cell | ∃ symbol ∈ symbols, ∃ array, node.arrayOf symbol = some array ∧ cell ∈ cells array}

def Node.reads (node : Node) : Set Cell :=
  node.cellsOf cells (node.kernelIr.dicts.flatMap (operandSymbols python node.kernelIr.params))

def Node.writes (node : Node) : Set Cell :=
  node.cellsOf cells (node.kernelIr.dicts.flatMap (writtenSymbols node.kernelIr.params))

/-- The memory of the store targets. -/
def Node.stores (node : Node) : Set Cell :=
  node.cellsOf cells (node.kernelIr.dicts.flatMap (writeSymbols node.kernelIr.params))

/-- Two launches conflict. -/
def Node.Conflicts (producer consumer : Node) : Prop :=
  Conflict (producer.reads python cells) (producer.writes cells) (consumer.reads python cells)
    (consumer.writes cells)

/-- A store target of one launch is in use in the other. -/
def Node.StoreConflicts (producer consumer : Node) : Prop :=
  ¬ Disjoint (producer.stores cells) (consumer.reads python cells ∪ consumer.writes cells) ∨
    ¬ Disjoint (producer.reads python cells ∪ producer.writes cells) (consumer.stores cells)

variable {python cells}

theorem cells_climb (h : Numpy python cells) (turns : ℕ) (seen : List ℕ) (current : ℕ) :
    cells current ⊆ cells (climb python turns seen current) := by
  induction turns generalizing seen current with
  | zero => exact subset_rfl
  | succ turns ih =>
    unfold climb
    split
    · exact subset_rfl
    · rename_i parent hparent
      split
      · exact subset_rfl
      · exact (h.view current parent hparent).trans (ih _ parent)

theorem cells_owner (h : Numpy python cells) (value : ℕ) :
    cells value ⊆ cells (resolveArrayOwner python value) := by
  unfold resolveArrayOwner
  cases harray : python.array value with
  | none => exact cells_climb h _ _ _
  | some inner => exact (h.wrapper value inner harray).trans (cells_climb h _ _ _)

theorem alias_of_overlap (h : Numpy python cells) {lhs rhs : List ℕ} {a b : ℕ} (ha : a ∈ lhs)
    (hb : b ∈ rhs) (hoverlap : ¬ Disjoint (cells a) (cells b)) :
    hasAliasOverlap python lhs rhs = true := by
  unfold hasAliasOverlap
  rw [Bool.or_eq_true]
  by_cases hab : a = b
  · subst hab
    exact .inl (any_eq_true.2 ⟨a, ha, any_eq_true.2 ⟨a, hb, by simp⟩⟩)
  · refine .inr (any_eq_true.2 ⟨a, ha, any_eq_true.2 ⟨b, hb, ?_⟩⟩)
    rw [arraysMayAlias, h.overlap a b hoverlap hab]
    rfl

variable {cell : Cell}

theorem owner_of_cell (h : Numpy python cells) {node : Node} {symbols : List String}
    (hcell : cell ∈ node.cellsOf cells symbols) :
    ∃ owner ∈ owners python node symbols, cell ∈ cells owner := by
  obtain ⟨symbol, hsymbol, array, harray, hcell⟩ := hcell
  refine ⟨resolveArrayOwner python array, ?_, cells_owner h array hcell⟩
  exact List.mem_filterMap.2 ⟨symbol, hsymbol, by rw [harray]; rfl⟩

variable {symbol : String} {fields : List (String × Value)} {params : List String}

theorem seen_of_named {key : String} {value : Value} (hfield : (key, value) ∈ fields)
    (hname : symbol ∈ valueNames python params value) :
    symbol ∈ readSymbols python params fields ∨ symbol ∈ writeSymbols params fields := by
  have hread : symbol ∈ valueSymbols python params fields value →
      symbol ∈ readSymbols python params fields := fun hs =>
    mem_flatMap.2 ⟨(key, value), hfield, hs⟩
  cases value with
  | str text =>
    by_cases hparam : text ∈ params
    · rw [valueNames, if_pos hparam] at hname
      rw [List.mem_singleton.1 hname] at hread ⊢
      by_cases hstore : isStoreTo fields text = true
      · exact .inr (mem_filter.2 ⟨hparam, hstore⟩)
      · refine .inl (hread ?_)
        simp [valueSymbols, hparam, hstore]
    · refine .inl (hread ?_)
      rw [valueNames, if_neg hparam] at hname
      rw [valueSymbols, if_neg hparam]
      exact hname
  | list items => exact .inl (hread hname)
  | other => cases hname

theorem seen_of_operand (h : symbol ∈ operandSymbols python params fields) :
    symbol ∈ readSymbols python params fields ∨ symbol ∈ writeSymbols params fields := by
  obtain ⟨⟨key, value⟩, hfield, hsymbol⟩ := mem_flatMap.1 h
  simp only at hsymbol
  split at hsymbol
  · cases hsymbol
  · exact seen_of_named hfield hsymbol

theorem seen_of_written (h : symbol ∈ writtenSymbols params fields) :
    symbol ∈ readSymbols python params fields ∨ symbol ∈ writeSymbols params fields := by
  obtain ⟨hparam, hwritten⟩ := mem_filter.1 h
  rcases Bool.or_eq_true _ _ ▸ hwritten with hstore | houtput
  · exact .inr (mem_filter.2 ⟨hparam, hstore⟩)
  · have hfield : ("output", Value.str symbol) ∈ fields := by simpa using houtput
    exact seen_of_named hfield (by simp [valueNames, hparam])

theorem owner_of_use (h : Numpy python cells) {node : Node}
    (hcell : cell ∈ node.reads python cells ∪ node.writes cells) :
    (∃ owner ∈ (metadata python node).reads, cell ∈ cells owner) ∨
      ∃ owner ∈ (metadata python node).writes, cell ∈ cells owner := by
  obtain ⟨symbol, hsymbol, array, harray, hcell⟩ : ∃ symbol,
      (∃ fields ∈ node.kernelIr.dicts,
        symbol ∈ readSymbols python node.kernelIr.params fields ∨
          symbol ∈ writeSymbols node.kernelIr.params fields) ∧
      ∃ array, node.arrayOf symbol = some array ∧ cell ∈ cells array := by
    rcases hcell with ⟨symbol, hsymbol, harray⟩ | ⟨symbol, hsymbol, harray⟩
    · obtain ⟨fields, hfields, hsymbol⟩ := mem_flatMap.1 hsymbol
      exact ⟨symbol, ⟨fields, hfields, seen_of_operand hsymbol⟩, harray⟩
    · obtain ⟨fields, hfields, hsymbol⟩ := mem_flatMap.1 hsymbol
      exact ⟨symbol, ⟨fields, hfields, seen_of_written hsymbol⟩, harray⟩
  obtain ⟨fields, hfields, hread | hwrite⟩ := hsymbol
  · exact .inl (owner_of_cell h
      ⟨symbol, mem_flatMap.2 ⟨fields, hfields, hread⟩, array, harray, hcell⟩)
  · exact .inr (owner_of_cell h
      ⟨symbol, mem_flatMap.2 ⟨fields, hfields, hwrite⟩, array, harray, hcell⟩)

theorem overlap_of_cell {a b : ℕ} (ha : cell ∈ cells a) (hb : cell ∈ cells b) :
    ¬ Disjoint (cells a) (cells b) := fun hdisjoint =>
  Set.disjoint_left.1 hdisjoint ha hb

/-- A conflict over a store target is a hazard. -/
theorem hazards_of_storeConflict (h : Numpy python cells) {producer consumer : Node}
    (hconflict : producer.StoreConflicts python cells consumer) :
    hazards python (metadata python producer) (metadata python consumer) ≠ [] := by
  rcases hconflict with hforward | hbackward
  · obtain ⟨cell, hstore, huse⟩ := Set.not_disjoint_iff.1 hforward
    obtain ⟨a, ha, hcell⟩ := owner_of_cell h hstore
    rcases owner_of_use h huse with ⟨b, hb, hcell'⟩ | ⟨b, hb, hcell'⟩
    · have halias := alias_of_overlap h ha hb (overlap_of_cell hcell hcell')
      simp [hazards, show hasAliasOverlap python (metadata python producer).writes
        (metadata python consumer).reads = true from halias]
    · have halias := alias_of_overlap h ha hb (overlap_of_cell hcell hcell')
      simp [hazards, show hasAliasOverlap python (metadata python producer).writes
        (metadata python consumer).writes = true from halias]
  · obtain ⟨cell, huse, hstore⟩ := Set.not_disjoint_iff.1 hbackward
    obtain ⟨b, hb, hcell'⟩ := owner_of_cell h hstore
    rcases owner_of_use h huse with ⟨a, ha, hcell⟩ | ⟨a, ha, hcell⟩
    · have halias := alias_of_overlap h ha hb (overlap_of_cell hcell hcell')
      simp [hazards, show hasAliasOverlap python (metadata python producer).reads
        (metadata python consumer).writes = true from halias]
    · have halias := alias_of_overlap h ha hb (overlap_of_cell hcell hcell')
      simp [hazards, show hasAliasOverlap python (metadata python producer).writes
        (metadata python consumer).writes = true from halias]

end Matcore.Frontend.FusionGraph
