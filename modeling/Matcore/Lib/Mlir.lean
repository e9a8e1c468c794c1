import Mathlib

/-!
# MLIR operations

Operations in static single assignment form with attributes and nested regions, over any
operation names `N` and any types `T`.

The values that an operation may use are those of the blocks around it and those defined before
it in its block. A value is its position among them, so that two modules that print alike are
equal. An attribute dictionary is the list of its entries in the order of their names.
-/

namespace Mlir

/-- A string attribute is a sequence of bytes. -/
abbrev Bytes := List UInt8

/-- The bytes of an ASCII text. -/
def ascii (text : String) : Bytes := text.toList.map fun c => UInt8.ofNat c.toNat

inductive CmpIPredicate where
  | eq | ne | slt | sle | sgt | sge | ult | ule | ugt | uge
  deriving DecidableEq

mutual

inductive Attribute where
  | string (value : Bytes)
  | integer (width : ℕ) (value : ℤ)
  | predicate (value : CmpIPredicate)
  | array (elements : Elements)
  | dictionary (entries : Entries)
  | other (text : Bytes)

inductive Elements where
  | nil
  | cons (element : Attribute) (rest : Elements)

inductive Entries where
  | nil
  | cons (name : String) (value : Attribute) (rest : Entries)

end

deriving instance DecidableEq for Attribute, Elements, Entries

def Elements.ofList : List Attribute → Elements
  | [] => .nil
  | element :: rest => .cons element (ofList rest)

def Elements.toList : Elements → List Attribute
  | .nil => []
  | .cons element rest => element :: rest.toList

@[simp] theorem Elements.toList_ofList (l : List Attribute) : (Elements.ofList l).toList = l := by
  induction l with
  | nil => rfl
  | cons a l ih => rw [Elements.ofList, Elements.toList, ih]

theorem Elements.ofList_inj {l l' : List Attribute} (h : Elements.ofList l = .ofList l') :
    l = l' := by
  have := congrArg Elements.toList h
  rwa [toList_ofList, toList_ofList] at this

namespace Entries

def get : Entries → String → Option Attribute
  | .nil, _ => none
  | .cons name value rest, key => if name = key then some value else rest.get key

def names : Entries → List String
  | .nil => []
  | .cons name _ rest => name :: rest.names

/-- The entries with one set, in the order of the names. -/
def set : Entries → String → Attribute → Entries
  | .nil, key, value => .cons key value .nil
  | .cons name value' rest, key, value =>
    if name = key then .cons key value rest
    else if key < name then .cons key value (.cons name value' rest)
    else .cons name value' (rest.set key value)

def ofList (entries : List (String × Attribute)) : Entries :=
  entries.foldl (fun d entry => d.set entry.1 entry.2) .nil

@[elab_as_elim]
theorem induction {motive : Entries → Prop} (nil : motive .nil)
    (cons : ∀ name value rest, motive rest → motive (.cons name value rest)) :
    ∀ d, motive d
  | .nil => nil
  | .cons name value rest => cons name value rest (induction nil cons rest)

@[simp] theorem get_nil (name : String) : nil.get name = none := by rw [get]

@[simp] theorem names_nil : nil.names = [] := by rw [names]

/-- Reading an attribute behind a store. -/
@[simp] theorem get_set (d : Entries) (name key : String) (value : Attribute) :
    (d.set key value).get name = if key = name then some value else d.get name := by
  induction d using Entries.induction with
  | nil => rfl
  | cons name' value' rest ih =>
    unfold set
    split_ifs <;> simp_all [get]

variable {value : Attribute} {key : String} {d : Entries}

@[simp] theorem length_names_set (h : d.get key = none) :
    (d.set key value).names.length = d.names.length + 1 := by
  induction d using Entries.induction with
  | nil => rfl
  | cons name' value' rest ih =>
    have hne : name' ≠ key := by
      rintro rfl
      simp [get] at h
    have hrest : rest.get key = none := by simpa [get, hne] using h
    unfold set
    rw [if_neg hne]
    split_ifs
    · rfl
    · simp only [names, List.length_cons, ih hrest]

theorem names_set {allowed : List String} (hkey : key ∈ allowed)
    (h : ∀ name ∈ d.names, name ∈ allowed) : ∀ name ∈ (d.set key value).names, name ∈ allowed := by
  induction d using Entries.induction with
  | nil => simpa [set, names] using hkey
  | cons name' value' rest ih =>
    have hrest : ∀ name ∈ rest.names, name ∈ allowed :=
      fun name hm => h name (List.mem_cons_of_mem _ hm)
    unfold set
    split_ifs with heq hlt
    · simpa [names] using ⟨hkey, hrest⟩
    · simpa [names] using ⟨hkey, h name' List.mem_cons_self, hrest⟩
    · simpa [names] using ⟨h name' List.mem_cons_self, ih hrest⟩

end Entries

/-- A value is its position among those in scope. -/
abbrev Value := ℕ

/-- An operation without its regions, which stand beside it in `Ops.cons`. -/
structure Op (N T : Type) where
  name : N
  operands : List Value
  results : List T
  attributes : Entries
  deriving DecidableEq

mutual

/-- The operations of a block. -/
inductive Ops (N T : Type) where
  | nil
  | cons (op : Op N T) (regions : Regions N T) (rest : Ops N T)

inductive Regions (N T : Type) where
  | nil
  | cons (blocks : Blocks N T) (rest : Regions N T)

/-- The blocks of a region, each with the types of its arguments. -/
inductive Blocks (N T : Type) where
  | nil
  | cons (arguments : List T) (ops : Ops N T) (rest : Blocks N T)

end

deriving instance DecidableEq for Ops, Regions, Blocks

variable {N T : Type}

namespace Ops

def append : Ops N T → Ops N T → Ops N T
  | .nil, other => other
  | .cons op regions rest, other => .cons op regions (rest.append other)

/-- Operations without regions. -/
def ofList : List (Op N T) → Ops N T
  | [] => .nil
  | op :: rest => .cons op .nil (ofList rest)

end Ops

mutual

/-- The operations of the blocks of a list of regions. -/
def Regions.bodies : Regions N T → List (Ops N T)
  | .nil => []
  | .cons blocks rest => blocks.bodies ++ rest.bodies

def Blocks.bodies : Blocks N T → List (Ops N T)
  | .nil => []
  | .cons _ ops rest => ops :: rest.bodies

end

mutual

variable {motive : Ops N T → Prop}

/-- **Induction over operations**: of a list of operations, the blocks nested in the first one
and the operations behind it. -/
@[elab_as_elim]
theorem Ops.induction (nil : motive .nil)
    (cons : ∀ op regions rest, (∀ ops ∈ regions.bodies, motive ops) → motive rest →
      motive (.cons op regions rest)) : ∀ ops, motive ops
  | .nil => nil
  | .cons op regions rest =>
    cons op regions rest (Regions.induction nil cons regions) (Ops.induction nil cons rest)

theorem Regions.induction (nil : motive .nil)
    (cons : ∀ op regions rest, (∀ ops ∈ regions.bodies, motive ops) → motive rest →
      motive (.cons op regions rest)) :
    ∀ regions : Regions N T, ∀ ops ∈ regions.bodies, motive ops
  | .nil => nofun
  | .cons blocks rest => fun ops hm => (List.mem_append.1 hm).elim
    (Blocks.induction nil cons blocks ops) (Regions.induction nil cons rest ops)

theorem Blocks.induction (nil : motive .nil)
    (cons : ∀ op regions rest, (∀ ops ∈ regions.bodies, motive ops) → motive rest →
      motive (.cons op regions rest)) :
    ∀ blocks : Blocks N T, ∀ ops ∈ blocks.bodies, motive ops
  | .nil => nofun
  | .cons _ ops' rest => fun ops hm => (List.mem_cons.1 hm).elim
    (fun h => h ▸ Ops.induction nil cons ops') (Blocks.induction nil cons rest ops)

end

/-- A value in scope: its type and the operation that defines it, if any. -/
structure Definition (N T : Type) where
  type : T
  op : Option (Op N T)

abbrev Scope (N T : Type) := List (Definition N T)

def Scope.type (scope : Scope N T) (value : Value) : Option T := scope[value]?.map (·.type)

def Scope.definingOp (scope : Scope N T) (value : Value) : Option (Op N T) :=
  scope[value]?.bind (·.op)

/-- The values an operation defines. -/
def Op.definitions (op : Op N T) : Scope N T := op.results.map fun type => ⟨type, some op⟩

/-- The arguments of a block. -/
def argumentScope (arguments : List T) : Scope N T := arguments.map fun type => ⟨type, none⟩

/-- The values that the operations of a block define. -/
def Ops.definitions : Ops N T → Scope N T
  | .nil => []
  | .cons op _ rest => op.definitions ++ rest.definitions

namespace Scope

variable {scope more : Scope N T} {value : Value}

/-- A value keeps its definition when the scope grows. -/
theorem definition_append {d : Definition N T} (h : scope[value]? = some d) :
    (scope ++ more)[value]? = some d := by
  obtain ⟨hlt, -⟩ := List.getElem?_eq_some_iff.1 h
  rw [List.getElem?_append_left hlt, h]

variable {type : T}

theorem type_append (h : scope.type value = some type) :
    Scope.type (scope ++ more) value = some type := by
  obtain ⟨d, hd, rfl⟩ := Option.map_eq_some_iff.1 h
  exact Option.map_eq_some_iff.2 ⟨d, definition_append hd, rfl⟩

theorem lt_length (h : scope.type value = some type) : value < scope.length := by
  obtain ⟨d, hd, -⟩ := Option.map_eq_some_iff.1 h
  exact (List.getElem?_eq_some_iff.1 hd).1

theorem type_result (scope : Scope N T) (op : Op N T) {i : ℕ} (h : op.results[i]? = some type) :
    Scope.type (scope ++ op.definitions) (scope.length + i) = some type := by
  unfold Scope.type Op.definitions
  rw [List.getElem?_append_right (Nat.le_add_right _ _), Nat.add_sub_cancel_left,
    List.getElem?_map, h]
  rfl

end Scope

end Mlir
