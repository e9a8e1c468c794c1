import Matcore.Lib.Mlir

/-!
# Attribute dictionaries with their names in order

Attributes over any types `T`, where a string may carry a type of its own, and dictionaries whose
entries stand in the order of their names, in each attribute as well. So two dictionaries are equal
if they give every name the same attribute.
-/

namespace AttributeDict

open Mlir (Bytes)
open List (mem_cons pairwise_cons map_cons)

mutual

inductive Attr (T : Type) where
  | string (value : Bytes) (type : Option T)
  | integer (width : ℕ) (value : ℤ)
  | type (value : T)
  | array (elements : Elements T)
  | dictionary (entries : Entries T)
  | other (text : Bytes)

inductive Elements (T : Type) where
  | nil
  | cons (element : Attr T) (rest : Elements T)

inductive Entries (T : Type) where
  | nil
  | cons (name : String) (value : Attr T) (rest : Entries T)

end

deriving instance DecidableEq for Attr, Elements, Entries

variable {T : Type}

def Elements.toList : Elements T → List (Attr T)
  | .nil => []
  | .cons element rest => element :: rest.toList

namespace Entries

def get : Entries T → String → Option (Attr T)
  | .nil, _ => none
  | .cons name value rest, key => if name = key then some value else rest.get key

def names : Entries T → List String
  | .nil => []
  | .cons name _ rest => name :: rest.names

/-- The entries with one set, in the order of the names. -/
def set : Entries T → String → Attr T → Entries T
  | .nil, key, value => .cons key value .nil
  | .cons name value' rest, key, value =>
    if name = key then .cons key value rest
    else if key < name then .cons key value (.cons name value' rest)
    else .cons name value' (rest.set key value)

def Sorted (d : Entries T) : Prop := d.names.Pairwise (· < ·)

end Entries

mutual

/-- The names of all dictionaries in an attribute are in order. -/
def Attr.Canonical : Attr T → Prop
  | .array elements => elements.Canonical
  | .dictionary entries => entries.Sorted ∧ entries.Canonical
  | _ => True

def Elements.Canonical : Elements T → Prop
  | .nil => True
  | .cons element rest => element.Canonical ∧ rest.Canonical

def Entries.Canonical : Entries T → Prop
  | .nil => True
  | .cons _ value rest => value.Canonical ∧ rest.Canonical

end

theorem Attr.string_canonical (value : Bytes) (type : Option T) :
    (Attr.string value type).Canonical :=
  trivial

theorem Attr.integer_canonical (width : ℕ) (value : ℤ) :
    (Attr.integer width value : Attr T).Canonical :=
  trivial

namespace Entries

@[elab_as_elim]
theorem induction {motive : Entries T → Prop} (nil : motive .nil)
    (cons : ∀ name value rest, motive rest → motive (.cons name value rest)) :
    ∀ d, motive d
  | .nil => nil
  | .cons name value rest => cons name value rest (induction nil cons rest)

theorem get_set (d : Entries T) (name key : String) (value : Attr T) :
    (d.set key value).get name = if key = name then some value else d.get name := by
  induction d using Entries.induction with
  | nil => rfl
  | cons name' value' rest ih =>
    unfold set
    split_ifs <;> simp_all [get]

theorem mem_names_iff (d : Entries T) (name : String) : name ∈ d.names ↔ (d.get name).isSome := by
  induction d using Entries.induction with
  | nil => simp [names, get]
  | cons name' value rest ih =>
    rw [names, get, mem_cons, ih]
    by_cases h : name' = name
    · simp [h]
    · simp [h, Ne.symm h]

variable {d : Entries T} {name : String} {value : Attr T}

theorem mem_names_set {key : String} (h : name ∈ (d.set key value).names) :
    name = key ∨ name ∈ d.names := by
  rw [mem_names_iff, get_set] at h
  by_cases hkey : key = name
  · exact .inl hkey.symm
  · rw [if_neg hkey] at h
    exact .inr ((mem_names_iff d name).2 h)

theorem Sorted.set (h : d.Sorted) (key : String) (value : Attr T) : (d.set key value).Sorted := by
  induction d using Entries.induction with
  | nil => exact List.pairwise_singleton _ _
  | cons name value' rest ih =>
    obtain ⟨hfirst, hrest⟩ := pairwise_cons.1 h
    unfold Entries.set
    split_ifs with heq hlt
    · exact heq ▸ h
    · refine pairwise_cons.2 ⟨fun other hother => ?_, h⟩
      obtain rfl | hmem := mem_cons.1 hother
      · exact hlt
      · exact hlt.trans (hfirst other hmem)
    · refine pairwise_cons.2 ⟨fun other hother => ?_, ih hrest⟩
      obtain rfl | hmem := mem_names_set hother
      · exact lt_of_le_of_ne (not_lt.1 hlt) heq
      · exact hfirst other hmem

theorem Canonical.set (h : d.Canonical) (key : String) (hvalue : value.Canonical) :
    (d.set key value).Canonical := by
  induction d using Entries.induction with
  | nil => exact ⟨hvalue, h⟩
  | cons name value' rest ih =>
    unfold Entries.set
    split_ifs
    · exact ⟨hvalue, h.2⟩
    · exact ⟨hvalue, h⟩
    · exact ⟨h.1, ih h.2⟩

theorem Canonical.get (h : d.Canonical) (hget : d.get name = some value) : value.Canonical := by
  induction d using Entries.induction with
  | nil => cases hget
  | cons name' value' rest ih =>
    rw [Entries.get] at hget
    split_ifs at hget
    · exact Option.some.inj hget ▸ h.1
    · exact ih h.2 hget

theorem get_of_lt (h : ∀ other ∈ d.names, name < other) : d.get name = none := by
  rw [← Option.not_isSome_iff_eq_none, ← mem_names_iff]
  exact fun hmem => lt_irrefl _ (h name hmem)

/-- The first name of sorted entries is the least that they have. -/
theorem ext_get {e : Entries T} (hd : d.Sorted) (he : e.Sorted)
    (h : ∀ name, d.get name = e.get name) : d = e := by
  induction d using Entries.induction generalizing e with
  | nil =>
    cases e with
    | nil => rfl
    | cons name value rest =>
      have := h name
      simp [get] at this
  | cons name value rest ih =>
    cases e with
    | nil =>
      have := h name
      simp [get] at this
    | cons name' value' rest' =>
      obtain ⟨hfirst, hrest⟩ := pairwise_cons.1 hd
      obtain ⟨hfirst', hrest'⟩ := pairwise_cons.1 he
      have hname : name = name' := by
        rcases lt_trichotomy name name' with hlt | heq | hlt
        · have hmissing : rest'.get name = none :=
            get_of_lt fun other hother => hlt.trans (hfirst' other hother)
          have := h name
          simp [get, hlt.ne', hmissing] at this
        · exact heq
        · have hmissing : rest.get name' = none :=
            get_of_lt fun other hother => hlt.trans (hfirst other hother)
          have := h name'
          simp [get, hlt.ne', hmissing] at this
      subst hname
      have hvalue := h name
      simp only [get, if_true, Option.some.injEq] at hvalue
      subst hvalue
      rw [ih hrest hrest' fun other => ?_]
      by_cases hother : name = other
      · subst hother
        rw [get_of_lt hfirst, get_of_lt hfirst']
      · simpa [get, hother] using h other

end Entries

/-- An attribute dictionary, in order. -/
structure Dictionary (T : Type) where
  entries : Entries T
  sorted : entries.Sorted
  canonical : entries.Canonical

instance [DecidableEq T] : DecidableEq (Dictionary T) := fun d e =>
  decidable_of_iff (d.entries = e.entries) ⟨fun h => by cases d; cases e; cases h; rfl, congrArg _⟩

namespace Dictionary

def empty : Dictionary T := ⟨.nil, List.Pairwise.nil, trivial⟩

def get (d : Dictionary T) (name : String) : Option (Attr T) := d.entries.get name

def names (d : Dictionary T) : List String := d.entries.names

def set (d : Dictionary T) (name : String) (value : Attr T) (h : value.Canonical) : Dictionary T :=
  ⟨d.entries.set name value, d.sorted.set name value, d.canonical.set name h⟩

/-- The attribute that a dictionary is. -/
def attr (d : Dictionary T) : Attr T := .dictionary d.entries

theorem attr_canonical (d : Dictionary T) : d.attr.Canonical := ⟨d.sorted, d.canonical⟩

variable {d : Dictionary T} {name : String}

theorem get_canonical {value : Attr T} (h : d.get name = some value) : value.Canonical :=
  d.canonical.get h

/-- The dictionary that an attribute of the dictionary is. -/
def sub (d : Dictionary T) (name : String) : Option (Dictionary T) :=
  match h : d.get name with
  | some (.dictionary entries) => some ⟨entries, (get_canonical h).1, (get_canonical h).2⟩
  | _ => none

/-- The value under another name of another dictionary, where there is one. -/
def setFrom (d : Dictionary T) (name : String) (source : Dictionary T) (sourceName : String) :
    Dictionary T :=
  match h : source.get sourceName with
  | some value => d.set name value (get_canonical h)
  | none => d

/-- A string without a type of its own. -/
def setString (d : Dictionary T) (name : String) (value : Bytes) : Dictionary T :=
  d.set name (.string value none) (Attr.string_canonical value none)

def setInteger (d : Dictionary T) (name : String) (width : ℕ) (value : ℤ) : Dictionary T :=
  d.set name (.integer width value) (Attr.integer_canonical width value)

@[simp] theorem get_empty (name : String) : (empty : Dictionary T).get name = none := rfl

@[simp] theorem get_set (d : Dictionary T) (name key : String) (value : Attr T)
    (h : value.Canonical) :
    (d.set key value h).get name = if key = name then some value else d.get name :=
  d.entries.get_set name key value

@[simp] theorem get_setString (d : Dictionary T) (name key : String) (value : Bytes) :
    (d.setString key value).get name =
      if key = name then some (.string value none) else d.get name :=
  get_set d name key (.string value none) (Attr.string_canonical value none)

@[simp] theorem get_setInteger (d : Dictionary T) (name key : String) (width : ℕ) (value : ℤ) :
    (d.setInteger key width value).get name =
      if key = name then some (.integer width value) else d.get name :=
  get_set d name key (.integer width value) (Attr.integer_canonical width value)

theorem get_setFrom (d source : Dictionary T) (name key sourceName : String) :
    (d.setFrom key source sourceName).get name =
      if key = name then (source.get sourceName).or (d.get name) else d.get name := by
  unfold setFrom
  split
  · rename_i value h
    rw [get_set, h, Option.some_or]
  · rename_i h
    rw [h, Option.none_or, ite_self]

/-- The values of another dictionary, each from one name to another. -/
def copy (d source : Dictionary T) (fields : List (String × String)) : Dictionary T :=
  fields.foldl (fun target field => target.setFrom field.2 source field.1) d

variable {source : Dictionary T} {fields : List (String × String)}

theorem get_copy_of_notMem (h : name ∉ fields.map Prod.snd) :
    (d.copy source fields).get name = d.get name := by
  induction fields generalizing d with
  | nil => rfl
  | cons field rest ih =>
    rw [map_cons, mem_cons, not_or] at h
    change ((d.setFrom field.2 source field.1).copy source rest).get name = _
    rw [ih h.2, get_setFrom, if_neg (Ne.symm h.1)]

theorem get_copy_of_mem (hnodup : (fields.map Prod.snd).Nodup) {sourceName : String}
    (h : (sourceName, name) ∈ fields) :
    (d.copy source fields).get name = (source.get sourceName).or (d.get name) := by
  induction fields generalizing d with
  | nil => cases h
  | cons field rest ih =>
    rw [map_cons, List.nodup_cons] at hnodup
    change ((d.setFrom field.2 source field.1).copy source rest).get name = _
    obtain rfl | hmem := mem_cons.1 h
    · rw [get_copy_of_notMem hnodup.1, get_setFrom, if_pos rfl]
    · have hne : field.2 ≠ name := by
        intro heq
        exact hnodup.1 (heq ▸ List.mem_map_of_mem hmem)
      rw [ih hnodup.2 hmem, get_setFrom, if_neg hne]

variable {e : Dictionary T}

theorem sub_eq_some_iff : d.sub name = some e ↔ d.get name = some e.attr := by
  unfold sub
  split
  · rename_i entries h
    constructor
    · rintro heq
      obtain rfl := Option.some.inj heq
      exact h
    · intro heq
      obtain rfl : entries = e.entries := by simpa [h, attr] using heq
      rfl
  · rename_i h
    simp only [reduceCtorEq, false_iff]
    exact fun heq => h _ heq

theorem mem_names_iff (d : Dictionary T) (name : String) :
    name ∈ d.names ↔ (d.get name).isSome :=
  d.entries.mem_names_iff name

theorem nodup_names (d : Dictionary T) : d.names.Nodup :=
  d.sorted.imp fun h => h.ne

/-- Two dictionaries are equal if they give every name the same attribute. -/
theorem ext_get (h : ∀ name, d.get name = e.get name) : d = e := by
  obtain ⟨d, hd, hd'⟩ := d
  obtain ⟨e, he, he'⟩ := e
  obtain rfl := Entries.ext_get hd he h
  rfl

/-- The names of a dictionary are these. -/
def Exact (d : Dictionary T) (names : List String) : Prop :=
  ∀ name, name ∈ d.names ↔ name ∈ names

variable {names : List String}

/-- Only the names that both may have are to be compared. -/
theorem eq_of_names (hd : d.Exact names) (he : e.Exact names)
    (h : ∀ name ∈ names, d.get name = e.get name) : d = e := by
  refine ext_get fun name => ?_
  by_cases hmem : name ∈ names
  · exact h name hmem
  · have hnone : ∀ f : Dictionary T, f.Exact names → f.get name = none := by
      intro f hf
      rw [← Option.not_isSome_iff_eq_none, ← mem_names_iff]
      exact fun hname => hmem ((hf name).1 hname)
    rw [hnone d hd, hnone e he]

/-- A dictionary has exactly the expected names if it has as many, and no other. -/
theorem exact_of_length (hlength : d.names.length = names.length)
    (h : ∀ name ∈ d.names, name ∈ names) : d.Exact names := by
  have hsub : d.names.Subperm names := d.nodup_names.subperm h
  have hperm : d.names.Perm names := hsub.perm_of_length_le hlength.ge
  exact fun name => hperm.mem_iff

theorem Exact.length (hnames : names.Nodup) (h : d.Exact names) : d.names.length = names.length :=
  ((List.perm_ext_iff_of_nodup d.nodup_names hnames).2 h).length_eq

end Dictionary

end AttributeDict
