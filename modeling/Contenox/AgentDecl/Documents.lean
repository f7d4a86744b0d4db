/-
# TOML documents, and what lies over them

`agents.toml` is read in layers: what ships with the binary, the operator's file over it, the
section of one agent over that.  Where a layer must be able to OMIT a key, the document is kept
raw, and layers are laid over each other key by key: tables into tables, everything else in the
place of what was there.  A list is such a value: an overlay that states one replaces it whole.

A Go map is an association list here, in which the first entry of a key counts.
-/
import Contenox.Lib.GoStrings
import Mathlib.Data.List.Dedup
import Mathlib.Data.List.Sort

variable {β : Type}

namespace Contenox.AgentDecl

open Lib

/-! ## 1. Values -/

/-- A decoded value.  `other` is one of a type that no key takes, under its Go name. -/
inductive Raw
  | str (s : String)
  | int (n : Int)
  | bool (b : Bool)
  | list (items : List Raw)
  | table (entries : List (String × Raw))
  | other (goType : String)

/-- `map[string]any`. -/
abbrev Doc := List (String × Raw)

/-- `%T`. -/
def Raw.goType : Raw → String
  | .str _ => "string"
  | .int _ => "int64"
  | .bool _ => "bool"
  | .list _ => "[]interface {}"
  | .table _ => "map[string]interface {}"
  | .other t => t

def sortedKeys {β : Type} (m : List (String × β)) : List String :=
  (m.map Prod.fst).dedup.insertionSort (· ≤ ·)

theorem mem_sortedKeys {m : List (String × β)} {k : String} :
    k ∈ sortedKeys m ↔ (m.lookup k).isSome := by
  rw [sortedKeys, List.mem_insertionSort, List.mem_dedup]
  simp [List.lookup_isSome_iff]

theorem nodup_sortedKeys (m : List (String × β)) : (sortedKeys m).Nodup :=
  (List.perm_insertionSort _ _).nodup_iff.mpr (List.nodup_dedup _)

/-! ## 2. Layers -/

mutual

/-- What an overlay's value makes of the value that was there. -/
def mergeValue (prior : Option Raw) : Raw → Raw
  | .table sub =>
    match prior with
    | some (.table p) => .table (mergeEntries p sub ++ p)
    | _ => .table sub
  | v => v

/-- The overlay's entries, each merged into the base. -/
def mergeEntries (base : List (String × Raw)) : List (String × Raw) → List (String × Raw)
  | [] => []
  | e :: rest => mergeEntry base e :: mergeEntries base rest

def mergeEntry (base : List (String × Raw)) : String × Raw → String × Raw
  | (k, v) => (k, mergeValue (base.lookup k) v)

end

def mergeRaw (base overlay : Doc) : Doc := mergeEntries base overlay ++ base

def mergeRawSections (base overlay : List (String × Doc)) : List (String × Doc) :=
  overlay.map (fun s => (s.1, match base.lookup s.1 with
    | none => s.2
    | some section_ => mergeRaw section_ s.2)) ++ base

theorem lookup_mergeEntries (base overlay : Doc) (k : String) :
    (mergeEntries base overlay).lookup k = (overlay.lookup k).map (mergeValue (base.lookup k)) := by
  induction overlay with
  | nil => simp [mergeEntries]
  | cons e rest ih =>
    obtain ⟨k', v⟩ := e
    rw [mergeEntries, mergeEntry, List.lookup_cons, List.lookup_cons]
    by_cases h : k = k'
    · subst h
      simp
    · rw [beq_false_of_ne h]
      exact ih

/-- A key of a merged document: the overlay's value merged into the base's, or the base's. -/
theorem lookup_mergeRaw (base overlay : Doc) (k : String) :
    (mergeRaw base overlay).lookup k =
      ((overlay.lookup k).map (mergeValue (base.lookup k))).or (base.lookup k) := by
  unfold mergeRaw
  rw [List.lookup_append, lookup_mergeEntries]

theorem lookup_mergeRawSections (base overlay : List (String × Doc)) (name : String) :
    (mergeRawSections base overlay).lookup name =
      ((overlay.lookup name).map fun s => ((base.lookup name).map (mergeRaw · s)).getD s).or
        (base.lookup name) := by
  unfold mergeRawSections
  rw [List.lookup_append]
  congr 1
  induction overlay with
  | nil => rfl
  | cons e rest ih =>
    obtain ⟨n, s⟩ := e
    rw [List.map_cons, List.lookup_cons, List.lookup_cons]
    by_cases h : name = n
    · subst h
      cases base.lookup name with
      | none | some _ => simp
    · rw [beq_false_of_ne h]
      exact ih

theorem mergeValue_table (prior : Option Raw) (t : Doc) :
    ∃ t', mergeValue prior (.table t) = .table t' := by
  cases prior with
  | none => exact ⟨_, rfl⟩
  | some p => cases p <;> exact ⟨_, rfl⟩

/-- Only a table is merged; every other value takes the place of what was there.  So a reader
that refuses tables reads what the overlay states. -/
theorem ok_of_mergeValue {read : Raw → Except String β} {prior : Option Raw} {v : Raw} {b : β}
    (hrefuses : ∀ t, read (.table t) ≠ .ok b) (h : read (mergeValue prior v) = .ok b) :
    read v = .ok b := by
  cases v with
  | table t =>
    obtain ⟨t', ht'⟩ := mergeValue_table prior t
    rw [ht'] at h
    exact absurd h (hrefuses t')
  | _ => simpa [mergeValue] using h

/-! ## 3. Reading a block -/

section

variable (block : Doc) (key : String)

def blockInt : Except String Int :=
  match block.lookup key with
  | none => .ok 0
  | some (.int n) => .ok n
  | some v => .error (key ++ " must be an integer, got " ++ v.goType)

/-- The value, if the key is there. -/
def blockBool : Except String (Option Bool) :=
  match block.lookup key with
  | none => .ok none
  | some (.bool b) => .ok (some b)
  | some v => .error (key ++ " must be true or false, got " ++ v.goType)

def blockString : Except String String :=
  match block.lookup key with
  | none => .ok ""
  | some (.str s) => .ok (GoStrings.trimSpace s)
  | some v => .error (key ++ " must be a string, got " ++ v.goType)

/-- The items of a list of strings, from index `i` on. -/
def stringItems : Nat → List Raw → Except String (List String)
  | _, [] => .ok []
  | i, .str s :: rest => (stringItems (i + 1) rest).map (s :: ·)
  | i, v :: _ => .error (key ++ "[" ++ toString i ++ "] must be a string, got " ++ v.goType)

def blockStrings : Except String (List String) :=
  match block.lookup key with
  | none => .ok []
  | some (.list items) => stringItems key 0 items
  | some v => .error (key ++ " must be a list of strings, got " ++ v.goType)

end

end Contenox.AgentDecl
