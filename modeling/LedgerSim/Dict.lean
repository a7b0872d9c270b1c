import Mathlib.Data.List.Basic
import Mathlib.Data.List.Dedup
import Mathlib.Tactic.Common

/-!
# Dictionaries as write logs

A mutable dictionary is kept as the list of its writes, newest first.  Reading
a key finds the newest write; older writes under the same key can no longer be
read, but they stay in the log, so that a property of everything ever written
can be stated of one state.
-/

structure Dict (κ ν : Type) where
  /-- All writes so far, the newest first. -/
  writes : List (κ × ν)

namespace Dict

variable {κ ν : Type} [DecidableEq κ]

def empty : Dict κ ν :=
  ⟨[]⟩

def get (d : Dict κ ν) (key : κ) : Option ν :=
  d.writes.lookup key

def set (d : Dict κ ν) (key : κ) (value : ν) : Dict κ ν :=
  ⟨(key, value) :: d.writes⟩

/-- Everything ever written under some key. -/
def values (d : Dict κ ν) : List ν :=
  d.writes.map Prod.snd

@[simp] theorem get_empty (key : κ) :
    (empty : Dict κ ν).get key = none := rfl

theorem get_set (d : Dict κ ν) (key key' : κ) (value : ν) :
    (d.set key value).get key' =
      if key' = key then some value else d.get key' := by
  by_cases h : key' = key
  · subst key'
    simp [get, set]
  · have hbeq : (key' == key) = false := by simpa using h
    simp [get, set, List.lookup_cons, hbeq, h]

@[simp] theorem get_set_self (d : Dict κ ν) (key : κ) (value : ν) :
    (d.set key value).get key = some value := by
  simp [get_set]

section Fold

variable {α : Type} {f : α → κ} (value : κ → ν) {l : List α} (d : Dict κ ν)
  {key : κ}

theorem get_foldl_set_of_notMem (h : key ∉ l.map f) :
    (l.foldl (fun d a => d.set (f a) (value (f a))) d).get key =
      d.get key := by
  induction l generalizing d with
  | nil => rfl
  | cons a rest ih =>
      rw [List.map_cons, List.mem_cons, not_or] at h
      rw [List.foldl_cons, ih _ h.2, get_set, if_neg h.1]

/-- Writing values that are determined by their keys. -/
theorem get_foldl_set_of_mem (h : key ∈ l.map f) :
    (l.foldl (fun d a => d.set (f a) (value (f a))) d).get key =
      some (value key) := by
  induction l generalizing d with
  | nil => simp at h
  | cons a rest ih =>
      rw [List.foldl_cons]
      by_cases hrest : key ∈ rest.map f
      · exact ih _ hrest
      · rw [get_foldl_set_of_notMem value _ hrest]
        obtain rfl : key = f a := by simpa [hrest] using h
        exact get_set_self d _ _

end Fold

omit [DecidableEq κ] in
@[simp] theorem values_set (d : Dict κ ν) (key : κ) (value : ν) :
    (d.set key value).values = value :: d.values := rfl

omit [DecidableEq κ] in
@[simp] theorem values_empty : (empty : Dict κ ν).values = [] := rfl

theorem mem_writes_of_get {d : Dict κ ν} {key : κ} {value : ν}
    (h : d.get key = some value) : (key, value) ∈ d.writes := by
  rcases d with ⟨writes⟩
  change writes.lookup key = some value at h
  induction writes with
  | nil => simp at h
  | cons write rest ih =>
      rw [List.lookup_cons] at h
      split at h
      next hkey =>
        have : key = write.1 := by simpa using hkey
        have : write.2 = value := by simpa using h
        subst key value
        exact List.mem_cons_self
      next => exact List.mem_cons_of_mem _ (ih h)

theorem mem_values_of_get {d : Dict κ ν} {key : κ} {value : ν}
    (h : d.get key = some value) : value ∈ d.values :=
  List.mem_map.mpr ⟨(key, value), mem_writes_of_get h, rfl⟩

/-- Any written key can be read, though perhaps with a newer value. -/
theorem exists_get_of_mem_writes {d : Dict κ ν} {key : κ} {value : ν}
    (h : (key, value) ∈ d.writes) : ∃ newest, d.get key = some newest := by
  rcases d with ⟨writes⟩
  change (key, value) ∈ writes at h
  change ∃ newest, writes.lookup key = some newest
  induction writes with
  | nil => simp at h
  | cons write rest ih =>
      rw [List.lookup_cons]
      by_cases hkey : key = write.1
      · exact ⟨write.2, by simp [hkey]⟩
      · have hbeq : (key == write.1) = false := by simpa using hkey
        have hrest : (key, value) ∈ rest := by
          rcases List.mem_cons.mp h with heq | hmem
          · exact absurd (congrArg Prod.fst heq) hkey
          · exact hmem
        simpa [hbeq] using ih hrest

/-- The keys in the order of their first writes, in which Python iterates. -/
def keys (d : Dict κ ν) : List κ :=
  (d.writes.map Prod.fst).dedup.reverse

/-- `d.values()`: the value of each key. -/
def currentValues (d : Dict κ ν) : List ν :=
  d.keys.filterMap d.get

theorem mem_currentValues_iff {d : Dict κ ν} {value : ν} :
    value ∈ d.currentValues ↔ ∃ key, d.get key = some value := by
  unfold currentValues
  rw [List.mem_filterMap]
  constructor
  · rintro ⟨key, -, hvalue⟩
    exact ⟨key, hvalue⟩
  · rintro ⟨key, hvalue⟩
    have hmem := List.mem_map_of_mem (f := Prod.fst) (mem_writes_of_get hvalue)
    exact ⟨key, List.mem_reverse.mpr (List.mem_dedup.mpr hmem), hvalue⟩

end Dict
