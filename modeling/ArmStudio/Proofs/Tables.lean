import ArmStudio.Script.Typing
import Mathlib.Data.List.Basic

/-!
# Tables and scopes: what is found after a change

Lookups after entering, replacing and changing names.

* `Table.find?_insert`, `Table.find?_modify` — a change is seen at its own name only;
* `Scopes.lookup?_declareLocal` — the same through nested scopes;
* `Scopes.declareLocal_of_defined` — a visible name is not declared again.
-/

namespace ArmStudio

open List

namespace Table

variable {α : Type}

def names (t : Table α) : List String := t.entries.map Prod.fst

@[simp] lemma names_empty : (empty : Table α).names = [] := rfl

@[simp] lemma find?_empty (name : String) : (empty : Table α).find? name = none := rfl

/-! ## Entering a name -/

lemma findIn_insertIn (name key : String) (value : α) (entries : List (String × α)) :
    findIn key (insertIn name value entries) =
      if name = key then some value else findIn key entries := by
  induction entries with
  | nil => simp [insertIn, findIn]
  | cons e rest ih =>
    rcases e with ⟨k, old⟩
    by_cases hk : k = name
    · subst hk
      by_cases hkey : k = key <;> simp [insertIn, findIn, hkey]
    · by_cases hkey : k = key
      · subst hkey
        simp [insertIn, findIn, hk, Ne.symm hk]
      · simp [insertIn, findIn, hk, hkey, ih]

variable (t : Table α)

lemma find?_insert (name key : String) (value : α) :
    (t.insert name value).find? key = if name = key then some value else t.find? key :=
  findIn_insertIn name key value t.entries

@[simp] lemma find?_insert_self (name : String) (value : α) :
    (t.insert name value).find? name = some value := by
  simp [find?_insert]

variable {name : String} {value : α}

lemma find?_insert_of_ne {key : String} (value : α) (h : name ≠ key) :
    (t.insert name value).find? key = t.find? key := by
  simp [find?_insert, h]

lemma contains_insert (name key : String) (value : α) :
    (t.insert name value).contains key = (decide (name = key) || t.contains key) := by
  by_cases h : name = key <;> simp [contains, find?_insert, h]

lemma findIn_isSome (name : String) (entries : List (String × α)) :
    (findIn name entries).isSome = true ↔ name ∈ entries.map Prod.fst := by
  induction entries with
  | nil => simp [findIn]
  | cons e rest ih =>
    rcases e with ⟨k, v⟩
    by_cases hk : k = name
    · simp [findIn, hk]
    · simp [findIn, hk, ih, Ne.symm hk]

lemma contains_iff (name : String) : t.contains name ↔ name ∈ t.names :=
  findIn_isSome name t.entries

lemma find?_eq_none_iff (name : String) : t.find? name = none ↔ name ∉ t.names := by
  rw [← contains_iff, contains]
  cases t.find? name <;> simp

lemma insertIn_of_not_mem (name : String) (value : α) (entries : List (String × α))
    (h : name ∉ entries.map Prod.fst) :
    insertIn name value entries = entries ++ [(name, value)] := by
  induction entries with
  | nil => rfl
  | cons e rest ih =>
    rcases e with ⟨k, v⟩
    simp only [map_cons, mem_cons, not_or] at h
    simp [insertIn, Ne.symm h.1, ih h.2]

lemma entries_insert_of_not_mem (value : α) (h : name ∉ t.names) :
    (t.insert name value).entries = t.entries ++ [(name, value)] :=
  insertIn_of_not_mem name value t.entries h

lemma names_insert_of_not_mem (value : α) (h : name ∉ t.names) :
    (t.insert name value).names = t.names ++ [name] := by
  simp [names, entries_insert_of_not_mem t value h]

lemma size_eq_length_names : t.size = t.names.length := by simp [size, names]

lemma getElem?_of_findIn {entries} (h : findIn name entries = some value) :
    entries[(entries.map Prod.fst).idxOf name]? = some (name, value) := by
  induction entries with
  | nil => cases h
  | cons e rest ih =>
    rcases e with ⟨k, v⟩
    by_cases hk : k = name
    · simp only [findIn, hk, if_true, Option.some.injEq] at h
      simp [hk, h]
    · simp only [findIn, hk, if_false] at h
      simpa [idxOf_cons_ne _ hk] using ih h

lemma getElem?_entries {t : Table α} (h : t.find? name = some value) :
    t.entries[t.names.idxOf name]? = some (name, value) :=
  getElem?_of_findIn h

lemma insertIn_of_mem (name : String) (value : α) (entries : List (String × α))
    (h : name ∈ entries.map Prod.fst) :
    insertIn name value entries =
      entries.set ((entries.map Prod.fst).idxOf name) (name, value) := by
  induction entries with
  | nil => simp at h
  | cons e rest ih =>
    rcases e with ⟨k, v⟩
    by_cases hk : k = name
    · simp [insertIn, hk]
    · have hrest : name ∈ rest.map Prod.fst := by
        simpa [Ne.symm hk] using h
      simpa [insertIn, hk, idxOf_cons_ne _ hk] using ih hrest

lemma entries_insert_of_mem (value : α) (h : name ∈ t.names) :
    (t.insert name value).entries = t.entries.set (t.names.idxOf name) (name, value) :=
  insertIn_of_mem name value t.entries h

lemma names_insert_of_mem (value : α) (h : name ∈ t.names) :
    (t.insert name value).names = t.names := by
  have hlt := idxOf_lt_length_iff.2 h
  have hself := set_getElem_self hlt
  rw [getElem_idxOf hlt] at hself
  rwa [names, entries_insert_of_mem t value h, map_set]

/-! ## Changing a name -/

variable (name key : String) (f : α → α)

lemma findIn_modifyIn (entries : List (String × α)) :
    findIn key (entries.map fun (k, v) => if k = name then (k, f v) else (k, v)) =
      if name = key then (findIn key entries).map f else findIn key entries := by
  induction entries with
  | nil => simp [findIn]
  | cons e rest ih =>
    rcases e with ⟨k, v⟩
    by_cases hk : k = name
    · subst hk
      by_cases hkey : k = key
      · simp [findIn, hkey]
      · simpa [findIn, hkey] using ih
    · by_cases hkey : k = key
      · subst hkey
        simp [findIn, hk, Ne.symm hk]
      · simpa [findIn, hk, hkey] using ih

lemma find?_modify :
    (t.modify name f).find? key = if name = key then (t.find? key).map f else t.find? key :=
  findIn_modifyIn name key f t.entries

@[simp] lemma contains_modify : (t.modify name f).contains key = t.contains key := by
  by_cases h : name = key <;> simp [contains, find?_modify, h]

end Table

namespace Script
namespace Scopes

variable {α : Type}

/-! ## Lookups through nested scopes -/

lemma findFirst_eq (name : String) (ts : List (Table α)) :
    findFirst name ts = ts.findSome? (·.find? name) := by
  induction ts with
  | nil => rfl
  | cons t rest ih => cases h : t.find? name <;> simp [findFirst, h, ih]

variable (s : Scopes α)

lemma lookup?_eq (name : String) :
    s.lookup? name = (findFirst name s.inner).or (s.outer.find? name) := by
  simp [lookup?, findFirst_eq]

@[simp] lemma lookup?_enter (name : String) : s.enter.lookup? name = s.lookup? name := by
  simp [lookup?_eq, enter, findFirst]

lemma isDefined_eq_false (name : String) : s.isDefined name = false ↔ s.lookup? name = none := by
  cases h : s.lookup? name <;> simp [isDefined, h]

variable {name : String} (info : α)

lemma declareLocal_of_defined (h : s.isDefined name) : s.declareLocal name info = (false, s) := by
  simp [declareLocal, h]

lemma localCount_declareLocal (name : String) (info : α) : (s.declareLocal name info).2.localCount =
      s.localCount + if s.isDefined name then 0 else 1 := by
  unfold declareLocal
  split
  · rfl
  · split <;> rfl

lemma declareGlobal_of_defined (h : s.isDefined name) : s.declareGlobal name info = (false, s) := by
  simp [declareGlobal, h]

lemma declareLocal_keeps (name : String) (info : α) (h : s.inner ≠ []) :
    (s.declareLocal name info).2.outer = s.outer ∧
      (s.declareLocal name info).2.inner.tail = s.inner.tail ∧
      (s.declareLocal name info).2.inner ≠ [] := by
  rcases s with ⟨outer, inner, count⟩
  cases inner with
  | nil => exact absurd rfl h
  | cons t rest =>
    cases hd : isDefined ⟨outer, t :: rest, count⟩ name <;> simp [declareLocal, hd]

lemma findFirst_declareLocal (key : String) (h : s.isDefined name = false)
    (hinner : s.inner ≠ []) :
    findFirst key (s.declareLocal name info).2.inner =
      if name = key then some info else findFirst key s.inner := by
  rcases s with ⟨outer, inner, count⟩
  cases inner with
  | nil => exact absurd rfl hinner
  | cons t rest =>
    have hdecl : (declareLocal ⟨outer, t :: rest, count⟩ name info).2.inner =
        t.insert name info :: rest := by
      simp [declareLocal, h]
    rw [hdecl]
    by_cases hk : name = key <;> simp [findFirst, Table.find?_insert, hk]

lemma lookup?_declareLocal (key : String) (h : s.isDefined name = false) :
    (s.declareLocal name info).2.lookup? key = if name = key then some info else s.lookup? key := by
  by_cases hinner : s.inner = []
  · simp [declareLocal, h, hinner, lookup?_eq, findFirst, Table.find?_insert]
  · rw [lookup?_eq, s.findFirst_declareLocal info key h hinner,
      (s.declareLocal_keeps _ info hinner).1, lookup?_eq]
    split <;> rfl

lemma isSome_findFirst (name : String) (ts : List (Table α)) :
    (findFirst name ts).isSome = ts.any (·.contains name) := by
  rw [findFirst_eq, isSome_findSome?]
  rfl

end Scopes
end Script

end ArmStudio
