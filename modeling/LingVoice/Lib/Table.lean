import Mathlib.Data.List.AList

/-!
# Table — a table that is changed in one pass

An `AList` is a table with distinct keys.  Its entries are changed in place by `mapValues` and several of them are
removed by `eraseAll`; the lemmas say what either leaves as a list of entries.
-/

namespace LingVoice.Lib.Table

open List

variable {κ ν : Type}

def mapValues (f : ν → ν) (table : AList fun _ : κ => ν) : AList fun _ : κ => ν where
  entries := table.entries.map fun e => ⟨e.1, f e.2⟩
  nodupKeys := by
    rw [List.NodupKeys, List.keys, map_map]
    exact table.nodupKeys

theorem mem_mapValues {f : ν → ν} {table : AList fun _ : κ => ν} {key : κ} : key ∈ mapValues f table ↔ key ∈ table := by
  have hkeys : (mapValues f table).keys = table.keys := by
    rw [AList.keys, mapValues, List.keys, map_map]
    rfl
  rw [AList.mem_keys, AList.mem_keys, hkeys]

variable [DecidableEq κ]

def eraseAll (table : AList fun _ : κ => ν) (keys : List κ) : AList fun _ : κ => ν :=
  keys.foldl (fun table key => table.erase key) table

theorem entries_erase (table : AList fun _ : κ => ν) (key : κ) :
    (table.erase key).entries = table.entries.filter fun e => e.1 ≠ key := by
  obtain ⟨entries, hnodup⟩ := table
  change List.kerase key entries = _
  induction entries with
  | nil => rfl
  | cons e rest ih =>
    obtain ⟨hnew, hrest⟩ := nodupKeys_cons.1 hnodup
    by_cases hkey : key = e.1
    · -- keys are distinct, so no other entry goes
      have hkeep : rest.filter (fun e => e.1 ≠ key) = rest := by
        apply filter_eq_self.2
        intro other hother
        apply decide_eq_true
        rintro rfl
        exact hnew (hkey ▸ mem_keys_of_mem hother)
      rw [kerase_cons_eq hkey, filter_cons_of_neg (by simp [hkey]), hkeep]
    · rw [kerase_cons_ne hkey, filter_cons_of_pos (by simpa using Ne.symm hkey), ih hrest]

theorem entries_eraseAll (table : AList fun _ : κ => ν) (keys : List κ) :
    (eraseAll table keys).entries = table.entries.filter fun e => e.1 ∉ keys := by
  induction keys generalizing table with
  | nil => simp [eraseAll]
  | cons k rest ih =>
    rw [eraseAll, foldl_cons, ← eraseAll, ih, entries_erase, filter_filter]
    apply filter_congr
    intro e _
    simp [Bool.and_comm]

end LingVoice.Lib.Table
