import Mathlib.Data.List.Basic

/-!
# Records — records one after the other

`read` takes one record off the front of the data.  `records read` takes records until nothing is left; it is `none`
when what is left is not a record.  A reader that makes no progress is cut off by the length of the data.
-/

namespace LingVoice.Lib

open List

variable {α ρ : Type}

def readRecords (read : List α → Option (ρ × List α)) : Nat → List α → Option (List ρ)
  | _, [] => some []
  | 0, _ :: _ => none
  | fuel + 1, a :: data =>
    match read (a :: data) with
    | none => none
    | some (r, rest) => (readRecords read fuel rest).map (r :: ·)

def records (read : List α → Option (ρ × List α)) (data : List α) : Option (List ρ) :=
  readRecords read data.length data

variable {read : List α → Option (ρ × List α)}

/-- A loop that goes on with smaller arguments only.  Once its budget is the size of the argument, a larger one changes
nothing. -/
theorem loop_fuel {σ β : Type} {size : σ → Nat} {loop : Nat → σ → β} (hzero : ∀ s, size s = 0 → loop 0 s = loop 1 s)
    (hsucc : ∀ n s, (∀ s', size s' < size s → loop n s' = loop (n + 1) s') → loop (n + 1) s = loop (n + 2) s)
    {m n : Nat} {s : σ} (hm : size s ≤ m) (hn : size s ≤ n) : loop m s = loop n s := by
  have hone (k : Nat) : ∀ s, size s ≤ k → loop k s = loop (k + 1) s := by
    induction k with
    | zero => exact fun s hs => hzero s (Nat.le_zero.1 hs)
    | succ k ih => exact fun s hs => hsucc k s fun s' hlt => ih s' (Nat.le_of_lt_succ (Nat.lt_of_lt_of_le hlt hs))
  have hsize (k : Nat) (hk : size s ≤ k) : loop k s = loop (size s) s := by
    induction hk with
    | refl => rfl
    | step hk ih => rw [← hone _ s hk, ih]
  rw [hsize m hm, hsize n hn]

@[simp] theorem records_nil : records read [] = some [] := rfl

theorem eq_nil_of_records {data : List α} (h : records read data = some []) : data = [] := by
  cases data with
  | nil => rfl
  | cons a data =>
    rw [records, length_cons, readRecords] at h
    split at h
    · cases h
    · obtain ⟨rs, -, hcons⟩ := Option.map_eq_some_iff.1 h
      cases hcons

variable (hread : ∀ data r rest, read data = some (r, rest) → rest.length < data.length)

include hread

/-- More turns than there are elements change nothing, for a reader that makes progress. -/
theorem readRecords_fuel {m n : Nat} {data : List α} (hm : data.length ≤ m) (hn : data.length ≤ n) :
    readRecords read m data = readRecords read n data := by
  refine loop_fuel (fun data hnil => by rw [length_eq_zero_iff.1 hnil]; rfl) ?_ hm hn
  intro n data ih
  cases data with
  | nil => rfl
  | cons a data =>
    rw [readRecords, readRecords]
    cases hone : read (a :: data) with
    | none => rfl
    | some r => simp only [ih r.2 (hread _ _ _ hone)]

theorem records_cons {data rest : List α} {r : ρ} (h : read data = some (r, rest)) :
    records read data = (records read rest).map (r :: ·) := by
  have hlt := hread _ _ _ h
  cases data with
  | nil => exact absurd hlt (Nat.not_lt_zero _)
  | cons a data =>
    have hfuel : readRecords read data.length rest = readRecords read rest.length rest := by
      apply readRecords_fuel hread
      · exact Nat.le_of_lt_succ hlt
      · exact Nat.le_refl _
    rw [records, length_cons, readRecords, h]
    simp only [hfuel]
    rfl

theorem exists_of_records_cons {data : List α} {r : ρ} {rs : List ρ} (h : records read data = some (r :: rs)) :
    ∃ rest, read data = some (r, rest) ∧ records read rest = some rs := by
  cases hone : read data with
  | none =>
    cases data with
    | nil => cases h
    | cons a data =>
      rw [records, length_cons, readRecords, hone] at h
      cases h
  | some first =>
    rw [records_cons hread hone] at h
    rcases Option.map_eq_some_iff.1 h with ⟨rs', hrest, hcons⟩
    obtain ⟨rfl, rfl⟩ := List.cons.inj hcons
    exact ⟨first.2, rfl, hrest⟩

/-- A reader that reads every encoding back, whatever follows it, reads a list of them back. -/
theorem records_flatMap {ε : Type} {encode : ε → List α} {decoded : ε → ρ} {entries : List ε}
    (hencode : ∀ e ∈ entries, ∀ rest, read (encode e ++ rest) = some (decoded e, rest)) :
    records read (entries.flatMap encode) = some (entries.map decoded) := by
  induction entries with
  | nil => rfl
  | cons e entries ih =>
    rw [forall_mem_cons] at hencode
    rw [flatMap_cons, records_cons hread (hencode.1 _), ih hencode.2]
    rfl

end LingVoice.Lib
