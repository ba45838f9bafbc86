namespace StyleMixins

/-- Keys and values in order of first insertion. -/
abbrev Entries (α : Type) := List (String × α)

namespace Entries

variable {α : Type}

def find? : Entries α → String → Option α
  | [], _ => none
  | (k, v) :: rest, key => if k = key then some v else find? rest key

def put : Entries α → String → α → Entries α
  | [], key, value => [(key, value)]
  | (k, v) :: rest, key, value =>
    if k = key then (key, value) :: rest else (k, v) :: put rest key value

def remove : Entries α → String → Entries α
  | [], _ => []
  | (k, v) :: rest, key => if k = key then remove rest key else (k, v) :: remove rest key

def ofPairs (pairs : List (String × α)) : Entries α :=
  pairs.foldl (fun table pair => table.put pair.1 pair.2) []

/-- The pairs by rising key, compared by code points. -/
def sorted (table : Entries α) : Entries α :=
  table.mergeSort fun a b => decide (a.1 ≤ b.1)

theorem find?_put_self (table : Entries α) (key : String) (value : α) :
    (table.put key value).find? key = some value := by
  induction table with
  | nil => simp [put, find?]
  | cons entry rest ih =>
    obtain ⟨k, v⟩ := entry
    by_cases h : k = key <;> simp [put, find?, h, ih]

theorem find?_put_other (table : Entries α) {key other : String} (value : α) (h : key ≠ other) :
    (table.put key value).find? other = table.find? other := by
  induction table with
  | nil => simp [put, find?, h]
  | cons entry rest ih =>
    obtain ⟨k, v⟩ := entry
    by_cases hk : k = key
    · subst hk; simp [put, find?, h]
    · by_cases ho : k = other
      · subst ho; simp [put, find?, hk]
      · simp [put, find?, hk, ho, ih]

/-- The last of the pairs put under a key is found, or else what was there before. -/
theorem find?_foldl_put (pairs : List (String × α)) (table : Entries α) (key : String) :
    (pairs.foldl (fun table pair => table.put pair.1 pair.2) table).find? key =
      (((pairs.filter fun pair => pair.1 = key).getLast?).map Prod.snd).or (table.find? key) := by
  induction pairs generalizing table with
  | nil => rfl
  | cons pair pairs ih =>
    rw [List.foldl_cons, ih]
    by_cases h : pair.1 = key
    · subst h
      rw [find?_put_self, List.filter_cons_of_pos (by simp), List.getLast?_cons]
      cases (pairs.filter fun p => p.1 = pair.1).getLast? <;> rfl
    · rw [find?_put_other table pair.2 h, List.filter_cons_of_neg (by simpa using h)]

theorem mem_of_getLast?_filter {pairs : List (String × α)} {key : String} {value : α}
    (h : (((pairs.filter fun pair => pair.1 = key).getLast?).map Prod.snd) = some value) : (key, value) ∈ pairs := by
  obtain ⟨pair, hlast, rfl⟩ := Option.map_eq_some_iff.mp h
  obtain ⟨hmem, hkey⟩ := List.mem_filter.mp (List.mem_of_getLast? hlast)
  rw [decide_eq_true_eq] at hkey
  subst hkey
  exact hmem

end Entries

end StyleMixins
