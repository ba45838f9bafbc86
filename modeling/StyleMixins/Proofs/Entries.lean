import StyleMixins.Entries
import Mathlib.Data.List.Nodup

namespace StyleMixins

/-- The value of the last of the pairs with a key. -/
def Entries.last? {α : Type} (pairs : List (String × α)) (key : String) : Option α :=
  ((pairs.filter fun pair => pair.1 = key).getLast?).map Prod.snd

theorem Entries.last?_append {α : Type} (pairs more : List (String × α)) (key : String) :
    last? (pairs ++ more) key = (last? more key).or (last? pairs key) := by
  rw [last?, List.filter_append, List.getLast?_append, Option.map_or]
  rfl

theorem Entries.last?_concat {α : Type} (pairs : List (String × α)) (pair : String × α) (key : String) :
    last? (pairs ++ [pair]) key = if pair.1 = key then some pair.2 else last? pairs key := by
  rw [last?_append, last?, List.filter_singleton]
  by_cases h : pair.1 = key <;> simp [h]

namespace Entries

variable {α : Type} {table : Entries α} {pairs : List (String × α)} {key other : String}

def keys (table : Entries α) : List String :=
  table.map Prod.fst

theorem isSome_find?_iff : (table.find? key).isSome = true ↔ key ∈ table.keys := by
  induction table with
  | nil => simp [find?, keys]
  | cons entry rest ih =>
    obtain ⟨k, v⟩ := entry
    have hkeys : keys ((k, v) :: rest) = k :: keys rest := rfl
    rw [hkeys, List.mem_cons, ← ih]
    by_cases h : k = key
    · simp [find?, h]
    · simp [find?, h, Ne.symm h]

theorem isSome_last?_iff : (last? pairs key).isSome = true ↔ key ∈ pairs.map Prod.fst := by
  rw [last?, List.getLast?_filter, Option.isSome_map, List.find?_isSome, List.mem_map]
  simp

theorem mem_keys_put (value : α) : other ∈ (table.put key value).keys ↔ other = key ∨ other ∈ table.keys := by
  rw [← isSome_find?_iff, ← isSome_find?_iff]
  by_cases h : key = other
  · subst h
    simp [find?_put_self]
  · rw [find?_put_other table value h]
    simp [Ne.symm h]

theorem nodup_keys_put (h : table.keys.Nodup) (key : String) (value : α) : (table.put key value).keys.Nodup := by
  induction table with
  | nil => simp [put, keys]
  | cons entry rest ih =>
    obtain ⟨k, v⟩ := entry
    obtain ⟨hk, hrest⟩ := List.nodup_cons.mp h
    by_cases he : k = key
    · subst he
      simpa [put, keys] using h
    · have hput : (put ((k, v) :: rest) key value).keys = k :: (put rest key value).keys := by simp [put, keys, he]
      rw [hput]
      refine List.nodup_cons.mpr ⟨fun hm => ?_, ih hrest⟩
      rcases (mem_keys_put value).mp hm with rfl | hm
      · exact he rfl
      · exact hk hm

theorem nodup_keys_ofPairs (pairs : List (String × α)) : (ofPairs pairs).keys.Nodup := by
  have hfold : ∀ table : Entries α, table.keys.Nodup →
      (pairs.foldl (fun table pair => table.put pair.1 pair.2) table).keys.Nodup := by
    induction pairs with
    | nil => exact fun table h => h
    | cons pair pairs ih => exact fun table h => ih _ (nodup_keys_put h pair.1 pair.2)
  exact hfold [] List.nodup_nil

theorem ofPairs_concat (pairs : List (String × α)) (pair : String × α) :
    ofPairs (pairs ++ [pair]) = (ofPairs pairs).put pair.1 pair.2 :=
  List.foldl_append

theorem find?_ofPairs (pairs : List (String × α)) (key : String) : (ofPairs pairs).find? key = last? pairs key :=
  (find?_foldl_put pairs [] key).trans Option.or_none

theorem mem_keys_ofPairs : key ∈ (ofPairs pairs).keys ↔ key ∈ pairs.map Prod.fst := by
  rw [← isSome_find?_iff, find?_ofPairs, isSome_last?_iff]

end Entries

end StyleMixins
