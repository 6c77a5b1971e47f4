import Std.Data.TreeMap

/-!
# Maps as ascending lists of entries

* `SortedMap κ α` : keys in strictly ascending order of `compare`, so equal maps are equal lists;
* `find?`, `contains`, `insert`, `erase`, `ofList` (of two entries with one key the later stays),
  `keys`, `size`.

Every answer that lists the entries of a map lists them in this order.
-/

namespace OriginGate

/-- Entries whose keys ascend strictly. -/
abbrev Ascending {κ α : Type} [Ord κ] (entries : List (κ × α)) : Prop :=
  entries.Pairwise (fun a b => compare a.1 b.1 = .lt)

/-- A finite map, held as its entries in ascending order of the keys. -/
structure SortedMap (κ α : Type) [Ord κ] where
  entries : List (κ × α)
  ascending : Ascending entries

namespace SortedMap

variable {κ α β : Type} [Ord κ]

@[ext] theorem ext {m n : SortedMap κ α} (h : m.entries = n.entries) : m = n := by
  cases m; cases n; simp_all

instance [DecidableEq κ] [DecidableEq α] : DecidableEq (SortedMap κ α) := fun m n =>
  decidable_of_iff (m.entries = n.entries) ⟨ext, fun h => h ▸ rfl⟩

/-- Two maps are equal when they have equal entries in the same order. -/
instance [BEq κ] [BEq α] : BEq (SortedMap κ α) := ⟨fun m n => m.entries == n.entries⟩

/-- The map without entries. -/
def empty : SortedMap κ α := ⟨[], .nil⟩

instance : Inhabited (SortedMap κ α) := ⟨empty⟩
instance : EmptyCollection (SortedMap κ α) := ⟨empty⟩

def keys (m : SortedMap κ α) : List κ := m.entries.map (·.1)

def size (m : SortedMap κ α) : Nat := m.entries.length

def isEmpty (m : SortedMap κ α) : Bool := m.entries.isEmpty

/-- The value stored under `k`. -/
def find? [DecidableEq κ] (k : κ) (m : SortedMap κ α) : Option α :=
  (m.entries.find? (·.1 = k)).map (·.2)

def contains [DecidableEq κ] (k : κ) (m : SortedMap κ α) : Bool := (m.find? k).isSome

/-- Removes the entry of `k`. -/
def erase [DecidableEq κ] (k : κ) (m : SortedMap κ α) : SortedMap κ α :=
  ⟨m.entries.filter (·.1 ≠ k), m.ascending.filter _⟩

/-- Puts `(k, v)` at its place in an ascending list, over an entry with the same key. -/
def insertEntry (k : κ) (v : α) : List (κ × α) → List (κ × α)
  | [] => [(k, v)]
  | e :: rest =>
    match compare k e.1 with
    | .lt => (k, v) :: e :: rest
    | .eq => (k, v) :: rest
    | .gt => e :: insertEntry k v rest

theorem mem_insertEntry {k : κ} {v : α} {e : κ × α} {l : List (κ × α)}
    (h : e ∈ insertEntry k v l) : e = (k, v) ∨ e ∈ l := by
  induction l with
  | nil => simpa [insertEntry] using h
  | cons f rest ih =>
    simp only [insertEntry] at h
    split at h
    · simpa using h
    · rcases List.mem_cons.1 h with h | h
      · exact .inl h
      · exact .inr (List.mem_cons_of_mem _ h)
    · rcases List.mem_cons.1 h with h | h
      · exact .inr (h ▸ List.mem_cons_self)
      · exact (ih h).imp_right (List.mem_cons_of_mem _)

theorem ascending_insertEntry [Std.TransOrd κ] [Std.LawfulEqOrd κ] (k : κ) (v : α)
    {l : List (κ × α)} (h : Ascending l) : Ascending (insertEntry k v l) := by
  induction l with
  | nil => simp [insertEntry, Ascending]
  | cons e rest ih =>
    obtain ⟨he, hrest⟩ := List.pairwise_cons.1 h
    simp only [insertEntry]
    split
    · rename_i hlt
      refine List.pairwise_cons.2 ⟨fun f hf => ?_, h⟩
      rcases List.mem_cons.1 hf with rfl | hf
      · exact hlt
      · exact Std.TransCmp.lt_trans hlt (he f hf)
    · rename_i heq
      have hk : k = e.1 := Std.LawfulEqCmp.eq_of_compare heq
      exact List.pairwise_cons.2 ⟨fun f hf => hk ▸ he f hf, hrest⟩
    · rename_i hgt
      refine List.pairwise_cons.2 ⟨fun f hf => ?_, ih hrest⟩
      rcases mem_insertEntry hf with rfl | hf
      · exact Std.OrientedCmp.lt_of_gt hgt
      · exact he f hf

/-- Stores `v` under `k`, over what was there. -/
def insert [Std.TransOrd κ] [Std.LawfulEqOrd κ] (k : κ) (v : α) (m : SortedMap κ α) :
    SortedMap κ α :=
  ⟨insertEntry k v m.entries, ascending_insertEntry k v m.ascending⟩

/-- The map of a list of entries; of two entries with one key the later stays. -/
def ofList [Std.TransOrd κ] [Std.LawfulEqOrd κ] (entries : List (κ × α)) : SortedMap κ α :=
  entries.foldl (fun m e => m.insert e.1 e.2) empty

end SortedMap

end OriginGate
