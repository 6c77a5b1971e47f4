import OriginGate.SortedMap
import Mathlib.Data.List.Find
import Mathlib.Data.List.Nodup
import Mathlib.Data.List.Perm.Subperm

/-!
# Looking up entries of a map

* `find?_insert`, `find?_erase` : what a look-up sees after a change;
* `find?_eq_some_iff`, `mem_keys_iff`, `keys_ascend` : what it says of the entries;
* `eq_of_perm`, `ext_find?` : maps with the same entries are the same, and so are maps that answer
  every look-up alike;
* `mem_of_mem_ofList`, `ofList_of_subset`, `ofList_entries` : the map of a list holds entries of the
  list; one with distinct keys is put in ascending order, and the entries of a map stay as they are.
-/

namespace OriginGate.SortedMap

variable {κ α : Type} [Ord κ]

/-! ## Changes -/

theorem find?_erase [DecidableEq κ] (k l : κ) (m : SortedMap κ α) :
    (m.erase k).find? l = if l = k then none else m.find? l := by
  unfold find? erase
  rw [List.find?_filter]
  split
  · rename_i h
    have hnone : m.entries.find? (fun e => e.1 ≠ k ∧ e.1 = l) = none := by
      simp [h]
    simpa using hnone
  · rename_i h
    congr 1
    refine List.find?_congr fun e _ => ?_
    have hne : e.1 = l → e.1 ≠ k := fun heq hk => h (heq.symm.trans hk)
    simpa using hne

theorem find?_insertEntry [DecidableEq κ] [Std.LawfulEqOrd κ] (k l : κ) (v : α)
    (entries : List (κ × α)) :
    (insertEntry k v entries).find? (·.1 = l) =
      if l = k then some (k, v) else entries.find? (·.1 = l) := by
  induction entries with
  | nil => by_cases h : k = l <;> simp [insertEntry, h, eq_comm]
  | cons e rest ih =>
    unfold insertEntry
    split
    · by_cases h : k = l <;> simp [List.find?_cons, h, eq_comm]
    · rename_i heq
      have hk : k = e.1 := Std.LawfulEqCmp.eq_of_compare heq
      by_cases h : k = l <;> simp_all [eq_comm]
    · rename_i hgt
      have hk : e.1 ≠ k := fun h => by simp [h, Std.ReflCmp.compare_self] at hgt
      by_cases h : l = k
      · simp_all
      · by_cases he : e.1 = l <;> simp_all

theorem find?_insert [DecidableEq κ] [Std.TransOrd κ] [Std.LawfulEqOrd κ] (k l : κ) (v : α)
    (m : SortedMap κ α) : (m.insert k v).find? l = if l = k then some v else m.find? l := by
  unfold find? insert
  rw [find?_insertEntry]
  split <;> rfl

/-! ## Entries -/

/-- No two entries have the same key. -/
theorem eq_of_mem [Std.ReflOrd κ] {k : κ} {v w : α} {m : SortedMap κ α} (hv : (k, v) ∈ m.entries)
    (hw : (k, w) ∈ m.entries) : v = w := by
  have h := m.ascending
  generalize m.entries = entries at h hv hw
  induction entries with
  | nil => simp at hv
  | cons e rest ih =>
    obtain ⟨he, hrest⟩ := List.pairwise_cons.1 h
    rcases List.mem_cons.1 hv with rfl | hv <;> rcases List.mem_cons.1 hw with hw | hw
    · exact (Prod.mk.inj hw).2.symm
    · exact absurd (he _ hw) (by simp [Std.ReflCmp.compare_self])
    · exact absurd (hw ▸ he _ hv) (by simp [Std.ReflCmp.compare_self])
    · exact ih hrest hv hw

theorem find?_eq_some_iff [DecidableEq κ] [Std.ReflOrd κ] {k : κ} {v : α} {m : SortedMap κ α} :
    m.find? k = some v ↔ (k, v) ∈ m.entries := by
  simp only [find?, Option.map_eq_some_iff]
  constructor
  · rintro ⟨⟨l, w⟩, h, rfl⟩
    have hk : l = k := by simpa using List.find?_some h
    exact hk ▸ List.mem_of_find?_eq_some h
  · intro h
    obtain ⟨⟨l, w⟩, hw⟩ := Option.isSome_iff_exists.1
      (List.find?_isSome.2 ⟨(k, v), h, by simp⟩ : (m.entries.find? (·.1 = k)).isSome)
    have hk : l = k := by simpa using List.find?_some hw
    exact ⟨(l, w), hw, eq_of_mem (hk ▸ List.mem_of_find?_eq_some hw) h⟩

theorem mem_keys_iff [DecidableEq κ] [Std.ReflOrd κ] {k : κ} {m : SortedMap κ α} :
    k ∈ m.keys ↔ m.contains k := by
  simp only [keys, contains, List.mem_map, Option.isSome_iff_exists, find?_eq_some_iff]
  constructor
  · rintro ⟨⟨l, v⟩, h, rfl⟩; exact ⟨v, h⟩
  · rintro ⟨v, h⟩; exact ⟨(k, v), h, rfl⟩

theorem keys_eq_nil_iff {m : SortedMap κ α} : m.keys = [] ↔ m.isEmpty = true := by
  rw [keys, isEmpty, List.map_eq_nil_iff, List.isEmpty_iff]

/-- The keys ascend strictly, so none is listed twice. -/
theorem keys_ascend (m : SortedMap κ α) : m.keys.Pairwise (compare · · = .lt) :=
  List.pairwise_map.2 m.ascending

theorem keys_nodup [Std.ReflOrd κ] (m : SortedMap κ α) : m.keys.Nodup :=
  m.keys_ascend.imp fun hlt heq => by simp [heq, Std.ReflCmp.compare_self] at hlt

theorem eq_of_perm [Std.TransOrd κ] {l m : List (κ × α)} (hl : Ascending l) (hm : Ascending m)
    (h : l.Perm m) : l = m := by
  apply h.eq_of_pairwise _ hl hm
  intro a b _ _ hab hba
  exact absurd hba (Std.OrientedCmp.not_lt_of_lt hab)

theorem ext_find? [DecidableEq κ] [Std.TransOrd κ] {m n : SortedMap κ α}
    (h : ∀ k, m.find? k = n.find? k) : m = n := by
  have hnodup : ∀ m : SortedMap κ α, m.entries.Nodup :=
    fun m => List.Nodup.of_map _ m.keys_nodup
  apply ext
  apply eq_of_perm m.ascending n.ascending
  rw [List.perm_ext_iff_of_nodup (hnodup m) (hnodup n)]
  rintro ⟨k, v⟩
  rw [← find?_eq_some_iff, ← find?_eq_some_iff, h]

/-! ## Maps of lists -/

theorem insertEntry_perm [Std.LawfulEqOrd κ] {k : κ} {v : α} {l : List (κ × α)}
    (h : ∀ e ∈ l, e.1 ≠ k) : (insertEntry k v l).Perm ((k, v) :: l) := by
  induction l with
  | nil => exact .refl _
  | cons e rest ih =>
    unfold insertEntry
    split
    · exact .refl _
    · rename_i heq
      exact absurd (Std.LawfulEqCmp.eq_of_compare heq).symm (h e List.mem_cons_self)
    · have hrest := ih fun f hf => h f (List.mem_cons_of_mem _ hf)
      exact (hrest.cons e).trans (.swap _ _ _)

variable [Std.TransOrd κ] [Std.LawfulEqOrd κ]

theorem mem_of_mem_foldl_insert {e : κ × α} (entries : List (κ × α)) (m : SortedMap κ α)
    (h : e ∈ (entries.foldl (fun m e => m.insert e.1 e.2) m).entries) :
    e ∈ m.entries ∨ e ∈ entries := by
  induction entries generalizing m with
  | nil => exact .inl h
  | cons f rest ih =>
    rcases ih _ h with h | h
    · rcases mem_insertEntry h with rfl | h
      · exact .inr List.mem_cons_self
      · exact .inl h
    · exact .inr (List.mem_cons_of_mem _ h)

theorem mem_of_mem_ofList {entries : List (κ × α)} {e : κ × α}
    (h : e ∈ (ofList entries).entries) : e ∈ entries := by
  rcases mem_of_mem_foldl_insert entries empty h with h | h
  · exact absurd h List.not_mem_nil
  · exact h

theorem foldl_insert_perm (entries : List (κ × α)) (m : SortedMap κ α)
    (h : ((m.entries ++ entries).map (·.1)).Nodup) :
    (entries.foldl (fun m e => m.insert e.1 e.2) m).entries.Perm (m.entries ++ entries) := by
  induction entries generalizing m with
  | nil => rw [List.append_nil]; exact .refl _
  | cons e rest ih =>
    have hnew : ∀ f ∈ m.entries, f.1 ≠ e.1 := by
      intro f hf heq
      rw [List.map_append, List.nodup_append] at h
      exact h.2.2 f.1 (List.mem_map_of_mem hf) e.1 (by simp) heq
    have hinsert : (m.insert e.1 e.2).entries.Perm (e :: m.entries) := insertEntry_perm hnew
    have happend : ((m.insert e.1 e.2).entries ++ rest).Perm (m.entries ++ e :: rest) :=
      (hinsert.append_right rest).trans List.perm_middle.symm
    have hnodup := (happend.map (·.1)).nodup_iff.2 h
    exact (ih _ hnodup).trans happend

/-- Entries with distinct keys are put in the ascending order in which they can stand. -/
theorem ofList_of_subset {l m : List (κ × α)} (hm : Ascending m) (subset : m ⊆ l)
    (length : l.length ≤ m.length) : (ofList l).entries = m := by
  have hkeys : (m.map (·.1)).Nodup := keys_nodup ⟨m, hm⟩
  -- The entries of `m` are among those of `l` and not fewer, so that `l` is in another order only.
  have hdistinct : m.Nodup := hm.imp fun hlt heq => by simp [heq] at hlt
  have hperm : m.Perm l := (List.subperm_of_subset hdistinct subset).perm_of_length_le length
  have hfold := foldl_insert_perm l empty ((hperm.map (·.1)).nodup_iff.1 hkeys)
  exact eq_of_perm (ofList l).ascending hm (hfold.trans hperm.symm)

theorem ofList_entries (m : SortedMap κ α) : ofList m.entries = m :=
  ext (ofList_of_subset m.ascending (List.Subset.refl _) (Nat.le_refl _))

end OriginGate.SortedMap
