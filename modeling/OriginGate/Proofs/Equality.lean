import OriginGate.Store.State
import OriginGate.SortedMap.Lookup

/-!
# Equality of states

The equality by which the store decides whether there is anything to write. It takes both zeros for
one number, so equal states need not be identical; but every value equals itself.

* `Json.same_refl` : of values, and from it `ReflBEq` up to states;
* `beq_find?` : what is found in equal lists is equal; `exists_beq_of_mem` : they hold equals of
  each other's elements;
* `SortedMap.insert_beq`, `SortedMap.erase_beq` : a map is equal to what a change makes of it
  according to the entry of the changed key alone; `SortedMap.find?_beq` : equal maps hold equal
  values;
* `Permission.SameFields` : what equal permissions share; `State.permissions_beq`,
  `State.permission?_beq` : equal states grant equal permissions.
-/

namespace OriginGate

/-! ## Every value equals itself -/

theorem Json.Double.same_refl (d : Json.Double) : d.same d = true := by simp [same]

mutual

theorem Json.same_refl : (j : Json) → j.same j = true
  | .null => rfl
  | .bool _ | .int _ | .str _ => by simp [same]
  | .double d => by simp [same, d.same_refl]
  | .arr items => by simp [same, sameItems_refl items]
  | .obj fields => by simp [same, sameFields_refl fields]

theorem Json.sameItems_refl : (items : List Json) → sameItems items items = true
  | [] => rfl
  | x :: xs => by simp [sameItems, x.same_refl, sameItems_refl xs]

theorem Json.sameFields_refl : (fields : List (String × Json)) → sameFields fields fields = true
  | [] => rfl
  | (_, x) :: fs => by simp [sameFields, x.same_refl, sameFields_refl fs]

end

theorem Caveat.same_refl (c : Caveat) : c.same c = true := by
  cases c with
  | accounts allowed => simp [same]
  | forceParams params => simp [same, params.same_refl]
  | requireSubset allowed => simp [same, Json.sameFields_refl allowed]
  | limitLength limit => simp [same]

instance : ReflBEq Caveat := ⟨Caveat.same_refl _⟩

instance : ReflBEq Permission where
  rfl {p} := by
    change (p.id == p.id && p.capability == p.capability && p.invoker == p.invoker &&
      p.caveats == p.caveats && p.date == p.date) = true
    simp

instance : ReflBEq Domain where
  rfl {d} := by
    change (d.permissions == d.permissions) = true
    simp

theorem some_of_beq {α : Type} [BEq α] {x y : Option α} (h : x == y) :
    (x = none ∧ y = none) ∨ ∃ a b, x = some a ∧ y = some b ∧ (a == b) = true := by
  cases x with
  | none =>
    cases y with
    | none => exact .inl ⟨rfl, rfl⟩
    | some b => cases h
  | some a =>
    cases y with
    | none => cases h
    | some b => exact .inr ⟨a, b, rfl, rfl, h⟩

/-- A condition that tells no equal elements apart finds equal elements in equal lists. -/
theorem beq_find? {α : Type} [BEq α] {l m : List α} (h : l == m) {p : α → Bool}
    (congr : ∀ x y, (x == y) = true → p x = p y) : l.find? p == m.find? p := by
  induction l generalizing m with
  | nil =>
    cases m with
    | nil => rfl
    | cons y ys => cases h
  | cons x xs ih =>
    cases m with
    | nil => cases h
    | cons y ys =>
      rw [List.cons_beq_cons, Bool.and_eq_true] at h
      rw [List.find?_cons, List.find?_cons, ← congr x y h.1]
      cases p x with
      | true => exact h.1
      | false => exact ih h.2

/-- Of two equal lists, one holds an equal of whatever the other holds. -/
theorem exists_beq_of_mem {α : Type} [BEq α] {l m : List α} (h : (l == m) = true) {a : α}
    (ha : a ∈ l) : ∃ b ∈ m, (a == b) = true := by
  induction l generalizing m with
  | nil => exact absurd ha List.not_mem_nil
  | cons c rest ih =>
    cases m with
    | nil => cases h
    | cons b more =>
      rw [List.cons_beq_cons, Bool.and_eq_true] at h
      rcases List.mem_cons.1 ha with rfl | ha
      · exact ⟨b, List.mem_cons_self, h.1⟩
      · obtain ⟨x, hx, heq⟩ := ih h.2 ha
        exact ⟨x, List.mem_cons_of_mem _ hx, heq⟩

theorem Caveat.kind_of_beq {c d : Caveat} (h : (c == d) = true) : c.kind = d.kind := by
  cases c with
  | _ =>
    cases d with
    | _ => first | rfl | cases h

/-- What equal permissions share. -/
structure Permission.SameFields (p q : Permission) : Prop where
  id : p.id = q.id
  capability : p.capability = q.capability
  invoker : p.invoker = q.invoker
  caveats : p.caveats == q.caveats
  date : p.date = q.date

theorem Permission.sameFields_of_beq {p q : Permission} (h : (p == q) = true) :
    p.SameFields q := by
  have hall : (p.id == q.id && p.capability == q.capability && p.invoker == q.invoker &&
    p.caveats == q.caveats && p.date == q.date) = true := h
  simp only [Bool.and_eq_true] at hall
  obtain ⟨⟨⟨⟨hid, hcapability⟩, hinvoker⟩, hcaveats⟩, hdate⟩ := hall
  exact ⟨eq_of_beq hid, eq_of_beq hcapability, eq_of_beq hinvoker, hcaveats, eq_of_beq hdate⟩

/-! ## Maps -/

namespace SortedMap

variable {κ α : Type} [Ord κ] [DecidableEq κ]

theorem beq_eq [BEq α] (m n : SortedMap κ α) : (m == n) = (m.entries == n.entries) := rfl

instance [BEq α] [ReflBEq α] : ReflBEq (SortedMap κ α) where
  rfl {m} := by rw [beq_eq]; simp

omit [Ord κ] in
/-- A list differs from what is left of it without one key, unless the key is not there. -/
theorem filter_beq [BEq α] [ReflBEq α] (k : κ) (entries : List (κ × α)) :
    (entries.filter (·.1 ≠ k) == entries) = (entries.find? (·.1 = k)).isNone := by
  by_cases h : entries.find? (·.1 = k) = none
  · have hall : entries.filter (·.1 ≠ k) = entries := by
      rw [List.filter_eq_self]
      intro e he
      simpa using List.find?_eq_none.1 h e he
    rw [hall, h]
    simp
  · obtain ⟨e, he⟩ := Option.ne_none_iff_exists'.1 h
    have hlt : (entries.filter (·.1 ≠ k)).length < entries.length := by
      refine List.length_filter_lt_length_iff_exists.2 ⟨e, List.mem_of_find?_eq_some he, ?_⟩
      simpa using List.find?_some he
    rw [he]
    refine Bool.eq_false_iff.2 fun heq => ?_
    have := List.length_eq_of_beq heq
    omega

theorem erase_beq [BEq α] [ReflBEq α] (k : κ) (m : SortedMap κ α) :
    (m.erase k == m) = (m.find? k).isNone := by
  rw [beq_eq, find?, Option.isNone_map]
  exact filter_beq k m.entries

/-- An ascending list equals itself with an entry put in that equals the one it replaces. -/
theorem insertEntry_beq [Std.TransOrd κ] [Std.LawfulEqOrd κ] [BEq α] [ReflBEq α] (k : κ) (v : α)
    {entries : List (κ × α)} (h : Ascending entries) :
    (insertEntry k v entries == entries) =
      ((entries.find? (·.1 = k)).map (·.2)).any (v == ·) := by
  induction entries with
  | nil => rfl
  | cons e rest ih =>
    obtain ⟨he, hrest⟩ := List.pairwise_cons.1 h
    unfold insertEntry
    split
    · rename_i hlt
      have hnone : (e :: rest).find? (·.1 = k) = none := by
        rw [List.find?_eq_none]
        intro f hf
        have hkf : compare k f.1 = .lt := by
          rcases List.mem_cons.1 hf with rfl | hf
          · exact hlt
          · exact Std.TransCmp.lt_trans hlt (he f hf)
        simpa using fun heq : f.1 = k => by simp [heq, Std.ReflCmp.compare_self] at hkf
      rw [hnone]
      refine Bool.eq_false_iff.2 fun heq => ?_
      have := List.length_eq_of_beq heq
      simp at this
    · rename_i heq
      have hk : k = e.1 := Std.LawfulEqCmp.eq_of_compare heq
      obtain ⟨l, w⟩ := e
      subst hk
      change (k == k && v == w && rest == rest) = _
      simp
    · rename_i hgt
      have hk : e.1 ≠ k := fun h => by simp [h, Std.ReflCmp.compare_self] at hgt
      rw [List.cons_beq_cons, BEq.rfl, Bool.true_and, ih hrest,
        List.find?_cons_of_neg (by simpa using hk)]

theorem insert_beq [Std.TransOrd κ] [Std.LawfulEqOrd κ] [BEq α] [ReflBEq α] (k : κ) (v : α)
    (m : SortedMap κ α) : (m.insert k v == m) = (m.find? k).any (v == ·) :=
  insertEntry_beq k v m.ascending

theorem find?_beq [BEq α] {m n : SortedMap κ α} (h : m == n) (k : κ) : m.find? k == n.find? k := by
  have hkeys : ∀ e f : κ × α, (e == f) = true → decide (e.1 = k) = decide (f.1 = k) := by
    intro e f hef
    rw [eq_of_beq (Bool.and_eq_true _ _ ▸ hef : (e.1 == f.1) = true ∧ _).1]
  unfold find?
  rcases some_of_beq (beq_find? h hkeys) with ⟨he, hf⟩ | ⟨e, f, he, hf, hef⟩
  · rw [he, hf]
    rfl
  · rw [he, hf]
    exact (Bool.and_eq_true _ _ ▸ hef : (e.1 == f.1) = true ∧ (e.2 == f.2) = true).2

end SortedMap

theorem State.beq_eq (s t : State) :
    (s == t) = (s.domains == t.domains && s.metadata == t.metadata) := rfl

instance : ReflBEq State where
  rfl {s} := by rw [State.beq_eq]; simp

theorem State.domains_of_beq {s t : State} (h : s == t) : s.domains == t.domains := by
  rw [beq_eq, Bool.and_eq_true] at h
  exact h.1

theorem State.permissions_beq {s t : State} (h : s == t) (o : Origin) :
    s.permissions o == t.permissions o := by
  unfold permissions
  rcases some_of_beq (SortedMap.find?_beq (domains_of_beq h) o) with
    ⟨hs, ht⟩ | ⟨d, e, hs, ht, hde⟩
  · rw [hs, ht]
    rfl
  · rw [hs, ht]
    exact hde

theorem State.permission?_beq {s t : State} (h : s == t) (o : Origin) (method : String) :
    s.permission? o method == t.permission? o method := by
  apply beq_find? (permissions_beq h o)
  intro p q hpq
  rw [(Permission.sameFields_of_beq hpq).capability]

end OriginGate
