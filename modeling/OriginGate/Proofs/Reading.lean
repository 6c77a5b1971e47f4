import OriginGate.Proofs.Printing
import OriginGate.SortedMap.Lookup
import Mathlib.Data.List.Forall2

/-!
# What the reader gives

* `mapM_eq_some_iff` : when the items of a list are read, and as what; `mapM_restored`,
  `mapM_conditional` : items that were written are read back, always or on a condition;
* `Document.Within` : a document is nested at most so many levels deep, and its integers fit 64
  bits;
* `Document.within_read?` : so is every document that a text writes;
* `Json.WithinLimits` : the same of a value, which is canonical besides;
* `Document.withinLimits_value?` : so is the value of such a document;
* `Shape.within_read?`, `Record.within_required?`, `Record.within_orDefault?`, `within_list?` : what
  is decoded from the parts of a document is decoded from documents with a level less.
-/

namespace OriginGate

/-- In two lists that are related item by item, each item of the first has one in the second. -/
theorem exists_of_forall₂ {α β : Type} {R : α → β → Prop} {xs : List α} {ys : List β}
    (h : List.Forall₂ R xs ys) : ∀ x ∈ xs, ∃ y ∈ ys, R x y := by
  induction h with
  | nil => exact fun x hx => absurd hx List.not_mem_nil
  | cons hxy _ ih =>
    intro x hx
    rcases List.mem_cons.1 hx with rfl | hx
    · exact ⟨_, List.mem_cons_self, hxy⟩
    · obtain ⟨y, hy, hxy⟩ := ih x hx
      exact ⟨y, List.mem_cons_of_mem _ hy, hxy⟩

/-- A list is read if its items are, and gives what they give in order. -/
theorem mapM_eq_some_iff {α β : Type} {f : α → Option β} {xs : List α} {ys : List β} :
    xs.mapM f = some ys ↔ List.Forall₂ (fun x y => f x = some y) xs ys := by
  induction xs generalizing ys with
  | nil => simp [eq_comm]
  | cons x xs ih =>
    rw [List.mapM_cons]
    constructor
    · intro h
      obtain ⟨z, hz, h⟩ := Option.bind_eq_some_iff.1 h
      obtain ⟨zs, hzs, h⟩ := Option.bind_eq_some_iff.1 h
      cases h
      exact .cons hz (ih.1 hzs)
    · rintro (_ | ⟨hz, hzs⟩)
      rw [hz, ih.2 hzs]
      rfl

/-- What a list gives item by item, each item of the list gave. -/
theorem exists_of_mapM {α β : Type} {f : α → Option β} {xs : List α} {ys : List β}
    (h : xs.mapM f = some ys) : ∀ y ∈ ys, ∃ x ∈ xs, f x = some y :=
  exists_of_forall₂ (mapM_eq_some_iff.1 h).flip

/-- What was written item by item is read item by item. -/
theorem mapM_restored {α β : Type} {f : α → β} {g : β → Option α} {as : List α}
    (h : ∀ a ∈ as, g (f a) = some a) : (as.map f).mapM g = some as := by
  rw [mapM_eq_some_iff, List.forall₂_map_left_iff, List.forall₂_same]
  exact h

/-- If what was written is read on a condition, a list is read if all of its items meet it. -/
theorem mapM_conditional {α β : Type} {f : α → β} {g : β → Option α} {P : α → Prop}
    [DecidablePred P] {as : List α} (h : ∀ a ∈ as, g (f a) = if P a then some a else none) :
    (as.map f).mapM g = if ∀ a ∈ as, P a then some as else none := by
  split
  · rename_i hall
    apply mapM_restored
    intro a ha
    rw [h a ha, if_pos (hall a ha)]
  · rename_i hsome
    refine Option.eq_none_iff_forall_ne_some.2 fun bs hbs => hsome fun a ha => ?_
    have hitems := List.forall₂_map_left_iff.1 (mapM_eq_some_iff.1 hbs)
    obtain ⟨b, -, hb⟩ := exists_of_forall₂ hitems a ha
    rw [h a ha] at hb
    split at hb
    · assumption
    · cases hb

namespace Document

/-! ## Documents within a number of levels -/

mutual

/-- The document is nested at most so many levels deep, and its integers fit 64 bits. -/
def Within (room : Nat) : Document → Prop
  | int n => -2 ^ 63 ≤ n ∧ n < 2 ^ 64
  | arr items => 0 < room ∧ WithinItems (room - 1) items
  | obj fields => 0 < room ∧ WithinFields (room - 1) fields
  | _ => True

def WithinItems (room : Nat) : List Document → Prop
  | [] => True
  | d :: ds => Within room d ∧ WithinItems room ds

def WithinFields (room : Nat) : List (String × Document) → Prop
  | [] => True
  | (_, d) :: fs => Within room d ∧ WithinFields room fs

end

variable {room : Nat}

theorem withinItems_iff {items : List Document} :
    WithinItems room items ↔ ∀ d ∈ items, d.Within room := by
  induction items with
  | nil => simp [WithinItems]
  | cons d ds ih => simp [WithinItems, ih]

theorem withinFields_iff {fields : List (String × Document)} :
    WithinFields room fields ↔ ∀ f ∈ fields, f.2.Within room := by
  induction fields with
  | nil => simp [WithinFields]
  | cons f fs ih => simp [WithinFields, ih]

/-! ## Numbers -/

theorem appendDigits_lt {n : Nat} (h : n < 2 ^ 64) (cs : List Char) :
    (appendDigits n cs).1 < 2 ^ 64 := by
  induction cs generalizing n with
  | nil => exact h
  | cons c cs ih =>
    rw [appendDigits]
    split
    · rename_i hnext
      exact ih hnext
    · exact h

theorem within_ofDecimal (negative : Bool) (x : Json.Decimal) :
    (ofDecimal negative x).Within room := by
  unfold ofDecimal
  split <;> trivial

theorem within_ofNumber (negative : Bool) (whole : List Char) (fraction : Option (List Char))
    (exponent : Option Int) : (ofNumber negative whole fraction exponent).Within room := by
  have hfits := appendDigits_lt (n := 0) (by decide) whole
  unfold ofNumber
  generalize appendDigits 0 whole = found at hfits
  obtain ⟨n, surplus⟩ := found
  simp only at hfits ⊢
  split
  · split
    · split
      · rename_i hn
        have hlow : (n : Int) ≤ 2 ^ 63 := Int.ofNat_le.2 hn.2
        have hpos : (0 : Int) < n := Int.ofNat_lt.2 hn.1
        exact ⟨by omega, by omega⟩
      · exact within_ofDecimal _ _
    · have hhigh : (n : Int) < 2 ^ 64 := Int.ofNat_lt.2 hfits
      exact ⟨by omega, hhigh⟩
  · exact within_ofDecimal _ _

theorem within_readNumber? {cs rest : List Char} {d : Document}
    (h : readNumber? cs = some (d, rest)) : d.Within room := by
  have hunsigned : ∀ {negative cs}, readUnsigned? negative cs = some (d, rest) →
      d.Within room := by
    intro negative cs h
    simp only [readUnsigned?, Option.bind_eq_bind, Option.bind_eq_some_iff] at h
    obtain ⟨⟨whole, cs₁⟩, -, ⟨fraction, cs₂⟩, -, ⟨exponent, cs₃⟩, -, hd⟩ := h
    cases hd
    exact within_ofNumber _ _ _ _
  unfold readNumber? at h
  split at h
  · exact hunsigned h
  · exact hunsigned h

/-! ## Arrays and objects -/

theorem within_ofItems {items : List Document} (h : WithinItems (room - 1) items) :
    (ofItems room items).Within room := by
  unfold ofItems
  split
  · trivial
  · rename_i hroom
    exact ⟨Nat.pos_of_ne_zero hroom, h⟩

theorem within_ofMembers {members : List Member} (h : ∀ m ∈ members, m.2.Within (room - 1)) :
    (ofMembers room members).Within room := by
  unfold ofMembers
  split
  · rename_i n fields hfields
    refine ⟨Nat.succ_pos n, withinFields_iff.2 fun f hf => ?_⟩
    obtain ⟨m, hm, hkey⟩ := exists_of_mapM hfields f hf
    obtain ⟨k, -, rfl⟩ := Option.map_eq_some_iff.1 hkey
    exact h m hm
  · trivial

/-- What is read of a value, of the items of an array, or of the members of an object. -/
theorem within_of_fuel (fuel : Nat) :
    (∀ {room o cs d rest}, readValue? fuel room o cs = some (d, rest) → d.Within room) ∧
    (∀ {room o cs items rest}, readItems? fuel room o cs = some (items, rest) →
      WithinItems room items) ∧
    ∀ {room o cs members rest}, readMembers? fuel room o cs = some (members, rest) →
      ∀ m ∈ members, m.2.Within room := by
  -- The productions call each other with less fuel, so that one induction has to carry all three.
  induction fuel with
  | zero => exact ⟨nofun, nofun, nofun⟩
  | succ fuel ih =>
    obtain ⟨ihValue, ihItems, ihMembers⟩ := ih
    refine ⟨?_, ?_, ?_⟩
    · intro room o cs d rest h
      unfold readValue? at h
      split at h
      · cases h; trivial
      · cases h; trivial
      · cases h; trivial
      · obtain ⟨⟨text, left⟩, -, h⟩ := Option.bind_eq_some_iff.1 h
        cases h
        cases text <;> trivial
      · split at h
        · cases h
          exact within_ofItems trivial
        · obtain ⟨⟨items, left⟩, hitems, h⟩ := Option.bind_eq_some_iff.1 h
          cases h
          exact within_ofItems (ihItems hitems)
      · split at h
        · cases h
          exact within_ofMembers fun m hm => absurd hm List.not_mem_nil
        · obtain ⟨⟨members, left⟩, hmembers, h⟩ := Option.bind_eq_some_iff.1 h
          cases h
          exact within_ofMembers (ihMembers hmembers)
      · exact within_readNumber? h
    · intro room o cs items rest h
      unfold readItems? at h
      obtain ⟨⟨item, left⟩, hitem, h⟩ := Option.bind_eq_some_iff.1 h
      have hfirst := ihValue hitem
      simp only at h
      split at h
      · cases h
        exact ⟨hfirst, trivial⟩
      · split at h
        · obtain ⟨last, -, h⟩ := Option.bind_eq_some_iff.1 h
          cases h
          exact ⟨hfirst, trivial⟩
        · obtain ⟨⟨more, last⟩, hmore, h⟩ := Option.bind_eq_some_iff.1 h
          cases h
          exact ⟨hfirst, ihItems hmore⟩
      · cases h
    · intro room o cs members rest h
      unfold readMembers? at h
      split at h
      · obtain ⟨⟨key, left⟩, -, h⟩ := Option.bind_eq_some_iff.1 h
        simp only at h
        split at h
        · obtain ⟨⟨value, last⟩, hvalue, h⟩ := Option.bind_eq_some_iff.1 h
          have hfirst := ihValue hvalue
          simp only at h
          split at h
          · cases h
            intro m hm
            obtain rfl := List.mem_singleton.1 hm
            exact hfirst
          · obtain ⟨⟨more, final⟩, hmore, h⟩ := Option.bind_eq_some_iff.1 h
            cases h
            intro m hm
            rcases List.mem_cons.1 hm with rfl | hm
            · exact hfirst
            · exact ihMembers hmore m hm
          · cases h
        · cases h
      · cases h

/-- Nothing that a text writes is nested deeper than the limit. -/
theorem within_read? {o : Outline} {text : String} {d : Document} (h : read? o text = some d) :
    d.Within nestingLimit := by
  rw [read?, readChars?] at h
  split at h
  · rename_i found hread
    split at h
    · cases h
      exact (within_of_fuel _).1 hread
    · cases h
  · cases h

end Document

/-! ## Values -/

namespace Json

/-- A canonical value, nested at most so many levels deep, whose integers fit 64 bits. -/
structure WithinLimits (room : Nat) (j : Json) : Prop where
  canonical : j.Canonical
  integers : j.Leaves IntegerFits
  depth : j.depth ≤ room

theorem depthItems_le_iff {items : List Json} {n : Nat} :
    depthItems items ≤ n ↔ ∀ x ∈ items, x.depth ≤ n := by
  induction items with
  | nil => simp [depthItems]
  | cons x xs ih => simp [depthItems, ih]

theorem depthFields_le_iff {fields : List (String × Json)} {n : Nat} :
    depthFields fields ≤ n ↔ ∀ f ∈ fields, f.2.depth ≤ n := by
  induction fields with
  | nil => simp [depthFields]
  | cons f fs ih => simp [depthFields, ih]

theorem leavesItems_iff {P : Json → Prop} {items : List Json} :
    LeavesItems P items ↔ ∀ x ∈ items, x.Leaves P := by
  induction items with
  | nil => simp [LeavesItems]
  | cons x xs ih => simp [LeavesItems, ih]

theorem leavesFields_iff {P : Json → Prop} {fields : List (String × Json)} :
    LeavesFields P fields ↔ ∀ f ∈ fields, f.2.Leaves P := by
  induction fields with
  | nil => simp [LeavesFields]
  | cons f fs ih => simp [LeavesFields, ih]

theorem canonicalItems_iff {items : List Json} :
    CanonicalItems items ↔ ∀ x ∈ items, x.Canonical := by
  induction items with
  | nil => simp [CanonicalItems]
  | cons x xs ih => simp [CanonicalItems, ih]

theorem canonicalFields_iff {fields : List (String × Json)} :
    CanonicalFields fields ↔ ∀ f ∈ fields, f.2.Canonical := by
  induction fields with
  | nil => simp [CanonicalFields]
  | cons f fs ih => simp [CanonicalFields, ih]

variable {room : Nat}

theorem withinLimits_arr {items : List Json} (hroom : 0 < room)
    (h : ∀ x ∈ items, x.WithinLimits (room - 1)) : (arr items).WithinLimits room where
  canonical := canonicalItems_iff.2 fun x hx => (h x hx).canonical
  integers := leavesItems_iff.2 fun x hx => (h x hx).integers
  depth := by
    have hitems : depthItems items ≤ room - 1 := depthItems_le_iff.2 fun x hx => (h x hx).depth
    rw [Json.depth]
    omega

theorem withinLimits_obj {fields : List (String × Json)} (hroom : 0 < room)
    (sorted : Ascending fields) (h : ∀ f ∈ fields, f.2.WithinLimits (room - 1)) :
    (obj fields).WithinLimits room where
  canonical := ⟨sorted, canonicalFields_iff.2 fun f hf => (h f hf).canonical⟩
  integers := leavesFields_iff.2 fun f hf => (h f hf).integers
  depth := by
    have hfields : depthFields fields ≤ room - 1 :=
      depthFields_le_iff.2 fun f hf => (h f hf).depth
    rw [Json.depth]
    omega

mutual

theorem within_document : (j : Json) → {room : Nat} → j.Leaves IntegerFits → j.depth ≤ room →
    j.document.Within room
  | arr items, room, h, hdepth => by
    rw [Json.depth] at hdepth
    have hitems : depthItems items ≤ room - 1 := by omega
    exact ⟨by omega, within_documentItems items h hitems⟩
  | obj fields, room, h, hdepth => by
    rw [Json.depth] at hdepth
    have hfields : depthFields fields ≤ room - 1 := by omega
    exact ⟨by omega, within_documentFields fields h hfields⟩
  | null, _, _, _ => trivial
  | bool _, _, _, _ => trivial
  | int _, _, h, _ => h
  | double _, _, _, _ => trivial
  | str _, _, _, _ => trivial

theorem within_documentItems : (items : List Json) → {room : Nat} →
    LeavesItems IntegerFits items → depthItems items ≤ room →
    Document.WithinItems room (documentItems items)
  | [], _, _, _ => trivial
  | x :: xs, _, h, hdepth => by
    rw [depthItems, Nat.max_le] at hdepth
    exact ⟨within_document x h.1 hdepth.1, within_documentItems xs h.2 hdepth.2⟩

theorem within_documentFields : (fields : List (String × Json)) → {room : Nat} →
    LeavesFields IntegerFits fields → depthFields fields ≤ room →
    Document.WithinFields room (documentFields fields)
  | [], _, _, _ => trivial
  | (_, x) :: fs, _, h, hdepth => by
    rw [depthFields, Nat.max_le] at hdepth
    exact ⟨within_document x h.1 hdepth.1, within_documentFields fs h.2 hdepth.2⟩

end

end Json

namespace Document

mutual

theorem withinLimits_tree? : (d : Document) → {room : Nat} → d.Within room → {j : Json} →
    d.tree? = some j → j.normalize.WithinLimits room
  | arr items, _, ⟨hroom, hitems⟩, _, hj => by
    obtain ⟨xs, hxs, rfl⟩ := Option.map_eq_some_iff.1 hj
    exact Json.withinLimits_arr hroom (withinLimits_treeItems? items hitems hxs)
  | obj fields, _, ⟨hroom, hfields⟩, _, hj => by
    obtain ⟨fs, hfs, rfl⟩ := Option.map_eq_some_iff.1 hj
    have hall := withinLimits_treeFields? fields hfields hfs
    exact Json.withinLimits_obj hroom (SortedMap.ofList _).ascending
      fun f hf => hall f (SortedMap.mem_of_mem_ofList hf)
  | null, _, _, _, hj => by cases hj; exact ⟨trivial, trivial, Nat.zero_le _⟩
  | bool _, _, _, _, hj => by cases hj; exact ⟨trivial, trivial, Nat.zero_le _⟩
  | int _, _, h, _, hj => by cases hj; exact ⟨trivial, h, Nat.zero_le _⟩
  | double _, _, _, _, hj => by cases hj; exact ⟨trivial, trivial, Nat.zero_le _⟩
  | str _, _, _, _, hj => by cases hj; exact ⟨trivial, trivial, Nat.zero_le _⟩
  | unreadable, _, _, _, hj => by cases hj

theorem withinLimits_treeItems? : (ds : List Document) → {room : Nat} → WithinItems room ds →
    {xs : List Json} → treeItems? ds = some xs →
    ∀ x ∈ Json.normalizeItems xs, x.WithinLimits room
  | [], _, _, _, hxs => by
    cases hxs
    exact fun x hx => absurd hx List.not_mem_nil
  | d :: ds, _, h, _, hxs => by
    obtain ⟨y, hy, hxs⟩ := Option.bind_eq_some_iff.1 hxs
    obtain ⟨ys, hys, hxs⟩ := Option.bind_eq_some_iff.1 hxs
    cases hxs
    intro x hx
    rcases List.mem_cons.1 hx with rfl | hx
    · exact withinLimits_tree? d h.1 hy
    · exact withinLimits_treeItems? ds h.2 hys x hx

theorem withinLimits_treeFields? : (fs : List (String × Document)) → {room : Nat} →
    WithinFields room fs → {gs : List (String × Json)} → treeFields? fs = some gs →
    ∀ g ∈ Json.normalizeFields gs, g.2.WithinLimits room
  | [], _, _, _, hgs => by
    cases hgs
    exact fun g hg => absurd hg List.not_mem_nil
  | (k, d) :: fs, _, h, _, hgs => by
    obtain ⟨y, hy, hgs⟩ := Option.bind_eq_some_iff.1 hgs
    obtain ⟨ys, hys, hgs⟩ := Option.bind_eq_some_iff.1 hgs
    cases hgs
    intro g hg
    rcases List.mem_cons.1 hg with rfl | hg
    · exact withinLimits_tree? d h.1 hy
    · exact withinLimits_treeFields? fs h.2 hys g hg

end

variable {d : Document} {room : Nat}

theorem withinLimits_value? (h : d.Within room) {j : Json} (hj : d.value? = some j) :
    j.WithinLimits room := by
  obtain ⟨tree, htree, rfl⟩ := Option.map_eq_some_iff.1 hj
  exact withinLimits_tree? d h htree

theorem within_setAside? (h : d.Within room) {e : Document} (he : d.setAside? = some e) :
    e.Within room := by
  obtain ⟨j, hj, rfl⟩ := Option.map_eq_some_iff.1 he
  have hlimits := withinLimits_value? h hj
  exact Json.within_document j hlimits.integers hlimits.depth

/-! ## Parts of a document -/

variable {α : Type} {read? : Document → Option α}

theorem within_list? (h : d.Within room) {as : List α} (has : d.list? read? = some as) :
    0 < room ∧ ∀ a ∈ as, ∃ x : Document, x.Within (room - 1) ∧ read? x = some a := by
  cases d with
  | arr items =>
    refine ⟨h.1, fun a ha => ?_⟩
    obtain ⟨x, hx, hread⟩ := exists_of_mapM has a ha
    exact ⟨x, withinItems_iff.1 h.2 x hx, hread⟩
  | _ => cases has

theorem within_entries? (h : d.Within room) {entries : List (String × α)}
    (hentries : d.entries? read? = some entries) :
    0 < room ∧ ∀ e ∈ entries, ∃ x : Document, x.Within (room - 1) ∧ read? x = some e.2 := by
  cases d with
  | obj fields =>
    refine ⟨h.1, fun e he => ?_⟩
    obtain ⟨f, hf, hread⟩ := exists_of_mapM hentries e he
    obtain ⟨a, ha, rfl⟩ := Option.map_eq_some_iff.1 hread
    exact ⟨f.2, withinFields_iff.1 h.2 f hf, ha⟩
  | _ => cases hentries

end Document

/-- The fields of a record stand a level below it. -/
theorem Shape.within_read? {shape : Shape} {d : Document} {room : Nat} (h : d.Within room)
    {r : Record} (hr : shape.read? d = some r) :
    0 < room ∧ ∀ f ∈ r, f.2.Within (room - 1) := by
  cases d with
  | obj fields =>
    refine ⟨h.1, fun f hf => ?_⟩
    simp only [Shape.read?, Shape.readFields?] at hr
    split at hr
    · cases hr
      exact Document.withinFields_iff.1 h.2 f (List.mem_filter.1 hf).1
    · cases hr
  | arr items =>
    refine ⟨h.1, fun f hf => ?_⟩
    simp only [Shape.read?] at hr
    split at hr
    · cases hr
      exact Document.withinItems_iff.1 h.2 f.2 (List.of_mem_zip hf).2
    · cases hr
  | _ => cases hr

namespace Record

variable {r : Record} {room : Nat} {α : Type} {read? : Document → Option α} {name : String} {a : α}

theorem within_get? (h : ∀ f ∈ r, f.2.Within room) {d : Document} (hd : r.get? name = some d) :
    d.Within room := by
  obtain ⟨f, hf, rfl⟩ := Option.map_eq_some_iff.1 hd
  exact h f (List.mem_of_find?_eq_some hf)

theorem within_required? (h : ∀ f ∈ r, f.2.Within room)
    (ha : r.required? name read? = some a) : ∃ d : Document, d.Within room ∧ read? d = some a := by
  unfold required? at ha
  split at ha
  · rename_i d hd
    exact ⟨d, within_get? h hd, ha⟩
  · cases ha

theorem within_orDefault? (h : ∀ f ∈ r, f.2.Within room) {default : α}
    (ha : r.orDefault? name default read? = some a) :
    a = default ∨ ∃ d : Document, d.Within room ∧ read? d = some a := by
  unfold orDefault? at ha
  split at ha
  · cases ha
    exact .inl rfl
  · rename_i d hd
    exact .inr ⟨d, within_get? h hd, ha⟩

end Record

end OriginGate
