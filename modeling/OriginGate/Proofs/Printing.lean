import OriginGate.Json.Reader
import OriginGate.Proofs.Scalars

/-!
# Values are read as they were printed

* `Json.depth` : how deep arrays and objects are nested in a value;
* `Json.Leaves` : a condition on the parts of a value that have no parts; `Json.Printable` : every
  number of a value is read as it was written;
* `Json.documentWithin` : the document of a printed value, where arrays and objects below the given
  levels are unreadable; `documentWithin_of_depth` : the document of the value if there are none;
* `Outline.Fits` : no byte array of a fixed count is expected where a value has an array;
* `Document.readValue?_pretty` : a printed value is read as this document, whatever follows it;
* `Document.read?_pretty` : so is a text that is a printed value.
-/

namespace OriginGate

namespace Json

/-! ## Nesting -/

mutual

/-- How many arrays and objects stand in one another, at most. -/
def depth : Json → Nat
  | arr items => depthItems items + 1
  | obj fields => depthFields fields + 1
  | _ => 0

def depthItems : List Json → Nat
  | [] => 0
  | x :: xs => max (depth x) (depthItems xs)

def depthFields : List (String × Json) → Nat
  | [] => 0
  | (_, x) :: fs => max (depth x) (depthFields fs)

end

mutual

/-- Every part that is neither an array nor an object satisfies a condition. -/
def Leaves (P : Json → Prop) : Json → Prop
  | arr items => LeavesItems P items
  | obj fields => LeavesFields P fields
  | j => P j

def LeavesItems (P : Json → Prop) : List Json → Prop
  | [] => True
  | x :: xs => Leaves P x ∧ LeavesItems P xs

def LeavesFields (P : Json → Prop) : List (String × Json) → Prop
  | [] => True
  | (_, x) :: fs => Leaves P x ∧ LeavesFields P fs

end

/-- Fits 64 bits, signed or not, if it is an integer. -/
def IntegerFits : Json → Prop
  | int n => -2 ^ 63 ≤ n ∧ n < 2 ^ 64
  | _ => True

/-- Is read as it was written, if it is a double. -/
def DoubleReadsBack : Json → Prop
  | double d => d.ReadsBack
  | _ => True

/-- Every number of the value is read as it was written. -/
abbrev Printable (j : Json) : Prop := j.Leaves fun x => x.IntegerFits ∧ x.DoubleReadsBack

abbrev PrintableItems (items : List Json) : Prop :=
  LeavesItems (fun x => x.IntegerFits ∧ x.DoubleReadsBack) items

abbrev PrintableFields (fields : List (String × Json)) : Prop :=
  LeavesFields (fun x => x.IntegerFits ∧ x.DoubleReadsBack) fields

mutual

/-- The document of a printed value, with so many levels of nesting left. -/
def documentWithin (room : Nat) : Json → Document
  | arr items => Document.ofItems room (documentsWithin (room - 1) items)
  | obj fields => Document.ofMembers room (membersWithin (room - 1) fields)
  | null => .null
  | bool b => .bool b
  | int n => .int n
  | double d => .double d
  | str s => .str s

def documentsWithin (room : Nat) : List Json → List Document
  | [] => []
  | x :: xs => documentWithin room x :: documentsWithin room xs

def membersWithin (room : Nat) : List (String × Json) → List Document.Member
  | [] => []
  | (k, x) :: fs => (some k, documentWithin room x) :: membersWithin room fs

end

theorem documentsWithin_eq (room : Nat) (items : List Json) :
    documentsWithin room items = items.map (documentWithin room) := by
  induction items with
  | nil => rfl
  | cons x xs ih => rw [documentsWithin, ih]; rfl

theorem mapM_membersWithin (room : Nat) (fields : List (String × Json)) :
    (membersWithin room fields).mapM (fun m => m.1.map (·, m.2)) =
      some (fields.map fun f => (f.1, f.2.documentWithin room)) := by
  induction fields with
  | nil => rfl
  | cons f fs ih =>
    obtain ⟨k, x⟩ := f
    rw [membersWithin, List.mapM_cons, ih]
    rfl

@[simp] theorem documentWithin_arr_succ (room : Nat) (items : List Json) :
    documentWithin (room + 1) (arr items) = .arr (items.map (documentWithin room)) := by
  rw [documentWithin, Document.ofItems, if_neg (Nat.succ_ne_zero _), Nat.add_sub_cancel,
    documentsWithin_eq]

@[simp] theorem documentWithin_obj_succ (room : Nat) (fields : List (String × Json)) :
    documentWithin (room + 1) (obj fields) =
      .obj (fields.map fun f => (f.1, f.2.documentWithin room)) := by
  rw [documentWithin, Nat.add_sub_cancel]
  simp only [Document.ofMembers, mapM_membersWithin]

@[simp] theorem documentWithin_arr_zero (items : List Json) :
    documentWithin 0 (arr items) = .unreadable := rfl

@[simp] theorem documentWithin_obj_zero (fields : List (String × Json)) :
    documentWithin 0 (obj fields) = .unreadable := rfl

mutual

theorem documentWithin_of_depth : (j : Json) → {room : Nat} → j.depth ≤ room →
    j.documentWithin room = j.document
  | arr items, 0, h => absurd h (by rw [depth]; exact Nat.not_succ_le_zero _)
  | arr items, room + 1, h => by
    rw [depth, Nat.add_le_add_iff_right] at h
    rw [documentWithin_arr_succ, document, documentItems_of_depth items h]
  | obj fields, 0, h => absurd h (by rw [depth]; exact Nat.not_succ_le_zero _)
  | obj fields, room + 1, h => by
    rw [depth, Nat.add_le_add_iff_right] at h
    rw [documentWithin_obj_succ, document, documentFields_of_depth fields h]
  | null, _, _ => rfl
  | bool _, _, _ => rfl
  | int _, _, _ => rfl
  | double _, _, _ => rfl
  | str _, _, _ => rfl

theorem documentItems_of_depth : (items : List Json) → {room : Nat} → depthItems items ≤ room →
    items.map (documentWithin room) = documentItems items
  | [], _, _ => rfl
  | x :: xs, _, h => by
    rw [depthItems, Nat.max_le] at h
    rw [List.map_cons, documentItems, documentWithin_of_depth x h.1, documentItems_of_depth xs h.2]

theorem documentFields_of_depth : (fields : List (String × Json)) → {room : Nat} →
    depthFields fields ≤ room →
    fields.map (fun f => (f.1, f.2.documentWithin room)) = documentFields fields
  | [], _, _ => rfl
  | (k, x) :: fs, _, h => by
    rw [depthFields, Nat.max_le] at h
    rw [List.map_cons, documentFields, documentWithin_of_depth x h.1,
      documentFields_of_depth fs h.2]

end

/-! ## Fuel -/

mutual

/-- With how much fuel the text of a value is read. -/
def fuel : Json → Nat
  | arr items => fuelItems items + 1
  | obj fields => fuelFields fields + 1
  | _ => 1

def fuelItems : List Json → Nat
  | [] => 0
  | x :: xs => max (fuel x) (fuelItems xs) + 1

def fuelFields : List (String × Json) → Nat
  | [] => 0
  | (_, x) :: fs => max (fuel x) (fuelFields fs) + 1

end

end Json

/-! ## Outlines that fit -/

/-- The value has no array where a byte array of a fixed count is expected. -/
inductive Outline.Fits : Outline → Json → Prop where
  | any (j : Json) : Fits any j
  | str (o : Outline) (s : String) : Fits o (.str s)
  | list {o : Outline} {items : List Json} (h : ∀ x ∈ items, Fits o x) :
    Fits (list o) (.arr items)
  | table {o : Outline} {fields : List (String × Json)} (h : ∀ f ∈ fields, Fits o f.2) :
    Fits (table o) (.obj fields)
  | record {outlines : List (String × Outline)} {fields : List (String × Json)}
    (h : ∀ f ∈ fields, Fits ((outlines.lookup f.1).getD any) f.2) :
    Fits (record outlines) (.obj fields)
  | tagged {tag content name : String} {variants : List (String × Outline)} {x : Json}
    (h : Fits ((variants.lookup name).getD any) x) :
    Fits (tagged tag content variants) (.obj [(tag, .str name), (content, x)])

namespace Outline

/-- An outline that stays as it is along the items of an array, and fits each of them. -/
def FitsItems (o : Outline) (items : List Json) : Prop :=
  (∀ d, o.tail d = o) ∧ o.isFull = false ∧ ∀ x ∈ items, o.head.Fits x

/-- An outline that fits field after field. -/
def FitsFields : Outline → List (String × Json) → Prop
  | _, [] => True
  | o, (k, x) :: fs =>
    (o.field (some k)).Fits x ∧ ∀ room, FitsFields (o.after (some k) (x.documentWithin room)) fs

variable {o : Outline}

theorem Fits.items {items : List Json} (h : o.Fits (.arr items)) : o.FitsItems items := by
  cases h with
  | any => exact ⟨fun _ => rfl, rfl, fun x _ => .any x⟩
  | list h => exact ⟨fun _ => rfl, rfl, h⟩

theorem fitsFields_of_all (stays : ∀ k d, o.after k d = o) {fields : List (String × Json)}
    (h : ∀ f ∈ fields, (o.field (some f.1)).Fits f.2) : o.FitsFields fields := by
  induction fields with
  | nil => trivial
  | cons f fs ih =>
    refine ⟨h f List.mem_cons_self, fun room => ?_⟩
    rw [stays]
    exact ih fun g hg => h g (List.mem_cons_of_mem _ hg)

theorem Fits.fields {fields : List (String × Json)} (h : o.Fits (.obj fields)) :
    o.FitsFields fields := by
  cases h with
  | any => exact fitsFields_of_all (fun _ _ => rfl) fun f _ => .any f.2
  | table h => exact fitsFields_of_all (fun _ _ => rfl) h
  | record h => exact fitsFields_of_all (fun _ _ => rfl) h
  | @tagged tag content name variants x h =>
    -- The tag is read first, and what is expected of the content follows from it.
    refine ⟨.str _ name, fun room => ⟨?_, fun _ => trivial⟩⟩
    have hafter : (Outline.tagged tag content variants).after (some tag)
        ((Json.str name).documentWithin room) = ofVariant content variants (some name) := if_pos rfl
    rw [hafter, ofVariant, Option.bind_some]
    cases hlookup : variants.lookup name with
    | none => exact .any x
    | some o =>
      have hfield : (Outline.record [(content, o)]).field (some content) = o := by
        rw [Outline.field, Option.bind_some, List.lookup_cons_self, Option.getD_some]
      rw [hlookup] at h
      change ((Outline.record [(content, o)]).field (some content)).Fits x
      rw [hfield]
      exact h

end Outline

/-! ## Reading -/

namespace Document

/-! ### Blanks -/

theorem skipBlanks_newline (level : Nat) (cs : List Char) :
    skipBlanks (Json.newline level cs) = skipBlanks cs := by
  have hspaces : ∀ n, skipBlanks (List.replicate n ' ' ++ cs) = skipBlanks cs := by
    intro n
    induction n with
    | zero => rfl
    | succ n ih => exact ih
  exact hspaces _

theorem skipBlanks_cons {c : Char} (h : isBlank c = false) (cs : List Char) :
    skipBlanks (c :: cs) = c :: cs := by
  rw [skipBlanks, List.dropWhile_cons_of_neg (by rw [h]; exact Bool.false_ne_true)]

/-! ### Scalars -/

/-- A character with which a value begins. -/
structure Begins (c : Char) : Prop where
  solid : isBlank c = false
  notClosing : c ≠ ']' ∧ c ≠ '\x7d'

variable {fuel room : Nat} {o : Outline}

theorem exists_of_readNumber? {cs : List Char} {found : Document × List Char}
    (h : readNumber? cs = some found) :
    ∃ c rest, cs = c :: rest ∧ (c = '-' ∨ c.isDigit = true) := by
  cases cs with
  | nil => cases h
  | cons c rest => exact ⟨c, rest, rfl, readNumber?_head h⟩

theorem ne_of_number {c d : Char} (hc : c = '-' ∨ c.isDigit = true) (hminus : d ≠ '-')
    (hdigit : d.isDigit = false) : c ≠ d := by
  rintro rfl
  rcases hc with h | h
  · exact hminus h
  · rw [hdigit] at h
    cases h

theorem begins_number {c : Char} (h : c = '-' ∨ c.isDigit = true) : Begins c := by
  have hne := fun d => ne_of_number (d := d) h
  refine ⟨?_, hne ']' (by decide) (by decide), hne '\x7d' (by decide) (by decide)⟩
  simp only [isBlank, hne ' ' (by decide) (by decide), hne '\t' (by decide) (by decide),
    hne '\n' (by decide) (by decide), hne '\r' (by decide) (by decide), decide_false, Bool.or_self]

theorem readValue?_number {cs : List Char} {found : Document × List Char}
    (h : readNumber? cs = some found) : readValue? (fuel + 1) room o cs = some found := by
  obtain ⟨c, rest, rfl, hc⟩ := exists_of_readNumber? h
  have hne := fun d => ne_of_number (d := d) hc
  rw [readValue?]
  · exact h
  · rintro rest heq
    exact hne 'n' (by decide) (by decide) (List.cons.inj heq).1
  · rintro rest heq
    exact hne 't' (by decide) (by decide) (List.cons.inj heq).1
  · rintro rest heq
    exact hne 'f' (by decide) (by decide) (List.cons.inj heq).1
  · rintro rest heq
    exact hne '"' (by decide) (by decide) (List.cons.inj heq).1
  · rintro rest heq
    exact hne '[' (by decide) (by decide) (List.cons.inj heq).1
  · rintro rest heq
    exact hne '\x7b' (by decide) (by decide) (List.cons.inj heq).1

theorem readValue?_str (s : String) (rest : List Char) :
    readValue? (fuel + 1) room o (Json.writeString s rest) = some (.str s, rest) := by
  rw [Json.writeString, List.cons_append, readValue?, readString?_write]
  rfl

/-! ### Arrays and objects -/

theorem readValue?_array {cs : List Char} {c : Char} {rest : List Char}
    (hcs : skipBlanks cs = c :: rest) (hc : Begins c) :
    readValue? (fuel + 1) room o ('[' :: cs) =
      (readItems? fuel (room - 1) o (c :: rest)).map fun found =>
        (ofItems room found.1, found.2) := by
  rw [readValue?, hcs]
  split
  · rename_i heq
    exact absurd (List.cons.inj heq).1 hc.notClosing.1
  · cases readItems? fuel (room - 1) o (c :: rest) <;> rfl

theorem readValue?_object {cs : List Char} {c : Char} {rest : List Char}
    (hcs : skipBlanks cs = c :: rest) (hc : Begins c) :
    readValue? (fuel + 1) room o ('\x7b' :: cs) =
      (readMembers? fuel (room - 1) o (c :: rest)).map fun found =>
        (ofMembers room found.1, found.2) := by
  rw [readValue?, hcs]
  split
  · rename_i heq
    exact absurd (List.cons.inj heq).1 hc.notClosing.2
  · cases readMembers? fuel (room - 1) o (c :: rest) <;> rfl

variable {cs rest : List Char} {d : Document}

theorem readItems?_last (hread : readValue? fuel room o.head cs = some (d, rest))
    {left : List Char} (hclose : skipBlanks rest = ']' :: left) :
    readItems? (fuel + 1) room o cs = some ([d], left) := by
  rw [readItems?, hread]
  simp only [Option.bind_eq_bind, Option.bind_some, hclose]
  rfl

theorem readItems?_more (hread : readValue? fuel room o.head cs = some (d, ',' :: rest))
    (hopen : (o.tail d).isFull = false) {items : List Document} {left : List Char}
    (hmore : readItems? fuel room (o.tail d) (skipBlanks rest) = some (items, left)) :
    readItems? (fuel + 1) room o cs = some (d :: items, left) := by
  rw [readItems?, hread]
  simp only [Option.bind_eq_bind, Option.bind_some, skipBlanks_cons (c := ',') rfl, hopen,
    hmore]
  rfl

variable {k : String}

theorem readMembers?_last
    (hread : readValue? fuel room (o.field (some k)) (skipBlanks cs) = some (d, rest))
    {left : List Char} (hclose : skipBlanks rest = '\x7d' :: left) :
    readMembers? (fuel + 1) room o (Json.writeString k (':' :: cs)) =
      some ([(some k, d)], left) := by
  rw [Json.writeString, List.cons_append, readMembers?, readString?_write]
  simp only [Option.bind_eq_bind, Option.bind_some, skipBlanks_cons (c := ':') rfl, hread, hclose]
  rfl

theorem readMembers?_more
    (hread : readValue? fuel room (o.field (some k)) (skipBlanks cs) = some (d, ',' :: rest))
    {members : List Member} {left : List Char}
    (hmore : readMembers? fuel room (o.after (some k) d) (skipBlanks rest) = some (members, left)) :
    readMembers? (fuel + 1) room o (Json.writeString k (':' :: cs)) =
      some ((some k, d) :: members, left) := by
  rw [Json.writeString, List.cons_append, readMembers?, readString?_write]
  simp only [Option.bind_eq_bind, Option.bind_some, skipBlanks_cons (c := ':') rfl, hread,
    skipBlanks_cons (c := ',') rfl, hmore]
  rfl

/-! ### Printed values -/

theorem numberEnds_comma (cs : List Char) : NumberEnds (',' :: cs) := numberEnds_cons (by decide)

theorem numberEnds_newline (level : Nat) (cs : List Char) :
    NumberEnds (Json.newline level cs) := numberEnds_cons (by decide)

/-- A printed value begins as values do. -/
theorem pretty_begins {j : Json} (h : j.Printable) (level : Nat) (rest : List Char) :
    ∃ c cs, Json.writePretty level j rest = c :: cs ∧ Begins c := by
  cases j with
  | null => exact ⟨'n', _, rfl, by decide, by decide⟩
  | bool b => cases b <;> exact ⟨_, _, rfl, by decide, by decide⟩
  | int n =>
    obtain ⟨c, cs, htext, hc⟩ := exists_of_readNumber? (readNumber?_int h.1)
    refine ⟨c, cs ++ rest, ?_, begins_number hc⟩
    change (toString n).toList ++ rest = _
    rw [htext]
    rfl
  | double d =>
    obtain ⟨c, cs, htext, hc⟩ := exists_of_readNumber? (show readNumber? d.text = _ from h.2)
    refine ⟨c, cs ++ rest, ?_, begins_number hc⟩
    change d.text ++ rest = _
    rw [htext]
    rfl
  | str s => exact ⟨'"', _, rfl, by decide, by decide⟩
  | arr items => cases items <;> exact ⟨'[', _, rfl, by decide, by decide⟩
  | obj fields => cases fields <;> exact ⟨'\x7b', _, rfl, by decide, by decide⟩

theorem skipBlanks_pretty {j : Json} (h : j.Printable) (level : Nat) (rest : List Char) :
    skipBlanks (Json.writePretty level j rest) = Json.writePretty level j rest := by
  obtain ⟨c, cs, htext, hc⟩ := pretty_begins h level rest
  rw [htext, skipBlanks_cons hc.solid]

/-- So do the items of an array, after the line break. -/
theorem prettyItems_begins {x : Json} {xs : List Json} (h : Json.PrintableItems (x :: xs))
    (level : Nat) (rest : List Char) :
    ∃ c cs, skipBlanks (Json.writePrettyItems level (x :: xs) rest) = c :: cs ∧ Begins c := by
  cases xs with
  | nil =>
    rw [Json.writePrettyItems, skipBlanks_newline, skipBlanks_pretty h.1]
    exact pretty_begins h.1 level rest
  | cons y ys =>
    rw [Json.writePrettyItems, skipBlanks_newline, skipBlanks_pretty h.1]
    · exact pretty_begins h.1 level _
    · exact List.cons_ne_nil y ys

theorem skipBlanks_key (k : String) (cs : List Char) :
    skipBlanks (Json.writeString k cs) = Json.writeString k cs := rfl

theorem skipBlanks_space (cs : List Char) : skipBlanks (' ' :: cs) = skipBlanks cs := rfl

/-- The members of an object begin with the quote of a key. -/
theorem prettyFields_begins (f : String × Json) (fs : List (String × Json)) (level : Nat)
    (rest : List Char) :
    ∃ c cs, skipBlanks (Json.writePrettyFields level (f :: fs) rest) = c :: cs ∧ Begins c := by
  cases fs with
  | nil =>
    rw [Json.writePrettyFields, skipBlanks_newline, skipBlanks_key]
    exact ⟨'"', _, rfl, by decide, by decide⟩
  | cons g gs =>
    rw [Json.writePrettyFields, skipBlanks_newline, skipBlanks_key]
    · exact ⟨'"', _, rfl, by decide, by decide⟩
    · exact List.cons_ne_nil g gs

mutual

/-- A printed value is read as its document, whatever follows it. -/
theorem readValue?_pretty : (j : Json) → j.Printable → {o : Outline} → o.Fits j →
    {fuel : Nat} → j.fuel ≤ fuel → (room level : Nat) → {rest : List Char} → NumberEnds rest →
    readValue? fuel room o (Json.writePretty level j rest) = some (j.documentWithin room, rest)
  | j, _, _, _, 0, hfuel, _, _, _, _ => absurd hfuel (by cases j <;> exact Nat.not_succ_le_zero _)
  | .null, _, _, _, fuel + 1, _, _, _, _, _ => rfl
  | .bool true, _, _, _, fuel + 1, _, _, _, _, _ => rfl
  | .bool false, _, _, _, fuel + 1, _, _, _, _, _ => rfl
  | .int n, h, _, _, fuel + 1, _, _, _, _, hrest =>
    readValue?_number (readNumber?_append hrest (readNumber?_int h.1))
  | .double d, h, _, _, fuel + 1, _, _, _, _, hrest =>
    readValue?_number (readNumber?_append hrest h.2)
  | .str s, _, _, _, fuel + 1, _, _, _, rest, _ => readValue?_str s rest
  | .arr [], _, _, _, fuel + 1, _, _, _, _, _ => rfl
  | .arr (x :: xs), h, o, hfits, fuel + 1, hfuel, room, level, rest, _ => by
    have hitems := readItems?_pretty (x :: xs) (List.cons_ne_nil x xs) h hfits.items
      (Nat.le_of_succ_le_succ hfuel) (room - 1) (level + 1) level rest
    obtain ⟨c, cs, htext, hc⟩ := prettyItems_begins h (level + 1)
      (Json.newline level (']' :: rest))
    rw [htext] at hitems
    rw [Json.writePretty, readValue?_array htext hc, hitems]
    rfl
  | .obj [], _, _, _, fuel + 1, _, _, _, _, _ => rfl
  | .obj (f :: fs), h, o, hfits, fuel + 1, hfuel, room, level, rest, _ => by
    have hmembers := readMembers?_pretty (f :: fs) (List.cons_ne_nil f fs) h hfits.fields
      (Nat.le_of_succ_le_succ hfuel) (room - 1) (level + 1) level rest
    obtain ⟨c, cs, htext, hc⟩ := prettyFields_begins f fs (level + 1)
      (Json.newline level ('\x7d' :: rest))
    rw [htext] at hmembers
    rw [Json.writePretty, readValue?_object htext hc, hmembers]
    rfl

/-- The items of an array, from the first of them up to the closing bracket. -/
theorem readItems?_pretty : (items : List Json) → items ≠ [] → Json.PrintableItems items →
    {o : Outline} → o.FitsItems items → {fuel : Nat} → Json.fuelItems items ≤ fuel →
    (room level outer : Nat) → (rest : List Char) →
    readItems? fuel room o (skipBlanks (Json.writePrettyItems level items
      (Json.newline outer (']' :: rest)))) = some (Json.documentsWithin room items, rest)
  | [], hne, _, _, _, _, _, _, _, _, _ => absurd rfl hne
  | _ :: _, _, _, _, _, 0, hfuel, _, _, _, _ => absurd hfuel (Nat.not_succ_le_zero _)
  | [x], _, h, o, hfits, fuel + 1, hfuel, room, level, outer, rest => by
    have hx := readValue?_pretty x h.1 (hfits.2.2 x List.mem_cons_self)
      (Nat.le_trans (Nat.le_max_left _ _) (Nat.le_of_succ_le_succ hfuel)) room level
      (numberEnds_newline outer (']' :: rest))
    rw [Json.writePrettyItems, skipBlanks_newline, skipBlanks_pretty h.1]
    refine readItems?_last hx ?_
    rw [skipBlanks_newline]
    rfl
  | x :: y :: ys, _, h, o, hfits, fuel + 1, hfuel, room, level, outer, rest => by
    -- What follows an item, a comma or a line break, is no part of a number at its end.
    obtain ⟨hstays, hopen, hall⟩ := hfits
    have hfuel' := Nat.le_of_succ_le_succ hfuel
    have hx := readValue?_pretty x h.1 (hall x List.mem_cons_self)
      (Nat.le_trans (Nat.le_max_left _ _) hfuel') room level
      (numberEnds_comma (Json.writePrettyItems level (y :: ys)
        (Json.newline outer (']' :: rest))))
    have hmore := readItems?_pretty (y :: ys) (List.cons_ne_nil y ys) h.2
      ⟨hstays, hopen, fun z hz => hall z (List.mem_cons_of_mem _ hz)⟩
      (Nat.le_trans (Nat.le_max_right _ _) hfuel') room level outer rest
    rw [Json.writePrettyItems, skipBlanks_newline, skipBlanks_pretty h.1]
    · refine readItems?_more hx ?_ ?_
      · rw [hstays, hopen]
      · rw [hstays]
        exact hmore
    · exact List.cons_ne_nil y ys

/-- The members of an object, from the first of them up to the closing brace. -/
theorem readMembers?_pretty : (fields : List (String × Json)) → fields ≠ [] →
    Json.PrintableFields fields → {o : Outline} → o.FitsFields fields → {fuel : Nat} →
    Json.fuelFields fields ≤ fuel → (room level outer : Nat) → (rest : List Char) →
    readMembers? fuel room o (skipBlanks (Json.writePrettyFields level fields
      (Json.newline outer ('\x7d' :: rest)))) = some (Json.membersWithin room fields, rest)
  | [], hne, _, _, _, _, _, _, _, _, _ => absurd rfl hne
  | _ :: _, _, _, _, _, 0, hfuel, _, _, _, _ => absurd hfuel (Nat.not_succ_le_zero _)
  | [(k, x)], _, h, o, hfits, fuel + 1, hfuel, room, level, outer, rest => by
    have hx := readValue?_pretty x h.1 hfits.1
      (Nat.le_trans (Nat.le_max_left _ _) (Nat.le_of_succ_le_succ hfuel)) room level
      (numberEnds_newline outer ('\x7d' :: rest))
    rw [← skipBlanks_pretty h.1, ← skipBlanks_space] at hx
    rw [Json.writePrettyFields, skipBlanks_newline, skipBlanks_key]
    refine readMembers?_last hx ?_
    rw [skipBlanks_newline]
    rfl
  | (k, x) :: g :: gs, _, h, o, hfits, fuel + 1, hfuel, room, level, outer, rest => by
    obtain ⟨hfirst, hrest⟩ := hfits
    have hfuel' := Nat.le_of_succ_le_succ hfuel
    have hx := readValue?_pretty x h.1 hfirst
      (Nat.le_trans (Nat.le_max_left _ _) hfuel') room level
      (numberEnds_comma (Json.writePrettyFields level (g :: gs)
        (Json.newline outer ('\x7d' :: rest))))
    have hmore := readMembers?_pretty (g :: gs) (List.cons_ne_nil g gs) h.2 (hrest room)
      (Nat.le_trans (Nat.le_max_right _ _) hfuel') room level outer rest
    rw [← skipBlanks_pretty h.1, ← skipBlanks_space] at hx
    rw [Json.writePrettyFields, skipBlanks_newline, skipBlanks_key]
    · exact readMembers?_more hx hmore
    · exact List.cons_ne_nil g gs

end

/-! ### Texts -/

theorem length_newline (level : Nat) (cs : List Char) :
    cs.length + 1 ≤ (Json.newline level cs).length := by
  rw [Json.newline, List.cons_append, List.length_cons, List.length_append]
  omega

theorem length_writeString (s : String) (cs : List Char) :
    cs.length + 2 ≤ (Json.writeString s cs).length := by
  rw [Json.writeString, List.cons_append, List.length_cons, List.length_append, List.length_cons]
  omega

theorem length_number {cs : List Char} {found : Document × List Char}
    (h : readNumber? cs = some found) (rest : List Char) :
    1 + rest.length ≤ (cs ++ rest).length := by
  obtain ⟨c, left, rfl, -⟩ := exists_of_readNumber? h
  rw [List.cons_append, List.length_cons, List.length_append]
  omega

mutual

/-- The text of a value is as long as the fuel with which it is read, or longer. -/
theorem fuel_le_pretty : (j : Json) → j.Printable → (level : Nat) → (rest : List Char) →
    j.fuel + rest.length ≤ (Json.writePretty level j rest).length
  | .null, _, _, _ => by
    simp only [Json.fuel, Json.writePretty, Json.write, List.length_cons]; omega
  | .bool true, _, _, _ => by
    simp only [Json.fuel, Json.writePretty, Json.write, List.length_cons]; omega
  | .bool false, _, _, _ => by
    simp only [Json.fuel, Json.writePretty, Json.write, List.length_cons]; omega
  | .int _, h, _, rest => length_number (readNumber?_int h.1) rest
  | .double _, h, _, rest => length_number h.2 rest
  | .str s, _, _, rest => by
    have hs := length_writeString s rest
    change 1 + rest.length ≤ (Json.writeString s rest).length
    omega
  | .arr [], _, _, _ => by
    simp only [Json.fuel, Json.fuelItems, Json.writePretty, Json.write, Json.writeItems,
      List.length_cons]
    omega
  | .arr (x :: xs), h, level, rest => by
    have hitems := fuel_le_prettyItems (x :: xs) h (level + 1) (Json.newline level (']' :: rest))
    have hclose := length_newline level (']' :: rest)
    simp only [Json.fuel, Json.writePretty, List.length_cons] at hclose ⊢
    omega
  | .obj [], _, _, _ => by
    simp only [Json.fuel, Json.fuelFields, Json.writePretty, Json.write, Json.writeFields,
      List.length_cons]
    omega
  | .obj (f :: fs), h, level, rest => by
    have hfields := fuel_le_prettyFields (f :: fs) h (level + 1)
      (Json.newline level ('\x7d' :: rest))
    have hclose := length_newline level ('\x7d' :: rest)
    simp only [Json.fuel, Json.writePretty, List.length_cons] at hclose ⊢
    omega

theorem fuel_le_prettyItems : (items : List Json) → Json.PrintableItems items → (level : Nat) →
    (rest : List Char) →
    Json.fuelItems items + rest.length ≤ (Json.writePrettyItems level items rest).length
  | [], _, _, _ => by rw [Json.fuelItems, Nat.zero_add]; rfl
  | [x], h, level, rest => by
    have hx := fuel_le_pretty x h.1 level rest
    have hline := length_newline level (Json.writePretty level x rest)
    simp only [Json.fuelItems, Json.writePrettyItems]
    omega
  | x :: y :: ys, h, level, rest => by
    have hmore := fuel_le_prettyItems (y :: ys) h.2 level rest
    have hx := fuel_le_pretty x h.1 level (',' :: Json.writePrettyItems level (y :: ys) rest)
    have hline := length_newline level
      (Json.writePretty level x (',' :: Json.writePrettyItems level (y :: ys) rest))
    rw [Json.fuelItems, Json.writePrettyItems]
    · rw [List.length_cons] at hx
      omega
    · exact List.cons_ne_nil y ys

theorem fuel_le_prettyFields : (fields : List (String × Json)) → Json.PrintableFields fields →
    (level : Nat) → (rest : List Char) →
    Json.fuelFields fields + rest.length ≤ (Json.writePrettyFields level fields rest).length
  | [], _, _, _ => by rw [Json.fuelFields, Nat.zero_add]; rfl
  | [(k, x)], h, level, rest => by
    have hx := fuel_le_pretty x h.1 level rest
    have hkey := length_writeString k (':' :: ' ' :: Json.writePretty level x rest)
    have hline := length_newline level
      (Json.writeString k (':' :: ' ' :: Json.writePretty level x rest))
    simp only [Json.fuelFields, Json.writePrettyFields, List.length_cons] at hkey ⊢
    omega
  | (k, x) :: g :: gs, h, level, rest => by
    have hmore := fuel_le_prettyFields (g :: gs) h.2 level rest
    have hx := fuel_le_pretty x h.1 level (',' :: Json.writePrettyFields level (g :: gs) rest)
    have hkey := length_writeString k
      (':' :: ' ' :: Json.writePretty level x (',' :: Json.writePrettyFields level (g :: gs) rest))
    have hline := length_newline level (Json.writeString k
      (':' :: ' ' :: Json.writePretty level x (',' :: Json.writePrettyFields level (g :: gs) rest)))
    rw [Json.fuelFields, Json.writePrettyFields]
    · simp only [List.length_cons] at hx hkey
      omega
    · exact List.cons_ne_nil g gs

end

/-- A text that is a printed value is read as the document of the value, where what is nested too
deep is unreadable. -/
theorem read?_pretty {o : Outline} {j : Json} (h : j.Printable) (fits : o.Fits j) :
    read? o j.pretty = some (j.documentWithin nestingLimit) := by
  have hfuel := fuel_le_pretty j h 0 []
  have hread := readValue?_pretty j h fits (Nat.le_succ_of_le hfuel) nestingLimit 0 numberEnds_nil
  rw [read?, Json.pretty, String.toList_ofList, readChars?, skipBlanks_pretty h, hread]
  rfl

end Document

namespace Json

mutual

theorem tree?_documentWithin : (j : Json) → (room : Nat) →
    (j.documentWithin room).tree? = if j.depth ≤ room then some j else none
  | arr items, 0 => by
    rw [documentWithin_arr_zero, depth, if_neg (Nat.not_succ_le_zero _)]
    rfl
  | arr items, room + 1 => by
    rw [documentWithin_arr_succ, depth, Document.tree?, treeItems?_documentWithin items room]
    simp only [Nat.add_le_add_iff_right]
    split <;> rfl
  | obj fields, 0 => by
    rw [documentWithin_obj_zero, depth, if_neg (Nat.not_succ_le_zero _)]
    rfl
  | obj fields, room + 1 => by
    rw [documentWithin_obj_succ, depth, Document.tree?, treeFields?_documentWithin fields room]
    simp only [Nat.add_le_add_iff_right]
    split <;> rfl
  | null, _ => (if_pos (Nat.zero_le _)).symm
  | bool _, _ => (if_pos (Nat.zero_le _)).symm
  | int _, _ => (if_pos (Nat.zero_le _)).symm
  | double _, _ => (if_pos (Nat.zero_le _)).symm
  | str _, _ => (if_pos (Nat.zero_le _)).symm

theorem treeItems?_documentWithin : (items : List Json) → (room : Nat) →
    Document.treeItems? (items.map (documentWithin room)) =
      if depthItems items ≤ room then some items else none
  | [], _ => (if_pos (Nat.zero_le _)).symm
  | x :: xs, room => by
    rw [List.map_cons, Document.treeItems?, tree?_documentWithin x room,
      treeItems?_documentWithin xs room, depthItems]
    simp only [Nat.max_le]
    by_cases hx : x.depth ≤ room <;> by_cases hxs : depthItems xs ≤ room <;> simp [hx, hxs]

theorem treeFields?_documentWithin : (fields : List (String × Json)) → (room : Nat) →
    Document.treeFields? (fields.map fun f => (f.1, f.2.documentWithin room)) =
      if depthFields fields ≤ room then some fields else none
  | [], _ => (if_pos (Nat.zero_le _)).symm
  | (k, x) :: fs, room => by
    rw [List.map_cons, Document.treeFields?, tree?_documentWithin x room,
      treeFields?_documentWithin fs room, depthFields]
    simp only [Nat.max_le]
    by_cases hx : x.depth ≤ room <;> by_cases hfs : depthFields fs ≤ room <;> simp [hx, hfs]

end

end Json

end OriginGate
