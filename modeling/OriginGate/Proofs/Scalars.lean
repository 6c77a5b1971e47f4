import OriginGate.Account
import OriginGate.Json.Printer
import OriginGate.Json.Scalar
import OriginGate.Uuid
import Mathlib.Data.List.TakeWhile
import Mathlib.Data.Nat.Digits.Defs

/-!
# Scalars are read as they were written

* `Hex.decode?_encode` : hex digits; `Uuid.read?_text`, `Account.read?_text` : identifiers and
  addresses;
* `Document.readString?_write` : any string in JSON, whatever follows it;
* `Document.NumberEnds` : what may follow a number; `readNumber?_append` : a number is read alike
  with it and without it;
* `Document.readNumber?_int` : the integers of 64 bits, signed or not;
* `Json.Double.ReadsBack` : what a double has to satisfy for the same; not all do.
-/

namespace OriginGate

/-! ## Hex digits -/

namespace Hex

theorem digit?_digit : ∀ n < 16, digit? (digit n) = some n := by decide

theorem digit_ne_hyphen : ∀ n < 16, digit n ≠ '-' := by decide

theorem length_encode (width n : Nat) : (encode width n).length = width := by
  induction width generalizing n with
  | zero => rfl
  | succ width ih => rw [encode, List.length_append, ih]; rfl

theorem hyphen_not_mem_encode (width n : Nat) : '-' ∉ encode width n := by
  induction width generalizing n with
  | zero => exact List.not_mem_nil
  | succ width ih =>
    rw [encode, List.mem_append, List.mem_singleton, not_or]
    exact ⟨ih _, (digit_ne_hyphen _ (Nat.mod_lt _ (by decide))).symm⟩

theorem decodeFrom?_append (high : Nat) (cs ds : List Char) :
    decodeFrom? high (cs ++ ds) = (decodeFrom? high cs).bind (decodeFrom? · ds) := by
  induction cs generalizing high with
  | nil => rfl
  | cons c cs ih =>
    rw [List.cons_append, decodeFrom?, decodeFrom?]
    split
    · exact ih _
    · rfl

theorem decodeFrom?_encode (width n : Nat) :
    decodeFrom? 0 (encode width n) = some (n % 16 ^ width) := by
  induction width generalizing n with
  | zero => rw [pow_zero, Nat.mod_one]; rfl
  | succ width ih =>
    have hlast := digit?_digit (n % 16) (Nat.mod_lt _ (by decide))
    rw [encode, decodeFrom?_append, ih]
    simp only [Option.bind_some, decodeFrom?, hlast]
    rw [pow_succ', Nat.mod_mul]
    congr 1
    omega

theorem decode?_encode {width n : Nat} (h : n < 16 ^ width) : decode? (encode width n) = some n := by
  rw [decode?, decodeFrom?_encode, Nat.mod_eq_of_lt h]

end Hex

theorem Uuid.ofDigits?_encode (u : Uuid) :
    ofDigits? (Hex.encode 32 u.number.toNat) = some u := by
  rw [ofDigits?, if_pos (Hex.length_encode _ _), Hex.decode?_encode]
  · simp
  · exact u.number.isLt

/-- Without the hyphens between the groups the digits are left. -/
theorem Uuid.filter_group {digits : List Char} (h : '-' ∉ digits) :
    (group digits).filter (· ≠ '-') = digits := by
  have hkept : digits.filter (· ≠ '-') = digits := by
    refine List.filter_eq_self.2 fun c hc => decide_eq_true ?_
    rintro rfl
    exact h hc
  have hgroups : digits.take 8 ++ ((digits.drop 8).take 4 ++ ((digits.drop 12).take 4 ++
      ((digits.drop 16).take 4 ++ digits.drop 20))) = digits := by
    have hjoin : ∀ n, (digits.drop n).take 4 ++ digits.drop (n + 4) = digits.drop n := by
      intro n
      rw [← List.drop_drop, List.take_append_drop]
    rw [hjoin 16, hjoin 12, hjoin 8, List.take_append_drop]
  conv_rhs => rw [← hkept, ← hgroups]
  simp [group]

theorem Uuid.read?_text (u : Uuid) : read? u.text = some u := by
  have hlength := Hex.length_encode 32 u.number.toNat
  have hfilter := filter_group (Hex.hyphen_not_mem_encode 32 u.number.toNat)
  have hshort : ofDigits? (group (Hex.encode 32 u.number.toNat)) = none := by
    rw [ofDigits?, if_neg]
    simp [group, hlength]
  have hgroups : ofGroups? (group (Hex.encode 32 u.number.toNat)) = some u := by
    rw [ofGroups?, hfilter, if_pos rfl, ofDigits?_encode]
  rw [read?, text, String.toList_ofList]
  simp only [hshort, hgroups]

theorem Account.ofDigits?_digits (a : Account) : ofDigits? a.digits = some a := by
  have hlength : a.digits.length = 40 := Hex.length_encode 40 _
  rw [ofDigits?, if_pos hlength, digits, Hex.decode?_encode]
  · simp
  · exact a.number.isLt

theorem Account.read?_text (a : Account) : read? a.text = some a := by
  rw [read?, text, String.toList_ofList]
  exact a.ofDigits?_digits

/-! ## Strings -/

namespace Document

/-- A unit in front of what is read. -/
def consUnit (u : StringUnit) (found : List StringUnit × List Char) :
    List StringUnit × List Char :=
  (u :: found.1, found.2)

theorem readUnits?_short {c e : Char} (hu : c ≠ 'u') (h : escape? c = some e) (cs : List Char) :
    readUnits? ('\\' :: c :: cs) = (readUnits? cs).map (consUnit (.char e)) := by
  rw [readUnits?, h]
  · cases readUnits? cs <;> rfl
  · rintro a b c d rest rfl
    exact absurd rfl hu

theorem readUnits?_hex {a b c d : Char} {n : Nat} (h : Hex.decode? [a, b, c, d] = some n)
    (cs : List Char) :
    readUnits? ('\\' :: 'u' :: a :: b :: c :: d :: cs) =
      (readUnits? cs).map (consUnit (.unit n)) := by
  rw [readUnits?, h]
  cases readUnits? cs <;> rfl

theorem readUnits?_plain {c : Char} (hquote : c ≠ '"') (hslash : c ≠ '\\') (h : ¬ c.toNat < 0x20)
    (cs : List Char) : readUnits? (c :: cs) = (readUnits? cs).map (consUnit (.char c)) := by
  rw [readUnits?, if_neg h]
  · cases readUnits? cs <;> rfl
  all_goals simp_all

/-- The number of a control character is no half of a pair. -/
theorem decodeUnits?_control {c : Char} (h : c.toNat < 0x20) (us : List StringUnit) :
    decodeUnits? (.unit c.toNat :: us) = (decodeUnits? us).map (c :: ·) := by
  have hlow : isLowSurrogate c.toNat = false := by simp [isLowSurrogate]; omega
  have hhigh : isHighSurrogate c.toNat = false := by simp [isHighSurrogate]; omega
  rw [decodeUnits?.eq_def]
  simp [hlow, hhigh]

/-- A character is read as a unit that stands for it. -/
theorem readUnits?_escape (c : Char) :
    ∃ u, (∀ cs, readUnits? (Json.escapeChar c ++ cs) = (readUnits? cs).map (consUnit u)) ∧
      ∀ us, decodeUnits? (u :: us) = (decodeUnits? us).map (c :: ·) := by
  unfold Json.escapeChar
  split
  case h_8 _ hquote hslash _ _ _ _ _ =>
    by_cases hcontrol : c.toNat < 0x20
    · rw [if_pos hcontrol]
      have hdecode : Hex.decode? (Hex.encode 4 c.toNat) = some c.toNat :=
        Hex.decode?_encode (Nat.lt_trans hcontrol (by decide))
      exact ⟨.unit c.toNat, readUnits?_hex hdecode, decodeUnits?_control hcontrol⟩
    · rw [if_neg hcontrol]
      exact ⟨.char c, readUnits?_plain hquote hslash hcontrol, fun us => rfl⟩
  all_goals exact ⟨.char _, readUnits?_short (by decide) rfl, fun us => rfl⟩

theorem readUnits?_escaped (cs rest : List Char) :
    ∃ us, readUnits? (cs.flatMap Json.escapeChar ++ '"' :: rest) = some (us, rest) ∧
      decodeUnits? us = some cs := by
  induction cs with
  | nil => exact ⟨[], rfl, rfl⟩
  | cons c cs ih =>
    obtain ⟨us, hread, hdecode⟩ := ih
    obtain ⟨u, hunit, hchar⟩ := readUnits?_escape c
    refine ⟨u :: us, ?_, ?_⟩
    · rw [List.flatMap_cons, List.append_assoc, hunit, hread]
      rfl
    · rw [hchar, hdecode]
      rfl

/-- A string is read as it was written, from after its opening quote. -/
theorem readString?_write (s : String) (rest : List Char) :
    readString? (s.toList.flatMap Json.escapeChar ++ '"' :: rest) = some (some s, rest) := by
  obtain ⟨us, hread, hdecode⟩ := readUnits?_escaped s.toList rest
  rw [readString?, hread, Option.map_some]
  simp only [hdecode, Option.map_some, String.ofList_toList]

/-! ## Numbers -/

/-- What follows is not a part of a number. -/
def NumberEnds (rest : List Char) : Prop :=
  ∀ c ∈ rest.head?, c.isDigit = false ∧ c ≠ '.' ∧ c ≠ 'e' ∧ c ≠ 'E'

theorem numberEnds_nil : NumberEnds [] := fun _ h => by cases h

theorem numberEnds_cons {c : Char} {rest : List Char}
    (h : c.isDigit = false ∧ c ≠ '.' ∧ c ≠ 'e' ∧ c ≠ 'E') : NumberEnds (c :: rest) := by
  intro d hd
  cases hd
  exact h

variable {rest : List Char}

theorem spanDigits_append (h : NumberEnds rest) (cs : List Char) :
    spanDigits (cs ++ rest) = ((spanDigits cs).1, (spanDigits cs).2 ++ rest) := by
  induction cs with
  | nil =>
    cases rest with
    | nil => rfl
    | cons c rest => simp [spanDigits, (h c rfl).1]
  | cons c cs ih =>
    simp only [spanDigits, Prod.mk.injEq] at ih ⊢
    simp only [List.cons_append, List.takeWhile_cons, List.dropWhile_cons]
    split
    · rw [ih.1, ih.2]
      exact ⟨rfl, rfl⟩
    · exact ⟨rfl, rfl⟩

theorem readWhole?_append {cs ds left : List Char} (h : NumberEnds rest)
    (hread : readWhole? cs = some (ds, left)) :
    readWhole? (cs ++ rest) = some (ds, left ++ rest) := by
  unfold readWhole? at hread ⊢
  rw [spanDigits_append h]
  generalize spanDigits cs = found at hread ⊢
  obtain ⟨digits, more⟩ := found
  simp only at hread ⊢
  split at hread
  · cases hread
  · cases hread
  · rename_i found hne hzero
    cases hread
    split
    · rename_i heq
      cases heq
      exact absurd rfl (hne _)
    · rename_i heq
      cases heq
      exact absurd rfl (hzero _ _ _)
    · rfl

theorem readFraction?_append {cs left : List Char} {ds : Option (List Char)} (h : NumberEnds rest)
    (hread : readFraction? cs = some (ds, left)) :
    readFraction? (cs ++ rest) = some (ds, left ++ rest) := by
  cases cs with
  | nil =>
    cases hread
    cases rest with
    | nil => rfl
    | cons c rest =>
      have hc := (h c rfl).2.1
      simp [readFraction?, hc]
  | cons c cs =>
    by_cases hc : c = '.'
    · subst hc
      rw [List.cons_append]
      simp only [readFraction?, spanDigits_append h] at hread ⊢
      generalize spanDigits cs = found at hread ⊢
      obtain ⟨digits, more⟩ := found
      cases digits with
      | nil => cases hread
      | cons d ds =>
        cases hread
        rfl
    · simp only [readFraction?, List.cons_append] at hread ⊢
      split at hread
      · rename_i heq
        exact absurd (List.cons.inj heq).1 hc
      · cases hread
        split
        · rename_i heq
          exact absurd (List.cons.inj heq).1 hc
        · rfl

theorem readExponentDigits?_append {cs left : List Char} {n : Option Int} (h : NumberEnds rest)
    {negative : Bool} (hread : readExponentDigits? negative cs = some (n, left)) :
    readExponentDigits? negative (cs ++ rest) = some (n, left ++ rest) := by
  simp only [readExponentDigits?, spanDigits_append h] at hread ⊢
  generalize spanDigits cs = found at hread ⊢
  obtain ⟨digits, more⟩ := found
  cases digits with
  | nil => cases hread
  | cons d ds =>
    cases hread
    rfl

theorem readExponent?_append {cs left : List Char} {n : Option Int} (h : NumberEnds rest)
    (hread : readExponent? cs = some (n, left)) :
    readExponent? (cs ++ rest) = some (n, left ++ rest) := by
  cases cs with
  | nil =>
    cases hread
    cases rest with
    | nil => rfl
    | cons c rest =>
      obtain ⟨-, -, he, hE⟩ := h c rfl
      simp [readExponent?, he, hE]
  | cons c cs =>
    rw [List.cons_append]
    simp only [readExponent?] at hread ⊢
    split at hread
    · rename_i he
      rw [if_pos he]
      cases cs with
      | nil => cases hread
      | cons d cs =>
        simp only [List.cons_append] at hread ⊢
        split at hread
        · rename_i heq
          cases heq
          exact readExponentDigits?_append h hread
        · rename_i heq
          cases heq
          exact readExponentDigits?_append h hread
        · rename_i hminus hplus
          split
          · rename_i heq
            cases heq
            exact absurd rfl (hminus cs)
          · rename_i heq
            cases heq
            exact absurd rfl (hplus cs)
          · change readExponentDigits? false ((d :: cs) ++ rest) = _
            exact readExponentDigits?_append h hread
    · rename_i he
      cases hread
      rw [if_neg he]
      rfl

/-- A number that ends where the text ends is read alike when what follows is no part of it. -/
theorem readUnsigned?_append {cs : List Char} {negative : Bool} {d : Document}
    (h : NumberEnds rest) (hread : readUnsigned? negative cs = some (d, [])) :
    readUnsigned? negative (cs ++ rest) = some (d, rest) := by
  simp only [readUnsigned?, Option.bind_eq_bind, Option.bind_eq_some_iff] at hread ⊢
  obtain ⟨⟨whole, cs₁⟩, hwhole, ⟨fraction, cs₂⟩, hfraction, ⟨exponent, cs₃⟩, hexponent, hd⟩ := hread
  cases hd
  exact ⟨_, readWhole?_append h hwhole, _, readFraction?_append h hfraction, _,
    readExponent?_append h hexponent, rfl⟩

theorem readNumber?_append {cs : List Char} {d : Document} (h : NumberEnds rest)
    (hread : readNumber? cs = some (d, [])) : readNumber? (cs ++ rest) = some (d, rest) := by
  cases cs with
  | nil => cases hread
  | cons c cs =>
    simp only [readNumber?, List.cons_append] at hread ⊢
    split at hread
    · rename_i heq
      cases heq
      exact readUnsigned?_append h hread
    · rename_i hminus
      split
      · rename_i heq
        cases heq
        exact absurd rfl (hminus cs)
      · change readUnsigned? false ((c :: cs) ++ rest) = _
        exact readUnsigned?_append h hread

theorem readNumber?_head {c : Char} {cs : List Char} {found : Document × List Char}
    (hread : readNumber? (c :: cs) = some found) : c = '-' ∨ c.isDigit = true := by
  by_cases hminus : c = '-'
  · exact .inl hminus
  · right
    simp only [readNumber?] at hread
    split at hread
    · rename_i heq
      exact absurd (List.cons.inj heq).1 hminus
    · simp only [readUnsigned?, Option.bind_eq_bind, Option.bind_eq_some_iff] at hread
      obtain ⟨whole, hwhole, -⟩ := hread
      by_contra hdigit
      rw [readWhole?, spanDigits, List.takeWhile_cons_of_neg hdigit] at hwhole
      cases hwhole

/-! ### Integers -/

theorem toDigits_head {n : Nat} (h : (Nat.toDigits 10 n).head? = some '0') : n = 0 := by
  induction n using Nat.base_induction 10 (by decide) with
  | single m hm =>
    rw [Nat.toDigits_of_lt_base hm] at h
    have hzero : ∀ k < 10, Nat.digitChar k = '0' → k = 0 := by decide
    exact hzero m hm (Option.some.inj h)
  | digit m k hk hm ih =>
    -- The first digit is that of the digits before the last.
    rw [← Nat.toDigits_append_toDigits (by decide) hm hk, List.head?_append] at h
    rcases hhead : (Nat.toDigits 10 m).head? with _ | c
    · exact absurd (List.head?_eq_none_iff.1 hhead) Nat.toDigits_ne_nil
    · rw [hhead] at h ih
      exact absurd (ih h) (Nat.ne_of_gt hm)

theorem spanDigits_toDigits (n : Nat) :
    spanDigits (Nat.toDigits 10 n) = (Nat.toDigits 10 n, []) := by
  have hall : ∀ c ∈ Nat.toDigits 10 n, c.isDigit = true :=
    fun c hc => Nat.isDigit_of_mem_toDigits (by decide) (by decide) hc
  simp only [spanDigits, Prod.mk.injEq]
  exact ⟨List.takeWhile_eq_self_iff.2 hall, List.dropWhile_eq_nil_iff.2 hall⟩

theorem readWhole?_toDigits (n : Nat) :
    readWhole? (Nat.toDigits 10 n) = some (Nat.toDigits 10 n, []) := by
  unfold readWhole?
  rw [spanDigits_toDigits]
  split
  · rename_i heq
    exact absurd (congrArg Prod.fst heq) Nat.toDigits_ne_nil
  · rename_i c more left heq
    have hfst : Nat.toDigits 10 n = '0' :: c :: more := congrArg Prod.fst heq
    have hzero := toDigits_head (n := n) (by rw [hfst]; rfl)
    rw [hzero, Nat.toDigits_zero] at hfst
    cases hfst
  · rfl

/-- A digit more makes a number no smaller. -/
theorem le_ofDigitChars (cs : List Char) (n : Nat) : n ≤ Nat.ofDigitChars 10 cs n := by
  induction cs generalizing n with
  | nil => rw [Nat.ofDigitChars_nil]
  | cons c cs ih =>
    rw [Nat.ofDigitChars_cons]
    exact Nat.le_trans (by omega) (ih _)

/-- No digit is left of a number that fits 64 bits. -/
theorem appendDigits_eq (cs : List Char) {n : Nat} (h : Nat.ofDigitChars 10 cs n < 2 ^ 64) :
    appendDigits n cs = (Nat.ofDigitChars 10 cs n, []) := by
  induction cs generalizing n with
  | nil => rw [Nat.ofDigitChars_nil]; rfl
  | cons c cs ih =>
    rw [Nat.ofDigitChars_cons] at h ⊢
    have hnext : 10 * n + digitValue c < 2 ^ 64 := Nat.lt_of_le_of_lt (le_ofDigitChars cs _) h
    rw [appendDigits]
    simp only [if_pos (show 10 * n + digitValue c < Nat.pow 2 64 from hnext)]
    exact ih h

theorem readUnsigned?_toDigits (negative : Bool) (n : Nat) :
    readUnsigned? negative (Nat.toDigits 10 n) =
      some (ofNumber negative (Nat.toDigits 10 n) none none, []) := by
  rw [readUnsigned?, readWhole?_toDigits]
  rfl

theorem ofNumber_toDigits (negative : Bool) {n : Nat} (h : n < 2 ^ 64) :
    ofNumber negative (Nat.toDigits 10 n) none none =
      if negative then
        if 0 < n ∧ n ≤ Nat.pow 2 63 then int (-(n : Int)) else ofDecimal true ⟨n, 0⟩
      else int n := by
  rw [ofNumber, appendDigits_eq]
  · rw [Nat.ofDigitChars_ten_toDigits]
  · rw [Nat.ofDigitChars_ten_toDigits]
    exact h

/-- An integer of 64 bits, signed or not, is read as it was written. -/
theorem readNumber?_int {n : Int} (h : -2 ^ 63 ≤ n ∧ n < 2 ^ 64) :
    readNumber? (toString n).toList = some (.int n, []) := by
  obtain ⟨low, high⟩ := h
  cases n with
  | ofNat m =>
    have hm : m < 2 ^ 64 := Int.ofNat_lt.1 high
    have hlist : (toString (Int.ofNat m)).toList = Nat.toDigits 10 m := by
      change (Nat.repr m).toList = _
      rw [Nat.repr_eq_ofList_toDigits, String.toList_ofList]
    rw [hlist]
    have hnumber : readNumber? (Nat.toDigits 10 m) = readUnsigned? false (Nat.toDigits 10 m) := by
      unfold readNumber?
      split
      · rename_i heq
        have hdigit : ('-').isDigit = true :=
          Nat.isDigit_of_mem_toDigits (b := 10) (n := m) (by decide) (by decide)
            (by rw [heq]; exact List.mem_cons_self)
        cases hdigit
      · rfl
    rw [hnumber, readUnsigned?_toDigits, ofNumber_toDigits false hm]
    rfl
  | negSucc m =>
    have hm : m + 1 ≤ 2 ^ 63 := by
      rw [Int.negSucc_eq] at low
      omega
    have hlist : (toString (Int.negSucc m)).toList = '-' :: Nat.toDigits 10 (m + 1) := by
      change ("-" ++ Nat.repr (m + 1)).toList = _
      rw [Nat.repr_eq_ofList_toDigits, String.toList_append,
        String.toList_ofList (l := Nat.toDigits 10 (m + 1))]
      rfl
    rw [hlist]
    simp only [readNumber?]
    rw [readUnsigned?_toDigits, ofNumber_toDigits true (by omega), if_pos rfl,
      if_pos ⟨Nat.succ_pos m, hm⟩]
    rfl

end Document

/-- A double is read as it was written. -/
def Json.Double.ReadsBack (d : Double) : Prop :=
  Document.readNumber? d.text = some (.double d, [])

end OriginGate
