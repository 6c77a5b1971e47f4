import OriginGate.SortedMap.Lookup
import Mathlib.Data.String.Basic
import Mathlib.Tactic.SplitIfs

/-!
# The order of strings by their bytes

Names and keys are ordered by code points. Their UTF-8 bytes have the same order.

* `bytes` : the UTF-8 bytes of a string;
* `encodeChar_lt` : an earlier character begins with earlier bytes, whatever follows;
* `lt_iff_bytes` : strings stand in the order of their bytes;
* `SortedMap.keys_ascend_bytes` : the keys of a map ascend in it.
-/

namespace OriginGate

/-- The UTF-8 bytes of a string. -/
def bytes (s : String) : List UInt8 := s.toUTF8.data.toList

theorem bytes_eq (s : String) : bytes s = s.toList.flatMap String.utf8EncodeChar := by
  have h : s.toUTF8 = (s.toList.flatMap String.utf8EncodeChar).toByteArray :=
    String.utf8Encode_toList.symm
  rw [bytes, h, List.data_toByteArray]

/-! ## Characters -/

theorem ofNat_cons_lt {m n : Nat} {xs ys : List UInt8} (hn : n < 256)
    (h : m < n ∨ m = n ∧ xs < ys) : UInt8.ofNat m :: xs < UInt8.ofNat n :: ys := by
  rw [List.cons_lt_cons_iff]
  rcases h with h | ⟨rfl, h⟩
  · left
    rw [UInt8.lt_iff_toNat_lt, UInt8.toNat_ofNat', UInt8.toNat_ofNat',
      Nat.mod_eq_of_lt (Nat.lt_trans h hn), Nat.mod_eq_of_lt hn]
    exact h
  · exact .inr ⟨rfl, h⟩

/-- The last six bits of a number go into a byte of their own, behind those of the rest. -/
theorem div_lt_or_continued {m n : Nat} {xs ys : List UInt8} (h : m < n ∨ m = n ∧ xs < ys) :
    m / 64 < n / 64 ∨ m / 64 = n / 64 ∧
      UInt8.ofNat (m % 64 + 128) :: xs < UInt8.ofNat (n % 64 + 128) :: ys := by
  by_cases hdiv : m / 64 < n / 64
  · exact .inl hdiv
  · refine .inr ⟨by omega, ofNat_cons_lt (by omega) ?_⟩
    exact h.imp (by omega) (And.imp_left (by omega))

/-- The bytes of an earlier character are earlier, whatever follows. -/
theorem encodeChar_lt {c d : Char} (h : c < d) (xs ys : List UInt8) :
    String.utf8EncodeChar c ++ xs < String.utf8EncodeChar d ++ ys := by
  have hlt : c.val.toNat < d.val.toNat := UInt32.lt_iff_toNat_lt.1 (Char.lt_def.1 h)
  have hvalid : d.val.toNat < 0x110000 := by
    rcases d.valid with h | h
    · exact Nat.lt_trans h (by decide)
    · exact h.2
  unfold String.utf8EncodeChar
  generalize c.val.toNat = m, d.val.toNat = n at hlt hvalid
  have hone := @div_lt_or_continued m n xs ys (.inl hlt)
  have htwo := div_lt_or_continued hone
  have hthree := div_lt_or_continued htwo
  simp only [Nat.div_div_eq_div_mul, Nat.reduceMul] at htwo hthree
  dsimp only
  -- More bytes begin with a greater one; of equally many the first that differs decides.
  by_cases h₁ : n ≤ 127
  · rw [if_pos h₁, if_pos (by omega)]
    exact ofNat_cons_lt (by omega) (.inl hlt)
  · rw [if_neg h₁]
    by_cases h₂ : n ≤ 2047
    · rw [if_pos h₂]
      split_ifs
      · exact ofNat_cons_lt (by omega) (.inl (by omega))
      · exact ofNat_cons_lt (by omega) (hone.imp (by omega) (And.imp_left (by omega)))
      all_goals omega
    · rw [if_neg h₂]
      by_cases h₃ : n ≤ 65535
      · rw [if_pos h₃]
        split_ifs
        · exact ofNat_cons_lt (by omega) (.inl (by omega))
        · exact ofNat_cons_lt (by omega) (.inl (by omega))
        · exact ofNat_cons_lt (by omega) (htwo.imp (by omega) (And.imp_left (by omega)))
        · omega
      · rw [if_neg h₃]
        split_ifs
        · exact ofNat_cons_lt (by omega) (.inl (by omega))
        · exact ofNat_cons_lt (by omega) (.inl (by omega))
        · exact ofNat_cons_lt (by omega) (.inl (by omega))
        · exact ofNat_cons_lt (by omega) (hthree.imp (by omega) (And.imp_left (by omega)))

/-! ## Strings -/

theorem encode_lt {cs ds : List Char} (h : cs < ds) :
    cs.flatMap String.utf8EncodeChar < ds.flatMap String.utf8EncodeChar := by
  induction ds generalizing cs with
  | nil => exact absurd h (List.not_lt_nil cs)
  | cons d ds ih =>
    rw [List.flatMap_cons]
    cases cs with
    | nil =>
      obtain ⟨b, rest, hb⟩ := List.exists_cons_of_ne_nil (@String.utf8EncodeChar_ne_nil d)
      rw [hb]
      exact List.nil_lt_cons _ _
    | cons c cs =>
      rw [List.flatMap_cons]
      rcases List.cons_lt_cons_iff.1 h with hchar | ⟨rfl, hrest⟩
      · exact encodeChar_lt hchar _ _
      · exact List.append_left_lt (ih hrest)

theorem lt_iff_bytes {s t : String} : s < t ↔ bytes s < bytes t := by
  have hlt : ∀ {u v : String}, u < v → bytes u < bytes v := by
    intro u v h
    rw [bytes_eq, bytes_eq]
    exact encode_lt (String.lt_iff_toList_lt.1 h)
  refine ⟨hlt, fun h => ?_⟩
  rcases lt_trichotomy s t with hst | rfl | hts
  · exact hst
  · exact absurd h (List.lt_irrefl _)
  · exact absurd h (List.lt_asymm (hlt hts))

theorem SortedMap.keys_ascend_bytes {α : Type} (m : SortedMap String α) :
    m.keys.Pairwise fun k l => bytes k < bytes l := by
  refine m.keys_ascend.imp fun {k l} h => lt_iff_bytes.1 ?_
  exact compare_lt_iff_lt.1 h

end OriginGate
