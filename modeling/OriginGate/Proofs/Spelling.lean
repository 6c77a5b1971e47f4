import OriginGate.Proofs.ByteOrder
import OriginGate.Proofs.Narrowing
import OriginGate.Proofs.Scalars
import Mathlib.Data.List.Forall2
import Mathlib.Data.List.Induction

/-!
# The spelling of addresses

* `Hex.IsDigit` : the hex digits of both cases; `Hex.EitherCase` : a digit, or the same in upper
  case; `Hex.decode?_eq_some_iff` : what digits write a number;
* `Account.Spells` : a text is a spelling of an address, with either prefix and each digit in either
  case; `Account.prefixed?_eq_some_iff` : these are read as the address;
* `Account.isSome_prefixed?` : the values that are read as an address at all;
* `Account.Parses` : what is assumed of a parser of addresses; `Account.guarded?` : a parser behind
  a test for the prefix and one for the length in bytes, which reads the same (`guarded?_eq`);
* `Json.Respelled` : two values differ in the spelling of addresses only;
* `Caveat.kept` : the positions of a list that a restriction of accounts keeps;
* `Caveat.accounts_respelled` : what a restriction of accounts does is independent of the spelling.
-/

namespace OriginGate

/-! ## Hex digits -/

namespace Hex

/-- A hex digit of either case. -/
def IsDigit (c : Char) : Prop :=
  ('0' ≤ c ∧ c ≤ '9') ∨ ('a' ≤ c ∧ c ≤ 'f') ∨ ('A' ≤ c ∧ c ≤ 'F')

/-- A character stands for a digit: it is the digit, or its upper case. -/
def EitherCase (c d : Char) : Prop := c = d ∨ c = d.toUpper

instance (c d : Char) : Decidable (EitherCase c d) :=
  inferInstanceAs (Decidable (c = d ∨ c = d.toUpper))

theorem isDigit_iff {c : Char} :
    IsDigit c ↔ (48 ≤ c.toNat ∧ c.toNat ≤ 57) ∨ (97 ≤ c.toNat ∧ c.toNat ≤ 102) ∨
      (65 ≤ c.toNat ∧ c.toNat ≤ 70) := by
  simp only [IsDigit, Char.le_def, UInt32.le_iff_toNat_le]
  rfl

theorem isSome_digit? {c : Char} : (digit? c).isSome ↔ IsDigit c := by
  rw [isDigit_iff, digit?]
  split_ifs with hnumeral hlower hupper
  · exact iff_of_true rfl (.inl hnumeral)
  · exact iff_of_true rfl (.inr (.inl hlower))
  · exact iff_of_true rfl (.inr (.inr hupper))
  · exact iff_of_false Bool.false_ne_true (by omega)

theorem digit?_ofNat : ∀ n < 123, digit? (Char.ofNat n).toUpper = digit? (Char.ofNat n) ∧
    ∀ v ∈ digit? (Char.ofNat n), v < 16 ∧ EitherCase (Char.ofNat n) (digit v) := by
  decide

theorem lt_of_isDigit {c : Char} (h : IsDigit c) : c.toNat < 123 := by
  rw [isDigit_iff] at h
  omega

theorem digit?_toUpper (c : Char) : digit? c.toUpper = digit? c := by
  by_cases h : c.toNat < 123
  · have hdigit := (digit?_ofNat _ h).1
    rwa [Char.ofNat_toNat] at hdigit
  · have hbehind : ¬ ('a'.val ≤ c.val ∧ c.val ≤ 'z'.val) := by
      rintro ⟨-, hle⟩
      have hlast : c.val.toNat ≤ 'z'.val.toNat := UInt32.le_iff_toNat_le.1 hle
      exact h (Nat.lt_succ_of_le hlast)
    have hupper : c.toUpper = c := dif_neg hbehind
    rw [hupper]

theorem digit?_of_eitherCase {c d : Char} (h : EitherCase c d) : digit? c = digit? d := by
  rcases h with rfl | rfl
  · rfl
  · exact digit?_toUpper d

theorem digit?_eq_some_iff {c : Char} {v : Nat} :
    digit? c = some v ↔ v < 16 ∧ EitherCase c (digit v) := by
  constructor
  · intro h
    have hdigit : IsDigit c := isSome_digit?.1 (Option.isSome_of_eq_some h)
    have hvalue := (digit?_ofNat _ (lt_of_isDigit hdigit)).2
    rw [Char.ofNat_toNat] at hvalue
    exact hvalue v h
  · rintro ⟨hv, h⟩
    rw [digit?_of_eitherCase h, digit?_digit v hv]

/-- Digits are read as they are in the other case. -/
theorem decodeFrom?_of_eitherCase {cs ds : List Char} (h : List.Forall₂ EitherCase cs ds)
    (high : Nat) : decodeFrom? high cs = decodeFrom? high ds := by
  induction h generalizing high with
  | nil => rfl
  | cons hhead _ ih =>
    rw [decodeFrom?, decodeFrom?, digit?_of_eitherCase hhead]
    split
    · exact ih _
    · rfl

/-- Digits write a number if and only if they are its digits, each in either case. -/
theorem decode?_eq_some_iff {ds : List Char} {n : Nat} :
    decode? ds = some n ↔
      n < 16 ^ ds.length ∧ List.Forall₂ EitherCase ds (encode ds.length n) := by
  constructor
  · intro h
    -- The last digit is the lowest one.
    induction ds using List.reverseRecOn generalizing n with
    | nil =>
      cases h
      exact ⟨Nat.one_pos, .nil⟩
    | append_singleton ds c ih =>
      rw [decode?, decodeFrom?_append, Option.bind_eq_some_iff] at h
      obtain ⟨high, hhigh, h⟩ := h
      obtain ⟨hbound, hdigits⟩ := ih hhigh
      rw [decodeFrom?] at h
      split at h
      · rename_i v hv
        cases h
        obtain ⟨hlow, hcase⟩ := digit?_eq_some_iff.1 hv
        have hdiv : (16 * high + v) / 16 = high := by omega
        have hmod : (16 * high + v) % 16 = v := by omega
        rw [List.length_append, List.length_singleton, encode, hdiv, hmod, pow_succ]
        exact ⟨by omega, List.rel_append hdigits (.cons hcase .nil)⟩
      · cases h
  · rintro ⟨hbound, hdigits⟩
    rw [decode?, decodeFrom?_of_eitherCase hdigits]
    exact decode?_encode hbound

theorem isSome_decodeFrom? {high : Nat} {ds : List Char} :
    (decodeFrom? high ds).isSome ↔ ∀ d ∈ ds, IsDigit d := by
  induction ds generalizing high with
  | nil => simp [decodeFrom?]
  | cons d ds ih =>
    rw [List.forall_mem_cons, ← isSome_digit?, decodeFrom?]
    split
    · rename_i v hv
      rw [ih, hv]
      exact (and_iff_right rfl).symm
    · rename_i hnone
      rw [hnone]
      exact iff_of_false Bool.false_ne_true fun h => Bool.false_ne_true h.1

end Hex

/-! ## Spellings of an address -/

namespace Account

variable {a : Account} {s : String} {j : Json}

/-- A text is a spelling of an address: either prefix, and each of its digits in either case. -/
def Spells (s : String) (a : Account) : Prop :=
  ∃ x ds, s.toList = '0' :: x :: ds ∧ (x = 'x' ∨ x = 'X') ∧
    List.Forall₂ Hex.EitherCase ds a.digits

theorem length_digits (a : Account) : a.digits.length = 40 := Hex.length_encode 40 _

theorem afterPrefix?_eq_some_iff {cs ds : List Char} :
    afterPrefix? cs = some ds ↔ ∃ x, cs = '0' :: x :: ds ∧ (x = 'x' ∨ x = 'X') := by
  constructor
  · intro h
    unfold afterPrefix? at h
    split at h
    · rename_i x rest
      split at h
      · rename_i hx
        cases h
        exact ⟨x, rfl, by simpa using hx⟩
      · cases h
    · cases h
  · rintro ⟨x, rfl, rfl | rfl⟩
    · rfl
    · rfl

theorem ofDigits?_eq_some_iff {ds : List Char} :
    ofDigits? ds = some a ↔ List.Forall₂ Hex.EitherCase ds a.digits := by
  constructor
  · intro h
    rw [ofDigits?] at h
    split at h
    · rename_i hlength
      obtain ⟨n, hn, rfl⟩ := Option.map_eq_some_iff.1 h
      obtain ⟨hbound, hdigits⟩ := Hex.decode?_eq_some_iff.1 hn
      rw [hlength] at hbound hdigits
      have hnumber : (BitVec.ofNat 160 n).toNat = n := by
        rw [BitVec.toNat_ofNat]
        exact Nat.mod_eq_of_lt hbound
      rwa [digits, hnumber]
    · cases h
  · intro h
    rw [← ofDigits?_digits a, ofDigits?, ofDigits?, h.length_eq, Hex.decode?, Hex.decode?,
      Hex.decodeFrom?_of_eitherCase h]

/-- A text is read as an address if and only if it is a spelling of it. -/
theorem prefixed?_eq_some_iff : prefixed? (.str s) = some a ↔ Spells s a := by
  rw [prefixed?, Option.bind_eq_some_iff]
  simp only [afterPrefix?_eq_some_iff, ofDigits?_eq_some_iff]
  constructor
  · rintro ⟨ds, ⟨x, hs, hx⟩, hdigits⟩
    exact ⟨x, ds, hs, hx, hdigits⟩
  · rintro ⟨x, ds, hs, hx, hdigits⟩
    exact ⟨ds, ⟨x, hs, hx⟩, hdigits⟩

theorem isSome_ofDigits? {ds : List Char} :
    (ofDigits? ds).isSome ↔ ds.length = 40 ∧ ∀ d ∈ ds, Hex.IsDigit d := by
  rw [← Hex.isSome_decodeFrom?, ofDigits?]
  split
  · rename_i hlength
    rw [Option.isSome_map, and_iff_right hlength]
    rfl
  · rename_i hlength
    exact iff_of_false Bool.false_ne_true fun h => hlength h.1

theorem hexDigits_of_eitherCase {ds : List Char} (h : List.Forall₂ Hex.EitherCase ds a.digits) :
    ds.length = 40 ∧ ∀ d ∈ ds, Hex.IsDigit d :=
  isSome_ofDigits?.1 (Option.isSome_of_eq_some (ofDigits?_eq_some_iff.2 h))

/-- A value is read as an address if and only if it is `0x` or `0X` and forty hex digits. -/
theorem isSome_prefixed? :
    (prefixed? j).isSome ↔ ∃ s x ds, j = .str s ∧ s.toList = '0' :: x :: ds ∧
      (x = 'x' ∨ x = 'X') ∧ ds.length = 40 ∧ ∀ d ∈ ds, Hex.IsDigit d := by
  constructor
  · intro h
    cases j with
    | str s =>
      obtain ⟨a, ha⟩ := Option.isSome_iff_exists.1 h
      obtain ⟨x, ds, hs, hx, hdigits⟩ := prefixed?_eq_some_iff.1 ha
      exact ⟨s, x, ds, rfl, hs, hx, hexDigits_of_eitherCase hdigits⟩
    | _ => cases h
  · rintro ⟨s, x, ds, rfl, hs, hx, hdigits⟩
    have hprefix : afterPrefix? s.toList = some ds := afterPrefix?_eq_some_iff.2 ⟨x, hs, hx⟩
    rw [prefixed?, hprefix]
    exact isSome_ofDigits?.2 hdigits

/-! ### The two spellings that are written -/

theorem spells_text (a : Account) : Spells a.text a := by
  refine ⟨'x', a.digits, String.toList_ofList, .inl rfl, ?_⟩
  exact ofDigits?_eq_some_iff.1 a.ofDigits?_digits

theorem length_nibbles (bytes : List UInt8) : (nibbles bytes).length = 2 * bytes.length := by
  induction bytes with
  | nil => rfl
  | cons byte bytes ih =>
    rw [nibbles, List.flatMap_cons, List.length_append]
    rw [nibbles] at ih
    rw [ih, List.length_cons]
    simp only [List.length_cons, List.length_nil]
    omega

theorem length_hash (message : List UInt8) : (Keccak.hash message).length = 32 := by
  rw [Keccak.hash, List.length_flatMap]
  simp only [Keccak.bytesOfLane, List.length_map, List.length_range]
  rfl

/-- The case of a digit may depend on a number beside it. -/
theorem eitherCase_zipWith {f : Char → Nat → Char} (hf : ∀ d n, Hex.EitherCase (f d n) d)
    {ds : List Char} {ns : List Nat} (h : ds.length ≤ ns.length) :
    List.Forall₂ Hex.EitherCase (List.zipWith f ds ns) ds := by
  induction ds generalizing ns with
  | nil => exact .nil
  | cons d ds ih =>
    cases ns with
    | nil => cases h
    | cons n ns => exact .cons (hf d n) (ih (Nat.le_of_succ_le_succ h))

theorem spells_checksummed (a : Account) : Spells a.checksummed a := by
  refine ⟨'x', _, String.toList_ofList, .inl rfl, eitherCase_zipWith (fun d n => ?_) ?_⟩
  · split
    · exact .inr rfl
    · exact .inl rfl
  · rw [length_nibbles, length_hash, length_digits]
    decide

/-! ### A parser behind two tests -/

/-- What is assumed of a parser of addresses: it reads forty hex digits of any case, with or without
a prefix, and nothing else. -/
def Parses (parse : String → Option Account) : Prop :=
  ∀ s a, parse s = some a ↔
    List.Forall₂ Hex.EitherCase s.toList a.digits ∨ Spells s a

/-- The address that a parser reads from a text that has a prefix and forty bytes behind it. -/
def guarded? (parse : String → Option Account) (s : String) : Option Account :=
  (afterPrefix? s.toList).bind fun rest =>
    if (bytes (String.ofList rest)).length = 40 then parse s else none

theorem length_bytes {ds : List Char} (h : ∀ d ∈ ds, Hex.IsDigit d) :
    (bytes (String.ofList ds)).length = ds.length := by
  rw [bytes_eq, String.toList_ofList]
  induction ds with
  | nil => rfl
  | cons d ds ih =>
    obtain ⟨hd, hds⟩ := List.forall_mem_cons.1 h
    have hsize : d.utf8Size = 1 := by
      have hlt := Hex.lt_of_isDigit hd
      rw [Char.utf8Size_eq_one_iff, UInt32.le_iff_toNat_le]
      exact Nat.le_trans (Nat.le_of_lt hlt) (by decide)
    rw [List.flatMap_cons, List.length_append, ih hds, String.length_utf8EncodeChar, hsize,
      List.length_cons, Nat.add_comm]

theorem not_digits_of_afterPrefix? {ds : List Char} (h : afterPrefix? s.toList = some ds) :
    ¬ List.Forall₂ Hex.EitherCase s.toList a.digits := by
  intro hdigits
  obtain ⟨-, hall⟩ := hexDigits_of_eitherCase hdigits
  obtain ⟨x, hs, hx⟩ := afterPrefix?_eq_some_iff.1 h
  rw [hs] at hall
  have hmem : Hex.IsDigit x := hall x (List.mem_cons_of_mem _ List.mem_cons_self)
  rw [← Hex.isSome_digit?] at hmem
  rcases hx with rfl | rfl
  · cases hmem
  · cases hmem

theorem guarded?_eq {parse : String → Option Account} (h : Parses parse) (s : String) :
    guarded? parse s = prefixed? (.str s) := by
  apply Option.ext
  intro a
  rw [prefixed?_eq_some_iff, guarded?, Option.bind_eq_some_iff]
  constructor
  · rintro ⟨ds, hprefix, hread⟩
    split at hread
    · exact ((h s a).1 hread).resolve_left (not_digits_of_afterPrefix? hprefix)
    · cases hread
  · rintro ⟨x, ds, hs, hx, hdigits⟩
    obtain ⟨hlength, hall⟩ := hexDigits_of_eitherCase hdigits
    refine ⟨ds, afterPrefix?_eq_some_iff.2 ⟨x, hs, hx⟩, ?_⟩
    rw [if_pos (by rw [length_bytes hall, hlength])]
    exact (h s a).2 (.inr ⟨x, ds, hs, hx, hdigits⟩)

theorem parses_read? : Parses read? := by
  intro s a
  rw [read?, ofDigits?_eq_some_iff]
  rcases hprefix : afterPrefix? s.toList with _ | ds
  · rw [Option.getD_none]
    refine ⟨.inl, fun h => h.resolve_right ?_⟩
    rintro ⟨x, ds, hs, hx, -⟩
    rw [afterPrefix?_eq_some_iff.2 ⟨x, hs, hx⟩] at hprefix
    cases hprefix
  · rw [Option.getD_some, or_iff_right (not_digits_of_afterPrefix? hprefix),
      ← prefixed?_eq_some_iff, prefixed?, hprefix, Option.bind_some, ofDigits?_eq_some_iff]

end Account

/-! ## Values that differ in spelling -/

namespace Json

variable {x y : Json} {xs ys : List Json}

/-- Two values differ in the spelling of addresses only. -/
inductive Respelled : Json → Json → Prop
  | same (j : Json) : Respelled j j
  | account {s t : String} (a : Account) (left : Account.Spells s a) (right : Account.Spells t a) :
    Respelled (.str s) (.str t)
  | arr {xs ys : List Json} (items : List.Forall₂ Respelled xs ys) : Respelled (.arr xs) (.arr ys)
  | obj {fs gs : List (String × Json)} (keys : fs.map (·.1) = gs.map (·.1))
    (values : List.Forall₂ Respelled (fs.map (·.2)) (gs.map (·.2))) : Respelled (.obj fs) (.obj gs)

theorem Respelled.items (h : Respelled (.arr xs) (.arr ys)) : List.Forall₂ Respelled xs ys := by
  cases h with
  | same => exact List.forall₂_same.2 fun j _ => .same j
  | arr items => exact items

theorem Respelled.prefixed?_eq (h : Respelled x y) : Account.prefixed? x = Account.prefixed? y := by
  cases h with
  | same => rfl
  | account a left right =>
    rw [Account.prefixed?_eq_some_iff.2 left, Account.prefixed?_eq_some_iff.2 right]
  | arr => rfl
  | obj => rfl

theorem Respelled.isAccount_eq (h : Respelled x y) : x.isAccount = y.isAccount := by
  rw [isAccount, isAccount, h.prefixed?_eq]

/-- The address that an object has under a key is that of an object spelled differently. -/
theorem prefixed?_lookup? {fs gs : List (String × Json)} (key : String)
    (keys : fs.map (·.1) = gs.map (·.1))
    (values : List.Forall₂ Respelled (fs.map (·.2)) (gs.map (·.2))) :
    (lookup? key fs).bind Account.prefixed? = (lookup? key gs).bind Account.prefixed? := by
  induction fs generalizing gs with
  | nil =>
    cases gs with
    | nil => rfl
    | cons g gs => cases keys
  | cons f fs ih =>
    cases gs with
    | nil => cases keys
    | cons g gs =>
      obtain ⟨hkey, hkeys⟩ := List.cons.inj keys
      obtain ⟨hvalue, hvalues⟩ := List.forall₂_cons.1 values
      by_cases hfound : f.1 = key
      · have hleft : lookup? key (f :: fs) = some f.2 := by simp [lookup?, hfound]
        have hright : lookup? key (g :: gs) = some g.2 := by simp [lookup?, ← hkey, hfound]
        rw [hleft, hright]
        exact hvalue.prefixed?_eq
      · have hleft : lookup? key (f :: fs) = lookup? key fs := by simp [lookup?, hfound]
        have hright : lookup? key (g :: gs) = lookup? key gs := by simp [lookup?, ← hkey, hfound]
        rw [hleft, hright]
        exact ih hkeys hvalues

theorem Respelled.namedAccount?_eq (h : Respelled x y) :
    Caveat.namedAccount? x = Caveat.namedAccount? y := by
  cases h with
  | same => rfl
  | account a left right => exact (Respelled.account a left right).prefixed?_eq
  | arr => rfl
  | obj keys values => exact prefixed?_lookup? "from" keys values

theorem map_eq_of_respelled {β : Type} {f : Json → β} (hf : ∀ {x y}, Respelled x y → f x = f y)
    (h : List.Forall₂ Respelled xs ys) : xs.map f = ys.map f := by
  induction h with
  | nil => rfl
  | cons hhead _ ih => rw [List.map_cons, List.map_cons, hf hhead, ih]

theorem Respelled.namedAccounts_eq (h : Respelled x y) :
    Caveat.namedAccounts x = Caveat.namedAccounts y := by
  cases h with
  | same => rfl
  | account => rfl
  | arr items =>
    have hmap := congrArg (List.filterMap id) (map_eq_of_respelled Respelled.namedAccount?_eq items)
    rwa [List.filterMap_map, List.filterMap_map] at hmap
  | obj => rfl

end Json

/-! ## Restrictions of accounts -/

namespace Caveat

variable {allowed : List Account} {params : Json} {xs ys items : List Json}

/-- Whether a restriction of accounts keeps an item of a list. It keeps all if one is no account. -/
def keeps (allowed : List Account) (items : List Json) (j : Json) : Bool :=
  !items.all Json.isAccount || isAllowed allowed j

/-- The positions of a list that a restriction of accounts keeps. -/
def kept (allowed : List Account) (items : List Json) : List Nat :=
  items.findIdxs (keeps allowed items)

theorem onItems_eq_filter :
    (accounts allowed).onItems items = items.filter (keeps allowed items) := by
  by_cases all : items.all Json.isAccount = true
  · rw [onItems_accounts all]
    congr 1
    funext j
    rw [keeps, all]
    rfl
  · have hall : (accounts allowed).onItems items = items := if_neg all
    rw [hall, eq_comm, List.filter_eq_self]
    intro j hj
    rw [keeps, Bool.eq_false_iff.2 all]
    rfl

/-- The items at the positions that satisfy a condition are those that are left by it. -/
theorem filterMap_findIdxs {α : Type} (p : α → Bool) (l : List α) :
    (l.findIdxs p).filterMap (l[·]?) = l.filter p := by
  induction l with
  | nil => rfl
  | cons x l ih =>
    have htail : (l.findIdxs p 1).filterMap ((x :: l)[·]?) = l.filter p := by
      rw [List.findIdxs_start, List.filterMap_map, ← ih]
      rfl
    rw [List.findIdxs_cons, List.filter_cons]
    split
    · rw [List.filterMap_cons, htail]
      rfl
    · exact htail

/-- The positions that are kept depend on the addresses only. -/
theorem kept_eq (h : List.Forall₂ Json.Respelled xs ys) : kept allowed xs = kept allowed ys := by
  have hall : xs.all Json.isAccount = ys.all Json.isAccount := by
    have hmap := congrArg (List.all · id) (Json.map_eq_of_respelled Json.Respelled.isAccount_eq h)
    simp only [List.all_map] at hmap
    exact hmap
  have hkeeps : keeps allowed ys = keeps allowed xs := by
    funext j
    rw [keeps, keeps, hall]
  have hmap : xs.map (keeps allowed xs) = ys.map (keeps allowed xs) := by
    refine Json.map_eq_of_respelled (fun hxy => ?_) h
    rw [keeps, keeps, isAllowed, isAllowed, hxy.prefixed?_eq]
  have hpositions := congrArg (List.findIdxs id) hmap
  rw [List.findIdxs_map, List.findIdxs_map] at hpositions
  rw [kept, kept, hkeeps]
  exact hpositions

/-- Addresses are recognised and read in every spelling, as they are by a parser behind a test of
the prefix and of the bytes. A restriction of accounts does not depend on the spelling: it accepts
parameters or refuses them for the same account, and keeps the same positions of a result. -/
theorem accounts_respelled :
    (∀ j, (Account.prefixed? j).isSome ↔ ∃ s x ds, j = .str s ∧ s.toList = '0' :: x :: ds ∧
      (x = 'x' ∨ x = 'X') ∧ ds.length = 40 ∧ ∀ d ∈ ds, Hex.IsDigit d) ∧
    (∀ s a, Account.prefixed? (.str s) = some a ↔ Account.Spells s a) ∧
    (∀ parse, Account.Parses parse →
      ∀ s, Account.guarded? parse s = Account.prefixed? (.str s)) ∧
    (∀ a, Account.Spells (Account.text a) a ∧ Account.Spells (Account.checksummed a) a) ∧
    ∀ allowed,
      (∀ x y, Json.Respelled x y →
        ((accounts allowed).onParams x = .ok x ∧ (accounts allowed).onParams y = .ok y) ∨
        ∃ a, (accounts allowed).onParams x = .error (.account a) ∧
          (accounts allowed).onParams y = .error (.account a)) ∧
      ∀ xs ys, Json.Respelled (.arr xs) (.arr ys) →
        kept allowed xs = kept allowed ys ∧
        (accounts allowed).onResult (.arr xs) = .arr ((kept allowed xs).filterMap (xs[·]?)) ∧
        (accounts allowed).onResult (.arr ys) = .arr ((kept allowed ys).filterMap (ys[·]?)) := by
  refine ⟨fun _ => Account.isSome_prefixed?, fun _ _ => Account.prefixed?_eq_some_iff,
    fun _ => Account.guarded?_eq, fun a => ⟨a.spells_text, a.spells_checksummed⟩, ?_⟩
  intro allowed
  refine ⟨?params, ?results⟩
  case params =>
    intro x y h
    rw [onParams, onParams, h.namedAccounts_eq]
    split
    · rename_i a _
      exact .inr ⟨a, rfl, rfl⟩
    · exact .inl ⟨rfl, rfl⟩
  case results =>
    intro xs ys h
    refine ⟨kept_eq h.items, ?_, ?_⟩
    all_goals
      rw [kept, filterMap_findIdxs, ← onItems_eq_filter]
      rfl

/-- A sender in lower case and the same in upper case, refused by one restriction and kept by
another. -/
theorem accounts_respelled_upper :
    let lower : Json := .str "0x00000000000000000000000000000000000000ab"
    let upper : Json := .str "0X00000000000000000000000000000000000000AB"
    Account.guarded? Account.read? "0X00000000000000000000000000000000000000AB" = some ⟨0xab⟩ ∧
    (accounts []).onParams (.arr [.obj [("from", lower)]]) = .error (.account ⟨0xab⟩) ∧
    (accounts []).onParams (.arr [.obj [("from", upper)]]) = .error (.account ⟨0xab⟩) ∧
    (accounts [⟨0xab⟩]).onResult (.arr [Account.json ⟨1⟩, lower]) = .arr [lower] ∧
    (accounts [⟨0xab⟩]).onResult (.arr [Account.json ⟨1⟩, upper]) = .arr [upper] := by
  intro lower upper
  obtain ⟨-, hspells, hguarded, -, hallowed⟩ := accounts_respelled
  have hread : Account.prefixed? upper = some ⟨0xab⟩ := rfl
  have respelled : Json.Respelled lower upper :=
    .account ⟨0xab⟩ ((hspells _ _).1 rfl) ((hspells _ _).1 hread)
  have hsender : Json.Respelled (.arr [.obj [("from", lower)]]) (.arr [.obj [("from", upper)]]) :=
    .arr (.cons (.obj rfl (.cons respelled .nil)) .nil)
  have hlist : Json.Respelled (.arr [Account.json ⟨1⟩, lower]) (.arr [Account.json ⟨1⟩, upper]) :=
    .arr (.cons (.same _) (.cons respelled .nil))
  refine ⟨(hguarded _ Account.parses_read? _).trans hread, ?_⟩
  obtain ⟨hkept, hleft, hright⟩ := (hallowed [⟨0xab⟩]).2 _ _ hlist
  have hpositions : kept [⟨0xab⟩] [Account.json ⟨1⟩, lower] = [1] := rfl
  rw [← hkept, hpositions] at hright
  rw [hpositions] at hleft
  rcases (hallowed []).1 _ _ hsender with ⟨haccepted, -⟩ | ⟨a, hl, hu⟩
  · cases haccepted
  · cases hl
    exact ⟨rfl, hu, hleft, hright⟩

end Caveat

end OriginGate
