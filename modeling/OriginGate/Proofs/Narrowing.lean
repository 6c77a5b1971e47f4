import OriginGate.Caveat.Evaluation

/-!
# Caveats only narrow results

* `Caveats.onItems` : what caveats leave of a list; `onResult_arr`, `onResult_eq_self` : what they
  leave of a result;
* `Caveat.onItems_sublist`, `Caveats.onItems_sublist` : one caveat, and all of them, leave a part of
  the list;
* `Caveats.length_onItems_le`, `Caveats.allowed_of_onItems` : what each caveat demands holds of the
  list that is left, whatever comes before or after it;
* `Caveats.onItems_idem` : what is left of a list of accounts is left alone;
* `Caveats.onItems_unlimited` : without a limit of length, one filter;
* `Caveats.onResult_narrows` : the same for all results.

A limit does not commute with a restriction of accounts. If it comes first it may drop the accounts
that the restriction would keep, or the value that is no account and keeps the restriction from
acting. What a caveat demands is kept by those after it nevertheless, since they leave a part of the
list.
-/

namespace OriginGate

/-- Whether a value is an account. -/
def Json.isAccount (j : Json) : Bool := (Account.prefixed? j).isSome

namespace Caveat

variable {items : List Json} {allowed : List Account} {j : Json}

theorem isAllowed_iff :
    isAllowed allowed j = true ↔ ∃ a ∈ allowed, Account.prefixed? j = some a := by
  rw [isAllowed]
  rcases Account.prefixed? j with _ | a
  · simp
  · simp

theorem onItems_sublist (items : List Json) (c : Caveat) : (c.onItems items).Sublist items := by
  cases c with
  | accounts allowed =>
    rw [onItems]
    split
    · exact List.filter_sublist
    · exact List.Sublist.refl _
  | limitLength limit => exact List.take_sublist _ _
  | _ => exact List.Sublist.refl _

theorem onItems_accounts (all : items.all Json.isAccount = true) :
    (accounts allowed).onItems items = items.filter (isAllowed allowed) :=
  if_pos all

end Caveat

namespace Caveats

variable {items : List Json} {cs ds : List Caveat} {j : Json}

/-- What caveats leave of a list, one after the other. -/
def onItems (items : List Json) (cs : List Caveat) : List Json :=
  cs.foldl Caveat.onItems items

/-- Whether no restriction of accounts excludes a value. -/
def allows (cs : List Caveat) (j : Json) : Bool :=
  cs.all fun
    | .accounts allowed => Caveat.isAllowed allowed j
    | _ => true

theorem onResult_arr (items : List Json) (cs : List Caveat) :
    onResult (.arr items) cs = .arr (onItems items cs) := by
  induction cs generalizing items with
  | nil => rfl
  | cons c rest ih => exact ih (c.onItems items)

theorem onResult_eq_self {j : Json} (h : ∀ items, j ≠ .arr items) (cs : List Caveat) :
    onResult j cs = j := by
  induction cs with
  | nil => rfl
  | cons c rest ih =>
    have hfirst : c.onResult j = j := by
      unfold Caveat.onResult
      split
      · exact absurd rfl (h _)
      · rfl
    show onResult (c.onResult j) rest = j
    rw [hfirst, ih]

/-! ## What is left of a list -/

theorem onItems_sublist (items : List Json) (cs : List Caveat) :
    (onItems items cs).Sublist items := by
  induction cs generalizing items with
  | nil => exact List.Sublist.refl _
  | cons c rest ih => exact (ih (c.onItems items)).trans (c.onItems_sublist items)

theorem all_isAccount {rest : List Json} (h : rest.Sublist items)
    (all : items.all Json.isAccount = true) : rest.all Json.isAccount = true :=
  List.all_eq_true.2 fun j hj => List.all_eq_true.1 all j (h.subset hj)

theorem length_onItems_le {limit : UInt64} (h : .limitLength limit ∈ cs) (items : List Json) :
    (onItems items cs).length ≤ limit.toNat := by
  induction cs generalizing items with
  | nil => cases h
  | cons c rest ih =>
    rcases List.mem_cons.1 h with heq | h
    · subst heq
      apply Nat.le_trans (onItems_sublist (items.take limit.toNat) rest).length_le
      rw [List.length_take]
      exact Nat.min_le_left _ _
    · exact ih h (c.onItems items)

/-- Of a list of accounts no other are left than each restriction allows, wherever it stands. -/
theorem allowed_of_onItems {allowed : List Account} (h : .accounts allowed ∈ cs)
    (all : items.all Json.isAccount = true) (hj : j ∈ onItems items cs) :
    Caveat.isAllowed allowed j = true := by
  induction cs generalizing items with
  | nil => cases h
  | cons c rest ih =>
    rcases List.mem_cons.1 h with heq | h
    · subst heq
      have hmem := (onItems_sublist _ rest).subset hj
      rw [Caveat.onItems_accounts all] at hmem
      exact (List.mem_filter.1 hmem).2
    · exact ih h (all_isAccount (c.onItems_sublist items) all) hj

theorem onItems_eq_self (h : ∀ c ∈ cs, c.onItems items = items) : onItems items cs = items := by
  induction cs with
  | nil => rfl
  | cons c rest ih =>
    show onItems (c.onItems items) rest = items
    rw [h c List.mem_cons_self]
    exact ih fun d hd => h d (List.mem_cons_of_mem _ hd)

/-- What is left of a list of accounts meets every caveat, so each of them leaves it alone. -/
theorem onItems_idem (all : items.all Json.isAccount = true) :
    onItems (onItems items cs) cs = onItems items cs := by
  apply onItems_eq_self
  intro c hc
  cases c with
  | accounts allowed =>
    rw [Caveat.onItems_accounts (all_isAccount (onItems_sublist items cs) all),
      List.filter_eq_self]
    intro j hj
    exact allowed_of_onItems hc all hj
  | limitLength limit => exact List.take_of_length_le (length_onItems_le hc items)
  | _ => rfl

/-! ## Without limits -/

/-- Without limits a list of accounts is filtered by all restrictions, any other is left alone. -/
theorem onItems_unlimited (unlimited : ∀ limit, .limitLength limit ∉ cs) (items : List Json) :
    onItems items cs =
      if items.all Json.isAccount = true then items.filter (allows cs) else items := by
  induction cs generalizing items with
  | nil =>
    have hall : items.filter (allows []) = items := List.filter_eq_self.2 fun _ _ => rfl
    rw [hall, ite_self]
    rfl
  | cons c rest ih =>
    have hrest : ∀ limit, .limitLength limit ∉ rest :=
      fun limit h => unlimited limit (List.mem_cons_of_mem _ h)
    have hcons : onItems items (c :: rest) = onItems (c.onItems items) rest := rfl
    rw [hcons, ih hrest]
    cases c with
    | accounts allowed =>
      by_cases all : items.all Json.isAccount = true
      · have hallows : allows (.accounts allowed :: rest) =
            fun j => Caveat.isAllowed allowed j && allows rest j := rfl
        rw [if_pos (all_isAccount (Caveat.onItems_sublist items _) all), if_pos all,
          Caveat.onItems_accounts all, List.filter_filter, hallows]
        simp only [Bool.and_comm]
      · have hkept : (Caveat.accounts allowed).onItems items = items := if_neg all
        rw [hkept, if_neg all, if_neg all]
    | limitLength limit => exact absurd List.mem_cons_self (unlimited limit)
    | _ => rfl

theorem onItems_perm (unlimited : ∀ limit, .limitLength limit ∉ cs) (h : ds.Perm cs)
    (items : List Json) : onItems items ds = onItems items cs := by
  have hallows : allows ds = allows cs := funext fun j => h.all_eq
  have unlimited' : ∀ limit, .limitLength limit ∉ ds :=
    fun limit hmem => unlimited limit (h.subset hmem)
  rw [onItems_unlimited unlimited, onItems_unlimited unlimited', hallows]

/-! ## Results -/

/-- Caveats leave a result alone that is no list. Of a list they leave a part that no limit forbids;
if it lists accounts, only those that each restriction allows, and the caveats leave it alone from
then on. Without limits their order does not matter. -/
theorem onResult_narrows (cs : List Caveat) (result : Json) :
    ((∀ items, result ≠ .arr items) → onResult result cs = result) ∧
    (∀ items, result = .arr items → ∃ rest, onResult result cs = .arr rest ∧ rest.Sublist items ∧
      (∀ limit, .limitLength limit ∈ cs → rest.length ≤ limit.toNat) ∧
      ((∀ j ∈ items, (Account.prefixed? j).isSome) →
        (∀ allowed, .accounts allowed ∈ cs →
          ∀ j ∈ rest, ∃ a ∈ allowed, Account.prefixed? j = some a) ∧
        onResult (onResult result cs) cs = onResult result cs)) ∧
    ((∀ limit, .limitLength limit ∉ cs) →
      ∀ ds : List Caveat, ds.Perm cs → onResult result ds = onResult result cs) := by
  refine ⟨fun h => onResult_eq_self h cs, ?lists, ?order⟩
  case lists =>
    rintro items rfl
    refine ⟨onItems items cs, onResult_arr items cs, onItems_sublist items cs,
      fun limit h => length_onItems_le h items, fun h => ?_⟩
    have all : items.all Json.isAccount = true := List.all_eq_true.2 h
    refine ⟨fun allowed h j hj => Caveat.isAllowed_iff.1 (allowed_of_onItems h all hj), ?_⟩
    rw [onResult_arr, onResult_arr, onItems_idem all]
  case order =>
    intro unlimited ds hperm
    by_cases h : ∃ items, result = .arr items
    · obtain ⟨items, rfl⟩ := h
      rw [onResult_arr, onResult_arr, onItems_perm unlimited hperm]
    · have hother : ∀ items, result ≠ .arr items := fun items heq => h ⟨items, heq⟩
      rw [onResult_eq_self hother, onResult_eq_self hother]

/-- A limit that comes first drops the only account that the restriction allows. What is left meets
both caveats in either order. -/
theorem onResult_narrows_limited :
    let result : Json := .arr [Account.json ⟨1⟩, Account.json ⟨2⟩]
    let limited : List Caveat := [.limitLength 1, .accounts [⟨2⟩]]
    let restricted : List Caveat := [.accounts [⟨2⟩], .limitLength 1]
    onResult result limited = .arr [] ∧ onResult result restricted = .arr [Account.json ⟨2⟩] ∧
      onResult (onResult result restricted) restricted = onResult result restricted := by
  intro result limited restricted
  have all : ∀ j ∈ [Account.json ⟨1⟩, Account.json ⟨2⟩], (Account.prefixed? j).isSome := by
    decide
  obtain ⟨-, hlists, -⟩ := onResult_narrows restricted result
  obtain ⟨rest, -, -, -, hall⟩ := hlists _ rfl
  exact ⟨rfl, rfl, (hall all).2⟩

end Caveats

end OriginGate
