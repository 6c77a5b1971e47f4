import OriginGate.Proofs.ByteOrder
import OriginGate.Proofs.ForwardedAccounts

/-!
# Which caveat refuses a call, and why

* `Caveat.Refuses` : a caveat refuses some parameters; `Caveat.RefusesFor` : the reason that it
  gives (`onParams_eq_error_iff`, `onParams_eq_ok_iff`);
* `Caveats.lastForced?` : the parameters that caveats force last; `Caveats.seen` : those that the
  caveat at a position sees;
* `Caveats.evaluated` : a list of caveats lets parameters through if none refuses those that it
  sees; otherwise the first that does gives the reason.
-/

namespace OriginGate

namespace Caveat

/-! ## One caveat -/

/-- The parameters that a caveat forces. -/
def forced? : Caveat → Option Json
  | forceParams forced => some forced
  | _ => none

/-- Parameters with fields: an object, or a list that begins with one. -/
inductive Keyed : Json → List (String × Json) → Prop where
  | object (fields : List (String × Json)) : Keyed (.obj fields) fields
  | first (fields : List (String × Json)) (rest : List Json) :
    Keyed (.arr (.obj fields :: rest)) fields

/-- A field is not among the allowed ones, or has another value there. -/
def Offends (allowed : List (String × Json)) (field : String × Json) : Prop :=
  ∀ value, Json.lookup? field.1 allowed = some value → (value == field.2) = false

/-- A caveat refuses some parameters. -/
inductive Refuses (params : Json) : Caveat → Prop where
  | account {allowed : List Account} {a : Account} (named : a ∈ namedAccounts params)
    (outside : a ∉ allowed) : Refuses params (accounts allowed)
  | notAnObject {allowed : List (String × Json)} (h : ∀ fields, ¬ Keyed params fields) :
    Refuses params (requireSubset allowed)
  | param {allowed fields : List (String × Json)} {field : String × Json}
    (keyed : Keyed params fields) (mem : field ∈ fields) (offends : Offends allowed field) :
    Refuses params (requireSubset allowed)

/-- The reason for which a caveat refuses some parameters: the first account that is not allowed, or
the least key that offends, in the order of its bytes. -/
inductive RefusesFor (params : Json) : Caveat → Refusal → Prop where
  | account {allowed early late : List Account} {a : Account}
    (named : namedAccounts params = early ++ a :: late) (inside : ∀ b ∈ early, b ∈ allowed)
    (outside : a ∉ allowed) : RefusesFor params (accounts allowed) (.account a)
  | notAnObject {allowed : List (String × Json)} (h : ∀ fields, ¬ Keyed params fields) :
    RefusesFor params (requireSubset allowed) .notAnObject
  | param {allowed fields : List (String × Json)} {field : String × Json}
    (keyed : Keyed params fields) (mem : field ∈ fields) (offends : Offends allowed field)
    (least : ∀ f ∈ fields, Offends allowed f → ¬ bytes f.1 < bytes field.1) :
    RefusesFor params (requireSubset allowed) (.param field.1)

theorem checkedFields?_eq_some_iff {params : Json} {fields : List (String × Json)} :
    checkedFields? params = some fields ↔ Keyed params fields := by
  constructor
  · intro h
    unfold checkedFields? at h
    split at h
    · cases h
      exact .object fields
    · cases h
      exact .first fields _
    · cases h
  · rintro (fields | ⟨fields, rest⟩)
    · rfl
    · rfl

theorem allows_eq_false_iff {allowed : List (String × Json)} {field : String × Json} :
    allows allowed field = false ↔ Offends allowed field := by
  unfold allows Offends
  cases Json.lookup? field.1 allowed with
  | none => simp
  | some value =>
    constructor
    · rintro h _ ⟨⟩
      exact h
    · intro h
      exact h value rfl

/-- The first of some accounts that is not allowed. -/
theorem find?_outside_iff {named allowed : List Account} {a : Account} :
    named.find? (· ∉ allowed) = some a ↔
      ∃ early late, named = early ++ a :: late ∧ (∀ b ∈ early, b ∈ allowed) ∧ a ∉ allowed := by
  rw [List.find?_eq_some_iff_append]
  simp only [Bool.not_eq_true', decide_eq_false_iff_not, decide_eq_true_eq, not_not]
  constructor
  · rintro ⟨outside, early, late, hsplit, inside⟩
    exact ⟨early, late, hsplit, inside, outside⟩
  · rintro ⟨early, late, hsplit, inside, outside⟩
    exact ⟨outside, early, late, hsplit, inside⟩

theorem offendingKey?_eq_none_iff {allowed fields : List (String × Json)} :
    offendingKey? allowed fields = none ↔ ∀ field ∈ fields, ¬ Offends allowed field := by
  rw [offendingKey?, List.min?_eq_none_iff, List.map_eq_nil_iff, List.filter_eq_nil_iff]
  simp only [Bool.not_eq_true', allows_eq_false_iff]

theorem offendingKey?_eq_some_iff {allowed fields : List (String × Json)} {key : String} :
    offendingKey? allowed fields = some key ↔
      ∃ field ∈ fields, field.1 = key ∧ Offends allowed field ∧
        ∀ f ∈ fields, Offends allowed f → ¬ bytes f.1 < bytes key := by
  rw [offendingKey?, List.min?_eq_some_iff]
  simp only [List.mem_map, List.mem_filter, Bool.not_eq_true', allows_eq_false_iff, ← not_lt,
    lt_iff_bytes]
  constructor
  · rintro ⟨⟨field, ⟨hmem, hoff⟩, rfl⟩, hleast⟩
    exact ⟨field, hmem, rfl, hoff, fun f hf h => hleast f.1 ⟨f, ⟨hf, h⟩, rfl⟩⟩
  · rintro ⟨field, hmem, rfl, hoff, hleast⟩
    refine ⟨⟨field, ⟨hmem, hoff⟩, rfl⟩, ?_⟩
    rintro _ ⟨f, ⟨hf, h⟩, rfl⟩
    exact hleast f hf h

variable {params out : Json} {c : Caveat} {reason : Refusal}

theorem onParams_eq_error_iff : c.onParams params = .error reason ↔ c.RefusesFor params reason := by
  cases c with
  | accounts allowed =>
    rw [onParams]
    constructor
    · intro h
      split at h
      · rename_i a ha
        cases h
        obtain ⟨early, late, hsplit, inside, outside⟩ := find?_outside_iff.1 ha
        exact .account hsplit inside outside
      · cases h
    · rintro ⟨named, inside, outside⟩
      rw [find?_outside_iff.2 ⟨_, _, named, inside, outside⟩]
  | forceParams forced | limitLength limit =>
    constructor
    · rintro ⟨⟩
    · rintro ⟨⟩
  | requireSubset allowed =>
    rw [onParams]
    constructor
    · intro h
      split at h
      · rename_i hnone
        cases h
        refine .notAnObject fun fields hkeyed => ?_
        cases hnone.symm.trans (checkedFields?_eq_some_iff.2 hkeyed)
      · rename_i fields hsome
        split at h
        · rename_i key hkey
          cases h
          obtain ⟨field, hmem, rfl, hoff, hleast⟩ := offendingKey?_eq_some_iff.1 hkey
          exact .param (checkedFields?_eq_some_iff.1 hsome) hmem hoff hleast
        · cases h
    · rintro (_ | h | ⟨keyed, mem, offends, least⟩)
      · have hnone : checkedFields? params = none := by
          rw [Option.eq_none_iff_forall_not_mem]
          exact fun fields hfields => h fields (checkedFields?_eq_some_iff.1 hfields)
        rw [hnone]
      · rw [checkedFields?_eq_some_iff.2 keyed]
        simp only [offendingKey?_eq_some_iff.2 ⟨_, mem, rfl, offends, least⟩]

/-- A caveat that refuses some parameters has one reason to do so. -/
theorem refuses_iff : c.Refuses params ↔ ∃ reason, c.RefusesFor params reason := by
  constructor
  · rintro (⟨named, outside⟩ | h | ⟨keyed, mem, offends⟩)
    · rename_i allowed b
      have hsome : ((namedAccounts params).find? (· ∉ allowed)).isSome :=
        List.find?_isSome.2 ⟨b, named, decide_eq_true outside⟩
      obtain ⟨a, ha⟩ := Option.isSome_iff_exists.1 hsome
      obtain ⟨early, late, hsplit, inside, outside⟩ := find?_outside_iff.1 ha
      exact ⟨_, .account hsplit inside outside⟩
    · exact ⟨_, .notAnObject h⟩
    · obtain ⟨key, hkey⟩ := Option.ne_none_iff_exists'.1
        fun hnone => offendingKey?_eq_none_iff.1 hnone _ mem offends
      obtain ⟨low, hlow, rfl, hoff, hleast⟩ := offendingKey?_eq_some_iff.1 hkey
      exact ⟨_, .param keyed hlow hoff hleast⟩
  · rintro ⟨_, ⟨named, inside, outside⟩ | h | ⟨keyed, mem, offends, least⟩⟩
    · refine .account ?_ outside
      rw [named]
      exact List.mem_append_right _ List.mem_cons_self
    · exact .notAnObject h
    · exact .param keyed mem offends

theorem onParams_eq_ok_iff :
    c.onParams params = .ok out ↔ ¬ c.Refuses params ∧ out = c.forced?.getD params := by
  have hout : ∀ {next}, c.onParams params = .ok next → next = c.forced?.getD params := by
    intro next h
    rw [Caveats.effective_singleton h]
    cases c with
    | _ => rfl
  rw [refuses_iff]
  simp only [← onParams_eq_error_iff]
  rcases h : c.onParams params with reason | next
  · exact ⟨nofun, fun ⟨hnot, _⟩ => absurd ⟨reason, rfl⟩ hnot⟩
  · rw [Except.ok.injEq, hout h]
    exact ⟨fun heq => ⟨nofun, heq.symm⟩, fun ⟨_, heq⟩ => heq.symm⟩

end Caveat

/-! ## A list of caveats -/

namespace Caveats

/-- The parameters that caveats force last. -/
def lastForced? (cs : List Caveat) : Option Json := (cs.filterMap Caveat.forced?).getLast?

/-- The parameters that the caveat at a position sees: those forced last before it, or the given
ones. -/
def seen (params : Json) (cs : List Caveat) (i : Nat) : Json :=
  (lastForced? (cs.take i)).getD params

/-- No caveat refuses the parameters that it sees. -/
def Accepts (params : Json) (cs : List Caveat) : Prop :=
  ∀ (i : Nat) (c : Caveat), cs[i]? = some c → ¬ c.Refuses (seen params cs i)

/-- A caveat of this kind is the first that refuses the parameters that it sees, for this reason. -/
def RefusesFirst (params : Json) (cs : List Caveat) (kind : Caveat.Kind)
    (reason : Caveat.Refusal) : Prop :=
  ∃ (i : Nat) (c : Caveat), cs[i]? = some c ∧ c.kind = kind ∧
    c.RefusesFor (seen params cs i) reason ∧
    ∀ (j : Nat) (d : Caveat), j < i → cs[j]? = some d → ¬ d.Refuses (seen params cs j)

variable {params out : Json} {c : Caveat} {cs : List Caveat} {kind : Caveat.Kind}
  {reason : Caveat.Refusal}

/-- What is forced later hides what the first caveat forces. -/
theorem lastForced?_cons :
    (lastForced? (c :: cs)).getD params = (lastForced? cs).getD (c.forced?.getD params) := by
  unfold lastForced?
  rw [List.filterMap_cons]
  cases c.forced? with
  | none => rfl
  | some forced =>
    dsimp only
    rw [List.getLast?_cons]
    rfl

theorem seen_zero : seen params cs 0 = params := by
  rw [seen, List.take_zero]
  rfl

theorem seen_succ (i : Nat) :
    seen params (c :: cs) (i + 1) = seen (c.forced?.getD params) cs i := by
  rw [seen, List.take_succ_cons, lastForced?_cons]
  rfl

theorem accepts_cons :
    Accepts params (c :: cs) ↔ ¬ c.Refuses params ∧ Accepts (c.forced?.getD params) cs := by
  constructor
  · intro h
    refine ⟨?_, fun i d hd => ?_⟩
    · have hfirst := h 0 c rfl
      rwa [seen_zero] at hfirst
    · have hlater := h (i + 1) d hd
      rwa [seen_succ] at hlater
  · rintro ⟨hfirst, hlater⟩ i d hd
    cases i with
    | zero =>
      cases hd
      rwa [seen_zero]
    | succ i =>
      rw [seen_succ]
      exact hlater i d hd

theorem refusesFirst_cons :
    RefusesFirst params (c :: cs) kind reason ↔
      c.kind = kind ∧ c.RefusesFor params reason ∨
        ¬ c.Refuses params ∧ RefusesFirst (c.forced?.getD params) cs kind reason := by
  constructor
  · rintro ⟨i, d, hd, hkind, hreason, hearlier⟩
    cases i with
    | zero =>
      cases hd
      rw [seen_zero] at hreason
      exact .inl ⟨hkind, hreason⟩
    | succ i =>
      have hfirst := hearlier 0 c i.succ_pos rfl
      rw [seen_zero] at hfirst
      rw [seen_succ] at hreason
      refine .inr ⟨hfirst, i, d, hd, hkind, hreason, fun j e hj he => ?_⟩
      rw [← seen_succ]
      exact hearlier (j + 1) e (Nat.succ_lt_succ hj) he
  · rintro (⟨hkind, hreason⟩ | ⟨hfirst, i, d, hd, hkind, hreason, hearlier⟩)
    · refine ⟨0, c, rfl, hkind, ?_, fun j d hj => absurd hj j.not_lt_zero⟩
      rwa [seen_zero]
    · refine ⟨i + 1, d, hd, hkind, ?_, fun j e hj he => ?_⟩
      · rwa [seen_succ]
      · cases j with
        | zero =>
          cases he
          rwa [seen_zero]
        | succ j =>
          rw [seen_succ]
          exact hearlier j e (Nat.lt_of_succ_lt_succ hj) he

theorem onParams_eq_ok_iff :
    onParams params cs = .ok out ↔
      Accepts params cs ∧ out = (lastForced? cs).getD params := by
  induction cs generalizing params with
  | nil =>
    have haccepts : Accepts params [] := by
      rintro i c ⟨⟩
    rw [onParams, Except.ok.injEq, and_iff_right haccepts]
    exact eq_comm
  | cons c rest ih =>
    rw [onParams, accepts_cons, lastForced?_cons]
    rcases h : c.onParams params with reason | next
    · have hrefuses := Caveat.refuses_iff.2 ⟨reason, Caveat.onParams_eq_error_iff.1 h⟩
      simp only [reduceCtorEq, hrefuses, not_true_eq_false, false_and]
    · obtain ⟨hnot, rfl⟩ := Caveat.onParams_eq_ok_iff.1 h
      dsimp only
      rw [ih, and_iff_right hnot]

theorem onParams_eq_error_iff :
    onParams params cs = .error (kind, reason) ↔ RefusesFirst params cs kind reason := by
  induction cs generalizing params with
  | nil =>
    refine ⟨nofun, ?_⟩
    rintro ⟨i, d, hd, -⟩
    cases hd
  | cons c rest ih =>
    rw [onParams, refusesFirst_cons, ← Caveat.onParams_eq_error_iff]
    rcases h : c.onParams params with first | next
    · have hrefuses := Caveat.refuses_iff.2 ⟨first, Caveat.onParams_eq_error_iff.1 h⟩
      simp only [Except.error.injEq, Prod.mk.injEq, hrefuses, not_true_eq_false, false_and,
        or_false]
    · obtain ⟨hnot, rfl⟩ := Caveat.onParams_eq_ok_iff.1 h
      simp only [hnot, reduceCtorEq, and_false, not_false_eq_true, true_and, false_or]
      exact ih

/-- What a list of caveats answers for some parameters. -/
structure Evaluated (params : Json) (cs : List Caveat) : Prop where
  /-- It lets them through if and only if no caveat refuses what it sees. -/
  accepted : (∃ out, onParams params cs = .ok out) ↔ Accepts params cs
  /-- The call goes on with what was forced last, or unchanged. -/
  result : ∀ {out}, onParams params cs = .ok out → out = (lastForced? cs).getD params
  /-- Otherwise the first caveat that refuses answers. -/
  refused : ∀ {kind reason},
    onParams params cs = .error (kind, reason) ↔ RefusesFirst params cs kind reason

/-- Caveats are asked in order, each about what was forced before it. -/
theorem evaluated (params : Json) (cs : List Caveat) : Evaluated params cs where
  accepted := by
    constructor
    · rintro ⟨out, h⟩
      exact (onParams_eq_ok_iff.1 h).1
    · intro h
      exact ⟨_, onParams_eq_ok_iff.2 ⟨h, rfl⟩⟩
  result h := (onParams_eq_ok_iff.1 h).2
  refused := onParams_eq_error_iff

end Caveats

end OriginGate
