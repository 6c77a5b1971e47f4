import OriginGate.Proofs.Narrowing
import OriginGate.Proofs.SeenAccounts

/-!
# Accounts that an execution discloses

* `Json.ListsOnly` : a value is a list of accounts, all among some; `Caveats.Confines` : a value of
  which the caveats of a permission for accounts leave such a list (`listsOnly_onResult_iff`);
* `Settings.executor_named` : the wallet answers for the accounts if the settings name their method;
* `System.Makes` : the call that an execution makes; `Session.Obtains` : an execution succeeds with
  no other step in between;
* `Session.disclosed_iff` : when it lists nothing but accounts that the origin may see.

The caveats of a permission leave a list alone that holds anything but accounts. The gate answers
with accounts only; the wallet may answer anything.
-/

namespace OriginGate

/-! ## Lists of permitted accounts -/

/-- A value is a list of accounts, all among these. -/
def Json.ListsOnly (allowed : List Account) (j : Json) : Prop :=
  ∃ items, j = .arr items ∧ ∀ i ∈ items, ∃ a ∈ allowed, Account.prefixed? i = some a

namespace Caveats

theorem mem_of_shortened {α : Type} {x : α} {items : List α} {cs : List Caveat}
    (h : x ∈ shortened items cs) : x ∈ items := by
  induction cs generalizing items with
  | nil => exact h
  | cons c rest ih =>
    cases c with
    | limitLength limit => exact List.mem_of_mem_take (ih h)
    | _ => exact ih h

theorem onResult_unrestricted {items : List Json} {cs : List Caveat}
    (h : ∀ c ∈ cs, c.kind ≠ .accounts) :
    onResult (.arr items) cs = .arr (shortened items cs) := by
  induction cs generalizing items with
  | nil => rfl
  | cons c rest ih =>
    have hrest : ∀ c ∈ rest, c.kind ≠ .accounts := fun c hc => h c (List.mem_cons_of_mem _ hc)
    cases c with
    | accounts allowed => exact absurd rfl (h _ List.mem_cons_self)
    | _ => exact ih hrest

/-- A value that the caveats of a permission confine to these accounts: a list that holds nothing
but accounts, or one of which the limits of length leave only these. -/
inductive Confines (allowed : List Account) (cs : List Caveat) : Json → Prop where
  | filtered {items : List Json} (h : ∀ i ∈ items, (Account.prefixed? i).isSome) :
    Confines allowed cs (.arr items)
  | shortened {items : List Json}
    (h : ∀ i ∈ shortened items cs, ∃ a ∈ allowed, Account.prefixed? i = some a) :
    Confines allowed cs (.arr items)

theorem listsOnly_onResult_iff {allowed : List Account} {rest : List Caveat}
    (others : ∀ c ∈ rest, c.kind ≠ .accounts) {j : Json} :
    (onResult j (.accounts allowed :: rest)).ListsOnly allowed ↔
      Confines allowed (.accounts allowed :: rest) j := by
  by_cases hlist : ∃ items, j = .arr items
  · obtain ⟨items, rfl⟩ := hlist
    have hresult : onResult (.arr items) (.accounts allowed :: rest) =
        .arr (shortened ((Caveat.accounts allowed).onItems items) rest) :=
      onResult_unrestricted others
    rw [hresult, Caveat.onItems]
    by_cases hall : items.all fun i => (Account.prefixed? i).isSome
    · rw [if_pos hall]
      have hconfines : Confines allowed (.accounts allowed :: rest) (.arr items) :=
        .filtered fun i hi => List.all_eq_true.1 hall i hi
      refine ⟨fun _ => hconfines, fun _ => ⟨_, rfl, fun i hi => ?_⟩⟩
      exact Caveat.isAllowed_iff.1 (List.mem_filter.1 (mem_of_shortened hi)).2
    · rw [if_neg hall]
      constructor
      · rintro ⟨left, hleft, hmem⟩
        cases hleft
        exact .shortened hmem
      · intro h
        cases h with
        | filtered h => exact absurd (List.all_eq_true.2 h) hall
        | shortened h => exact ⟨_, rfl, h⟩
  · have hne : ∀ items, j ≠ .arr items := fun items h => hlist ⟨items, h⟩
    rw [onResult_eq_self hne]
    constructor
    · rintro ⟨items, rfl, -⟩
      exact absurd rfl (hne items)
    · rintro (⟨-⟩ | ⟨-⟩)
      · exact absurd rfl (hne _)
      · exact absurd rfl (hne _)

end Caveats

/-! ## The method among the settings -/

namespace Settings

variable {settings : Settings}

theorem find?_named {name text : String}
    (named : settings.restrictedMethods.find? name = some text) :
    settings.registry.methods.find? name = some ⟨text, .provider⟩ := by
  obtain ⟨early, late, hsplit⟩ :=
    List.append_of_mem (SortedMap.find?_eq_some_iff.1 named)
  have hlate : ∀ e ∈ late, e.1 ≠ name := by
    have hascending := settings.restrictedMethods.ascending
    rw [hsplit] at hascending
    have hfirst := (List.pairwise_cons.1 (List.pairwise_append.1 hascending).2.1).1
    rintro e he rfl
    exact absurd (hfirst e he) (by simp [Std.ReflCmp.compare_self])
  rw [registry, hsplit, List.foldl_append, List.foldl_cons, find?_registered hlate]
  show (SortedMap.insert _ _ _).find? name = _
  rw [SortedMap.find?_insert, if_pos rfl]

theorem executor_named (named : settings.restrictedMethods.contains accountsMethod = true) :
    settings.registry.executor accountsMethod = .provider := by
  obtain ⟨text, htext⟩ := Option.isSome_iff_exists.1 named
  rw [Registry.executor, find?_named htext]

theorem isRestricted_always (settings : Settings) :
    settings.registry.isRestricted accountsMethod = true := by
  rcases h : settings.restrictedMethods.contains accountsMethod with _ | _
  · exact isRestricted_accounts h
  · obtain ⟨text, htext⟩ := Option.isSome_iff_exists.1 h
    rw [Registry.isRestricted, SortedMap.contains, find?_named htext]
    rfl

end Settings

/-! ## One execution -/

namespace System

/-- The call that an authorized execution of the accounts method makes, with the system in which it
is made. -/
inductive Makes (s : System) (o : Origin) (p : Permission) : System → Executing → Prop where
  | own (executor : s.gate.registry.executor accountsMethod = .accounts) :
    Makes s o p s (.accounts o (some p))
  | wallet {params : Json} (executor : s.gate.registry.executor accountsMethod = .provider) :
    Makes s o p (s.send (.create .null accountsMethod (.ofJson params)))
      (.call (.create .null accountsMethod (.ofJson params)) (some p))

/-- The wallet answers the call that reached it last with a value. -/
def Answers (s : System) (value : Json) : Prop :=
  ∃ c, s.world.wallet.received.getLast? = some c ∧ s.world.wallet.answer c = .success value

/-- Nothing but surroundings has changed: the gate is the same, and no call has reached the
wallet. -/
structure Undisturbed (s t : System) : Prop where
  gate : t.gate = s.gate
  received : t.world.wallet.received = s.world.wallet.received

variable {s t u : System} {o : Origin} {params value : Json} {p : Permission} {e : Executing}

theorem Undisturbed.trans (h₁ : Undisturbed s t) (h₂ : Undisturbed t u) : Undisturbed s u :=
  ⟨h₂.gate.trans h₁.gate, h₂.received.trans h₁.received⟩

/-- What the gate lists are permitted accounts; what the wallet lists has to be confined to them. -/
theorem Makes.listsOnly_iff (h : s.Makes o p u e) (undisturbed : u.Undisturbed t)
    {rest : List Caveat} (caveats : p.caveats = .accounts (s.accounts o) :: rest)
    (others : ∀ c ∈ rest, c.kind ≠ .accounts) (result : e.result t = .ok value) :
    value.ListsOnly (s.accounts o) ↔
      s.gate.registry.executor accountsMethod = .accounts ∨
        ∃ answer, t.Answers answer ∧ Caveats.Confines (s.accounts o) p.caveats answer := by
  cases h with
  | own executor =>
    have haccounts : t.accounts o = s.accounts o := by
      rw [accounts, undisturbed.gate]
      rfl
    have hvalue : value = Caveats.onResult (.arr (((s.accounts o).filter
        (· ∈ t.world.wallet.accounts)).map Account.json)) p.caveats := by
      rw [← haccounts]
      exact (Except.ok.inj result).symm
    rw [Caveats.onResult_accounts] at hvalue
    · refine ⟨fun _ => .inl executor, fun _ => ⟨_, hvalue, fun i hi => ?_⟩⟩
      obtain ⟨a, ha, rfl⟩ := List.mem_map.1 hi
      have hmem := (List.mem_filter.1 (Caveats.mem_of_shortened ha)).1
      exact ⟨a, hmem, a.prefixed?_json⟩
    · intro as has a ha
      rw [caveats] at has
      rcases List.mem_cons.1 has with heq | has
      · cases heq
        exact (List.mem_filter.1 ha).1
      · exact absurd rfl (others _ has)
  | @wallet params executor =>
    let c := Rpc.MethodCall.create .null accountsMethod (.ofJson params)
    have hlast : t.world.wallet.received.getLast? = some c := by
      rw [undisturbed.received]
      exact List.getLast?_concat
    rw [Executing.result, Executing.rawResult] at result
    rcases hanswer : t.world.wallet.answer c with answer | error
    · rw [hanswer] at result
      have hvalue : Caveats.onResult answer p.caveats = value := Except.ok.inj result
      rw [← hvalue, caveats, Caveats.listsOnly_onResult_iff others]
      constructor
      · intro hconfines
        exact .inr ⟨answer, ⟨c, hlast, hanswer⟩, hconfines⟩
      · rintro (hown | ⟨other, ⟨d, hd, hother⟩, hconfines⟩)
        · rw [executor] at hown
          cases hown
        · rw [hlast, Option.some.injEq] at hd
          subst hd
          rw [hanswer] at hother
          cases hother
          exact hconfines
    · rw [hanswer] at result
      cases result

/-- An execution is refused, or it makes a call under the permission of the origin. -/
theorem makes_execute (restricted : s.gate.registry.isRestricted accountsMethod = true) :
    (∃ error, s.execute o accountsMethod params = (s, .done (.error error))) ∨
      ∃ p u e, s.gate.state.permission? o accountsMethod = some p ∧ s.Makes o p u e ∧
        s.execute o accountsMethod params = (u, e.poll u) := by
  unfold execute
  rw [Registry.authorize, if_pos restricted]
  rcases hheld : s.gate.state.permission? o accountsMethod with _ | p
  · exact .inl ⟨_, rfl⟩
  · rcases hparams : Caveats.onParams params p.caveats with ⟨kind, reason⟩ | out
    · simp only [hparams]
      exact .inl ⟨_, rfl⟩
    · simp only [hparams]
      rcases hexecutor : s.gate.registry.executor accountsMethod with _ | _
      · exact .inr ⟨p, _, _, rfl, .own hexecutor, rfl⟩
      · exact .inr ⟨p, _, _, rfl, .wallet hexecutor, rfl⟩

end System

/-- What may happen while an operation goes on alone: a change of the surroundings, or that it is
taken up. -/
inductive Action.Alone (n : Nat) : Action → Prop where
  | event (e : Event) : Alone n (.event e)
  | poll : Alone n (.poll n)

namespace Session

/-- The accounts method is executed for an origin and succeeds with a value, at once or when it is
taken up after other changes than of the gate; `t` is the session in which the wallet answers. -/
inductive Obtains (s : Session) (o : Origin) (params value : Json) : (t : Session) → Prop where
  | atOnce (ended : s.answers (.start (.execute o accountsMethod params)) =
      .ended (s.begun + 1) (.value (.ok value))) :
    Obtains s o params value (s.after (.start (.execute o accountsMethod params)))
  | later {between : List Action} (alone : ∀ a ∈ between, a.Alone (s.begun + 1))
    (ended : (s.run (.start (.execute o accountsMethod params) :: between)).answers
      (.poll (s.begun + 1)) = .ended (s.begun + 1) (.value (.ok value))) :
    Obtains s o params value (s.run (.start (.execute o accountsMethod params) :: between))

variable {s t : Session} {o : Origin} {params value : Json} {p : Permission}

theorem undisturbed_after {n : Nat} {e : Executing} (hs : s.Undivided)
    (waits : s.Waits n (· = .execute e)) {a : Action} (alone : a.Alone n) :
    s.system.Undisturbed (s.after a).system := by
  have hchanged := changed_step hs a
  generalize (s.after a).system = t at hchanged
  cases alone with
  | event e =>
    cases hchanged with
    | same => exact ⟨rfl, rfl⟩
    | served begun => cases begun
    | approved under => cases under
    | abandoned dropped => cases dropped
    | commanded given => cases given
    | happened given =>
      cases given
      cases e with
      | _ => exact ⟨rfl, rfl⟩
  | poll =>
    cases hchanged with
    | same => exact ⟨rfl, rfl⟩
    | served begun => cases begun
    | approved under =>
      rw [approving?, waiter?] at under
      rcases hw : s.suspended? n with _ | v
      · rw [hw] at under
        cases under
      · obtain ⟨hmem, hnumber⟩ := mem_of_suspended? hw
        rw [hw, Option.map_some, waits.2 v hmem hnumber] at under
        cases under
    | abandoned dropped => cases dropped
    | commanded given => cases given
    | happened given => cases given

theorem undisturbed_run {n : Nat} {e : Executing} (hs : s.Undivided)
    (waits : ∀ between, (s.run between).Waits n (· = .execute e)) {between : List Action}
    (alone : ∀ a ∈ between, a.Alone n) : s.system.Undisturbed (s.run between).system := by
  induction between using List.reverseRecOn with
  | nil => exact ⟨rfl, rfl⟩
  | append_singleton before a ih =>
    have hbefore := ih fun b hb => alone b (List.mem_append_left _ hb)
    have hlast := alone a (List.mem_append_right _ (List.mem_singleton_self a))
    rw [run_snoc]
    exact hbefore.trans (undisturbed_after (undivided_run hs before) (waits before) hlast)

theorem Obtains.result (hs : s.Undivided) (hn : s.Numbered)
    (restricted : s.gate.registry.isRestricted accountsMethod = true)
    (h : s.Obtains o params value t) :
    ∃ p u e, s.gate.state.permission? o accountsMethod = some p ∧ s.system.Makes o p u e ∧
      u.Undisturbed t.system ∧ e.result t.system = .ok value := by
  have hpoll : ∀ {e : Executing} {u : System} {v : Json},
      ((e.poll u).map Result.value).mapWaiting Waiter.execute = .done (.value (.ok v)) →
        e.result u = .ok v := by
    intro e u v hdone
    unfold Executing.poll at hdone
    split at hdone
    · cases hdone
    · exact Result.value.inj (Progress.done.inj hdone)
  rcases @System.makes_execute s.system o params restricted with
    ⟨error, hrefused⟩ | ⟨p, u, e, hheld, hmakes, hexecute⟩
  · -- What is refused ends at once, and not with a value.
    have hends : s.answers (.start (.execute o accountsMethod params)) =
        .ended (s.begun + 1) (.value (.error error)) := by
      rw [answers_start, Operation.begin, hrefused]
      rfl
    cases h with
    | atOnce ended =>
      rw [hends] at ended
      cases ended
    | later alone ended =>
      exact absurd ended (answers_spent (undivided_run hs _)
        ((spent_of_ended hs hn hends).run (undivided_after hs _) _) _ _)
  · have hbegin := begin_execute hexecute
    have hstarted : (s.after (.start (.execute o accountsMethod params))).system = u := by
      rw [start_system, hbegin]
    refine ⟨p, u, e, hheld, hmakes, ?_⟩
    cases h with
    | atOnce ended =>
      rw [answers_start, hbegin] at ended
      rw [hstarted]
      refine ⟨⟨rfl, rfl⟩, hpoll ?_⟩
      split at ended
      · rename_i r hr
        rw [← (Answer.ended.inj ended).2]
        exact hr
      · cases ended
    | @later between alone ended =>
      have hs' := undivided_after hs (.start (.execute o accountsMethod params))
      have hwaits := waits_execute hs hn hexecute
      refine ⟨?_, ?_⟩
      · rw [← hstarted]
        exact undisturbed_run hs' hwaits alone
      · obtain ⟨v, t, rfl, ⟨-, htakes⟩ | ⟨i, ha, -⟩⟩ :=
          (hwaits between).ended (undivided_run hs _) ended
        · exact hpoll (congrArg Prod.snd htakes)
        · cases ha

/-- After every run of a new session whose loaded state is shaped, an execution of the accounts
method that succeeds lists nothing but accounts that the origin may see, unless the settings name
the method and the wallet answers with a value that the caveats do not confine to them. -/
theorem disclosed_iff {settings : Settings} {w : World} (created : create settings w = .ok s)
    (loaded : s.gate.state.Shaped s.gate.registry) (actions : List Action)
    (h : (s.run actions).Obtains o params value t) :
    value.ListsOnly ((s.run actions).system.accounts o) ↔
      settings.restrictedMethods.contains accountsMethod = false ∨
        ∃ p answer, (s.run actions).gate.state.permission? o accountsMethod = some p ∧
          t.system.Answers answer ∧
          Caveats.Confines ((s.run actions).system.accounts o) p.caveats answer := by
  have hs := undivided_create created
  have hregistry : (s.run actions).system.gate.registry = settings.registry := by
    rw [(sameRules_run hs actions).registry]
    obtain ⟨store, -, rfl⟩ := create_eq created
    rfl
  obtain ⟨p, u, e, hheld, hmakes, hundisturbed, hresult⟩ :=
    h.result (undivided_run hs actions) (numbered_run hs (numbered_create created) actions)
      (by rw [show (s.run actions).gate.registry = settings.registry from hregistry]
          exact settings.isRestricted_always)
  -- The permission has one restriction, to the accounts that the origin may see.
  obtain ⟨hcapability, hshaped⟩ := (shaped_states hs loaded actions).found hheld
  obtain ⟨allowed, rest, hcaveats, -, hothers⟩ := hshaped.accounts hcapability
  have haccounts : (s.run actions).system.accounts o = allowed := by
    rw [System.accounts, Gate.accounts, show (s.run actions).system.gate.state.permission? o
      accountsMethod = some p from hheld, Option.bind_some, Permission.caveat?, hcaveats]
    rfl
  rw [hmakes.listsOnly_iff hundisturbed (by rw [haccounts]; exact hcaveats) hothers hresult,
    hregistry]
  constructor
  · rintro (hown | ⟨answer, hanswer, hconfines⟩)
    · refine .inl (Bool.eq_false_iff.2 fun hnamed => ?_)
      cases hown.symm.trans (Settings.executor_named hnamed)
    · exact .inr ⟨p, answer, hheld, hanswer, hconfines⟩
  · rintro (hunnamed | ⟨q, answer, hq, hanswer, hconfines⟩)
    · exact .inl (Settings.executor_accounts hunnamed)
    · rw [hheld, Option.some.injEq] at hq
      subst hq
      exact .inr ⟨answer, hanswer, hconfines⟩

/-- A wallet that answers for the accounts discloses one that was not granted. -/
theorem disclosed_iff_named :
    ∃ settings s a t value, settings.restrictedMethods.contains accountsMethod = true ∧
      create settings (.initial [⟨1⟩, ⟨2⟩]) = .ok s ∧
      (s.run a).system.accounts ⟨"site"⟩ = [⟨1⟩] ∧ (s.run a).Obtains ⟨"site"⟩ .null value t ∧
      value = .arr [Account.json ⟨2⟩, .int 1] ∧
      ¬ value.ListsOnly ((s.run a).system.accounts ⟨"site"⟩) := by
  let settings := Settings.default.withRestrictedMethod accountsMethod "The accounts."
  let s : Session := ⟨settings, .initial [⟨1⟩, ⟨2⟩], ⟨settings.registry, true, .empty, .empty⟩,
    0, [], [], 0, []⟩
  let value : Json := .arr [Account.json ⟨2⟩, .int 1]
  let actions : List Action := [
    .start (.requestPermissions ⟨"site"⟩ (.single accountsMethod)),
    .start (.approve ⟨⟨⟨0⟩⟩, .single accountsMethod⟩ [⟨1⟩]),
    .event (.wallet [⟨1⟩, ⟨2⟩] (fun _ => .success value) false)]
  have created : create settings (.initial [⟨1⟩, ⟨2⟩]) = .ok s := rfl
  have hobtains : (s.run actions).Obtains ⟨"site"⟩ .null value _ := .atOnce rfl
  refine ⟨settings, s, actions, _, value, by decide, created, rfl, hobtains, rfl, fun hlists => ?_⟩
  rcases (disclosed_iff created (State.shaped_empty _) actions hobtains).1 hlists with
    hunnamed | ⟨p, answer, hheld, ⟨c, -, hanswer⟩, hconfines⟩
  · cases hunnamed
  · have hp : (s.run actions).gate.state.permission? ⟨"site"⟩ accountsMethod =
        some ⟨⟨1⟩, accountsMethod, ⟨"site"⟩, [.accounts [⟨1⟩]], 1⟩ := rfl
    rw [hp] at hheld
    cases hheld
    cases hanswer
    replace hconfines : Caveats.Confines [⟨1⟩] [.accounts [⟨1⟩]]
      (.arr [Account.json ⟨2⟩, .int 1]) := hconfines
    cases hconfines with
    | filtered h =>
      exact absurd (h (.int 1) (List.mem_cons_of_mem _ List.mem_cons_self)) (by decide)
    | shortened h =>
      obtain ⟨a, ha, heq⟩ := h (Account.json ⟨2⟩) List.mem_cons_self
      rw [Account.prefixed?_json, Option.some.injEq] at heq
      subst heq
      exact absurd ha (by decide)

end Session

end OriginGate
