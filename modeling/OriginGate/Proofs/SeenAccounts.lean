import OriginGate.Proofs.Narrowing
import OriginGate.Proofs.Shape
import OriginGate.Proofs.Wire

/-!
# The accounts that an origin is told

* `Caveats.shortened` : what the limits of length among caveats leave of a list;
  `shortened_eq_self` : when this is all of it;
* `Caveats.onResult_accounts` : caveats that restrict the accounts to these only shorten their list;
* `Settings.executor_accounts` : the gate answers for the accounts unless the settings name them;
* `Permission.accounts`, `Permission.shown` : the accounts of a permission, and those left by its
  limits;
* `Session.Tells` : a call is told all accounts, an execution those left by the limits;
  `Session.told_accounts` : so it is after every run.

Only an execution applies the caveats of the permission. A call of the method is answered by the
gate, which looks no further than the restriction of accounts.
-/

namespace OriginGate

/-! ## Limits of length -/

namespace Caveats

variable {α : Type}

/-- What the limits of length among caveats leave of a list. -/
def shortened (items : List α) (cs : List Caveat) : List α :=
  cs.foldl (fun items c => match c with
    | .limitLength limit => items.take limit.toNat
    | _ => items) items

theorem length_shortened_le (items : List α) (cs : List Caveat) :
    (shortened items cs).length ≤ items.length := by
  induction cs generalizing items with
  | nil => exact Nat.le_refl _
  | cons c rest ih =>
    cases c with
    | limitLength limit =>
      apply Nat.le_trans (ih (items.take limit.toNat))
      rw [List.length_take]
      exact Nat.min_le_right _ _
    | _ => exact ih items

theorem shortened_eq_self {items : List α} {cs : List Caveat} :
    shortened items cs = items ↔
      ∀ limit, Caveat.limitLength limit ∈ cs → items.length ≤ limit.toNat := by
  induction cs with
  | nil => simp [shortened]
  | cons c rest ih =>
    cases c with
    | limitLength limit =>
      have hcut : shortened items (.limitLength limit :: rest) =
          shortened (items.take limit.toNat) rest := rfl
      rw [hcut]
      constructor
      · intro h n hn
        have hlength := length_shortened_le (items.take limit.toNat) rest
        rw [h, List.length_take] at hlength
        have hlimit : items.length ≤ limit.toNat := by omega
        rw [List.take_of_length_le hlimit] at h
        rcases List.mem_cons.1 hn with heq | hn
        · cases heq
          exact hlimit
        · exact ih.1 h n hn
      · intro h
        rw [List.take_of_length_le (h limit List.mem_cons_self)]
        exact ih.2 fun n hn => h n (List.mem_cons_of_mem _ hn)
    | _ =>
      refine ih.trans ⟨fun h n hn => ?_, fun h n hn => h n (List.mem_cons_of_mem _ hn)⟩
      rcases List.mem_cons.1 hn with heq | hn
      · cases heq
      · exact h n hn

end Caveats

/-! ## Lists of accounts as results -/

theorem Account.prefixed?_json (a : Account) : prefixed? a.json = some a := by
  have hprefix : afterPrefix? ('0' :: 'x' :: a.digits) = some a.digits := rfl
  show (afterPrefix? a.text.toList).bind ofDigits? = some a
  rw [text, String.toList_ofList, hprefix, Option.bind_some, ofDigits?_digits]

theorem Caveat.isAllowed_json {allowed : List Account} {a : Account} :
    isAllowed allowed a.json = true ↔ a ∈ allowed := by
  simp [isAllowed, Account.prefixed?_json]

namespace Caveats

theorem all_isAccount_json (accounts : List Account) :
    (accounts.map Account.json).all Json.isAccount = true := by
  simp [Json.isAccount, Account.prefixed?_json]

/-- Restrictions to more accounts leave a list of accounts. -/
theorem onResult_accounts {accounts : List Account} {cs : List Caveat}
    (allowed : ∀ as, Caveat.accounts as ∈ cs → accounts ⊆ as) :
    onResult (.arr (accounts.map Account.json)) cs =
      .arr ((shortened accounts cs).map Account.json) := by
  induction cs generalizing accounts with
  | nil => rfl
  | cons c rest ih =>
    have hrest : ∀ as, Caveat.accounts as ∈ rest → accounts ⊆ as :=
      fun as has => allowed as (List.mem_cons_of_mem _ has)
    cases c with
    | accounts as =>
      have hkept : (Caveat.accounts as).onItems (accounts.map Account.json) =
          accounts.map Account.json := by
        rw [Caveat.onItems_accounts (all_isAccount_json accounts), List.filter_eq_self]
        intro j hj
        obtain ⟨a, ha, rfl⟩ := List.mem_map.1 hj
        exact Caveat.isAllowed_json.2 (allowed as List.mem_cons_self ha)
      show onResult (.arr ((Caveat.accounts as).onItems (accounts.map Account.json))) rest = _
      rw [hkept]
      exact ih hrest
    | limitLength limit =>
      show onResult (.arr ((accounts.map Account.json).take limit.toNat)) rest = _
      rw [← List.map_take]
      apply ih
      intro as has a ha
      exact hrest as has (List.mem_of_mem_take ha)
    | _ => exact ih hrest

end Caveats

/-! ## The method in the registry -/

namespace Settings

theorem find?_registered {entries : List (String × String)} {name : String}
    (h : ∀ e ∈ entries, e.1 ≠ name) (r : Registry) :
    (entries.foldl (fun r e => r.registerProvider e.1 e.2) r).methods.find? name =
      r.methods.find? name := by
  induction entries generalizing r with
  | nil => rfl
  | cons e rest ih =>
    rw [List.foldl_cons, ih fun f hf => h f (List.mem_cons_of_mem _ hf)]
    show (r.methods.insert e.1 _).find? name = _
    rw [SortedMap.find?_insert, if_neg (Ne.symm (h e List.mem_cons_self))]

theorem find?_registry {settings : Settings} {name : String}
    (unnamed : settings.restrictedMethods.contains name = false) :
    settings.registry.methods.find? name = Registry.builtin.methods.find? name := by
  refine find?_registered ?_ _
  rintro ⟨key, text⟩ he rfl
  rw [SortedMap.contains, SortedMap.find?_eq_some_iff.2 he] at unnamed
  cases unnamed

theorem executor_accounts {settings : Settings}
    (unnamed : settings.restrictedMethods.contains accountsMethod = false) :
    settings.registry.executor accountsMethod = .accounts := by
  rw [Registry.executor, find?_registry unnamed]
  rfl

theorem isRestricted_accounts {settings : Settings}
    (unnamed : settings.restrictedMethods.contains accountsMethod = false) :
    settings.registry.isRestricted accountsMethod = true := by
  rw [Registry.isRestricted, SortedMap.contains, find?_registry unnamed]
  rfl

end Settings

/-! ## Both ways -/

namespace Permission

/-- The accounts of a permission: those of its first restriction of accounts. -/
def accounts (p : Permission) : List Account :=
  match p.caveat? .accounts with
  | some (.accounts allowed) => allowed
  | _ => []

/-- The accounts that are left by the limits of length. -/
def shown (p : Permission) : List Account := Caveats.shortened p.accounts p.caveats

/-- No restriction of accounts in a shaped permission takes any of its accounts. -/
theorem Shaped.allowed {registry : Registry} {o : Origin} {p : Permission}
    (h : p.Shaped registry o) (capability : p.capability = accountsMethod) :
    ∀ as, Caveat.accounts as ∈ p.caveats → p.accounts ⊆ as := by
  obtain ⟨allowed, rest, hcaveats, -, hothers⟩ := h.accounts capability
  have haccounts : p.accounts = allowed := by
    unfold Permission.accounts caveat?
    rw [hcaveats]
    rfl
  intro as has
  rw [hcaveats] at has
  rw [haccounts]
  rcases List.mem_cons.1 has with heq | has
  · cases heq
    exact List.Subset.refl _
  · exact absurd rfl (hothers _ has)

end Permission

/-- A list of accounts as a result. -/
def Account.list (accounts : List Account) : Json := .arr (accounts.map Account.json)

theorem Account.normalize_list (accounts : List Account) :
    (list accounts).normalize = list accounts := by
  rw [list, Json.normalize, Json.normalizeItems_eq, List.map_map]
  rfl

theorem Account.list_inj {as bs : List Account} : list as = list bs ↔ as = bs := by
  have hinjective : Function.Injective json := by
    intro a b h
    have hread := congrArg prefixed? h
    rw [prefixed?_json, prefixed?_json] at hread
    exact Option.some.inj hread
  unfold list
  rw [Json.arr.injEq]
  exact (List.map_injective_iff.2 hinjective).eq_iff

/-- An origin holds a permission for the accounts, and the wallet knows all of them. -/
structure System.Shows (s : System) (o : Origin) (p : Permission) : Prop where
  held : s.gate.state.permission? o accountsMethod = some p
  known : ∀ a ∈ p.accounts, a ∈ s.world.wallet.accounts

namespace System

variable {s : System} {o : Origin} {p : Permission}

theorem Shows.accounts (h : s.Shows o p) : s.accounts o = p.accounts := by
  rw [System.accounts, Gate.accounts, h.held]
  rfl

theorem handle_accounts (h : s.Shows o p) (extensionId : Option String) (id : Rpc.Id)
    (params : Rpc.Params) :
    s.handle ⟨o, extensionId⟩ (.create id accountsMethod params) =
      (s, .done (.answered (.success (Account.list p.accounts)))) := by
  show (s, Progress.done (Dispatch.accounts (.ok (s.accounts o)))) = _
  rw [h.accounts]
  show (s, Progress.done (Dispatch.answered (.success (Account.list p.accounts).normalize))) = _
  rw [Account.normalize_list]

theorem result_accounts (h : s.Shows o p)
    (allowed : ∀ as, Caveat.accounts as ∈ p.caveats → p.accounts ⊆ as) :
    (Executing.accounts o (some p)).result s = .ok (Account.list p.shown) := by
  have hknown : p.accounts.filter (· ∈ s.world.wallet.accounts) = p.accounts :=
    List.filter_eq_self.2 fun a ha => decide_eq_true (h.known a ha)
  show Except.ok (Caveats.onResult (.arr (((s.accounts o).filter
    (· ∈ s.world.wallet.accounts)).map Account.json)) p.caveats) = _
  rw [h.accounts, hknown, Caveats.onResult_accounts allowed]
  rfl

theorem poll_free (free : s.world.wallet.busy = false) (e : Executing) :
    e.poll s = .done (e.result s) := by
  rw [Executing.poll, free]
  rfl

theorem poll_accounts (free : s.world.wallet.busy = false) (h : s.Shows o p)
    (allowed : ∀ as, Caveat.accounts as ∈ p.caveats → p.accounts ⊆ as) :
    Executing.poll (.accounts o (some p)) s = .done (.ok (Account.list p.shown)) := by
  rw [poll_free free, result_accounts h allowed]

theorem poll_busy (busy : s.world.wallet.busy = true) (e : Executing) :
    e.poll s = .waiting e := by
  unfold Executing.poll
  rw [busy]
  rfl

/-- An execution is authorized by the permission, and waits for a busy wallet. -/
theorem execute_accounts (held : s.gate.state.permission? o accountsMethod = some p)
    (restricted : s.gate.registry.isRestricted accountsMethod)
    (executor : s.gate.registry.executor accountsMethod = .accounts) {params out : Json}
    (accepted : Caveats.onParams params p.caveats = .ok out) :
    s.execute o accountsMethod params = (s, Executing.poll (.accounts o (some p)) s) := by
  have hauthorized : s.gate.registry.authorize s.gate.state o accountsMethod params =
      .ok ⟨some p, out⟩ := by
    rw [Registry.authorize, if_pos restricted, held]
    simp only [accepted]
  rw [execute, hauthorized]
  simp only [executor]

end System

namespace Session

variable {s t : Session} {o : Origin} {p : Permission}

/-- What the two ways of asking for the accounts give while a permission for them is in force. -/
structure Tells (s : Session) (o : Origin) (p : Permission) : Prop where
  called : ∀ extensionId id params,
    s.answers (.start (.call ⟨o, extensionId⟩ (.create id accountsMethod params))) =
      .ended (s.begun + 1) (.dispatch (.answered (.success (Account.list p.accounts))))
  executed : s.world.wallet.busy = false →
    s.answers (.start (.execute o accountsMethod .null)) =
      .ended (s.begun + 1) (.value (.ok (Account.list p.shown)))
  /-- For a busy wallet the execution waits. It ends when it is taken up and the wallet answers. -/
  executedLater : s.world.wallet.busy = true →
    s.answers (.start (.execute o accountsMethod .null)) = .waits (s.begun + 1) ∧
      ∀ later, let t := s.run (.start (.execute o accountsMethod .null) :: later)
        (t.suspended? (s.begun + 1)).isSome → t.world.wallet.busy = false → t.system.Shows o p →
          t.answers (.poll (s.begun + 1)) =
            .ended (s.begun + 1) (.value (.ok (Account.list p.shown)))

theorem begin_execute {method : String} {params : Json} {u : System} {e : Executing}
    (h : s.system.execute o method params = (u, e.poll u)) :
    (Operation.execute o method params).begin s.system =
      (u, ((e.poll u).map Result.value).mapWaiting Waiter.execute) := by
  rw [Operation.begin, h]

/-- An execution waits with the call that it began, under the permission that allowed it. -/
theorem waits_execute (hs : s.Undivided) (hn : s.Numbered) {method : String} {params : Json}
    {u : System} {e : Executing} (h : s.system.execute o method params = (u, e.poll u))
    (later : List Action) :
    (s.run (.start (.execute o method params) :: later)).Waits (s.begun + 1)
      (· = .execute e) := by
  refine waits_unbatched (w := .execute e) hs hn nofun (fun t w hbegin => ?_) later
  rw [begin_execute h] at hbegin
  obtain ⟨f, hf, rfl⟩ := Progress.waiting_of_mapWaiting (congrArg Prod.snd hbegin)
  rw [Executing.poll_waiting hf]

theorem tells (hs : s.Undivided) (hn : s.Numbered) (shows : s.system.Shows o p)
    (allowed : ∀ as, Caveat.accounts as ∈ p.caveats → p.accounts ⊆ as)
    (h : s.system.execute o accountsMethod .null =
      (s.system, Executing.poll (.accounts o (some p)) s.system)) : s.Tells o p := by
  have hbegin := begin_execute h
  refine ⟨?called, ?executed, ?executedLater⟩
  case called =>
    intro extensionId id params
    rw [answers_start, Operation.begin, System.handle_accounts shows]
    rfl
  case executed =>
    intro free
    rw [answers_start, hbegin, System.poll_accounts free shows allowed]
    rfl
  case executedLater =>
    intro busy
    refine ⟨by rw [answers_start, hbegin, System.poll_busy busy]; rfl, ?_⟩
    -- The accounts are looked up when the wallet answers, the caveats are those of the permission
    -- that was found at the beginning.
    intro later t hwaits free hshows
    obtain ⟨w, hw⟩ := Option.isSome_iff_exists.1 hwaits
    obtain ⟨hmem, hnumber⟩ := mem_of_suspended? hw
    have hwaiter := (waits_execute hs hn h later).2 w hmem hnumber
    rw [← hnumber]
    apply answers_done (undivided_run hs _) (numbered_run hs hn _) hmem
    rw [hwaiter, Waiter.poll, System.poll_accounts free hshows allowed]
    rfl

/-- After every run of a new session whose loaded state is shaped and whose settings do not name the
method, an origin with a permission for the accounts, all of them known and nothing in the way of a
call without parameters, is told all of them by a call and those left by the limits of length by an
execution. These are the same if no limit is below their number. -/
theorem told_accounts {settings : Settings} {w : World} (created : create settings w = .ok s)
    (loaded : s.gate.state.Shaped s.gate.registry)
    (unnamed : settings.restrictedMethods.contains accountsMethod = false) (actions : List Action)
    (shows : (s.run actions).system.Shows o p) {params : Json}
    (accepted : Caveats.onParams .null p.caveats = .ok params) :
    (s.run actions).Tells o p ∧
      (Account.list p.accounts = Account.list p.shown ↔
        ∀ limit, Caveat.limitLength limit ∈ p.caveats → p.accounts.length ≤ limit.toNat) := by
  have hs := undivided_create created
  have hregistry : (s.run actions).system.gate.registry = settings.registry := by
    rw [(sameRules_run hs actions).registry]
    obtain ⟨store, -, rfl⟩ := create_eq created
    rfl
  -- A second restriction of accounts would take some of them; no approval grants one.
  have allowed : ∀ as, Caveat.accounts as ∈ p.caveats → p.accounts ⊆ as := by
    have hmem : p ∈ (s.run actions).gate.state.permissions o :=
      List.mem_of_find?_eq_some shows.held
    have hcapability : p.capability = accountsMethod := by simpa using List.find?_some shows.held
    rcases (shaped_states hs loaded actions).permissions o with hnone | hall
    · rw [hnone] at hmem
      exact absurd hmem List.not_mem_nil
    · exact (hall.each p hmem).allowed hcapability
  refine ⟨?tells, ?agree⟩
  case tells =>
    apply tells (undivided_run hs actions) (numbered_run hs (numbered_create created) actions) shows
      allowed
    apply System.execute_accounts shows.held
    · rw [hregistry]
      exact Settings.isRestricted_accounts unnamed
    · rw [hregistry]
      exact Settings.executor_accounts unnamed
    · exact accepted
  case agree =>
    rw [Account.list_inj, eq_comm]
    exact Caveats.shortened_eq_self

/-- Two accounts under a limit of one. -/
theorem told_accounts_limited :
    ∃ s a p, create .signing (.initial [⟨1⟩, ⟨2⟩]) = .ok s ∧
      (s.run a).system.Shows ⟨"site"⟩ p ∧ p.caveats = [.accounts [⟨1⟩, ⟨2⟩], .limitLength 1] ∧
      (s.run a).answers (.start (.call ⟨⟨"site"⟩, none⟩ (.create .null accountsMethod .none))) =
        .ended 3 (.dispatch (.answered (.success (Account.list [⟨1⟩, ⟨2⟩])))) ∧
      (s.run a).answers (.start (.execute ⟨"site"⟩ accountsMethod .null)) =
        .ended 3 (.value (.ok (Account.list [⟨1⟩]))) ∧
      Account.list p.accounts ≠ Account.list p.shown := by
  let s : Session := ⟨.signing, .initial [⟨1⟩, ⟨2⟩],
    ⟨Settings.signing.registry, true, .empty, .empty⟩, 0, [], [], 0, []⟩
  have created : create .signing (.initial [⟨1⟩, ⟨2⟩]) = .ok s := rfl
  let actions : List Action := [.start (.requestPermissions ⟨"site"⟩ (.single accountsMethod)),
    .start (.approve ⟨⟨⟨0⟩⟩, SortedMap.empty.insert accountsMethod ⟨[.limitLength 1]⟩⟩ [⟨1⟩, ⟨2⟩])]
  let p : Permission :=
    ⟨⟨1⟩, accountsMethod, ⟨"site"⟩, [.accounts [⟨1⟩, ⟨2⟩], .limitLength 1], 1⟩
  have shows : (s.run actions).system.Shows ⟨"site"⟩ p := ⟨rfl, by decide⟩
  obtain ⟨tells, agree⟩ := told_accounts created (State.shaped_empty _) rfl actions shows rfl
  refine ⟨s, actions, p, created, shows, rfl, tells.called none .null .none, tells.executed rfl, ?_⟩
  intro heq
  exact absurd (agree.1 heq 1 (by simp [p])) (by decide)

end Session

end OriginGate
