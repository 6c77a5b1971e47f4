import OriginGate.Proofs.Disclosure
import OriginGate.Proofs.Listing
import OriginGate.Proofs.Mapping

/-!
# Accounts that are looked up while grants change

* `Occurrence` : an action, or a mutation by whoever else holds the store; `Session.undergo`,
  `Session.through` : the session after one, and after several;
* `Session.Under` : what settings fix of a session (`under_through`);
* `Session.Carries` : the mutation that an occurrence carries out (`domains_undergo`);
* `Mutation.Withdraws`, `Mutation.Restores` : mutations that take the permission for the accounts,
  or give one; `Session.Withdrawn` : it was taken and not given again (`Withdrawn.none`);
* `System.Retrieves` : what a lookup tells in the system in which it ends (`retrieves_result`);
* `Session.LooksUp` : what becomes of an execution of the accounts method (`looksUp_through`).

The caveats are those of the permission that was found at the beginning. The accounts are those that
are granted when the wallet answers, so that two grants may have a part in one answer.
-/

namespace OriginGate

/-! ## What occurs meanwhile -/

/-- What may occur while an operation waits: an action, or a mutation by whoever else holds the
store. -/
inductive Occurrence where
  | action (a : Action)
  | mutation (m : Mutation)

namespace Session

/-- The session after an occurrence. -/
def undergo (x : Occurrence) (s : Session) : Session :=
  match x with
  | .action a => s.after a
  | .mutation m => s.withSystem (s.system.update m.carryOut).1

/-- The session after some occurrences. -/
def through (xs : List Occurrence) (s : Session) : Session := xs.foldl (fun s x => s.undergo x) s

theorem through_snoc (before : List Occurrence) (x : Occurrence) (s : Session) :
    s.through (before ++ [x]) = (s.through before).undergo x := by
  rw [through, List.foldl_append]
  rfl

/-- What settings fix of a session on one gate. -/
structure Under (settings : Settings) (s : Session) : Prop where
  undivided : s.Undivided
  numbered : s.Numbered
  registry : s.gate.registry = settings.registry

variable {s : Session} {settings : Settings} {x : Occurrence} {o : Origin}

theorem under_create {w : World} (created : create settings w = .ok s) : s.Under settings := by
  refine ⟨undivided_create created, numbered_create created, ?_⟩
  obtain ⟨store, -, rfl⟩ := create_eq created
  rfl

theorem under_undergo (h : s.Under settings) (x : Occurrence) :
    (s.undergo x).Under settings := by
  cases x with
  | action a =>
    exact ⟨undivided_after h.undivided a, numbered_after h.undivided h.numbered a,
      (sameRules_after h.undivided a).registry.trans h.registry⟩
  | mutation m => exact ⟨⟨h.undivided.former, h.undivided.current⟩,
      ⟨h.numbered.given, h.numbered.distinct⟩, h.registry⟩

theorem under_through (h : s.Under settings) (xs : List Occurrence) :
    (s.through xs).Under settings := by
  induction xs using List.reverseRecOn with
  | nil => exact h
  | append_singleton before x ih =>
    rw [through_snoc]
    exact under_undergo ih x

/-- What an operation waits with stays under occurrences that leave it so. -/
theorem Waits.through {n : Nat} {P : Waiter → Prop} (h : s.Waits n P) (under : s.Under settings)
    (kept : ∀ (a : Action) v w t u, P v → a.TakesUp n v t u (.waiting w) → P w)
    (xs : List Occurrence) : (s.through xs).Waits n P := by
  induction xs using List.reverseRecOn with
  | nil => exact h
  | append_singleton before x ih =>
    rw [through_snoc]
    cases x with
    | action a =>
      exact ih.after (under_through under before).undivided a (fun _ _ _ hw => hw)
        fun v w t => kept a v w _ t
    | mutation m => exact ih

end Session

/-! ## Mutations of the grants -/

namespace Mutation

variable {m : Mutation} {o : Origin}

/-- A mutation takes the permission of an origin for the accounts. -/
def Withdraws (o : Origin) : Mutation → Prop
  | setPermissions p ps => p = o ∧ ∀ q ∈ ps, q.capability ≠ accountsMethod
  | revoke p methods => p = o ∧ accountsMethod ∈ methods
  | clear => True
  | grant _ _ | setMetadata _ _ => False

/-- A mutation gives an origin a permission for the accounts. -/
def Restores (o : Origin) : Mutation → Prop
  | setPermissions p ps | grant p ps => p = o ∧ ∃ q ∈ ps, q.capability = accountsMethod
  | revoke _ _ | clear | setMetadata _ _ => False

end Mutation

namespace State

variable {o : Origin} {s : State}

theorem permission?_eq_none {method : String} :
    s.permission? o method = none ↔ ∀ p ∈ s.permissions o, p.capability ≠ method := by
  rw [permission?, List.find?_eq_none]
  simp

theorem permission?_withdrawn {m : Mutation} (h : m.Withdraws o) :
    (m.next s).permission? o accountsMethod = none := by
  cases m with
  | setPermissions p ps =>
    obtain ⟨rfl, hps⟩ := h
    rw [permission?_eq_none, Mutation.next, permissions_setPermissions, if_pos rfl]
    exact hps
  | grant p ps => exact h.elim
  | revoke p methods =>
    obtain ⟨rfl, hmem⟩ := h
    rw [Mutation.next, permission?_revoke, if_pos ⟨rfl, hmem⟩]
  | clear => rfl
  | setMetadata p metadata => exact h.elim

theorem permission?_none_of_beq {s t : State} (h : (s == t) = true) {method : String}
    (absent : s.permission? o method = none) : t.permission? o method = none := by
  rcases some_of_beq (permission?_beq h o method) with ⟨-, ht⟩ | ⟨p, q, hs, -⟩
  · exact ht
  · rw [absent] at hs
    cases hs

theorem permission?_unrestored {m : Mutation} (h : ¬ m.Restores o)
    (absent : s.permission? o accountsMethod = none) :
    (m.next s).permission? o accountsMethod = none := by
  cases m with
  | setPermissions p ps =>
    rw [permission?_eq_none] at absent ⊢
    rw [Mutation.next, permissions_setPermissions]
    split
    · rename_i hp
      exact fun q hq heq => h ⟨hp.symm, q, hq, heq⟩
    · exact absent
  | grant p ps =>
    by_cases hp : o = p
    · subst hp
      rw [Mutation.next, permission?_grant, absent, Option.or_none, List.find?_eq_none]
      exact fun q hq heq => h ⟨rfl, q, hq, of_decide_eq_true heq⟩
    · rw [Mutation.next, permission?, permissions_grant, if_neg hp]
      exact absent
  | revoke p methods =>
    rw [Mutation.next, permission?_revoke, absent, ite_self]
  | clear => rfl
  | setMetadata p metadata => exact absent

end State

namespace Mutation

variable {m : Mutation} {s : Store}

theorem Done.next_beq (h : m.Done s) : (m.next s.state == (m.carryOut s).1.state) = true := by
  obtain ⟨taken, hdone⟩ := h
  rw [m.carryOut_eq] at hdone ⊢
  have htaken := Store.taken_put (m.next s.state) s
  rcases hput : (s.put (m.next s.state)).2 with e | _
  · rw [hput] at hdone
    cases hdone
  · rw [hput] at htaken
    exact htaken.beq

theorem done_or_same (m : Mutation) (s : Store) :
    m.Done s ∨ (m.carryOut s).1.state = s.state := by
  unfold Done
  rw [m.carryOut_eq]
  have htaken := Store.taken_put (m.next s.state) s
  generalize (s.put (m.next s.state)).1 = t, (s.put (m.next s.state)).2 = r at htaken
  cases htaken with
  | shown same => exact .inr rfl
  | written h => exact .inl ⟨_, rfl⟩
  | failed h => exact .inr rfl

end Mutation

namespace Session

variable {s : Session} {settings : Settings} {x : Occurrence} {o : Origin}

/-- The mutation that an occurrence carries out, if the store takes it: one by another holder of the
store, a revocation or a clearance, or the grant of an approval that succeeds. -/
inductive Carries (s : Session) : Occurrence → Mutation → Prop where
  | shared (m : Mutation) : Carries s (.mutation m) m
  | revoked (o : Origin) (methods : List String) :
    Carries s (.action (.command (.revoke o methods))) (.revoke o methods)
  | cleared : Carries s (.action (.command .clear)) .clear
  | granted {a : Action} {id : RequestId} {granted : List Permission} {o : Origin}
    (h : s.Approves a id (.ok granted)) (invoker : ∀ p ∈ granted, p.invoker = o) :
    Carries s (.action a) (.grant o granted)

theorem domains_undergo (hs : s.Undivided) (x : Occurrence) :
    (s.undergo x).gate.state.domains = s.gate.state.domains ∨
      ∃ m, s.Carries x m ∧ m.Done s.system.store ∧
        (m.next s.gate.state == (s.undergo x).gate.state) = true := by
  have hmutation : ∀ {m : Mutation} {t : State}, s.Carries x m →
      t = (m.carryOut s.system.store).1.state →
        t.domains = s.gate.state.domains ∨
          ∃ m, s.Carries x m ∧ m.Done s.system.store ∧ (m.next s.gate.state == t) = true := by
    rintro m t hcarries rfl
    rcases m.done_or_same s.system.store with hdone | hsame
    · exact .inr ⟨m, hcarries, hdone, hdone.next_beq⟩
    · exact .inl (congrArg State.domains hsame)
  cases x with
  | mutation m => exact hmutation (.shared m) rfl
  | action a =>
    have hchanged := changed_step hs a
    change (s.after a).system.gate.state.domains = s.gate.state.domains ∨
      ∃ m : Mutation, s.Carries (.action a) m ∧ m.Done s.system.store ∧
        (m.next s.gate.state == (s.after a).system.gate.state) = true
    generalize (s.after a).system = t at hchanged
    cases hchanged with
    | same => exact .inl rfl
    | served begun site h => exact .inl h.sameGrants.domains
    | @approved n approving _ d under ended h =>
      cases h with
      | late absent => exact .inl rfl
      | invalid found invalid => exact .inl rfl
      | @unstored e supply store error found valid stored =>
        cases Store.taken_grant stored with
        | failed _ => exact .inl rfl
      | @granted e supply store permissions found valid drawn stored =>
        have hinvoker : ∀ p ∈ permissions, p.invoker = approving.origin :=
          drawn ▸ (Supply.drawPermissions_map approving.origin approving.grants _).2
        refine hmutation (.granted (approves_approving under ended) hinvoker) ?_
        rw [Mutation.carryOut, stored]
        rfl
    | abandoned dropped hw => exact .inl rfl
    | @commanded c given h =>
      rcases state_command c s.system with hdomains | ⟨p, methods, rfl, -⟩ | ⟨rfl, -⟩
      · exact .inl hdomains
      · subst given
        exact hmutation (.revoked p methods) rfl
      · subst given
        exact hmutation .cleared rfl
    | happened given => exact .inl rfl

/-! ## The permission is withdrawn -/

/-- The permission of an origin for the accounts was taken and not given again. -/
inductive Withdrawn (o : Origin) (s : Session) : List Occurrence → Prop where
  | taken {before : List Occurrence} {x : Occurrence} {m : Mutation}
    (carries : (s.through before).Carries x m) (done : m.Done (s.through before).system.store)
    (withdraws : m.Withdraws o) : Withdrawn o s (before ++ [x])
  | later {before : List Occurrence} {x : Occurrence} (h : Withdrawn o s before)
    (unrestored : ∀ m, (s.through before).Carries x m →
      m.Done (s.through before).system.store → ¬ m.Restores o) : Withdrawn o s (before ++ [x])

/-- A mutation that withdraws the permission is not the grant of an approval, so the occurrence
leaves what it makes of the store. -/
theorem Carries.withdrawn {m : Mutation} (h : s.Carries x m) (done : m.Done s.system.store)
    (withdraws : m.Withdraws o) :
    (s.undergo x).gate.state.permission? o accountsMethod = none := by
  have hnext := State.permission?_withdrawn (s := s.gate.state) withdraws
  cases h with
  | shared m => exact State.permission?_none_of_beq done.next_beq hnext
  | revoked p methods => exact State.permission?_none_of_beq done.next_beq hnext
  | cleared => exact State.permission?_none_of_beq done.next_beq hnext
  | granted h invoker => exact withdraws.elim

theorem Withdrawn.none {between : List Occurrence} (under : s.Under settings)
    (h : s.Withdrawn o between) :
    (s.through between).gate.state.permission? o accountsMethod = none := by
  induction h with
  | taken carries done withdraws =>
    rw [through_snoc]
    exact carries.withdrawn done withdraws
  | @later before x h unrestored ih =>
    rw [through_snoc]
    rcases domains_undergo (under_through under before).undivided x with
      hdomains | ⟨m, hcarries, hdone, hnext⟩
    · rw [State.permission?_congr hdomains]
      exact ih
    · have hnone := State.permission?_unrestored (unrestored m hcarries hdone) ih
      exact State.permission?_none_of_beq hnext hnone

end Session

/-! ## What a lookup retrieves -/

namespace Caveats

variable {cs : List Caveat} {j : Json}

/-- Of a list of accounts the caveats leave some, each of them allowed by every restriction. -/
theorem onResult_list (accounts : List Account) (cs : List Caveat) :
    ∃ left, onResult (Account.list accounts) cs = Account.list left ∧ left.Sublist accounts ∧
      ∀ allowed, .accounts allowed ∈ cs → left ⊆ allowed := by
  obtain ⟨left, hleft, hitems⟩ :=
    List.sublist_map_iff.1 (onItems_sublist (accounts.map Account.json) cs)
  refine ⟨left, ?_, hleft, fun allowed hallowed a ha => ?_⟩
  · rw [Account.list, onResult_arr, hitems]
    rfl
  · apply Caveat.isAllowed_json.1
    apply allowed_of_onItems hallowed (all_isAccount_json accounts)
    rw [hitems]
    exact List.mem_map_of_mem ha

theorem onResult_list_unlimited {accounts : List Account}
    (unlimited : ∀ limit, .limitLength limit ∉ cs)
    (allowed : ∀ as, .accounts as ∈ cs → accounts ⊆ as) :
    onResult (Account.list accounts) cs = Account.list accounts := by
  have hkept : shortened accounts cs = accounts :=
    shortened_eq_self.2 fun limit h => absurd h (unlimited limit)
  rw [Account.list, onResult_accounts allowed, hkept]

end Caveats

namespace System

variable {s t : System} {o : Origin} {p : Permission} {value : Json}

/-- What a lookup retrieves under a permission in the system in which the wallet answers. -/
structure Retrieves (t : System) (o : Origin) (p : Permission) (value : Json) : Prop where
  /-- The accounts that are granted now and known, in order, as the caveats leave them. -/
  eq : value = Caveats.onResult
    (Account.list ((t.accounts o).filter (· ∈ t.world.wallet.accounts))) p.caveats
  /-- Each was allowed at the beginning, is granted now and known. -/
  each : ∃ found, value = Account.list found ∧ ∀ a ∈ found,
    (∀ allowed, .accounts allowed ∈ p.caveats → a ∈ allowed) ∧ a ∈ t.accounts o ∧
      a ∈ t.world.wallet.accounts
  /-- A single restriction that is in force leaves all of its accounts that are known. -/
  unchanged : t.gate.state.permission? o accountsMethod = some p →
    ∀ allowed, p.caveats.filter (·.kind = .accounts) = [.accounts allowed] →
      (∀ limit, .limitLength limit ∉ p.caveats) →
        value = Account.list (allowed.filter (· ∈ t.world.wallet.accounts))

theorem Retrieves.of_absent (h : t.Retrieves o p value)
    (absent : t.gate.state.permission? o accountsMethod = none) : value = Account.list [] := by
  obtain ⟨found, hvalue, heach⟩ := h.each
  have haccounts : t.accounts o = [] := by
    rw [System.accounts, Gate.accounts, absent]
    rfl
  have hnone : found = [] := by
    rw [List.eq_nil_iff_forall_not_mem]
    intro a ha
    have hgranted := (heach a ha).2.1
    rw [haccounts] at hgranted
    exact List.not_mem_nil hgranted
  rw [hvalue, hnone]

theorem retrieves_result (h : (Executing.accounts o (some p)).result t = .ok value) :
    t.Retrieves o p value := by
  have heq : value = Caveats.onResult
      (Account.list ((t.accounts o).filter (· ∈ t.world.wallet.accounts))) p.caveats :=
    (Except.ok.inj h).symm
  refine ⟨heq, ?each, ?unchanged⟩
  case each =>
    obtain ⟨found, hfound, hsublist, hallowed⟩ := Caveats.onResult_list
      ((t.accounts o).filter (· ∈ t.world.wallet.accounts)) p.caveats
    refine ⟨found, heq.trans hfound, fun a ha => ⟨fun as has => hallowed as has ha, ?_⟩⟩
    obtain ⟨hgranted, hknown⟩ := List.mem_filter.1 (hsublist.subset ha)
    exact ⟨hgranted, of_decide_eq_true hknown⟩
  case unchanged =>
    intro held allowed single unlimited
    have haccounts : t.accounts o = allowed := by
      rw [System.accounts, Gate.accounts, held, Option.bind_some, Permission.caveat?,
        ← List.head?_filter, single]
      rfl
    rw [heq, haccounts]
    apply Caveats.onResult_list_unlimited unlimited
    intro as has a ha
    have hmem : Caveat.accounts as ∈ p.caveats.filter (·.kind = .accounts) :=
      List.mem_filter.2 ⟨has, rfl⟩
    rw [single, List.mem_singleton, Caveat.accounts.injEq] at hmem
    rw [hmem]
    exact (List.mem_filter.1 ha).1

end System

/-! ## The lookup in a session -/

namespace Session

variable {s : Session} {settings : Settings} {o : Origin} {p : Permission} {params : Json}

/-- What becomes of an execution of the accounts method that a permission allows. -/
structure LooksUp (s : Session) (o : Origin) (params : Json) (p : Permission) : Prop where
  atOnce : s.world.wallet.busy = false → ∃ value, s.system.Retrieves o p value ∧
    s.answers (.start (.execute o accountsMethod params)) =
      .ended (s.begun + 1) (.value (.ok value))
  waits : s.world.wallet.busy = true →
    s.answers (.start (.execute o accountsMethod params)) = .waits (s.begun + 1)
  /-- It ends when it is taken up and the wallet answers, whatever has occurred. -/
  resumes : ∀ between,
    let t := (s.after (.start (.execute o accountsMethod params))).through between
    (t.suspended? (s.begun + 1)).isSome → t.world.wallet.busy = false →
      ∃ value, t.answers (.poll (s.begun + 1)) = .ended (s.begun + 1) (.value (.ok value))
  /-- However it ends later, it tells what it retrieves then; nothing, if the permission for the
  accounts was withdrawn meanwhile and not given again. -/
  ends : ∀ between a r,
    let u := s.after (.start (.execute o accountsMethod params))
    (u.through between).answers a = .ended (s.begun + 1) r →
      ∃ value, r = .value (.ok value) ∧ (u.through between).system.Retrieves o p value ∧
        (u.Withdrawn o between → value = Account.list [])

theorem looksUp (under : s.Under settings)
    (h : s.system.execute o accountsMethod params =
      (s.system, Executing.poll (.accounts o (some p)) s.system)) : s.LooksUp o params p := by
  have hbegin := begin_execute h
  have hafter : (s.after (.start (.execute o accountsMethod params))).Under settings :=
    under_undergo under (.action _)
  have hwaits (between : List Occurrence) :=
    (waits_execute under.undivided under.numbered h []).through hafter
      (by rintro a v w t u rfl htakes; exact Waiter.eq_of_takesUp nofun htakes) between
  refine ⟨?atOnce, ?waits, ?resumes, ?ends⟩
  case atOnce =>
    intro free
    refine ⟨_, System.retrieves_result rfl, ?_⟩
    rw [answers_start, hbegin, System.poll_free free]
    rfl
  case waits =>
    intro busy
    rw [answers_start, hbegin, System.poll_busy busy]
    rfl
  case resumes =>
    intro between t hsuspended free
    have ht := under_through hafter between
    obtain ⟨w, hw⟩ := Option.isSome_iff_exists.1 hsuspended
    obtain ⟨hmem, hnumber⟩ := mem_of_suspended? hw
    have hwaiter := (hwaits between).2 w hmem hnumber
    obtain ⟨value, hvalue⟩ : ∃ value,
      (Executing.accounts o (some p)).result t.system = .ok value := ⟨_, rfl⟩
    refine ⟨value, ?_⟩
    rw [← hnumber]
    apply answers_done ht.undivided ht.numbered hmem
    rw [hwaiter, Waiter.poll, System.poll_free free, hvalue]
    rfl
  case ends =>
    intro between a r u hended
    have ht := under_through hafter between
    obtain ⟨v, t, rfl, htakes⟩ := (hwaits between).ended ht.undivided hended
    obtain ⟨-, hdone⟩ | ⟨i, -, hdone⟩ := htakes
    · have hpoll := congrArg Prod.snd hdone
      simp only [Waiter.poll, Executing.poll] at hpoll
      split at hpoll
      · cases hpoll
      · have hretrieves := @System.retrieves_result (u.through between).system o p _ rfl
        refine ⟨_, (Progress.done.inj hpoll).symm, hretrieves, fun withdrawn => ?_⟩
        exact hretrieves.of_absent (withdrawn.none hafter)
    · cases hdone

/-- However a session came about and whoever else mutates the store, an execution of the accounts
method that a permission allows tells the accounts that are granted when the wallet answers and
known to it, as the caveats of that permission leave them, unless the settings name the method. -/
theorem looksUp_through {settings : Settings} {w : World} (created : create settings w = .ok s)
    (unnamed : settings.restrictedMethods.contains accountsMethod = false)
    (before : List Occurrence)
    (held : (s.through before).gate.state.permission? o accountsMethod = some p) {out : Json}
    (accepted : Caveats.onParams params p.caveats = .ok out) :
    (s.through before).LooksUp o params p := by
  have hunder := under_through (under_create created) before
  have hregistry : (s.through before).system.gate.registry = settings.registry := hunder.registry
  apply looksUp hunder
  apply System.execute_accounts held
  · rw [hregistry]
    exact Settings.isRestricted_accounts unnamed
  · rw [hregistry]
    exact Settings.executor_accounts unnamed
  · exact accepted

/-- A wallet with three accounts is busy from now on, or free. -/
def walletTurns (busy : Bool) : Occurrence :=
  .action (.event (.wallet [⟨1⟩, ⟨2⟩, ⟨3⟩] (fun _ => .failure .methodNotFound) busy))

/-- Another holder of the store grants a site some accounts. -/
def grantsAccounts (accounts : List Account) : Occurrence :=
  .mutation (.grant ⟨"site"⟩ [⟨⟨0⟩, accountsMethod, ⟨"site"⟩, [.accounts accounts], 0⟩])

/-- The permission is revoked while the wallet is busy, and then others of its accounts are granted,
or none. Only the account is told that was granted both times. -/
theorem looksUp_through_regranted :
    let revoked : Occurrence := .action (.command (.revoke ⟨"site"⟩ [accountsMethod]))
    ∃ s t p, create .signing (.initial [⟨1⟩, ⟨2⟩, ⟨3⟩]) = .ok s ∧
      t = s.through [grantsAccounts [⟨1⟩, ⟨2⟩], walletTurns true] ∧
      t.gate.state.permission? ⟨"site"⟩ accountsMethod = some p ∧
      p.caveats = [.accounts [⟨1⟩, ⟨2⟩]] ∧ t.LooksUp ⟨"site"⟩ .null p ∧
      let u := t.after (.start (.execute ⟨"site"⟩ accountsMethod .null))
      (u.through [revoked, walletTurns false]).answers (.poll 1) =
        .ended 1 (.value (.ok (Account.list []))) ∧
      (u.through [revoked, grantsAccounts [⟨2⟩, ⟨3⟩], walletTurns false]).answers (.poll 1) =
        .ended 1 (.value (.ok (Account.list [⟨2⟩]))) := by
  intro revoked
  have created : create .signing (.initial [⟨1⟩, ⟨2⟩, ⟨3⟩]) =
      .ok ⟨.signing, .initial [⟨1⟩, ⟨2⟩, ⟨3⟩], ⟨Settings.signing.registry, true, .empty, .empty⟩,
        0, [], [], 0, []⟩ := rfl
  have hlooksUp := @looksUp_through _ ⟨"site"⟩
    ⟨⟨0⟩, accountsMethod, ⟨"site"⟩, [.accounts [⟨1⟩, ⟨2⟩]], 0⟩ .null _ _ created rfl
    [grantsAccounts [⟨1⟩, ⟨2⟩], walletTurns true] rfl .null rfl
  refine ⟨_, _, _, created, rfl, rfl, rfl, hlooksUp, ?none, ?other⟩
  case none =>
    obtain ⟨value, hended⟩ := hlooksUp.resumes
      [.action (.command (.revoke ⟨"site"⟩ [accountsMethod])), walletTurns false] rfl rfl
    obtain ⟨_, hvalue, -, hnone⟩ := hlooksUp.ends _ _ _ hended
    cases hvalue
    have hempty := hnone (.later (@Withdrawn.taken _ _ [] _ _ (.revoked _ _) ⟨_, rfl⟩
      ⟨rfl, List.mem_singleton_self _⟩) fun m h => nomatch h)
    refine hended.trans ?_
    rw [hempty]
    rfl
  case other =>
    obtain ⟨value, hended⟩ := hlooksUp.resumes
      [.action (.command (.revoke ⟨"site"⟩ [accountsMethod])), grantsAccounts [⟨2⟩, ⟨3⟩],
        walletTurns false] rfl rfl
    obtain ⟨_, hvalue, hretrieves, -⟩ := hlooksUp.ends _ _ _ hended
    cases hvalue
    refine hended.trans ?_
    rw [hretrieves.eq]
    rfl

end Session

end OriginGate
