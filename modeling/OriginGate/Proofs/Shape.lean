import OriginGate.Proofs.Decisions

/-!
# The shape of what is granted

* `Permission.Shaped`, `Permission.AllShaped` : one permission of an origin, and all of them;
* `State.Shaped` : so it is for every origin that is listed; kept by grants, revocations and a
  clearance;
* `Approving.Valid.shaped` : what a valid approval grants has this shape;
* `System.SameRules` : the restricted methods and the rule on accounts stay as they are;
* `Permission.LookedUp` : the accounts of a permission are among those that a wallet tells;
* `Session.shaped_run` : every state of a run is shaped, and approvals grant no accounts but those
  that the wallet told them.
-/

namespace OriginGate

/-! ## Shaped states -/

namespace Permission

/-- A permission of an origin for a restricted method. One for the accounts names some, in its first
caveat and in no other. -/
structure Shaped (registry : Registry) (o : Origin) (p : Permission) : Prop where
  invoker : p.invoker = o
  restricted : registry.isRestricted p.capability = true
  accounts : p.capability = accountsMethod →
    ∃ allowed rest, p.caveats = .accounts allowed :: rest ∧ allowed ≠ [] ∧
      ∀ c ∈ rest, c.kind ≠ .accounts

/-- Some permissions of an origin, for different methods. -/
structure AllShaped (registry : Registry) (o : Origin) (ps : List Permission) : Prop where
  some : ps ≠ []
  distinct : (ps.map (·.capability)).Nodup
  each : ∀ p ∈ ps, p.Shaped registry o

variable {registry : Registry} {o : Origin} {ps qs : List Permission}

theorem AllShaped.filter (h : AllShaped registry o ps) {keep : Permission → Bool}
    (some : ps.filter keep ≠ []) : AllShaped registry o (ps.filter keep) where
  some := some
  distinct := (List.filter_sublist.map _).nodup h.distinct
  each p hp := h.each p (List.mem_filter.1 hp).1

theorem AllShaped.granted (h : AllShaped registry o qs)
    (hps : (ps.map (·.capability)).Nodup ∧ ∀ p ∈ ps, p.Shaped registry o) :
    AllShaped registry o (ps.filter (!State.regranted qs ·) ++ qs) := by
  refine ⟨List.append_ne_nil_of_right_ne_nil _ h.some, ?_, fun p hp => ?_⟩
  · rw [List.map_append]
    refine List.nodup_append.2 ⟨(List.filter_sublist.map _).nodup hps.1, h.distinct, ?_⟩
    intro m hm n hn heq
    obtain ⟨p, hp, rfl⟩ := List.mem_map.1 hm
    obtain ⟨q, hq, rfl⟩ := List.mem_map.1 hn
    have hkept := (List.mem_filter.1 hp).2
    have hregranted : State.regranted qs p = true :=
      List.any_eq_true.2 ⟨q, hq, decide_eq_true heq.symm⟩
    rw [hregranted] at hkept
    cases hkept
  · rcases List.mem_append.1 hp with hp | hp
    · exact hps.2 p (List.mem_filter.1 hp).1
    · exact h.each p hp

end Permission

namespace State

/-- Every origin that is listed has some permissions, all shaped. -/
def Shaped (registry : Registry) (s : State) : Prop :=
  ∀ o d, (o, d) ∈ s.domains.entries → Permission.AllShaped registry o d.permissions

variable {registry : Registry} {s : State}

theorem shaped_empty (registry : Registry) : Shaped registry .empty :=
  fun _ _ h => absurd h List.not_mem_nil

theorem Shaped.of_domains {t : State} (h : s.Shaped registry) (hd : t.domains = s.domains) :
    t.Shaped registry := by
  intro o d hod
  rw [hd] at hod
  exact h o d hod

theorem Shaped.permissions (h : s.Shaped registry) (o : Origin) :
    s.permissions o = [] ∨ Permission.AllShaped registry o (s.permissions o) := by
  unfold State.permissions
  split
  · rename_i d hd
    exact .inr (h o d (SortedMap.find?_eq_some_iff.1 hd))
  · exact .inl rfl

theorem Shaped.found (h : s.Shaped registry) {o : Origin} {method : String} {p : Permission}
    (found : s.permission? o method = some p) : p.capability = method ∧ p.Shaped registry o := by
  unfold permission? at found
  have hmem : p ∈ s.permissions o := List.mem_of_find?_eq_some found
  refine ⟨by simpa using List.find?_some found, ?_⟩
  rcases h.permissions o with hnone | hall
  · rw [hnone] at hmem
    exact absurd hmem List.not_mem_nil
  · exact hall.each p hmem

theorem Shaped.insert (h : s.Shaped registry) {o : Origin} {ps : List Permission}
    (hps : Permission.AllShaped registry o ps) :
    Shaped registry { s with domains := s.domains.insert o ⟨ps⟩ } := by
  intro q d hd
  rw [← SortedMap.find?_eq_some_iff, SortedMap.find?_insert] at hd
  split at hd
  · rename_i hq
    cases hd
    rw [hq]
    exact hps
  · exact h q d (SortedMap.find?_eq_some_iff.1 hd)

theorem Shaped.grant (h : s.Shaped registry) {o : Origin} {ps : List Permission}
    (hps : Permission.AllShaped registry o ps) : (s.grant o ps).Shaped registry := by
  refine h.insert (hps.granted ?_)
  rcases h.permissions o with hnone | hsome
  · rw [hnone]
    exact ⟨List.nodup_nil, fun p hp => absurd hp List.not_mem_nil⟩
  · exact ⟨hsome.distinct, hsome.each⟩

/-- An origin that keeps no permission is listed no longer. -/
theorem Shaped.revoke (h : s.Shaped registry) (o : Origin) (methods : List String) :
    (s.revoke o methods).Shaped registry := by
  unfold State.revoke setPermissions
  split
  · intro q d hd
    exact h q d (List.mem_filter.1 hd).1
  · rename_i hkept
    have hsome := fun hnil => hkept (List.isEmpty_iff.2 hnil)
    rcases h.permissions o with hnone | hall
    · rw [hnone] at hsome
      exact absurd List.filter_nil hsome
    · exact h.insert (hall.filter hsome)

theorem Shaped.clear (s : State) : s.clear.Shaped registry :=
  fun _ _ h => absurd h List.not_mem_nil

end State

/-! ## What approvals grant -/

/-- The accounts of a permission for them are among those of a wallet that answers. -/
def Permission.LookedUp (w : Wallet) (p : Permission) : Prop :=
  p.capability = accountsMethod →
    w.busy = false ∧ ∃ allowed rest, p.caveats = .accounts allowed :: rest ∧
      ∀ account ∈ allowed, account ∈ w.accounts

namespace Approving

variable {a : Approving} {s t : System}

theorem methods_drawn (a : Approving) (supply : Supply) :
    (supply.drawPermissions a.origin a.grants).1.map (·.capability) =
      a.approved.permissions.keys := by
  have hmethods := congrArg (List.map Prod.fst)
    (Supply.drawPermissions_map a.origin a.grants supply).1
  rw [List.map_map, grants, List.map_map] at hmethods
  exact hmethods

theorem mem_drawn {supply : Supply} {p : Permission}
    (h : p ∈ (supply.drawPermissions a.origin a.grants).1) :
    ∃ e ∈ a.approved.permissions.entries, p.capability = e.1 ∧ p.caveats = a.caveats e.1 e.2 := by
  have hmap := (Supply.drawPermissions_map a.origin a.grants supply).1
  have hmem : (p.capability, p.caveats) ∈ a.grants := by
    rw [← hmap]
    exact List.mem_map_of_mem h
  obtain ⟨e, he, heq⟩ := List.mem_map.1 hmem
  exact ⟨e, he, (congrArg Prod.fst heq).symm, (congrArg Prod.snd heq).symm⟩

/-- A permission for the accounts has those of the approval in its first caveat, and no others. -/
theorem caveats_accounts (a : Approving) (approved : RequestedPermission) :
    ∃ rest, a.caveats accountsMethod approved = .accounts a.accounts :: rest ∧
      ∀ c ∈ rest, c.kind ≠ .accounts := by
  refine ⟨approved.caveats.filter (·.kind ≠ .accounts), if_pos rfl, fun c hc => ?_⟩
  exact of_decide_eq_true (List.mem_filter.1 hc).2

theorem Valid.shaped (h : a.Valid s) (supply : Supply) :
    Permission.AllShaped s.gate.registry a.origin
      (supply.drawPermissions a.origin a.grants).1 := by
  have hinvoker := (Supply.drawPermissions_map a.origin a.grants supply).2
  have hkeys := a.methods_drawn supply
  refine ⟨?_, ?_, fun p hp => ?_⟩
  · intro hnil
    rw [hnil, List.map_nil] at hkeys
    refine h.some (List.isEmpty_iff.2 ?_)
    exact List.map_eq_nil_iff.1 hkeys.symm
  · rw [hkeys]
    exact SortedMap.keys_nodup _
  · obtain ⟨e, he, hcapability, hcaveats⟩ := mem_drawn hp
    have hkey : e.1 ∈ a.approved.permissions.keys := List.mem_map_of_mem he
    refine ⟨hinvoker p hp, ?_, fun haccounts => ?_⟩
    · rw [hcapability]
      exact h.restricted e.1 hkey
    · rw [hcapability] at haccounts
      rw [haccounts] at hkey hcaveats
      obtain ⟨rest, hrest, hkinds⟩ := a.caveats_accounts e.2
      exact ⟨a.accounts, rest, hcaveats.trans hrest,
        h.accounts (SortedMap.mem_keys_iff.1 hkey), hkinds⟩

theorem Valid.lookedUp (h : a.Valid s) (validate : s.gate.validateAccounts = true)
    {supply : Supply} {p : Permission}
    (hp : p ∈ (supply.drawPermissions a.origin a.grants).1) : p.LookedUp s.world.wallet := by
  intro haccounts
  obtain ⟨e, he, hcapability, hcaveats⟩ := mem_drawn hp
  have hkey : e.1 ∈ a.approved.permissions.keys := List.mem_map_of_mem he
  rw [hcapability] at haccounts
  rw [haccounts] at hkey hcaveats
  obtain ⟨rest, hrest, -⟩ := a.caveats_accounts e.2
  obtain ⟨hbusy, hknown⟩ := h.known (SortedMap.mem_keys_iff.1 hkey) validate
  exact ⟨hbusy, a.accounts, rest, hcaveats.trans hrest, hknown⟩

/-- An approval that ends well was valid, and grants what it drew. -/
theorem Finished.valid {granted : List Permission} (h : a.Finished s t (.ok granted)) :
    a.Valid s ∧ granted = (s.world.supply.drawPermissions a.origin a.grants).1 := by
  cases h with
  | granted _ valid drawn _ _ => exact ⟨check_valid valid, drawn⟩

theorem Finished.shaped {d : Decision} (h : a.Finished s t d)
    (hs : s.gate.state.Shaped s.gate.registry) : t.gate.state.Shaped s.gate.registry := by
  rcases h.state with hstate | ⟨e, granted, -, rfl, hdrawn, hstate, -⟩
  · rw [hstate]
    exact hs
  · rw [hstate, hdrawn]
    exact hs.grant (h.valid.1.shaped _)

end Approving

/-! ## Every run -/

/-- The restricted methods and the rule on accounts are the same. -/
structure System.SameRules (s t : System) : Prop where
  registry : t.gate.registry = s.gate.registry
  validate : t.gate.validateAccounts = s.gate.validateAccounts

namespace System

theorem SameRules.trans {s t u : System} (h₁ : SameRules s t) (h₂ : SameRules t u) :
    SameRules s u :=
  ⟨h₂.registry.trans h₁.registry, h₂.validate.trans h₁.validate⟩

theorem Served.sameRules {o : Origin} {may : Gate → Rpc.MethodCall → Prop} {s t : System}
    {as : List Awaiting} (h : Served o may s t as) : SameRules s t := by
  cases h with
  | registered _ h =>
    obtain ⟨-, -, -, rfl⟩ := register_ok h
    exact ⟨rfl, rfl⟩
  | _ => exact ⟨rfl, rfl⟩

theorem ServedAll.sameRules {o : Origin} {may : Gate → Rpc.MethodCall → Prop} {s t : System}
    {as : List Awaiting} (h : ServedAll o may s t as) : SameRules s t := by
  induction h with
  | nil s => exact ⟨rfl, rfl⟩
  | cons first _ ih => exact first.sameRules.trans ih

end System

namespace Session

variable {s : Session}

theorem sameRules_after (hs : s.Undivided) (a : Action) :
    System.SameRules s.system (s.after a).system := by
  have hchanged := changed_step hs a
  generalize (s.after a).system = t at hchanged
  cases hchanged with
  | same => exact ⟨rfl, rfl⟩
  | served _ _ h => exact h.sameRules
  | approved _ _ h => exact ⟨h.steady.registry, h.steady.validate⟩
  | abandoned _ _ => exact ⟨rfl, rfl⟩
  | @commanded c _ _ =>
    have hsteady := System.steady_carryOut c s.system
    exact ⟨hsteady.registry, hsteady.validate⟩
  | happened _ => exact ⟨rfl, rfl⟩

theorem sameRules_run (hs : s.Undivided) (actions : List Action) :
    System.SameRules s.system (s.run actions).system := by
  refine hs.run_induction (P := fun t => System.SameRules s.system t.system) ⟨rfl, rfl⟩
    (fun t a ht h => ?_) actions
  exact h.trans (sameRules_after ht a)

theorem shaped_after (hs : s.Undivided) (h : s.gate.state.Shaped s.gate.registry) (a : Action) :
    (s.after a).gate.state.Shaped s.gate.registry := by
  have hchanged := changed_step hs a
  change (s.after a).system.gate.state.Shaped _
  generalize (s.after a).system = t at hchanged
  cases hchanged with
  | same => exact h
  | served _ _ hserved => exact h.of_domains hserved.sameGrants.domains
  | approved _ _ hfinished => exact hfinished.shaped h
  | abandoned _ _ => exact h
  | @commanded c _ _ =>
    rcases state_command c s.system with hdomains | ⟨o, methods, -, hstate⟩ | ⟨-, hstate⟩
    · exact h.of_domains hdomains
    · rw [hstate]
      exact State.Shaped.revoke h o methods
    · rw [hstate]
      exact State.Shaped.clear _
  | happened _ => exact h

theorem shaped_states (hs : s.Undivided) (loaded : s.gate.state.Shaped s.gate.registry)
    (actions : List Action) : (s.run actions).gate.state.Shaped s.gate.registry := by
  refine hs.run_induction (P := fun t => System.SameRules s.system t.system ∧
    t.gate.state.Shaped s.gate.registry) ⟨⟨rfl, rfl⟩, loaded⟩ ?_ actions |>.2
  rintro t a ht ⟨hsame, hshaped⟩
  have hregistry : t.gate.registry = s.gate.registry := hsame.registry
  refine ⟨hsame.trans (sameRules_after ht a), ?_⟩
  rw [← hregistry] at hshaped ⊢
  exact shaped_after ht hshaped a

/-- The accounts that an approval grants are among those that the wallet tells it. -/
theorem Approves.lookedUp (hs : s.Undivided) {a : Action} {id : RequestId}
    {granted : List Permission} (h : s.Approves a id (.ok granted))
    (validate : s.gate.validateAccounts = true) : ∀ p ∈ granted, p.LookedUp s.world.wallet := by
  rcases h.ends hs with ⟨-, hd, -⟩ | ⟨n, approving, -, -, finished⟩
  · cases hd
  · obtain ⟨hvalid, rfl⟩ := finished.valid
    exact fun p hp => hvalid.lookedUp validate hp

/-- A permission that a step adds is one of those that an approval grants. -/
theorem written_after (hs : s.Undivided) (a : Action) {o : Origin} {p : Permission}
    (hp : p ∈ (s.after a).gate.state.permissions o) :
    p ∈ s.gate.state.permissions o ∨
      ∃ id granted, s.Approves a id (.ok granted) ∧ p ∈ granted := by
  have hchanged := changed_step hs a
  change p ∈ (s.after a).system.gate.state.permissions o at hp
  generalize (s.after a).system = t at hchanged hp
  cases hchanged with
  | same => exact .inl hp
  | served _ _ h =>
    rw [h.sameGrants.permissions] at hp
    exact .inl hp
  | approved under ended h =>
    rcases h.state with hstate | ⟨e, granted, -, rfl, -, hstate, -⟩
    · rw [hstate] at hp
      exact .inl hp
    · rw [hstate, State.permissions_grant] at hp
      split at hp
      · rename_i ho
        rcases List.mem_append.1 hp with hp | hp
        · rw [ho]
          exact .inl (List.mem_filter.1 hp).1
        · exact .inr ⟨_, granted, approves_approving under ended, hp⟩
      · exact .inl hp
  | abandoned _ _ => exact .inl hp
  | @commanded c _ _ =>
    rcases permissions_command c s.system with hdomains | ⟨-, hfewer⟩
    · rw [State.permissions, hdomains] at hp
      exact .inl hp
    · exact .inl ((hfewer o).subset hp)
  | happened _ => exact .inl hp

/-- What holds after a run of the grants and of the accounts in them. -/
structure WellShaped (s : Session) (actions : List Action) : Prop where
  shaped : (s.run actions).gate.state.Shaped (s.run actions).gate.registry
  /-- Every approval looked up the accounts that it granted, if the gate checks accounts. -/
  lookedUp : s.gate.validateAccounts = true →
    ∀ before a later, actions = before ++ a :: later →
      ∀ id granted, (s.run before).Approves a id (.ok granted) →
        ∀ p ∈ granted, p.LookedUp (s.run before).world.wallet
  /-- Every permission was loaded, or an approval granted it. -/
  written : ∀ o, ∀ p ∈ (s.run actions).gate.state.permissions o,
    p ∈ s.gate.state.permissions o ∨ ∃ before a later id granted,
      actions = before ++ a :: later ∧ (s.run before).Approves a id (.ok granted) ∧ p ∈ granted

theorem written_run (hs : s.Undivided) (actions : List Action) {o : Origin} {p : Permission}
    (hp : p ∈ (s.run actions).gate.state.permissions o) :
    p ∈ s.gate.state.permissions o ∨ ∃ before a later id granted,
      actions = before ++ a :: later ∧ (s.run before).Approves a id (.ok granted) ∧
        p ∈ granted := by
  induction actions using List.reverseRecOn with
  | nil => exact .inl hp
  | append_singleton before a ih =>
    rw [run_snoc] at hp
    rcases written_after (undivided_run hs before) a hp with hp | ⟨id, granted, h, hp⟩
    · refine (ih hp).imp_right ?_
      rintro ⟨early, b, late, id, granted, rfl, h⟩
      exact ⟨early, b, late ++ [a], id, granted, by rw [List.append_assoc, List.cons_append], h⟩
    · exact .inr ⟨before, a, [], id, granted, rfl, h, hp⟩

/-- In every run of a new session whose loaded state is shaped, all states are shaped, and what
approvals grant names no accounts but those that the wallet told them. -/
theorem shaped_run {settings : Settings} {w : World} (created : create settings w = .ok s)
    (loaded : s.gate.state.Shaped s.gate.registry) (actions : List Action) :
    s.WellShaped actions := by
  have hs := undivided_create created
  constructor
  case shaped =>
    have hrules := (sameRules_run hs actions).registry
    change (s.run actions).gate.state.Shaped (s.run actions).system.gate.registry
    rw [hrules]
    exact shaped_states hs loaded actions
  case lookedUp =>
    intro validate before a later _ id granted h
    have hvalidate : (s.run before).gate.validateAccounts = true :=
      (sameRules_run hs before).validate.trans validate
    exact h.lookedUp (undivided_run hs before) hvalidate
  case written =>
    intro o p hp
    exact written_run hs actions hp

/-- An approval of accounts with two more account caveats among the approved ones, while the wallet
is busy at first. -/
theorem shaped_run_accounts :
    ∃ s a, create .signing (.initial [⟨1⟩, ⟨2⟩]) = .ok s ∧ s.gate.validateAccounts = true ∧
      s.gate.state.Shaped s.gate.registry ∧
      (s.run a).gate.state.permissions ⟨"site"⟩ =
        [⟨⟨1⟩, accountsMethod, ⟨"site"⟩, [.accounts [⟨2⟩], .limitLength 1], 1⟩] ∧
      s.WellShaped a := by
  have created : create .signing (.initial [⟨1⟩, ⟨2⟩]) =
      .ok ⟨.signing, .initial [⟨1⟩, ⟨2⟩], ⟨Settings.signing.registry, true, .empty, .empty⟩, 0, [],
        [], 0, []⟩ := rfl
  refine ⟨_, [.start (.requestPermissions ⟨"site"⟩ (.single accountsMethod)),
    .event (.wallet [⟨1⟩, ⟨2⟩] (fun _ => .failure .methodNotFound) true),
    .start (.approve ⟨⟨⟨0⟩⟩, SortedMap.empty.insert accountsMethod
      ⟨[.accounts [⟨7⟩], .limitLength 1, .accounts []]⟩⟩ [⟨2⟩]),
    .event (.wallet [⟨1⟩, ⟨2⟩] (fun _ => .failure .methodNotFound) false),
    .poll 2], created, rfl, State.shaped_empty _, ?_,
    shaped_run created (State.shaped_empty _) _⟩
  rfl

end Session

end OriginGate
