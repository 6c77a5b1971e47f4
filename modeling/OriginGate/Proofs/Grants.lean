import OriginGate.Proofs.Requests
import OriginGate.SortedMap.Lookup

/-!
# Where grants come from

* `State.permissions_setPermissions`, `State.permissions_grant`, `State.permissions_revoke` : the
  permissions after a change; `State.permission?_grant`, `State.permission?_revoke` : the one for a
  method;
* `Approving.Finished.state` : an approval that ends grants what it tells, or leaves the state;
* `Session.Began` : an approval under way began in the run, for the origin that asked (`began_run`);
* `Session.Grants` : the last step of a run completes an approval that grants something;
* `Session.GrantsChange` : how one step may change the grants (`grantsChange_run`);
* `Action.BySites` : what sites bring about, which never changes the grants (`domains_run`);
* `Session.granted_run` : there is no grant without an approval.
-/

namespace OriginGate

/-! ## Permissions after a change -/

theorem find?_filter_of_imp {α : Type} {p q : α → Bool} {l : List α}
    (h : ∀ a ∈ l, p a = true → q a = true) : (l.filter q).find? p = l.find? p := by
  rw [List.find?_filter]
  refine List.find?_congr fun a ha => ?_
  rw [Bool.eq_iff_iff, decide_eq_true_iff]
  exact and_iff_right_of_imp (h a ha)

theorem Permission.find?_others (methods : List String) (method : String) (ps : List Permission) :
    (ps.filter (·.capability ∉ methods)).find? (·.capability = method) =
      if method ∈ methods then none else ps.find? (·.capability = method) := by
  split
  · rename_i hmem
    refine List.find?_eq_none.2 fun p hp heq => ?_
    have hothers := of_decide_eq_true (List.mem_filter.1 hp).2
    rw [of_decide_eq_true heq] at hothers
    exact hothers hmem
  · rename_i hother
    refine find?_filter_of_imp fun p _ heq => decide_eq_true ?_
    rwa [of_decide_eq_true heq]

namespace State

theorem permissions_setPermissions (o q : Origin) (ps : List Permission) (s : State) :
    (s.setPermissions o ps).permissions q = if q = o then ps else s.permissions q := by
  unfold setPermissions permissions
  cases ps with
  | nil =>
    simp only [List.isEmpty_nil, if_true, SortedMap.find?_erase]
    by_cases h : q = o
    · rw [if_pos h, if_pos h]
    · rw [if_neg h, if_neg h]
  | cons p rest =>
    simp only [List.isEmpty_cons, Bool.false_eq_true, if_false, SortedMap.find?_insert]
    by_cases h : q = o
    · rw [if_pos h, if_pos h]
    · rw [if_neg h, if_neg h]

theorem filter_regranted (ps qs : List Permission) :
    qs.filter (!regranted ps ·) =
      qs.filter (fun p => p.capability ∉ ps.map (·.capability)) := by
  refine List.filter_congr fun p _ => ?_
  rw [Bool.eq_iff_iff]
  simp [regranted]

theorem permissions_grant (o q : Origin) (ps : List Permission) (s : State) :
    (s.grant o ps).permissions q =
      if q = o then (s.permissions o).filter (!regranted ps ·) ++ ps else s.permissions q := by
  simp only [grant, permissions, SortedMap.find?_insert]
  by_cases h : q = o
  · rw [if_pos h, if_pos h]
  · rw [if_neg h, if_neg h]

theorem permission?_grant (o : Origin) (ps : List Permission) (method : String) (s : State) :
    (s.grant o ps).permission? o method =
      (ps.find? (·.capability = method)).or (s.permission? o method) := by
  rw [permission?, permissions_grant, if_pos rfl, filter_regranted, List.find?_append,
    Permission.find?_others]
  rcases hps : ps.find? (·.capability = method) with _ | p
  · have hother : method ∉ ps.map (·.capability) := by
      intro hmem
      obtain ⟨q, hq, heq⟩ := List.mem_map.1 hmem
      exact List.find?_eq_none.1 hps q hq (decide_eq_true heq)
    rw [if_neg hother, hps, Option.or_none, Option.none_or]
    rfl
  · have hmethod : p.capability = method := by simpa using List.find?_some hps
    have hmem : method ∈ ps.map (·.capability) :=
      List.mem_map.2 ⟨p, List.mem_of_find?_eq_some hps, hmethod⟩
    rw [if_pos hmem, hps, Option.none_or, Option.some_or]

theorem permissions_revoke (o q : Origin) (methods : List String) (s : State) :
    (s.revoke o methods).permissions q =
      if q = o then (s.permissions o).filter (·.capability ∉ methods) else s.permissions q :=
  permissions_setPermissions o q _ s

theorem permissions_revoke_sublist (o q : Origin) (methods : List String) (s : State) :
    ((s.revoke o methods).permissions q).Sublist (s.permissions q) := by
  rw [permissions_revoke]
  by_cases h : q = o
  · rw [if_pos h, h]
    exact List.filter_sublist
  · rw [if_neg h]

theorem permission?_revoke (o q : Origin) (methods : List String) (method : String) (s : State) :
    (s.revoke o methods).permission? q method =
      if q = o ∧ method ∈ methods then none else s.permission? q method := by
  rw [permission?, permissions_revoke]
  by_cases h : q = o
  · subst h
    rw [if_pos rfl, Permission.find?_others]
    simp only [true_and]
    rfl
  · rw [if_neg h, if_neg (fun hboth => h hboth.1)]
    rfl

theorem permissions_clear (q : Origin) (s : State) : s.clear.permissions q = [] := rfl

end State

theorem Supply.drawPermissions_map (o : Origin) (grants : List (String × List Caveat))
    (s : Supply) :
    (s.drawPermissions o grants).1.map (fun p => (p.capability, p.caveats)) = grants ∧
      ∀ p ∈ (s.drawPermissions o grants).1, p.invoker = o := by
  induction grants generalizing s with
  | nil => exact ⟨rfl, by simp [drawPermissions]⟩
  | cons g rest ih =>
    obtain ⟨hmap, hinvoker⟩ := ih (s.drawPermission o g.1 g.2).2
    refine ⟨?_, fun p hp => ?_⟩
    · simp only [drawPermissions, List.map_cons, hmap]
      rfl
    · rcases List.mem_cons.1 hp with rfl | hp
      · rfl
      · exact hinvoker p hp

/-! ## Approvals that end -/

/-- An approval that ends leaves the state, or puts there what it tells its caller. -/
theorem Approving.Finished.state {a : Approving} {s t : System} {d : Decision}
    (h : a.Finished s t d) :
    t.gate.state = s.gate.state ∨ ∃ e granted, s.gate.pending.lookUp? a.approved.id = some e ∧
      d = .ok granted ∧ granted = (s.world.supply.drawPermissions a.origin a.grants).1 ∧
      t.gate.state = s.gate.state.grant a.origin granted ∧
      t.gate.pending = s.gate.pending.without e := by
  cases h with
  | late absent => exact .inl rfl
  | invalid found invalid => exact .inl rfl
  | @unstored e supply store error found valid stored =>
    cases Store.taken_grant stored with
    | failed _ => exact .inl rfl
  | @granted e supply store permissions found valid drawn stored =>
    cases Store.taken_grant stored with
    | shown _ => exact .inl rfl
    | written _ => exact .inr ⟨e, permissions, found, rfl, drawn, rfl, rfl⟩

/-- Only an approval of a registered request waits, on behalf of the origin that asked. -/
theorem Operation.begin_approve {op : Operation} {s t : System} {approving : Approving}
    (h : op.begin s = (t, .waiting (.approve approving))) :
    op = .approve approving.approved approving.accounts ∧
      ∃ r, s.gate.pending.find? approving.approved.id = some r ∧ r.origin = approving.origin := by
  have hp := congrArg Prod.snd h
  cases op with
  | approve approved accounts =>
    rcases System.approve_cases approved accounts s with ⟨-, hnone⟩ | ⟨r, hr, hpoll⟩
    · simp only [begin, hnone] at hp
      cases hp
    · rcases Approving.poll_cases ⟨approved, r.origin, accounts⟩ s with hw | ⟨checked, -, hd⟩
      · simp only [begin, hpoll, hw] at hp
        cases hp
        exact ⟨rfl, r, hr, rfl⟩
      · simp only [begin, hpoll, hd] at hp
        cases hp
  | call caller c => obtain ⟨b, -, hb⟩ := Progress.waiting_of_mapWaiting hp; cases hb
  | request caller r => obtain ⟨b, -, hb⟩ := Progress.waiting_of_mapWaiting hp; cases hb
  | requestAccounts o => obtain ⟨b, -, hb⟩ := Progress.waiting_of_mapWaiting hp; cases hb
  | requestPermissions o requested =>
    obtain ⟨b, -, hb⟩ := Progress.waiting_of_mapWaiting hp; cases hb
  | execute o method params => obtain ⟨b, -, hb⟩ := Progress.waiting_of_mapWaiting hp; cases hb

namespace Session

variable {s : Session}

/-- An approval began with one of some actions, on behalf of the origin that asked then. -/
def Began (s : Session) (actions : List Action) (n : Nat) (approving : Approving) : Prop :=
  ∃ early late r,
    actions = early ++ .start (.approve approving.approved approving.accounts) :: late ∧
    n = (s.run early).begun + 1 ∧
    (s.run early).gate.pending.find? approving.approved.id = some r ∧ r.origin = approving.origin

theorem Began.snoc {actions : List Action} {n : Nat} {approving : Approving}
    (h : s.Began actions n approving) (a : Action) : s.Began (actions ++ [a]) n approving := by
  obtain ⟨early, late, r, rfl, hrest⟩ := h
  refine ⟨early, late ++ [a], r, ?_, hrest⟩
  rw [List.append_assoc, List.cons_append]

/-- Every approval that waits began in the run. -/
theorem began_run (hs : s.Undivided) (none : s.waiting = []) (actions : List Action)
    {w : Suspended} (hw : w ∈ (s.run actions).waiting) {approving : Approving}
    (h : w.waiter = .approve approving) : s.Began actions w.number approving := by
  induction actions using List.reverseRecOn generalizing w with
  | nil =>
    change w ∈ s.waiting at hw
    rw [none] at hw
    exact absurd hw List.not_mem_nil
  | append_singleton before a ih =>
    rw [run_snoc] at hw
    rcases waiting_after (undivided_run hs before) hw with
      ⟨hw, -⟩ | ⟨op, t, rfl, hbegin, hn⟩ | ⟨v, t, hv, htakes⟩
    · exact (ih hw h).snoc a
    · rw [h] at hbegin
      obtain ⟨rfl, r, hr, horigin⟩ := Operation.begin_approve hbegin
      exact ⟨before, [], r, rfl, hn, hr, horigin⟩
    · rw [h] at htakes
      obtain ⟨hv', -⟩ := Waiter.approve_of_takesUp htakes
      obtain ⟨hmem, hn⟩ := mem_of_suspended? hv
      rw [← hn]
      exact (ih hmem hv').snoc a

/-- An approval that an action begins or takes up began in the run, or begins with this action. -/
theorem began_approving (hs : s.Undivided) (none : s.waiting = []) {before : List Action}
    {a : Action} {n : Nat} {approving : Approving}
    (under : (s.run before).approving? a = some (n, approving)) :
    s.Began (before ++ [a]) n approving := by
  unfold approving? at under
  split at under
  · obtain ⟨r, hr, hpair⟩ := Option.map_eq_some_iff.1 under
    cases hpair
    exact ⟨before, [], r, rfl, rfl, hr, rfl⟩
  · rename_i m
    split at under
    · rename_i waiting hwaiter
      cases under
      obtain ⟨w, hw, happrove⟩ := Option.map_eq_some_iff.1 hwaiter
      obtain ⟨hmem, hn⟩ := mem_of_suspended? hw
      rw [← hn]
      exact (began_run hs none before hmem happrove).snoc _
    · cases under
  · cases under

/-! ## Steps that change grants -/

/-- The last step of a run completes an approval that grants an origin some permissions. -/
structure Grants (s : Session) (before : List Action) (a : Action) (early : List Action)
    (approved : ApprovedRequest) (accounts : List Account) (o : Origin)
    (granted : List Permission) : Prop where
  /-- The approval began after some of the actions, perhaps with the last of them. -/
  begun : ∃ late, before ++ [a] = early ++ .start (.approve approved accounts) :: late
  /-- Its request was registered for the origin when it began, and is until it is completed. Only an
  id that was given twice can name another request by then. -/
  registered : ∃ r q, r.origin = o ∧ (s.run early).gate.pending.find? approved.id = some r ∧
    (s.run before).gate.pending.find? approved.id = some q ∧ ((s.run before).world.Fresh → q = r)
  /-- It is this approval that the step completes, and the approver is told what is granted. -/
  ended : (s.run before).answers a = .ended ((s.run early).begun + 1) (.decision (.ok granted))
  /-- The permissions are those that were approved. -/
  built : granted.map (fun p => (p.capability, p.caveats)) =
    Approving.grants ⟨approved, o, accounts⟩
  invoker : ∀ p ∈ granted, p.invoker = o
  stored : (s.run (before ++ [a])).gate.state = (s.run before).gate.state.grant o granted
  /-- The request is registered no longer. -/
  gone : approved.id ∉ (s.run (before ++ [a])).gate.pending.ids

theorem Grants.mem {before : List Action} {a : Action} {early : List Action}
    {approved : ApprovedRequest} {accounts : List Account} {o q : Origin}
    {granted : List Permission} (h : s.Grants before a early approved accounts o granted)
    {p : Permission} (after : p ∈ (s.run (before ++ [a])).gate.state.permissions q)
    (earlier : p ∉ (s.run before).gate.state.permissions q) : q = o ∧ p ∈ granted := by
  rw [h.stored, State.permissions_grant] at after
  split at after
  · rename_i hq
    rcases List.mem_append.1 after with hp | hp
    · rw [hq] at earlier
      exact absurd (List.mem_filter.1 hp).1 earlier
    · exact ⟨hq, hp⟩
  · exact absurd after earlier

/-- How a step may change the grants: it completes an approval, or it leaves them all, or the owner
of the gate takes some. -/
inductive GrantsChange (s : Session) (before : List Action) (a : Action) : Prop where
  | granted {early : List Action} {approved : ApprovedRequest} {accounts : List Account}
    {o : Origin} {granted : List Permission}
    (h : s.Grants before a early approved accounts o granted)
  | left (same : (s.run (before ++ [a])).gate.state.domains = (s.run before).gate.state.domains)
  | taken (owner : (∃ o methods, a = .command (.revoke o methods)) ∨ a = .command .clear)
    (fewer : ∀ o, ((s.run (before ++ [a])).gate.state.permissions o).Sublist
      ((s.run before).gate.state.permissions o))

theorem resolve_state (id : RequestId) (d : Decision) (t : System) :
    (t.resolve id d).1.gate.state = t.gate.state := by
  rcases h : t.gate.pending.lookUp? id with _ | e
  · rw [System.resolve_absent d h]
  · rw [System.resolve_found d h]
    rfl

theorem state_command (c : Command) (t : System) :
    (c.carryOut t).1.gate.state.domains = t.gate.state.domains ∨
      (∃ o methods, c = .revoke o methods ∧
        (c.carryOut t).1.gate.state = t.gate.state.revoke o methods) ∨
      (c = .clear ∧ (c.carryOut t).1.gate.state = t.gate.state.clear) := by
  cases c with
  | reject id reason => exact .inl (congrArg State.domains (resolve_state id _ t))
  | rejectOrigin o =>
    left
    rcases System.rejectOrigin_fst o none t with h | ⟨id, -, h⟩
    · rw [Command.carryOut, h]
    · rw [Command.carryOut, h]
      exact congrArg State.domains (resolve_state id _ t)
  | recordMetadata o report extensionId =>
    left
    simp only [Command.carryOut, System.recordMetadata]
    split
    · rfl
    · exact (System.SameGrants.setMetadata o _ t).domains
  | revoke o methods =>
    have hstate : (Command.carryOut (.revoke o methods) t).1.gate.state =
        t.gate.state.revoke o methods ∨
        (Command.carryOut (.revoke o methods) t).1.gate.state = t.gate.state :=
      Store.put_state (t.gate.state.revoke o methods) t.store
    rcases hstate with h | h
    · exact .inr (.inl ⟨o, methods, rfl, h⟩)
    · exact .inl (congrArg State.domains h)
  | clear =>
    have hstate : (Command.carryOut .clear t).1.gate.state = t.gate.state.clear ∨
        (Command.carryOut .clear t).1.gate.state = t.gate.state :=
      Store.put_state t.gate.state.clear t.store
    rcases hstate with h | h
    · exact .inr (.inr ⟨rfl, h⟩)
    · exact .inl (congrArg State.domains h)
  | logUsage o e => exact .inl rfl

theorem permissions_command (c : Command) (t : System) :
    (c.carryOut t).1.gate.state.domains = t.gate.state.domains ∨
      (((∃ o methods, c = .revoke o methods) ∨ c = .clear) ∧
        ∀ o, ((c.carryOut t).1.gate.state.permissions o).Sublist (t.gate.state.permissions o)) := by
  rcases state_command c t with h | ⟨o, methods, hc, h⟩ | ⟨hc, h⟩
  · exact .inl h
  · refine .inr ⟨.inl ⟨o, methods, hc⟩, fun q => ?_⟩
    rw [h]
    exact State.permissions_revoke_sublist o q methods t.gate.state
  · refine .inr ⟨.inr hc, fun q => ?_⟩
    rw [h, State.permissions_clear]
    exact List.nil_sublist _

/-- As long as no id is given twice, a request keeps its origin while it is registered. -/
theorem find?_run (hs : s.Undivided) (ho : s.system.Orderly) {early late : List Action}
    (fresh : (s.run (early ++ late)).world.Fresh) {id : RequestId} {r q : PermissionsRequest}
    (hr : (s.run early).gate.pending.find? id = some r)
    (hq : (s.run (early ++ late)).gate.pending.find? id = some q) : r = q := by
  have hannounced := announced_append hs early late
  obtain ⟨hrmem, hrid⟩ :=
    announced_of_find? (orderly_run hs ho early (fresh.of_prefix hannounced)) hr
  obtain ⟨hqmem, hqid⟩ := announced_of_find? (orderly_run hs ho _ fresh) hq
  refine fresh.eq_of_id (hannounced.subset hrmem) hqmem ?_
  rw [hrid, hqid]

theorem prefix_of_append {before early late : List Action} {a b : Action}
    (h : before ++ [a] = early ++ b :: late) : ∃ between, before = early ++ between := by
  rcases List.eq_nil_or_concat late with rfl | ⟨between, c, rfl⟩
  · exact ⟨[], by rw [(List.append_inj' h rfl).1, List.append_nil]⟩
  · refine ⟨b :: between, ?_⟩
    have hcons : before ++ [a] = (early ++ b :: between) ++ [c] := by
      rw [h, List.append_assoc, List.cons_append, List.concat_eq_append]
    exact (List.append_inj' hcons rfl).1

/-- An approval began in the run for an origin that had a request under its id. If no id is given
twice, it is the request that is registered under this id afterwards. -/
theorem approving_request (hs : s.Undivided) (ho : s.system.Orderly) (none : s.waiting = [])
    {before : List Action} {a : Action} {n : Nat} {approving : Approving}
    (under : (s.run before).approving? a = some (n, approving)) {e : PendingRequest}
    (found : (s.run before).gate.pending.lookUp? approving.approved.id = some e) :
    ∃ early late r,
      before ++ [a] = early ++ .start (.approve approving.approved approving.accounts) :: late ∧
      n = (s.run early).begun + 1 ∧
      (s.run early).gate.pending.find? approving.approved.id = some r ∧
      r.origin = approving.origin ∧ ((s.run before).world.Fresh → e.request = r) := by
  obtain ⟨early, late, r, hsplit, hn, hr, horigin⟩ := began_approving hs none under
  refine ⟨early, late, r, hsplit, hn, hr, horigin, fun fresh => ?_⟩
  obtain ⟨between, rfl⟩ := prefix_of_append hsplit
  have hq : (s.run (early ++ between)).gate.pending.find? approving.approved.id =
      some e.request := by
    rw [Pending.find?, found]
    rfl
  exact (find?_run hs ho fresh hr hq).symm

theorem grantsChange_run (hs : s.Undivided) (ho : s.system.Orderly) (none : s.waiting = [])
    (before : List Action) (a : Action) : s.GrantsChange before a := by
  have hchanged := changed_step (undivided_run hs before) a
  have hafter : (s.run (before ++ [a])).gate = ((s.run before).after a).system.gate := by
    rw [run_snoc]
    rfl
  generalize ((s.run before).after a).system = t at hchanged hafter
  cases hchanged with
  | same => exact .left (by rw [hafter]; rfl)
  | served begun site h =>
    refine .left ?_
    rw [hafter]
    exact h.sameGrants.domains
  | @approved n approving _ d under ended h =>
    rcases h.state with hstate | ⟨e, granted, found, rfl, drawn, hstate, hpending⟩
    · refine .left ?_
      rw [hafter, hstate]
      rfl
    · obtain ⟨early, late, r, hsplit, hn, hr, horigin, hsame⟩ :=
        approving_request hs ho none under found
      obtain ⟨hbuilt, hinvoker⟩ := Supply.drawPermissions_map approving.origin approving.grants
        (s.run before).world.supply
      refine @GrantsChange.granted s before a early approving.approved approving.accounts
        approving.origin granted
        ⟨⟨late, hsplit⟩, ⟨r, e.request, horigin, hr, ?_, hsame⟩, ?_, ?_, ?_, ?_, ?_⟩
      · change ((s.run before).system.gate.pending.lookUp? _).map _ = _
        rw [found]
        rfl
      · rw [ended, hn]
      · rw [drawn]
        exact hbuilt
      · rw [drawn]
        exact hinvoker
      · rw [hafter, hstate]
        rfl
      · rw [hafter, hpending, Pending.ids]
        intro hid
        obtain ⟨f, hf, hfid⟩ := List.mem_map.1 hid
        have hne := (List.mem_filter.1 hf).2
        rw [hfid, (Pending.lookUp?_spec found).2] at hne
        exact absurd rfl (of_decide_eq_true hne)
  | abandoned dropped hw => exact .left (by rw [hafter])
  | @commanded c given h =>
    rcases permissions_command c (s.run before).system with hdomains | ⟨howner, hfewer⟩
    · refine .left ?_
      rw [hafter]
      exact hdomains
    · refine .taken ?_ fun o => ?_
      · rcases howner with ⟨o, methods, rfl⟩ | rfl
        · exact .inl ⟨o, methods, given⟩
        · exact .inr given
      · rw [hafter]
        exact hfewer o
  | happened given => exact .left (by rw [hafter])

end Session

/-! ## What sites bring about -/

/-- What sites bring about: they begin operations and wait for them or give up, and report about
themselves. Operations with numbers up to `n` are none of theirs. -/
inductive Action.BySites (n : Nat) : Action → Prop where
  | begins {op : Operation} {o : Origin} (site : op.site? = some o) : BySites n (.start op)
  | takesUp {m : Nat} (later : n < m) : BySites n (.poll m)
  | takesUpCall {m i : Nat} : BySites n (.pollCall m i)
  | givesUp {m : Nat} : BySites n (.drop m)
  | reports {o : Origin} {report : Option SiteReport} {extensionId : Option String} :
    BySites n (.command (.recordMetadata o report extensionId))
  | uses {o : Origin} {e : UsageEvent} : BySites n (.command (.logUsage o e))

namespace Session

variable {s : Session}

/-- No approval waits under a number above `n`. -/
def NoApproval (n : Nat) (s : Session) : Prop :=
  ∀ w ∈ s.waiting, n < w.number → ∀ approving, w.waiter ≠ .approve approving

theorem noApproval_after {n : Nat} {a : Action} (hs : s.Undivided) (hn : s.NoApproval n)
    (ha : a.BySites n) : (s.after a).NoApproval n := by
  intro w hw hlater approving happrove
  rcases waiting_after hs hw with
    ⟨hw, -⟩ | ⟨op, t, rfl, hbegin, -⟩ | ⟨v, t, hv, htakes⟩
  · exact hn w hw hlater approving happrove
  · rw [happrove] at hbegin
    obtain ⟨rfl, -⟩ := Operation.begin_approve hbegin
    cases ha with
    | begins site => cases site
  · rw [happrove] at htakes
    obtain ⟨hmem, hnumber⟩ := mem_of_suspended? hv
    exact hn v hmem (hnumber ▸ hlater) approving (Waiter.approve_of_takesUp htakes).1

theorem approving?_bySites {n : Nat} {a : Action} (hn : s.NoApproval n) (ha : a.BySites n) :
    s.approving? a = none := by
  unfold approving?
  cases ha with
  | begins site =>
    split
    · rename_i heq
      cases heq
      cases site
    · rename_i heq
      cases heq
    · rfl
  | takesUp later =>
    simp only
    split
    · rename_i approving hwaiter
      obtain ⟨w, hw, happrove⟩ := Option.map_eq_some_iff.1 hwaiter
      obtain ⟨hmem, rfl⟩ := mem_of_suspended? hw
      exact absurd happrove (hn w hmem later approving)
    · rfl
  | takesUpCall => rfl
  | givesUp => rfl
  | reports => rfl
  | uses => rfl

/-- Nothing that sites bring about changes a permission of anybody. -/
theorem domains_after {n : Nat} {a : Action} (hs : s.Undivided) (hn : s.NoApproval n)
    (ha : a.BySites n) : (s.after a).gate.state.domains = s.gate.state.domains := by
  have hchanged := changed_step hs a
  change (s.after a).system.gate.state.domains = _
  generalize (s.after a).system = t at hchanged
  cases hchanged with
  | same => rfl
  | served begun site h => exact h.sameGrants.domains
  | approved under ended h =>
    rw [approving?_bySites hn ha] at under
    cases under
  | abandoned dropped hw => rfl
  | @commanded c given h =>
    rcases permissions_command c s.system with hdomains | ⟨⟨o, methods, rfl⟩ | rfl, -⟩
    · exact hdomains
    · subst given
      cases ha
    · subst given
      cases ha
  | happened given => rfl

theorem domains_run {n : Nat} (hs : s.Undivided) (hn : s.NoApproval n) {sites : List Action}
    (bySites : ∀ a ∈ sites, a.BySites n) :
    (s.run sites).gate.state.domains = s.gate.state.domains := by
  suffices h : (s.run sites).NoApproval n ∧
      (s.run sites).gate.state.domains = s.gate.state.domains from h.2
  induction sites using List.reverseRecOn with
  | nil => exact ⟨hn, rfl⟩
  | append_singleton before a ih =>
    obtain ⟨hnone, hdomains⟩ := ih fun b hb => bySites b (List.mem_append_left _ hb)
    have ha := bySites a (List.mem_append_right _ (List.mem_singleton_self a))
    have hbefore := undivided_run hs before
    rw [run_snoc]
    refine ⟨noApproval_after hbefore hnone ha, ?_⟩
    rw [domains_after hbefore hnone ha, hdomains]

theorem noApproval_begun (h : s.Numbered) : s.NoApproval s.begun := by
  intro w hw hlater
  exact absurd (h.given w hw) (Nat.not_le_of_lt hlater)

/-! ## Every run -/

/-- In every run of a new session, a step adds permissions only when it completes the approval of a
request that was registered for their origin from the beginning of the approval on, and what sites
bring about never changes permissions. -/
theorem granted_run {settings : Settings} {w : World}
    (created : create settings w = .ok s) (before : List Action) (a : Action) :
    (∀ o p, p ∈ (s.run (before ++ [a])).gate.state.permissions o →
      p ∉ (s.run before).gate.state.permissions o →
        ∃ early approved accounts granted,
          s.Grants before a early approved accounts o granted ∧ p ∈ granted) ∧
    s.GrantsChange before a ∧
    ∀ sites : List Action, (∀ b ∈ sites, b.BySites (s.run before).begun) →
      (s.run (before ++ sites)).gate.state.domains = (s.run before).gate.state.domains := by
  have hs := undivided_create created
  have hchange := grantsChange_run hs (orderly_create created) (waiting_create created) before a
  refine ⟨fun o p after earlier => ?_, hchange, fun sites bySites => ?_⟩
  · cases hchange with
    | @granted early approved accounts q granted h =>
      obtain ⟨rfl, hp⟩ := h.mem after earlier
      exact ⟨early, approved, accounts, granted, h, hp⟩
    | left same =>
      rw [State.permissions, same] at after
      exact absurd after earlier
    | taken owner fewer => exact absurd ((fewer o).subset after) earlier
  · rw [run_append]
    have hnumbered := numbered_run hs (numbered_create created) before
    exact domains_run (undivided_run hs before) (noApproval_begun hnumbered) bySites

/-- A site asks for a permission, and the user approves. -/
theorem granted_run_site :
    ∃ s, create .signing (.initial []) = .ok s ∧
      ∃ early approved accounts granted,
        s.Grants [.start (.requestPermissions ⟨"site"⟩ (.single "eth_sign"))]
          (.start (.approve ⟨⟨⟨0⟩⟩, .single "eth_sign"⟩ []))
          early approved accounts ⟨"site"⟩ granted ∧
        (⟨⟨1⟩, "eth_sign", ⟨"site"⟩, [], 1⟩ : Permission) ∈ granted := by
  have created : create .signing (.initial []) =
      .ok ⟨.signing, .initial [], ⟨Settings.signing.registry, true, .empty, .empty⟩, 0, [], [], 0,
        []⟩ := rfl
  refine ⟨_, created, ?_⟩
  refine (granted_run created _ _).1 ⟨"site"⟩ _ ?_ ?_
  · exact List.mem_singleton_self _
  · exact List.not_mem_nil

end Session

end OriginGate
