import OriginGate.Proofs.Served

/-!
# How a step changes the system

* `Pending.without`, `System.withdraw` : a request leaves the registry;
* `Supply.Draws` : identifiers and times may have been drawn;
* `Approving.Valid` : what an approval has to be so that it can be granted;
* `Approving.Finished` : the four ways in which an approval ends: it comes too late, it is not
  valid, it cannot be stored, or it is granted (`finished_finish`);
* `Session.approving?` : the approval that an action begins or takes up;
* `Session.Changed` : all changes that one step can make to the system (`changed_step`);
* `System.Steady` : what neither a decision nor a command touches;
* `Store.Taken` : the three ways in which a store takes a state (`taken_put`);
* `System.SameGrants` : what no site can change by itself.
-/

namespace OriginGate

/-! ## Requests that are decided -/

/-- The registry after a request left it. -/
def Pending.without (e : PendingRequest) (p : Pending) : Pending :=
  ⟨p.entries.filter (·.id ≠ e.id), p.byOrigin.erase e.origin⟩

/-- The system after a request left its registry. -/
def System.withdraw (e : PendingRequest) (s : System) : System :=
  { s with gate := { s.gate with pending := s.gate.pending.without e } }

/-- The system with another supply. -/
def System.withSupply (supply : Supply) (s : System) : System :=
  { s with world := { s.world with supply } }

/-- A supply after some draws, or none. -/
structure Supply.Draws (s t : Supply) : Prop where
  id : t.id = s.id
  drawn : s.drawn ≤ t.drawn

theorem Supply.Draws.refl (s : Supply) : Draws s s := ⟨rfl, Nat.le_refl _⟩

theorem Supply.Draws.trans {s t u : Supply} (h₁ : Draws s t) (h₂ : Draws t u) : Draws s u :=
  ⟨h₂.id.trans h₁.id, Nat.le_trans h₁.drawn h₂.drawn⟩

theorem Supply.drawPermissions_draws (o : Origin) (grants : List (String × List Caveat))
    (s : Supply) : s.Draws (s.drawPermissions o grants).2 := by
  induction grants generalizing s with
  | nil => exact .refl s
  | cons g rest ih =>
    have hfirst : s.Draws (s.drawPermission o g.1 g.2).2 := ⟨rfl, Nat.le_succ _⟩
    exact hfirst.trans (ih _)

theorem Pending.lookUp?_spec {p : Pending} {id : RequestId} {e : PendingRequest}
    (h : p.lookUp? id = some e) : e ∈ p.entries ∧ e.id = id :=
  ⟨List.mem_of_find?_eq_some h, by simpa using List.find?_some h⟩

theorem Pending.lookUp?_eq_none {p : Pending} {id : RequestId} :
    p.lookUp? id = none ↔ id ∉ p.ids := by
  simp only [lookUp?, List.find?_eq_none, ids, List.mem_map, decide_eq_true_eq]
  constructor
  · rintro h ⟨e, he, rfl⟩; exact h e he rfl
  · intro h e he heq; exact h ⟨e, he, heq⟩

theorem System.take_found {s : System} {id : RequestId} {e : PendingRequest}
    (h : s.gate.pending.lookUp? id = some e) : s.take id = (s.withdraw e, .ok e) := by
  have he := (Pending.lookUp?_spec h).2
  simp [take, Pending.remove?, h, withdraw, Pending.without, he]

theorem System.take_absent {s : System} {id : RequestId} (h : s.gate.pending.lookUp? id = none) :
    s.take id = (s, .error (.noSuchPendingApproval id)) := by
  simp [take, Pending.remove?, h]

theorem System.resolve_found {s : System} {id : RequestId} {e : PendingRequest} (d : Decision)
    (h : s.gate.pending.lookUp? id = some e) :
    s.resolve id d = ((s.withdraw e).deliver e d, .ok ()) := by
  simp [resolve, take_found h]

theorem System.resolve_absent {s : System} {id : RequestId} (d : Decision)
    (h : s.gate.pending.lookUp? id = none) :
    s.resolve id d = (s, .error (.noSuchPendingApproval id)) := by
  simp [resolve, take_absent h]

namespace Approving

/-- How an approval ends, with the system and the decision that it leaves. -/
inductive Finished (a : Approving) (s : System) : System → Decision → Prop where
  /-- The request was decided otherwise. -/
  | late {supply : Supply} (absent : s.gate.pending.lookUp? a.approved.id = none)
    (draws : s.world.supply.Draws supply) :
    Finished a s (s.withSupply supply) (.error (.noSuchPendingApproval a.approved.id))
  | invalid {e : PendingRequest} {error : PermissionError}
    (found : s.gate.pending.lookUp? a.approved.id = some e)
    (invalid : a.check s = .done (.error error)) :
    Finished a s ((s.withdraw e).deliver e (.error error)) (.error error)
  | unstored {e : PendingRequest} {supply : Supply} {store : Store} {error : StoreError}
    (found : s.gate.pending.lookUp? a.approved.id = some e) (valid : a.check s = .done (.ok ()))
    (stored : s.store.grant a.origin (s.world.supply.drawPermissions a.origin a.grants).1 =
      (store, .error error)) (draws : s.world.supply.Draws supply) :
    Finished a s
      ((((s.withSupply supply).withdraw e).withStore store).deliver e (.error (.store error)))
      (.error (.store error))
  | granted {e : PendingRequest} {supply : Supply} {store : Store} {permissions : List Permission}
    (found : s.gate.pending.lookUp? a.approved.id = some e) (valid : a.check s = .done (.ok ()))
    (drawn : permissions = (s.world.supply.drawPermissions a.origin a.grants).1)
    (stored : s.store.grant a.origin permissions = (store, .ok ()))
    (draws : s.world.supply.Draws supply) :
    Finished a s
      ((((s.withSupply supply).withdraw e).withStore store).deliver e (.ok permissions))
      (.ok permissions)

/-- What is approved names restricted methods, and accounts that the wallet knows. -/
structure Valid (a : Approving) (s : System) : Prop where
  some : ¬ a.approved.permissions.isEmpty
  restricted : ∀ method ∈ a.approved.permissions.keys,
    s.gate.registry.isRestricted method = true
  accounts : a.approved.permissions.contains accountsMethod → a.accounts ≠ []
  known : a.approved.permissions.contains accountsMethod → s.gate.validateAccounts →
    s.world.wallet.busy = false ∧ ∀ account ∈ a.accounts, account ∈ s.world.wallet.accounts

theorem check_valid {a : Approving} {s : System} (h : a.check s = .done (.ok ())) :
    a.Valid s := by
  unfold check at h
  split at h
  · cases h
  · rename_i hvalidate
    unfold Gate.validate at hvalidate
    split at hvalidate
    · cases hvalidate
    · rename_i hsome
      split at hvalidate
      · cases hvalidate
      · rename_i hrestricted
        have hall : ∀ method ∈ a.approved.permissions.keys,
            s.gate.registry.isRestricted method = true := by
          intro method hmethod
          simpa using List.find?_eq_none.1 hrestricted method hmethod
        split at h
        · split at h
          · cases h
          · rename_i haccounts
            have hne : a.accounts ≠ [] := fun hnone => haccounts (List.isEmpty_iff.2 hnone)
            split at h
            · split at h
              · cases h
              · rename_i hbusy
                unfold checkAccounts at h
                split at h
                · cases h
                · rename_i hknown
                  refine ⟨hsome, hall, fun _ => hne, fun _ _ => ⟨by simpa using hbusy, ?_⟩⟩
                  intro account haccount
                  simpa using List.find?_eq_none.1 hknown account haccount
            · rename_i hoff
              exact ⟨hsome, hall, fun _ => hne, fun _ hon => absurd hon hoff⟩
        · rename_i hnot
          exact ⟨hsome, hall, fun h => absurd h hnot, fun h => absurd h hnot⟩

theorem finalize_valid (a : Approving) (u : Unit) (s : System) :
    a.finalize (.ok u) s =
      (s.withSupply (s.world.supply.drawPermissions a.origin a.grants).2,
        .ok (s.world.supply.drawPermissions a.origin a.grants).1) := rfl

theorem commit_stored {a : Approving} {permissions : List Permission} {s : System} {store : Store}
    (h : s.store.grant a.origin permissions = (store, .ok ())) :
    a.commit (.ok permissions) s = (s.withStore store, .ok permissions) := by
  simp [commit, System.update, h]

theorem commit_unstored {a : Approving} {permissions : List Permission} {s : System}
    {store : Store} {error : StoreError}
    (h : s.store.grant a.origin permissions = (store, .error error)) :
    a.commit (.ok permissions) s = (s.withStore store, .error (.store error)) := by
  simp [commit, System.update, h]

theorem finished_finish {a : Approving} {checked : Except PermissionError Unit} {s : System}
    (hcheck : a.check s = .done checked) :
    a.Finished s (a.finish checked s).1 (a.finish checked s).2 := by
  have hdraws := s.world.supply.drawPermissions_draws a.origin a.grants
  rcases h : s.gate.pending.lookUp? a.approved.id with _ | e
  · rcases checked with error | u
    · simp only [finish, finalize, System.take_absent h]
      exact @Finished.late a s s.world.supply h (.refl _)
    · have h' : (s.withSupply (s.world.supply.drawPermissions a.origin a.grants).2
          ).gate.pending.lookUp? a.approved.id = none := h
      simp only [finish, finalize_valid, System.take_absent h']
      exact .late h hdraws
  · rcases checked with error | u
    · simp only [finish, finalize, System.take_found h, commit]
      exact .invalid h hcheck
    · have h' : (s.withSupply (s.world.supply.drawPermissions a.origin a.grants).2
          ).gate.pending.lookUp? a.approved.id = some e := h
      simp only [finish, finalize_valid, System.take_found h']
      rcases hstored : s.store.grant a.origin (s.world.supply.drawPermissions a.origin a.grants).1
        with ⟨store, error | _⟩
      · rw [commit_unstored (by exact hstored)]
        exact .unstored h hcheck hstored hdraws
      · rw [commit_stored (by exact hstored)]
        exact .granted h hcheck rfl hstored hdraws

/-- An approval that is taken up waits as before, or ends. -/
theorem poll_finished (a : Approving) (s : System) :
    a.poll s = (s, .waiting a) ∨ ∃ t d, a.poll s = (t, .done d) ∧ a.Finished s t d := by
  rcases a.poll_cases s with h | ⟨checked, hcheck, h⟩
  · exact .inl h
  · exact .inr ⟨_, _, h, finished_finish hcheck⟩

end Approving

/-- An approval of a request that is not registered ends at once; any other is taken up. -/
theorem System.approve_cases (approved : ApprovedRequest) (accounts : List Account) (s : System) :
    (s.gate.pending.find? approved.id = none ∧
        s.approve approved accounts = (s, .done (.error (.noSuchPendingApproval approved.id)))) ∨
      ∃ request, s.gate.pending.find? approved.id = some request ∧
        s.approve approved accounts = Approving.poll ⟨approved, request.origin, accounts⟩ s := by
  rcases h : s.gate.pending.find? approved.id with _ | request
  · exact .inl ⟨rfl, by simp [approve, h]⟩
  · exact .inr ⟨request, rfl, by simp [approve, h]⟩

/-! ## What stays the same -/

namespace System

/-- What neither a decision nor a command touches; from the supply they draw at most. -/
structure Steady (s t : System) : Prop where
  registry : t.gate.registry = s.gate.registry
  validate : t.gate.validateAccounts = s.gate.validateAccounts
  wallet : t.world.wallet = s.world.wallet
  announcements : t.world.announcements = s.world.announcements
  supply : s.world.supply.Draws t.world.supply

theorem Steady.refl (s : System) : Steady s s := ⟨rfl, rfl, rfl, rfl, .refl _⟩

theorem steady_resolve (id : RequestId) (d : Decision) (s : System) :
    Steady s (s.resolve id d).1 := by
  rcases h : s.gate.pending.lookUp? id with _ | e
  · rw [resolve_absent d h]; exact .refl s
  · rw [resolve_found d h]; exact ⟨rfl, rfl, rfl, rfl, .refl _⟩

theorem rejectOrigin_fst (o : Origin) (reason : Option PermissionError) (s : System) :
    (s.rejectOrigin o reason).1 = s ∨
      ∃ id, s.gate.pending.idFor? o = some id ∧
        (s.rejectOrigin o reason).1 = (s.reject id reason).1 := by
  unfold rejectOrigin
  split
  · exact .inl rfl
  · rename_i id h
    refine .inr ⟨id, h, ?_⟩
    split
    · rename_i hr; rw [hr]
    · rename_i hr; rw [hr]

theorem steady_carryOut (c : Command) (s : System) : Steady s (c.carryOut s).1 := by
  cases c with
  | reject id reason => exact steady_resolve id _ s
  | rejectOrigin o =>
    rcases rejectOrigin_fst o none s with h | ⟨id, -, h⟩
    · rw [Command.carryOut, h]; exact .refl s
    · rw [Command.carryOut, h]; exact steady_resolve id _ s
  | recordMetadata o report extensionId =>
    simp only [Command.carryOut, recordMetadata]
    split <;> exact ⟨rfl, rfl, rfl, rfl, .refl _⟩
  | revoke o methods => exact ⟨rfl, rfl, rfl, rfl, .refl _⟩
  | clear => exact ⟨rfl, rfl, rfl, rfl, .refl _⟩
  | logUsage o e => exact ⟨rfl, rfl, rfl, rfl, .refl _⟩

end System

theorem Approving.Finished.steady {a : Approving} {s t : System} {d : Decision}
    (h : a.Finished s t d) : System.Steady s t := by
  cases h with
  | late _ draws => exact ⟨rfl, rfl, rfl, rfl, draws⟩
  | invalid _ _ => exact ⟨rfl, rfl, rfl, rfl, .refl _⟩
  | unstored _ _ _ draws => exact ⟨rfl, rfl, rfl, rfl, draws⟩
  | granted _ _ _ _ draws => exact ⟨rfl, rfl, rfl, rfl, draws⟩

/-- The system after a request was registered. -/
theorem System.register_ok {o : Origin} {permissions : RequestedPermissions}
    {metadata : Option SiteMetadata} {s t : System} {id : RequestId} {ticket : Ticket}
    (h : s.register o permissions metadata = (t, .ok (id, ticket))) :
    s.gate.pending.idFor? o = none ∧ id = ⟨s.world.supply.id s.world.supply.drawn⟩ ∧
      ticket = s.world.tickets.statuses.length ∧
      t = ⟨{ s.gate with pending := s.gate.pending.add ⟨⟨id, o, permissions, metadata⟩, ticket⟩ },
        { s.world with
          supply := s.world.supply.drawRequestId.2
          tickets := s.world.tickets.issue.2
          announcements := s.world.announcements.announce ⟨id, o, permissions, metadata⟩ }⟩ := by
  unfold register at h
  split at h
  · cases h
  · rename_i free
    cases h
    exact ⟨free, rfl, rfl, rfl⟩

/-- How a store takes a state: it shows an equal one already, it writes it, or it cannot. -/
inductive Store.Taken (next : State) (s : Store) : Store → Except StoreError Unit → Prop where
  | shown (same : next == s.state) : Taken next s s (.ok ())
  | written {backend : Backend} (h : s.backend.persist next = (backend, .ok ())) :
    Taken next s ⟨next, backend⟩ (.ok ())
  | failed {backend : Backend} {e : StoreError} (h : s.backend.persist next = (backend, .error e)) :
    Taken next s ⟨s.state, backend⟩ (.error e)

theorem Store.taken_put (next : State) (s : Store) :
    Taken next s (s.put next).1 (s.put next).2 := by
  unfold put
  split
  · rename_i same
    exact .shown same
  · split
    · rename_i h
      exact .written h
    · rename_i h
      exact .failed h

/-- A store that takes a state shows it, or showed an equal one already. -/
theorem Store.Taken.state_of_ok {next : State} {s t : Store} (h : Taken next s t (.ok ())) :
    t.state = next ∨ (next == s.state) = true ∧ t.state = s.state := by
  cases h with
  | shown same => exact .inr ⟨same, rfl⟩
  | written _ => exact .inl rfl

theorem Store.taken_grant {o : Origin} {ps : List Permission} {s t : Store}
    {r : Except StoreError Unit} (h : s.grant o ps = (t, r)) :
    Taken (s.state.grant o ps) s t r := by
  have htaken := taken_put (s.state.grant o ps) s
  change Taken _ s (s.grant o ps).1 (s.grant o ps).2 at htaken
  rwa [h] at htaken

/-- The store changes to the given state, or not at all. -/
theorem Store.put_state (next : State) (s : Store) :
    (s.put next).1.state = next ∨ (s.put next).1.state = s.state := by
  have htaken := taken_put next s
  generalize (s.put next).1 = t, (s.put next).2 = r at htaken
  cases htaken with
  | shown _ => exact .inr rfl
  | written _ => exact .inl rfl
  | failed _ => exact .inr rfl

/-- What no site can change by itself: the restricted methods and everybody's permissions. -/
structure System.SameGrants (s t : System) : Prop where
  registry : t.gate.registry = s.gate.registry
  domains : t.gate.state.domains = s.gate.state.domains

namespace System.SameGrants

theorem refl (s : System) : SameGrants s s := ⟨rfl, rfl⟩

theorem trans {s t u : System} (h₁ : SameGrants s t) (h₂ : SameGrants t u) : SameGrants s u :=
  ⟨h₂.registry.trans h₁.registry, h₂.domains.trans h₁.domains⟩

theorem symm {s t : System} (h : SameGrants s t) : SameGrants t s :=
  ⟨h.registry.symm, h.domains.symm⟩

theorem permissions {s t : System} (h : SameGrants s t) (o : Origin) :
    t.gate.state.permissions o = s.gate.state.permissions o := by
  rw [State.permissions, State.permissions, h.domains]

theorem permission? {s t : System} (h : SameGrants s t) (o : Origin) (method : String) :
    t.gate.state.permission? o method = s.gate.state.permission? o method := by
  rw [State.permission?, State.permission?, h.permissions]

theorem setMetadata (o : Origin) (m : SiteMetadata) (s : System) :
    SameGrants s (s.update (·.setMetadata o m)).1 := by
  refine ⟨rfl, ?_⟩
  have hput := Store.put_state (s.gate.state.setMetadata o m) s.store
  change (s.store.put (s.gate.state.setMetadata o m)).1.state.domains = _
  rcases hput with h | h
  · rw [h]; rfl
  · rw [h]; rfl

end System.SameGrants

theorem System.Served.sameGrants {o : Origin} {may : Gate → Rpc.MethodCall → Prop} {s t : System}
    {as : List Awaiting} (h : Served o may s t as) : SameGrants s t := by
  cases h with
  | nothing => exact .refl s
  | registered valid h =>
    obtain ⟨-, -, -, rfl⟩ := register_ok h
    exact ⟨rfl, rfl⟩
  | recorded m => exact .setMetadata o m s
  | reported e => exact ⟨rfl, rfl⟩
  | sent h => exact ⟨rfl, rfl⟩

theorem System.ServedAll.sameGrants {o : Origin} {may : Gate → Rpc.MethodCall → Prop}
    {s t : System} {as : List Awaiting} (h : ServedAll o may s t as) : SameGrants s t := by
  induction h with
  | nil s => exact .refl s
  | cons first _ ih => exact first.sameGrants.trans ih

/-! ## Changes by a step -/

namespace Session

/-- The approval that an action begins or takes up, with the number of the operation. -/
def approving? (a : Action) (s : Session) : Option (Nat × Approving) :=
  match a with
  | .start (.approve approved accounts) =>
    (s.gate.pending.find? approved.id).map fun r => (s.begun + 1, ⟨approved, r.origin, accounts⟩)
  | .poll n =>
    match s.waiter? n with
    | some (.approve approving) => some (n, approving)
    | _ => none
  | _ => none

/-- The world after callers gave up. -/
def abandonAll (tickets : List Ticket) (w : World) : World :=
  tickets.foldl (fun world t => world.abandon t) w

/-- Nothing but tickets changes when callers give up. -/
theorem abandonAll_eq (tickets : List Ticket) (w : World) :
    abandonAll tickets w = { w with tickets := (abandonAll tickets w).tickets } := by
  unfold abandonAll
  induction tickets generalizing w with
  | nil => rfl
  | cons t rest ih => rw [List.foldl_cons, ih]; rfl

/-- All that an action can do to the system, with what it answers. -/
inductive Changed (s : Session) (a : Action) (answer : Answer) : System → Prop where
  | same : Changed s a answer s.system
  | served {op : Operation} {o : Origin} {t : System} (begun : a = .start op)
    (site : op.site? = some o)
    (h : System.ServedAll o (fun g => Operation.Lets g op) s.system t
      ((op.begin s.system).2.awaiting Waiter.awaiting)) : Changed s a answer t
  | approved {n : Nat} {approving : Approving} {t : System} {d : Decision}
    (under : s.approving? a = some (n, approving)) (ended : answer = .ended n (.decision d))
    (h : approving.Finished s.system t d) : Changed s a answer t
  | abandoned {n : Nat} {w : Suspended} (dropped : a = .drop n) (hw : s.suspended? n = some w) :
    Changed s a answer ⟨s.gate, abandonAll w.waiter.tickets s.world⟩
  | commanded {c : Command} (given : a = .command c) (h : answer = (c.carryOut s.system).2) :
    Changed s a answer (c.carryOut s.system).1
  | happened {e : Event} (given : a = .event e) : Changed s a answer ⟨s.gate, e.change s.world⟩

/-- A step that begins an approval leaves the system alone, or ends the approval. -/
theorem changed_approve {s : Session} {approved : ApprovedRequest} {accounts : List Account}
    {t : System} {p : Progress Waiter Result}
    (h : (Operation.approve approved accounts).begin s.system = (t, p)) :
    t = s.system ∨ ∃ n approving d,
      s.approving? (.start (.approve approved accounts)) = some (n, approving) ∧
        n = s.begun + 1 ∧ p = .done (.decision d) ∧ approving.Finished s.system t d := by
  simp only [Operation.begin] at h
  rcases System.approve_cases approved accounts s.system with ⟨-, hnone⟩ | ⟨r, hr, hpoll⟩
  · rw [hnone] at h
    cases h
    exact .inl rfl
  · rw [hpoll] at h
    rcases Approving.poll_finished ⟨approved, r.origin, accounts⟩ s.system with
      hw | ⟨u, d, hd, finished⟩
    · rw [hw] at h
      cases h
      exact .inl rfl
    · rw [hd] at h
      cases h
      refine .inr ⟨_, _, d, ?_, rfl, rfl, finished⟩
      rw [approving?, show s.gate.pending.find? approved.id = some r from hr]
      rfl

/-- A step that takes up a waiting operation leaves the system alone, or ends an approval. -/
theorem changed_takesUp {s : Session} {a : Action} {n : Nat} {w : Suspended} {t : System}
    {p : Progress Waiter Result} (hw : s.suspended? n = some w)
    (h : a.TakesUp n w.waiter s.system t p) :
    t = s.system ∨ ∃ approving d, s.approving? a = some (n, approving) ∧
      p = .done (.decision d) ∧ approving.Finished s.system t d := by
  by_cases happrove : ∃ b, w.waiter = .approve b
  · obtain ⟨b, hb⟩ := happrove
    rcases h with ⟨rfl, h⟩ | ⟨i, rfl, h⟩
    · rw [hb, Waiter.poll] at h
      rcases b.poll_finished s.system with hwait | ⟨u, d, hd, finished⟩
      · rw [hwait] at h
        cases h
        exact .inl rfl
      · rw [hd] at h
        cases h
        refine .inr ⟨b, d, ?_, rfl, finished⟩
        rw [approving?, waiter?, hw, Option.map_some, hb]
    · rw [hb] at h
      cases h
      exact .inl rfl
  · exact .inl (Waiter.system_of_takesUp (fun b hb => happrove ⟨b, hb⟩) h)

theorem changed_step {s : Session} (hs : s.Undivided) (a : Action) :
    s.Changed a (s.answers a) (s.after a).system := by
  have hstep := stepped_step hs a
  generalize s.after a = u, s.answers a = answer at hstep
  cases hstep with
  | @endedAtOnce op t r h =>
    have ht : t = (op.begin s.system).1 := by rw [h]
    rcases hsite : op.site? with _ | o
    · cases op with
      | approve approved accounts =>
        rcases changed_approve h with rfl | ⟨n, approving, d, under, rfl, hd, finished⟩
        · exact .same
        · cases hd
          exact .approved under rfl finished
      | _ => cases hsite
    · subst ht
      exact .served rfl hsite (op.begin_served hsite s.system)
  | @began op t w h =>
    have ht : t = (op.begin s.system).1 := by rw [h]
    rcases hsite : op.site? with _ | o
    · cases op with
      | approve approved accounts =>
        rcases changed_approve h with rfl | ⟨n, approving, d, under, rfl, hd, finished⟩
        · exact .same
        · cases hd
      | _ => cases hsite
    · subst ht
      exact .served rfl hsite (op.begin_served hsite s.system)
  | absent ha h => exact .same
  | wentOn hw h =>
    rcases changed_takesUp hw h with rfl | ⟨approving, d, under, hd, finished⟩
    · exact .same
    · cases hd
  | ended hw h =>
    rcases changed_takesUp hw h with rfl | ⟨approving, d, under, hd, finished⟩
    · exact .same
    · cases hd
      exact .approved under rfl finished
  | dropped hw => exact .abandoned rfl hw
  | @carriedOut c t answer h =>
    have ht : t = (c.carryOut s.system).1 := by rw [h]
    subst ht
    exact .commanded rfl (by rw [h])
  | happened => exact .happened rfl

end Session

end OriginGate
