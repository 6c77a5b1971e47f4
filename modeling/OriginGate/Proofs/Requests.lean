import OriginGate.Proofs.Changes
import Mathlib.Data.List.Nodup

/-!
# What becomes of requests

* `Session.Concludes` : an operation on a request ends with a decision; `Session.Approves` : an
  approval does;
* `Session.Moved` : what a step does to the requests and tickets (`moved_step`): nothing, it
  registers some, it decides one, or callers give up;
* `World.Fresh` : no id was given to two requests;
* `System.Registers` : some requests were registered, and nothing else was done to requests;
* `System.Orderly` : what holds of requests and tickets throughout a run (`orderly_run`).
-/

namespace OriginGate

/-! ## Tickets -/

namespace Tickets

variable {ts : Tickets} {t u : Ticket} {status : Ticket.Status}

theorem lt_of_unsettled (h : ts.status t = .unsettled) : t < ts.statuses.length := by
  by_contra hlt
  unfold Tickets.status at h
  rw [List.getElem?_eq_none (Nat.le_of_not_lt hlt)] at h
  cases h

theorem settle_length (t : Ticket) (status : Ticket.Status) (ts : Tickets) :
    (ts.settle t status).statuses.length = ts.statuses.length := by
  unfold settle
  split
  · exact List.length_set
  · rfl

theorem status_settle_ne (h : u ≠ t) : (ts.settle t status).status u = ts.status u := by
  unfold settle
  split
  · rw [Tickets.status, Tickets.status, List.getElem?_set_ne (Ne.symm h)]
  · rfl

theorem status_settle_self (h : ts.status t = .unsettled) :
    (ts.settle t status).status t = status := by
  have hlt := lt_of_unsettled h
  unfold settle
  rw [h]
  simp only [Tickets.status, List.getElem?_set_self hlt, Option.getD_some]

theorem settle_settled (h : ts.status t ≠ .unsettled) : ts.settle t status = ts := by
  unfold settle
  split
  · rename_i hu
    exact absurd hu h
  · rfl

theorem status_settle_settled (h : ts.status u ≠ .unsettled) :
    (ts.settle t status).status u = ts.status u := by
  by_cases hu : u = t
  · subst hu
    rw [settle_settled h]
  · exact status_settle_ne hu

theorem deliver_fst (t : Ticket) (d : Decision) (ts : Tickets) :
    (ts.deliver t d).1 = ts.settle t (.decided d) := by
  unfold deliver
  split
  · rfl
  · rename_i h
    exact (settle_settled h).symm

theorem status_append (more : List Ticket.Status) (h : t < ts.statuses.length) :
    (⟨ts.statuses ++ more⟩ : Tickets).status t = ts.status t := by
  rw [Tickets.status, Tickets.status, List.getElem?_append_left h]

end Tickets

/-! ## Freshness -/

/-- No id was given to two requests. -/
def World.Fresh (w : World) : Prop := (w.announcements.announced.map (·.id)).Nodup

/-- Requests that were announced are told apart by their ids. -/
theorem World.Fresh.eq_of_id {w : World} (h : w.Fresh) {r q : PermissionsRequest}
    (hr : r ∈ w.announcements.announced) (hq : q ∈ w.announcements.announced)
    (hid : r.id = q.id) : r = q :=
  List.inj_on_of_nodup_map h hr hq hid

theorem World.Fresh.of_prefix {w v : World} (h : v.Fresh)
    (hw : w.announcements.announced <+: v.announcements.announced) : w.Fresh :=
  (hw.sublist.map _).nodup h

/-! ## Registering -/

namespace System

/-- Nothing was done to requests. -/
structure SameRequests (s t : System) : Prop where
  pending : t.gate.pending = s.gate.pending
  tickets : t.world.tickets = s.world.tickets
  announced : t.world.announcements.announced = s.world.announcements.announced

/-- Requests were registered one after the other, and nothing else was done to requests. -/
structure Registers (s : System) (news : List PendingRequest) (t : System) : Prop where
  entries : t.gate.pending.entries = s.gate.pending.entries ++ news
  announced : t.world.announcements.announced =
    s.world.announcements.announced ++ news.map (·.request)
  statuses : t.world.tickets.statuses =
    s.world.tickets.statuses ++ news.map fun _ => .unsettled
  tickets : news.map (·.ticket) = List.range' s.world.tickets.statuses.length news.length

theorem Registers.none {s t : System} (h : SameRequests s t) : Registers s [] t where
  entries := by rw [h.pending, List.append_nil]
  announced := by rw [h.announced, List.map_nil, List.append_nil]
  statuses := by rw [h.tickets, List.map_nil, List.append_nil]
  tickets := rfl

theorem Registers.trans {s t u : System} {news more : List PendingRequest}
    (h₁ : Registers s news t) (h₂ : Registers t more u) : Registers s (news ++ more) u where
  entries := by rw [h₂.entries, h₁.entries, List.append_assoc]
  announced := by rw [h₂.announced, h₁.announced, List.map_append, List.append_assoc]
  statuses := by rw [h₂.statuses, h₁.statuses, List.map_append, List.append_assoc]
  tickets := by
    have hlength : t.world.tickets.statuses.length =
        s.world.tickets.statuses.length + news.length := by
      rw [h₁.statuses, List.length_append, List.length_map]
    rw [List.map_append, h₁.tickets, h₂.tickets, hlength, List.length_append,
      List.range'_append_1]

/-- What holds of requests and tickets as long as no id is given twice. -/
structure Orderly (s : System) : Prop where
  /-- Requests are registered in the order in which they were announced. -/
  announced : (s.gate.pending.entries.map (·.request)).Sublist s.world.announcements.announced
  /-- Later requests have later tickets. -/
  ascending : (s.gate.pending.entries.map (·.ticket)).Pairwise (· < ·)
  /-- Their tickets were issued. -/
  issued : ∀ e ∈ s.gate.pending.entries, e.ticket < s.world.tickets.statuses.length

theorem Orderly.ids_nodup {s : System} (h : s.Orderly) (fresh : s.world.Fresh) :
    s.gate.pending.ids.Nodup := by
  have hids : s.gate.pending.ids = (s.gate.pending.entries.map (·.request)).map (·.id) := by
    rw [List.map_map]; rfl
  rw [hids]
  exact (h.announced.map _).nodup fresh

theorem Registers.orderly {s t : System} {news : List PendingRequest} (h : Registers s news t)
    (hs : s.Orderly) : t.Orderly := by
  have hlength : t.world.tickets.statuses.length =
      s.world.tickets.statuses.length + news.length := by
    rw [h.statuses, List.length_append, List.length_map]
  have hnews : ∀ k ∈ news.map (·.ticket), s.world.tickets.statuses.length ≤ k ∧
      k < t.world.tickets.statuses.length := by
    intro k hk
    rw [h.tickets, List.mem_range'_1] at hk
    omega
  refine ⟨?_, ?_, fun e he => ?_⟩
  · rw [h.entries, h.announced, List.map_append]
    exact hs.announced.append (List.Sublist.refl _)
  · rw [h.entries, List.map_append, List.pairwise_append]
    refine ⟨hs.ascending, ?_, fun j hj k hk => ?_⟩
    · rw [h.tickets]
      exact List.pairwise_lt_range'
    · obtain ⟨e, he, rfl⟩ := List.mem_map.1 hj
      exact Nat.lt_of_lt_of_le (hs.issued e he) (hnews k hk).1
  · rw [h.entries, List.mem_append] at he
    rcases he with he | he
    · exact Nat.lt_of_lt_of_le (hs.issued e he) (by omega)
    · exact (hnews _ (List.mem_map_of_mem he)).2

/-- A change for an origin registers at most one request, which is the one that is awaited. -/
theorem Served.registers {o : Origin} {may : Gate → Rpc.MethodCall → Prop} {s t : System}
    {as : List Awaiting} (h : Served o may s t as) (hs : s.Orderly) (fresh : t.world.Fresh) :
    ∃ news, Registers s news t ∧ as = news.map fun e => ⟨e.id, e.ticket⟩ := by
  cases h with
  | nothing => exact ⟨[], .none ⟨rfl, rfl, rfl⟩, rfl⟩
  | @registered permissions id ticket _ valid h =>
    obtain ⟨-, -, hticket, rfl⟩ := register_ok h
    refine ⟨[⟨⟨id, o, permissions, s.gate.state.siteMetadata? o⟩, ticket⟩], ?_, rfl⟩
    refine ⟨?_, rfl, rfl, by rw [hticket]; rfl⟩
    -- No request is registered under the new id, so that none has to make room.
    have hnew : ∀ e ∈ s.gate.pending.entries, e.id ≠ id := by
      intro e he hid
      have hmem := hs.announced.subset (List.mem_map_of_mem he)
      have hdistinct : (s.world.announcements.announced.map (·.id) ++ [id]).Nodup := by
        unfold World.Fresh at fresh
        change ((s.world.announcements.announced ++ [_]).map _).Nodup at fresh
        rwa [List.map_append] at fresh
      exact (List.disjoint_of_nodup_append hdistinct) (List.mem_map_of_mem hmem)
        (List.mem_singleton.2 hid)
    change s.gate.pending.entries.filter (·.id ≠ id) ++ _ = _
    rw [List.filter_eq_self.2 fun e he => decide_eq_true (hnew e he)]
  | recorded m => exact ⟨[], .none ⟨rfl, rfl, rfl⟩, rfl⟩
  | reported e => exact ⟨[], .none ⟨rfl, rfl, rfl⟩, rfl⟩
  | sent h => exact ⟨[], .none ⟨rfl, rfl, rfl⟩, rfl⟩

theorem Served.announced_prefix {o : Origin} {may : Gate → Rpc.MethodCall → Prop} {s t : System}
    {as : List Awaiting} (h : Served o may s t as) :
    s.world.announcements.announced <+: t.world.announcements.announced := by
  cases h with
  | registered valid h =>
    obtain ⟨-, -, -, rfl⟩ := register_ok h
    exact List.prefix_append _ _
  | _ => exact List.prefix_rfl

theorem ServedAll.announced_prefix {o : Origin} {may : Gate → Rpc.MethodCall → Prop}
    {s t : System} {as : List Awaiting} (h : ServedAll o may s t as) :
    s.world.announcements.announced <+: t.world.announcements.announced := by
  induction h with
  | nil s => exact List.prefix_rfl
  | cons first _ ih => exact first.announced_prefix.trans ih

/-- Serving an origin registers the requests that are awaited afterwards, and no others. -/
theorem ServedAll.registers {o : Origin} {may : Gate → Rpc.MethodCall → Prop} {s t : System}
    {as : List Awaiting} (h : ServedAll o may s t as) (hs : s.Orderly) (fresh : t.world.Fresh) :
    ∃ news, Registers s news t ∧ as = news.map fun e => ⟨e.id, e.ticket⟩ := by
  induction h with
  | nil s => exact ⟨[], .none ⟨rfl, rfl, rfl⟩, rfl⟩
  | cons first rest ih =>
    obtain ⟨news, hnews, has⟩ := first.registers hs (fresh.of_prefix rest.announced_prefix)
    obtain ⟨more, hmore, hbs⟩ := ih (hnews.orderly hs) fresh
    refine ⟨news ++ more, hnews.trans hmore, ?_⟩
    rw [has, hbs, List.map_append]

/-! ## Deciding -/

/-- A request was taken and decided, and nothing else was done to requests. -/
structure Decides (s : System) (e : PendingRequest) (d : Decision) (t : System) : Prop where
  found : s.gate.pending.lookUp? e.id = some e
  pending : t.gate.pending = s.gate.pending.without e
  tickets : t.world.tickets = s.world.tickets.settle e.ticket (.decided d)
  announced : t.world.announcements.announced = s.world.announcements.announced

/-- The decision is delivered after the request was withdrawn, whatever happened in between. -/
theorem decides_deliver {s t : System} {e : PendingRequest} (d : Decision)
    (found : s.gate.pending.lookUp? e.id = some e)
    (pending : t.gate.pending = s.gate.pending.without e)
    (tickets : t.world.tickets = s.world.tickets)
    (announcements : t.world.announcements = s.world.announcements) :
    s.Decides e d (t.deliver e d) where
  found := found
  pending := pending
  tickets := by
    rw [← tickets]
    exact Tickets.deliver_fst _ _ _
  announced := congrArg Announcements.announced announcements

theorem Decides.orderly {s t : System} {e : PendingRequest} {d : Decision} (h : s.Decides e d t)
    (hs : s.Orderly) : t.Orderly := by
  have hentries : t.gate.pending.entries.Sublist s.gate.pending.entries := by
    rw [h.pending]
    exact List.filter_sublist
  refine ⟨?_, ?_, fun f hf => ?_⟩
  · rw [h.announced]
    exact (hentries.map _).trans hs.announced
  · exact hs.ascending.sublist (hentries.map _)
  · rw [h.tickets, Tickets.settle_length]
    exact hs.issued f (hentries.subset hf)

end System

/-- An approval that ends comes too late, or it decides its request. -/
theorem Approving.Finished.decides {a : Approving} {s t : System} {d : Decision}
    (h : a.Finished s t d) :
    (s.gate.pending.lookUp? a.approved.id = none ∧
        d = .error (.noSuchPendingApproval a.approved.id) ∧ ∃ supply, t = s.withSupply supply) ∨
      ∃ e, e.id = a.approved.id ∧ s.Decides e d t := by
  cases h with
  | late absent => exact .inl ⟨absent, rfl, _, rfl⟩
  | @invalid e _ found _ =>
    have hid := (Pending.lookUp?_spec found).2
    rw [← hid] at found
    exact .inr ⟨e, hid, System.decides_deliver _ found rfl rfl rfl⟩
  | @unstored e _ _ _ found _ _ =>
    have hid := (Pending.lookUp?_spec found).2
    rw [← hid] at found
    exact .inr ⟨e, hid, System.decides_deliver _ found rfl rfl rfl⟩
  | @granted e _ _ _ found _ _ _ =>
    have hid := (Pending.lookUp?_spec found).2
    rw [← hid] at found
    exact .inr ⟨e, hid, System.decides_deliver _ found rfl rfl rfl⟩

namespace Session

/-- An operation on a request ends with a decision: an approval, at once or later, or a rejection,
which tells whether there was such a request. -/
inductive Concludes (s : Session) : Action → RequestId → Decision → Prop where
  | approved {approved : ApprovedRequest} {accounts : List Account} {n : Nat} {d : Decision}
    (h : s.answers (.start (.approve approved accounts)) = .ended n (.decision d)) :
    Concludes s (.start (.approve approved accounts)) approved.id d
  | approvedLater {n : Nat} {approving : Approving} {d : Decision}
    (hw : s.waiter? n = some (.approve approving))
    (h : s.answers (.poll n) = .ended n (.decision d)) :
    Concludes s (.poll n) approving.approved.id d
  | rejected {id : RequestId} {reason : Option PermissionError}
    (h : s.answers (.command (.reject id reason)) = .done (.ok ())) :
    Concludes s (.command (.reject id reason)) id (.error (reason.getD .rejected))
  | notRejected {id : RequestId} {reason : Option PermissionError} {e : PermissionError}
    (h : s.answers (.command (.reject id reason)) = .done (.error e)) :
    Concludes s (.command (.reject id reason)) id (.error e)
  | originRejected {o : Origin} {id : RequestId}
    (h : s.answers (.command (.rejectOrigin o)) = .rejected (some id)) :
    Concludes s (.command (.rejectOrigin o)) id (.error .rejected)

/-- An approval ends with a decision, at once or when it is taken up. -/
inductive Approves (s : Session) : Action → RequestId → Decision → Prop where
  | atOnce {approved : ApprovedRequest} {accounts : List Account} {n : Nat} {d : Decision}
    (h : s.answers (.start (.approve approved accounts)) = .ended n (.decision d)) :
    Approves s (.start (.approve approved accounts)) approved.id d
  | later {n : Nat} {approving : Approving} {d : Decision}
    (hw : s.waiter? n = some (.approve approving))
    (h : s.answers (.poll n) = .ended n (.decision d)) :
    Approves s (.poll n) approving.approved.id d

/-- What a step does to requests and tickets. -/
inductive Moved (s : Session) (a : Action) : System → Prop where
  | kept {t : System} (h : System.SameRequests s.system t) : Moved s a t
  | served {op : Operation} {o : Origin} {t : System} (begun : a = .start op)
    (site : op.site? = some o)
    (h : System.ServedAll o (fun g => Operation.Lets g op) s.system t
      ((op.begin s.system).2.awaiting Waiter.awaiting)) : Moved s a t
  | decided {e : PendingRequest} {d : Decision} {t : System} (concludes : s.Concludes a e.id d)
    (h : s.system.Decides e d t) : Moved s a t
  | abandoned {n : Nat} {w : Suspended} (dropped : a = .drop n) (hw : s.suspended? n = some w) :
    Moved s a ⟨s.gate, abandonAll w.waiter.tickets s.world⟩

variable {s : Session} {a : Action}

theorem Approves.concludes {id : RequestId} {d : Decision} (h : s.Approves a id d) :
    s.Concludes a id d := by
  cases h with
  | atOnce h => exact .approved h
  | later hw h => exact .approvedLater hw h

theorem approves_approving {n : Nat} {approving : Approving} {d : Decision}
    (under : s.approving? a = some (n, approving)) (ended : s.answers a = .ended n (.decision d)) :
    s.Approves a approving.approved.id d := by
  unfold approving? at under
  split at under
  · obtain ⟨r, hr, hpair⟩ := Option.map_eq_some_iff.1 under
    cases hpair
    exact .atOnce ended
  · split at under
    · rename_i hw
      cases under
      exact .later hw ended
    · cases under
  · cases under

theorem moved_resolve (id : RequestId) (d : Decision)
    (concludes : ∀ e, s.gate.pending.lookUp? id = some e → s.Concludes a id d) :
    s.Moved a (s.system.resolve id d).1 := by
  rcases h : s.gate.pending.lookUp? id with _ | e
  · rw [System.resolve_absent d h]
    exact .kept ⟨rfl, rfl, rfl⟩
  · rw [System.resolve_found d h]
    have hconcludes := concludes e h
    rw [← (Pending.lookUp?_spec h).2] at hconcludes h
    exact .decided hconcludes (System.decides_deliver d h rfl rfl rfl)

theorem answers_command (c : Command) (s : Session) :
    s.answers (.command c) = (c.carryOut s.system).2 := rfl

theorem answers_reject {id : RequestId} {e : PendingRequest} (reason : Option PermissionError)
    (h : s.system.gate.pending.lookUp? id = some e) :
    s.answers (.command (.reject id reason)) = .done (.ok ()) := by
  rw [answers_command, Command.carryOut, System.reject, System.resolve_found _ h]

theorem answers_rejectOrigin {o : Origin} {id : RequestId} {e : PendingRequest}
    (hid : s.system.gate.pending.idFor? o = some id)
    (h : s.system.gate.pending.lookUp? id = some e) :
    s.answers (.command (.rejectOrigin o)) = .rejected (some id) := by
  rw [answers_command, Command.carryOut, System.rejectOrigin, hid]
  simp only [System.reject, System.resolve_found _ h]

theorem moved_command (c : Command) (s : Session) :
    s.Moved (.command c) (c.carryOut s.system).1 := by
  cases c with
  | reject id reason => exact moved_resolve id _ fun e h => .rejected (answers_reject reason h)
  | rejectOrigin o =>
    rcases System.rejectOrigin_fst o none s.system with h | ⟨id, hid, h⟩
    · rw [Command.carryOut, h]
      exact .kept ⟨rfl, rfl, rfl⟩
    · rw [Command.carryOut, h]
      exact moved_resolve id _ fun e he => .originRejected (answers_rejectOrigin hid he)
  | recordMetadata o report extensionId =>
    simp only [Command.carryOut, System.recordMetadata]
    split
    · exact .kept ⟨rfl, rfl, rfl⟩
    · exact .kept ⟨rfl, rfl, rfl⟩
  | revoke o methods => exact .kept ⟨rfl, rfl, rfl⟩
  | clear => exact .kept ⟨rfl, rfl, rfl⟩
  | logUsage o e => exact .kept ⟨rfl, rfl, rfl⟩

theorem moved_step (hs : s.Undivided) (a : Action) : s.Moved a (s.after a).system := by
  have hchanged := changed_step hs a
  generalize (s.after a).system = t at hchanged
  cases hchanged with
  | same => exact .kept ⟨rfl, rfl, rfl⟩
  | served begun site h => exact .served begun site h
  | approved under ended h =>
    have hconcludes := (approves_approving under ended).concludes
    rcases h.decides with ⟨-, -, supply, rfl⟩ | ⟨e, hid, hdecides⟩
    · exact .kept ⟨rfl, rfl, rfl⟩
    · rw [← hid] at hconcludes
      exact .decided hconcludes hdecides
  | abandoned dropped hw => exact .abandoned dropped hw
  | @commanded c given _ => exact given ▸ moved_command c s
  | @happened e given => exact .kept (by cases e <;> exact ⟨rfl, rfl, rfl⟩)

/-! ## What every run keeps -/

theorem abandonAll_length (tickets : List Ticket) (w : World) :
    (abandonAll tickets w).tickets.statuses.length = w.tickets.statuses.length := by
  unfold abandonAll
  induction tickets generalizing w with
  | nil => rfl
  | cons t rest ih =>
    rw [List.foldl_cons, ih]
    exact Tickets.settle_length _ _ _

theorem announced_after (hs : s.Undivided) (a : Action) :
    s.world.announcements.announced <+: (s.after a).world.announcements.announced := by
  have hmoved := moved_step hs a
  change _ <+: (s.after a).system.world.announcements.announced
  generalize (s.after a).system = t at hmoved
  cases hmoved with
  | kept h =>
    rw [h.announced]
    exact List.prefix_rfl
  | served _ _ h => exact h.announced_prefix
  | decided _ h =>
    rw [h.announced]
    exact List.prefix_rfl
  | @abandoned n w _ _ =>
    have hsame : (abandonAll w.waiter.tickets s.world).announcements = s.world.announcements := by
      rw [abandonAll_eq]
    exact hsame ▸ List.prefix_rfl

theorem announced_run (hs : s.Undivided) (actions : List Action) :
    s.world.announcements.announced <+: (s.run actions).world.announcements.announced := by
  refine hs.run_induction (P := fun t => s.world.announcements.announced <+:
    t.world.announcements.announced) List.prefix_rfl (fun t a ht h => ?_) actions
  exact h.trans (announced_after ht a)

theorem announced_append (hs : s.Undivided) (early late : List Action) :
    (s.run early).world.announcements.announced <+:
      (s.run (early ++ late)).world.announcements.announced := by
  rw [run_append]
  exact announced_run (undivided_run hs early) late

/-- A request that is registered was announced, under its id. -/
theorem announced_of_find? (hs : s.system.Orderly) {id : RequestId} {r : PermissionsRequest}
    (h : s.gate.pending.find? id = some r) :
    r ∈ s.world.announcements.announced ∧ r.id = id := by
  obtain ⟨e, he, rfl⟩ := Option.map_eq_some_iff.1 h
  obtain ⟨hmem, hid⟩ := Pending.lookUp?_spec he
  exact ⟨hs.announced.subset (List.mem_map_of_mem hmem), hid⟩

theorem orderly_after (hu : s.Undivided) (hs : s.system.Orderly) (a : Action)
    (fresh : (s.after a).world.Fresh) : (s.after a).system.Orderly := by
  have hmoved := moved_step hu a
  change (s.after a).system.world.Fresh at fresh
  generalize (s.after a).system = t at hmoved fresh
  cases hmoved with
  | kept h => exact (System.Registers.none h).orderly hs
  | served _ _ h =>
    obtain ⟨news, hnews, -⟩ := h.registers hs fresh
    exact hnews.orderly hs
  | decided _ h => exact h.orderly hs
  | abandoned _ _ =>
    refine ⟨?_, hs.ascending, fun e he => ?_⟩
    · rw [abandonAll_eq]
      exact hs.announced
    · rw [abandonAll_length]
      exact hs.issued e he

theorem orderly_create {settings : Settings} {w : World} (h : create settings w = .ok s) :
    s.system.Orderly := by
  obtain ⟨store, -, rfl⟩ := create_eq h
  exact ⟨List.nil_sublist _, List.Pairwise.nil, fun e he => absurd he List.not_mem_nil⟩

theorem orderly_run (hu : s.Undivided) (hs : s.system.Orderly) (actions : List Action)
    (fresh : (s.run actions).world.Fresh) : (s.run actions).system.Orderly := by
  induction actions using List.reverseRecOn with
  | nil => exact hs
  | append_singleton before a ih =>
    rw [run_snoc] at fresh ⊢
    have hbefore := undivided_run hu before
    exact orderly_after hbefore (ih (fresh.of_prefix (announced_after hbefore a))) a fresh

end Session

end OriginGate
