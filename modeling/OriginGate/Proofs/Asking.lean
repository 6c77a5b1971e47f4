import OriginGate.Proofs.ByteOrder
import OriginGate.Proofs.Gating
import OriginGate.Proofs.OneRequest

/-!
# Asking the user

A call for permissions is refused and changes nothing, or its request is registered and announced.

* `Gate.RefusesRequest` : the three reasons not to ask the user for some permissions
  (`refusesRequest_iff`);
* `Gate.Asks`, `Operation.AsksFor` : what a call or an operation asks the user for;
* `System.Quiet`, `System.Creates` : no request is registered, or one is, and it is announced;
* `System.declines_asks` : a call whose request is refused is declined, also in a batch;
* `Operation.Passes` : one call of an operation; an operation is quiet, or one call of it creates
  a request and the others are quiet (`begin_creates`);
* `begin_unasked`, `begin_asked`, `begin_asked_batch` : what becomes of an operation that asks.
-/

namespace OriginGate

/-! ## Requests that are refused -/

namespace Gate

/-- Why a gate does not ask the user for some permissions of an origin. -/
inductive RefusesRequest (g : Gate) (o : Origin) (requested : RequestedPermissions) :
    PermissionError → Prop where
  | empty (none : requested.keys = []) :
    RefusesRequest g o requested (.invalidParams "must request at least one permission")
  /-- Of the methods that are not restricted it names the first by the bytes of their names. -/
  | unknown {method : String} (mem : method ∈ requested.keys)
    (unrestricted : g.registry.isRestricted method = false)
    (smallest : ∀ other ∈ requested.keys, g.registry.isRestricted other = false →
      other ≠ method → bytes method < bytes other) :
    RefusesRequest g o requested (.unknownPermission method)
  | pending (some : requested.keys ≠ [])
    (restricted : ∀ method ∈ requested.keys, g.registry.isRestricted method = true)
    {id : RequestId} (listed : g.pending.idFor? o = .some id) :
    RefusesRequest g o requested (.requestAlreadyPending o)

/-- What a call of an origin asks the user for. -/
inductive Asks (g : Gate) (o : Origin) (c : Rpc.MethodCall) : RequestedPermissions → Prop where
  | permissions {requested : RequestedPermissions}
    (named : WalletMethod.ofName? c.method = some .requestPermissions)
    (read : c.params.first? RequestedPermissions.ofDocument? = .ok requested) : Asks g o c requested
  /-- An origin without accounts asks for them. -/
  | accounts (named : WalletMethod.ofName? c.method = some .requestAccounts)
    (none : g.accounts o = []) : Asks g o c (.single accountsMethod)

variable {g : Gate} {o : Origin} {requested : RequestedPermissions} {e : PermissionError}

theorem find?_unrestricted {method : String} :
    requested.keys.find? (!g.registry.isRestricted ·) = some method ↔
      method ∈ requested.keys ∧ g.registry.isRestricted method = false ∧
        ∀ other ∈ requested.keys, g.registry.isRestricted other = false → other ≠ method →
          bytes method < bytes other := by
  have hascend := requested.keys_ascend_bytes
  rw [List.find?_eq_some_iff_append]
  constructor
  · rintro ⟨hmethod, before, later, hkeys, hbefore⟩
    rw [hkeys] at hascend ⊢
    refine ⟨List.mem_append_right _ List.mem_cons_self, by simpa using hmethod, ?_⟩
    intro other hother hunrestricted hne
    rcases List.mem_append.1 hother with hmem | hmem
    · have hrestricted := hbefore other hmem
      rw [hunrestricted] at hrestricted
      cases hrestricted
    · have hlater := (List.mem_cons.1 hmem).resolve_left hne
      exact (List.pairwise_cons.1 (List.pairwise_append.1 hascend).2.1).1 other hlater
  · rintro ⟨hmem, hunrestricted, hsmallest⟩
    obtain ⟨before, later, hkeys⟩ := List.append_of_mem hmem
    refine ⟨by simpa using hunrestricted, before, later, hkeys, fun other hother => ?_⟩
    rw [hkeys] at hascend
    have hlt := (List.pairwise_append.1 hascend).2.2 other hother method List.mem_cons_self
    rw [Bool.not_not]
    by_contra hother'
    have hgt := hsmallest other (hkeys ▸ List.mem_append_left _ hother) (by simpa using hother')
      (fun heq => List.lt_irrefl _ (heq ▸ hlt))
    exact List.lt_asymm hlt hgt

/-- A request is refused by its methods, or because the origin has one already. -/
theorem refusesRequest_iff : g.RefusesRequest o requested e ↔
    g.validate requested = .error e ∨
      g.validate requested = .ok () ∧ e = .requestAlreadyPending o ∧
        (g.pending.idFor? o).isSome := by
  constructor
  · intro h
    cases h with
    | empty none =>
      refine .inl ?_
      rw [validate, if_pos (SortedMap.keys_eq_nil_iff.1 none)]
    | unknown mem unrestricted smallest =>
      refine .inl ?_
      have hsome : requested.keys ≠ [] := List.ne_nil_of_mem mem
      rw [validate, if_neg (mt SortedMap.keys_eq_nil_iff.2 hsome),
        find?_unrestricted.2 ⟨mem, unrestricted, smallest⟩]
    | pending some restricted listed =>
      refine .inr ⟨?_, rfl, Option.isSome_of_mem listed⟩
      have hnone : requested.keys.find? (!g.registry.isRestricted ·) = none :=
        List.find?_eq_none.2 fun method hmem => by simp [restricted method hmem]
      rw [validate, if_neg (mt SortedMap.keys_eq_nil_iff.2 some), hnone]
  · rintro (h | ⟨h, rfl, hlisted⟩)
    · unfold validate at h
      split at h
      · rename_i hnone
        cases h
        exact .empty (SortedMap.keys_eq_nil_iff.2 hnone)
      · split at h
        · rename_i hfind
          cases h
          obtain ⟨hmem, hunrestricted, hsmallest⟩ := find?_unrestricted.1 hfind
          exact .unknown hmem hunrestricted hsmallest
        · cases h
    · obtain ⟨id, hid⟩ := Option.isSome_iff_exists.1 hlisted
      unfold validate at h
      split at h
      · cases h
      · rename_i hsome
        split at h
        · cases h
        · rename_i hfind
          refine .pending (mt SortedMap.keys_eq_nil_iff.1 hsome) (fun method hmem => ?_) hid
          simpa using List.find?_eq_none.1 hfind method hmem

end Gate

namespace System

variable {s : System} {o : Origin} {requested : RequestedPermissions} {e : PermissionError}

/-- What a request does that is registered: it is announced and its caller waits for the decision. -/
structure Creates (r : PermissionsRequest) (s t : System) : Prop where
  /-- The origin had no request. -/
  free : s.gate.pending.idFor? r.origin = none
  /-- It carries what the store holds about its origin. -/
  metadata : r.metadata = s.gate.state.siteMetadata? r.origin
  pending : t.gate.pending = s.gate.pending.add ⟨r, s.world.tickets.statuses.length⟩
  tickets : t.world.tickets = ⟨s.world.tickets.statuses ++ [.unsettled]⟩
  announcements : t.world.announcements = s.world.announcements.announce r

theorem creates_register {t : System} {id : RequestId} {ticket : Ticket}
    (h : s.register o requested (s.gate.state.siteMetadata? o) = (t, .ok (id, ticket))) :
    Creates ⟨id, o, requested, s.gate.state.siteMetadata? o⟩ s t := by
  obtain ⟨hfree, -, rfl, rfl⟩ := register_ok h
  exact ⟨hfree, rfl, rfl, rfl, rfl⟩

theorem requestPermissions_refused (h : s.gate.RefusesRequest o requested e) :
    s.requestPermissions o requested = (s, .done (.error e)) := by
  unfold requestPermissions
  rcases Gate.refusesRequest_iff.1 h with hvalid | ⟨hvalid, rfl, hlisted⟩
  · rw [hvalid]
  · obtain ⟨id, hid⟩ := Option.isSome_iff_exists.1 hlisted
    simp only [hvalid, register, hid]

theorem requestPermissions_accepted (h : ∀ e, ¬ s.gate.RefusesRequest o requested e) :
    ∃ r t a, s.requestPermissions o requested = (t, .waiting a) ∧ Creates r s t ∧
      r.origin = o ∧ r.permissions = requested := by
  have hvalid : s.gate.validate requested = .ok () := by
    rcases hvalidate : s.gate.validate requested with e | ⟨⟩
    · exact absurd (Gate.refusesRequest_iff.2 (.inl hvalidate)) (h e)
    · rfl
  have hfree : s.gate.pending.idFor? o = none := by
    by_contra hlisted
    refine h (.requestAlreadyPending o) (Gate.refusesRequest_iff.2 (.inr ⟨hvalid, rfl, ?_⟩))
    exact Option.isSome_iff_ne_none.2 hlisted
  obtain ⟨t, id, ticket, hok⟩ := register_free hfree requested (s.gate.state.siteMetadata? o)
  refine ⟨_, t, ⟨id, ticket⟩, ?_, creates_register hok, rfl, rfl⟩
  simp only [requestPermissions, hvalid, hok]

variable {caller : Caller} {c : Rpc.MethodCall} {call : Rpc.Call}

theorem requestAccounts_refused (none : s.gate.accounts o = [])
    (h : s.gate.RefusesRequest o (.single accountsMethod) e) :
    s.requestAccounts o = (s, .done (.error e)) := by
  have haccounts : s.accounts o = [] := none
  rw [requestAccounts, haccounts]
  simp only [requestPermissions_refused h]
  rfl

theorem requestAccounts_accepted (none : s.gate.accounts o = [])
    (h : ∀ e, ¬ s.gate.RefusesRequest o (.single accountsMethod) e) :
    ∃ r t a, s.requestAccounts o = (t, .waiting a) ∧ Creates r s t ∧
      r.origin = o ∧ r.permissions = .single accountsMethod := by
  have haccounts : s.accounts o = [] := none
  obtain ⟨r, t, a, hrequest, hr⟩ := requestPermissions_accepted h
  refine ⟨r, t, ⟨o, a⟩, ?_, hr⟩
  rw [requestAccounts, haccounts]
  simp only [hrequest]
  rfl

theorem handle_unasked (asks : s.gate.Asks caller.origin c requested)
    (h : s.gate.RefusesRequest caller.origin requested e) :
    s.handle caller c = (s, .done (.answered (.failure e.toRpc))) := by
  unfold handle
  cases asks with
  | permissions named read =>
    rw [named]
    simp only [serve, read, requestPermissions_refused h]
    rfl
  | accounts named none =>
    rw [named]
    simp only [serve, requestAccounts_refused none h]
    rfl

theorem handle_asked (asks : s.gate.Asks caller.origin c requested)
    (h : ∀ e, ¬ s.gate.RefusesRequest caller.origin requested e) :
    ∃ r t a, s.handle caller c = (t, .waiting a) ∧ Creates r s t ∧
      r.origin = caller.origin ∧ r.permissions = requested := by
  unfold handle
  cases asks with
  | permissions named read =>
    obtain ⟨r, t, a, hrequest, hr⟩ := requestPermissions_accepted h
    refine ⟨r, t, .permissions a, ?_, hr⟩
    rw [named]
    simp only [serve, read, hrequest]
    rfl
  | accounts named none =>
    obtain ⟨r, t, a, hrequest, hr⟩ := requestAccounts_accepted none h
    refine ⟨r, t, .accounts a, ?_, hr⟩
    rw [named]
    simp only [serve, hrequest]
    rfl

theorem serveCall_asked (hc : call.asMethodCall? = some c)
    (asks : s.gate.Asks caller.origin c requested)
    (h : ∀ e, ¬ s.gate.RefusesRequest caller.origin requested e) :
    ∃ r t a, s.serveCall caller call = (t, .waiting a) ∧ Creates r s t ∧
      r.origin = caller.origin ∧ r.permissions = requested := by
  obtain ⟨r, t, a, hhandle, hr⟩ := handle_asked asks h
  refine ⟨r, t, ⟨call.replyId?, .handling a⟩, ?_, hr⟩
  rw [serveCall_eq hc, beginCall, hhandle]
  rfl

/-! ## What serving an origin registers -/

/-- No request was registered, and none was decided. -/
structure Quiet (s t : System) : Prop where
  pending : t.gate.pending = s.gate.pending
  tickets : t.world.tickets = s.world.tickets
  announcements : t.world.announcements = s.world.announcements

theorem Quiet.refl (s : System) : Quiet s s := ⟨rfl, rfl, rfl⟩

theorem Quiet.trans {s t u : System} (h₁ : Quiet s t) (h₂ : Quiet t u) : Quiet s u :=
  ⟨h₂.pending.trans h₁.pending, h₂.tickets.trans h₁.tickets,
    h₂.announcements.trans h₁.announcements⟩

section Serving
variable {may : Gate → Rpc.MethodCall → Prop} {t : System} {as : List Awaiting}

theorem Served.creates (h : Served o may s t as) :
    Quiet s t ∨ ∃ r, r.origin = o ∧ Creates r s t := by
  cases h with
  | registered _ h => exact .inr ⟨_, rfl, creates_register h⟩
  | _ => exact .inl ⟨rfl, rfl, rfl⟩

/-- An origin that has a request registers no other. -/
theorem ServedAll.quiet (h : ServedAll o may s t as) {id : RequestId}
    (listed : s.gate.pending.idFor? o = some id) : Quiet s t := by
  induction h with
  | nil s => exact .refl s
  | cons first _ ih =>
    rcases first.creates with hquiet | ⟨r, rfl, hcreates⟩
    · refine hquiet.trans (ih ?_)
      rw [hquiet.pending]
      exact listed
    · rw [hcreates.free] at listed
      cases listed

theorem Creates.listed {r : PermissionsRequest} (h : Creates r s t) :
    t.gate.pending.idFor? r.origin = some r.id := by
  rw [h.pending, Pending.idFor?_add]
  exact if_pos rfl

/-- What was refused is refused after calls of the same origin. -/
theorem ServedAll.refusesRequest (h : ServedAll o may s t as)
    (refused : s.gate.RefusesRequest o requested e) : t.gate.RefusesRequest o requested e := by
  have hregistry := h.sameGrants.registry
  cases refused with
  | empty none => exact .empty none
  | unknown mem unrestricted smallest =>
    rw [← hregistry] at unrestricted smallest
    exact .unknown mem unrestricted smallest
  | pending some restricted listed =>
    rw [← hregistry] at restricted
    rw [← (h.quiet listed).pending] at listed
    exact .pending some restricted listed

end Serving

theorem SameGrants.asks {t : System} (h : SameGrants s t) (asks : s.gate.Asks o c requested) :
    t.gate.Asks o c requested := by
  cases asks with
  | permissions named read => exact .permissions named read
  | accounts named none =>
    refine .accounts named ?_
    rw [Gate.accounts, h.permission?]
    exact none

theorem declines_asks (hc : call.asMethodCall? = some c)
    (asks : s.gate.Asks caller.origin c requested)
    (h : s.gate.RefusesRequest caller.origin requested e) : s.Declines caller call e := by
  refine declines_of_within fun l => serveCall_answered hc ?_
  have hserved := thread_serveCall caller l s
  exact handle_unasked (hserved.sameGrants.asks asks) (hserved.refusesRequest h)

/-- Of the calls of a batch one registers a request at most. -/
theorem thread_creates (caller : Caller) (calls : List Rpc.Call) (s : System) :
    Quiet s (thread (serveCall caller) calls s).1 ∨
      ∃ r before call later, r.origin = caller.origin ∧ calls = before ++ call :: later ∧
        Quiet s (thread (serveCall caller) before s).1 ∧
        Creates r (thread (serveCall caller) before s).1
          ((thread (serveCall caller) before s).1.serveCall caller call).1 ∧
        Quiet ((thread (serveCall caller) before s).1.serveCall caller call).1
          (thread (serveCall caller) calls s).1 := by
  induction calls generalizing s with
  | nil => exact .inl (.refl s)
  | cons call rest ih =>
    have hserved : Served caller.origin (fun _ _ => True) s (s.serveCall caller call).1 _ :=
      serveCall_served caller call (fun _ _ _ => trivial) fun _ _ _ _ => trivial
    rcases hserved.creates with hquiet | ⟨r, hr, hcreates⟩
    · rcases ih (s.serveCall caller call).1 with hrest | ⟨r, before, next, later, hr, rfl, hrest⟩
      · exact .inl (hquiet.trans hrest)
      · obtain ⟨hbefore, hcreates, hlater⟩ := hrest
        exact .inr ⟨r, call :: before, next, later, hr, rfl, hquiet.trans hbefore, hcreates, hlater⟩
    · refine .inr ⟨r, [], call, rest, hr, rfl, .refl s, hcreates, ?_⟩
      have hlisted := hcreates.listed
      rw [hr] at hlisted
      exact (thread_serveCall caller rest _).quiet hlisted

end System

namespace Operation

/-- One call of an operation, with the systems before and after it; what is no batch is one call. -/
inductive Passes (s : System) : Operation → System → System → Prop where
  | whole {op : Operation} (alone : ∀ caller calls, op ≠ .request caller (.batch calls)) :
    Passes s op s (op.begin s).1
  | inBatch (caller : Caller) (before : List Rpc.Call) (call : Rpc.Call) (later : List Rpc.Call) :
    Passes s (.request caller (.batch (before ++ call :: later)))
      (System.thread (System.serveCall caller) before s).1
      ((System.thread (System.serveCall caller) before s).1.serveCall caller call).1

/-- An operation registers no request, or one of its calls does and no other. -/
theorem begin_creates {op : Operation} {o : Origin} (site : op.site? = some o) (s : System) :
    System.Quiet s (op.begin s).1 ∨
      ∃ r v w, r.origin = o ∧ op.Passes s v w ∧ System.Quiet s v ∧ System.Creates r v w ∧
        System.Quiet w (op.begin s).1 := by
  by_cases hbatch : ∃ caller calls, op = .request caller (.batch calls)
  · obtain ⟨caller, calls, rfl⟩ := hbatch
    cases site
    rcases System.thread_creates caller calls s with
      hquiet | ⟨r, before, call, later, hr, rfl, hbefore, hcreates, hlater⟩
    · exact .inl hquiet
    · exact .inr ⟨r, _, _, hr, .inBatch caller before call later, hbefore, hcreates, hlater⟩
  · have halone : ∀ caller calls, op ≠ .request caller (.batch calls) :=
      fun caller calls h => hbatch ⟨caller, calls, h⟩
    rcases (op.begin_alone site halone s).creates with hquiet | ⟨r, hr, hcreates⟩
    · exact .inl hquiet
    · exact .inr ⟨r, s, _, hr, .whole halone, .refl s, hcreates, .refl _⟩

end Operation

/-! ## Operations that ask the user -/

/-- An operation asks the user for some permissions of an origin, and ends so when it is refused. -/
inductive Operation.AsksFor (g : Gate) :
    Operation → Origin → RequestedPermissions → (PermissionError → Result) → Prop where
  | permissions (o : Origin) (requested : RequestedPermissions) :
    AsksFor g (.requestPermissions o requested) o requested fun e => .decision (.error e)
  | accounts {o : Origin} (none : g.accounts o = []) :
    AsksFor g (.requestAccounts o) o (.single accountsMethod) fun e => .accounts (.error e)
  | call {caller : Caller} {c : Rpc.MethodCall} {requested : RequestedPermissions}
    (asks : g.Asks caller.origin c requested) :
    AsksFor g (.call caller c) caller.origin requested
      fun e => .dispatch (.answered (.failure e.toRpc))
  | request {caller : Caller} {call : Rpc.Call} {c : Rpc.MethodCall}
    {requested : RequestedPermissions} (hc : call.asMethodCall? = some c)
    (asks : g.Asks caller.origin c requested) :
    AsksFor g (.request caller (.single call)) caller.origin requested
      fun e => .reply ((Serving.respond call.replyId? (.failure e.toRpc)).map .single)

namespace Operation

variable {op : Operation} {s : System} {o : Origin} {requested : RequestedPermissions}
  {ended : PermissionError → Result} {e : PermissionError}

theorem begin_unasked (asks : op.AsksFor s.gate o requested ended)
    (h : s.gate.RefusesRequest o requested e) : op.begin s = (s, .done (ended e)) := by
  cases asks with
  | permissions o requested =>
    rw [begin, System.requestPermissions_refused h]
    rfl
  | accounts none =>
    rw [begin, System.requestAccounts_refused none h]
    rfl
  | call asks =>
    rw [begin, System.handle_unasked asks h]
    rfl
  | request hc asks =>
    rw [begin, (System.declines_asks hc asks h).alone]
    rfl

theorem begin_asked (asks : op.AsksFor s.gate o requested ended)
    (h : ∀ e, ¬ s.gate.RefusesRequest o requested e) :
    ∃ r t w, op.begin s = (t, .waiting w) ∧ System.Creates r s t ∧ r.origin = o ∧
      r.permissions = requested := by
  cases asks with
  | permissions o requested =>
    obtain ⟨r, t, a, hrequest, hr⟩ := System.requestPermissions_accepted h
    refine ⟨r, t, .requestPermissions a, ?_, hr⟩
    rw [begin, hrequest]
    rfl
  | accounts none =>
    obtain ⟨r, t, a, hrequest, hr⟩ := System.requestAccounts_accepted none h
    refine ⟨r, t, .requestAccounts a, ?_, hr⟩
    rw [begin, hrequest]
    rfl
  | call asks =>
    obtain ⟨r, t, a, hhandle, hr⟩ := System.handle_asked asks h
    refine ⟨r, t, .call a, ?_, hr⟩
    rw [begin, hhandle]
    rfl
  | request hc asks =>
    obtain ⟨r, t, a, hserve, hr⟩ := System.serveCall_asked hc asks h
    refine ⟨r, t, .request (.single a), ?_, hr⟩
    rw [begin, System.answer, hserve]
    rfl

/-- Any call of a batch may be the one that registers a request. -/
theorem begin_asked_batch {caller : Caller} {before : List Rpc.Call} (later : List Rpc.Call)
    {call : Rpc.Call} {c : Rpc.MethodCall} (hc : call.asMethodCall? = some c)
    (asks : (System.thread (System.serveCall caller) before s).1.gate.Asks caller.origin c requested)
    (h : ∀ e, ¬ (System.thread (System.serveCall caller) before s).1.gate.RefusesRequest
      caller.origin requested e) :
    ∃ r t, System.Quiet s (System.thread (System.serveCall caller) before s).1 ∧
      System.Creates r (System.thread (System.serveCall caller) before s).1 t ∧
      System.Quiet t ((Operation.request caller (.batch (before ++ call :: later))).begin s).1 ∧
      r.origin = caller.origin ∧ r.permissions = requested := by
  obtain ⟨r, t, a, hserve, hcreates, hr, hpermissions⟩ := System.serveCall_asked hc asks h
  refine ⟨r, t, ?_, hcreates, ?_, hr, hpermissions⟩
  · -- After another request of the origin this one would be refused.
    rcases System.thread_creates caller before s with
      hquiet | ⟨q, early, other, late, hq, -, -, hother, hlate⟩
    · exact hquiet
    · have hlisted := hother.listed
      have hfree := hcreates.free
      rw [hr, hlate.pending, ← hq, hlisted] at hfree
      cases hfree
  · have hlisted := hcreates.listed
    rw [hr] at hlisted
    have hlater := (System.thread_serveCall caller later t).quiet hlisted
    simpa [begin, System.answer, System.thread_append, System.thread, hserve] using hlater

end Operation

end OriginGate
