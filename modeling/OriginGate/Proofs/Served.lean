import OriginGate.Proofs.Runs

/-!
# What serving a call does

Everything that a site can bring about by itself is one of five small changes.

* `Gate.PassesOn`, `Gate.Permits` : the two ways in which a call of a site reaches the wallet;
  `Operation.Lets` : the calls that an operation may send there;
* `Awaiting` lists : the decisions that a call, a request or an operation waits for;
* `System.Served` : one of the five changes, with the decisions that are awaited after it;
  `System.ServedAll` : several of them;
* `Operation.begin_served` : beginning anything but an approval is such a list of changes;
* `Waiter.system_of_takesUp` : taking up anything but an approval changes nothing;
* `Waiter.SameKind` : whatever still waits when it was taken up waits in the same way;
  `Waiter.eq_of_takesUp` : anything but a batch waits as before.
-/

namespace OriginGate

/-! ## Calls that reach the wallet -/

/-- The method calls in a request; a notification is handled like a call without an id. -/
def Rpc.Call.asMethodCall? : Rpc.Call → Option Rpc.MethodCall
  | .method c => some c
  | .notification n => some (.create .null n.method n.params)
  | .invalid _ => none

/-- The calls of a request, in order. -/
def Rpc.Request.calls : Rpc.Request → List Rpc.Call
  | .single c => [c]
  | .batch cs => cs

/-- A call that is nobody's business but the wallet's. -/
structure Gate.PassesOn (g : Gate) (c : Rpc.MethodCall) : Prop where
  unserved : WalletMethod.ofName? c.method = none
  unrestricted : g.registry.isRestricted c.method = false

/-- A restricted call that a permission of the origin lets through, and what is sent for it. -/
structure Gate.Permits (g : Gate) (o : Origin) (c sent : Rpc.MethodCall) : Prop where
  unserved : WalletMethod.ofName? c.method = none
  restricted : g.registry.isRestricted c.method = true
  granted : ∃ p params, g.state.permission? o c.method = some p ∧
    Caveats.onParams c.params.json p.caveats = .ok params ∧
    sent = .create .null c.method (.ofJson params) ∧ (p.caveats = [] → sent.params = c.params)

/-- The calls that an operation may send to the wallet. -/
inductive Operation.Lets (g : Gate) : Operation → Rpc.MethodCall → Prop where
  | passedOn {caller : Caller} {request : Rpc.Request} {call : Rpc.Call} {c : Rpc.MethodCall}
    (mem : call ∈ request.calls) (hc : call.asMethodCall? = some c) (h : g.PassesOn c) :
    Lets g (.request caller request) c
  | permitted {caller : Caller} {request : Rpc.Request} {call : Rpc.Call} {c sent : Rpc.MethodCall}
    (mem : call ∈ request.calls) (hc : call.asMethodCall? = some c)
    (h : g.Permits caller.origin c sent) : Lets g (.request caller request) sent
  | handled {caller : Caller} {c sent : Rpc.MethodCall} (h : g.Permits caller.origin c sent) :
    Lets g (.call caller c) sent
  /-- The owner of the gate executes what it likes, also methods that are not restricted. -/
  | executed {o : Origin} {method : String} {params : Json} {authorized : Authorized}
    (h : g.registry.authorize g.state o method params = .ok authorized)
    (provider : g.registry.executor method = .provider) :
    Lets g (.execute o method params) (.create .null method (.ofJson authorized.params))

theorem Rpc.Params.ofJson_json (params : Rpc.Params) : ofJson params.json = params := by
  cases params <;> rfl

/-! ## Awaited decisions -/

def Handling.awaiting : Handling → List Awaiting
  | permissions a => [a]
  | accounts a => [a.decision]
  | execution _ => []

def Serving.awaiting (c : Serving) : List Awaiting :=
  match c.stage with
  | .handling h => h.awaiting
  | .sent _ => []

/-- What an operation that is not done waits for. -/
def Progress.awaiting {σ α : Type} (f : σ → List Awaiting) : Progress σ α → List Awaiting
  | done _ => []
  | waiting s => f s

def Answering.awaiting : Answering → List Awaiting
  | single c => c.awaiting
  | batch slots => slots.flatMap (Progress.awaiting Serving.awaiting)

def Waiter.awaiting : Waiter → List Awaiting
  | call h => h.awaiting
  | request a => a.awaiting
  | requestAccounts a => [a.decision]
  | requestPermissions a => [a]
  | approve _ | execute _ | ticket _ => []

namespace Progress

variable {σ τ α β : Type}

@[simp] theorem awaiting_map (f : σ → List Awaiting) (g : α → β) (p : Progress σ α) :
    (p.map g).awaiting f = p.awaiting f := by
  cases p <;> rfl

@[simp] theorem awaiting_mapWaiting (f : τ → List Awaiting) (g : σ → τ) (p : Progress σ α) :
    (p.mapWaiting g).awaiting f = p.awaiting fun s => f (g s) := by
  cases p <;> rfl

theorem waiting_of_mapWaiting {p : Progress σ α} {f : σ → τ} {g : α → β} {w : τ}
    (h : (p.map g).mapWaiting f = waiting w) : ∃ b, p = waiting b ∧ f b = w := by
  cases p with
  | done a => cases h
  | waiting b => injection h with h; exact ⟨b, rfl, h⟩

end Progress

theorem Serving.tickets_eq (c : Serving) : c.tickets = c.awaiting.map (·.ticket) := by
  obtain ⟨id, (a | a | e) | call⟩ := c <;> rfl

/-- What holds a gate in being holds the tickets of the decisions it awaits. -/
theorem Waiter.tickets_eq {w : Waiter} (h : w.holdsGate) :
    w.tickets = w.awaiting.map (·.ticket) := by
  cases w with
  | call handling => cases handling <;> rfl
  | request a =>
    cases a with
    | single c => exact c.tickets_eq
    | batch slots =>
      simp only [tickets, awaiting, Answering.awaiting, List.map_flatMap]
      congr 1
      funext slot
      cases slot with
      | done r => rfl
      | waiting c => exact c.tickets_eq
  | ticket t => cases h
  | _ => rfl

/-- The calls of a batch are done if and only if nothing but their responses is left of them. -/
theorem Answering.mapM_done? {slots : List Slot} {outs : List (Option Rpc.Response)} :
    slots.mapM (fun slot : Slot => slot.done?) = some outs ↔ slots = outs.map .done := by
  induction slots generalizing outs with
  | nil => cases outs <;> simp
  | cons slot rest ih =>
    cases slot with
    | waiting c =>
      have hfirst : (Progress.waiting c : Slot).done? = none := rfl
      cases outs <;> simp [hfirst]
    | done out =>
      have hfirst : (Progress.done out : Slot).done? = some out := rfl
      simp only [List.mapM_cons, hfirst, Option.bind_eq_bind, Option.bind_some,
        Option.bind_eq_some_iff, ih]
      cases outs with
      | nil => simp
      | cons first more => simp [and_comm]

theorem Answering.awaiting_ofSlots (slots : List Slot) :
    (ofSlots slots).awaiting awaiting = slots.flatMap (Progress.awaiting Serving.awaiting) := by
  unfold ofSlots
  split
  · rename_i rs h
    obtain ⟨outs, houts, -⟩ := Option.map_eq_some_iff.1 h
    rw [mapM_done?.1 houts, List.flatMap_map]
    exact (List.flatMap_eq_nil_iff.2 fun out _ => rfl).symm
  · rfl

/-! ## Answered calls -/

/-- A call is answered, if it is done, and not passed on. -/
def Progress.Answers (p : Progress Handling Dispatch) : Prop := ∀ c, p ≠ .done (.passedOn c)

theorem Progress.answers_map {σ α : Type} {f : α → Dispatch} (hf : ∀ a c, f a ≠ .passedOn c)
    (g : σ → Handling) (p : Progress σ α) : ((p.map f).mapWaiting g).Answers := by
  intro c h
  cases p with
  | done a => exact hf a c (by injection h)
  | waiting s => cases h

namespace Dispatch

theorem value_ne_passedOn (r : Except PermissionError Json) (c : Rpc.MethodCall) :
    value r ≠ .passedOn c := by
  cases r <;> exact Dispatch.noConfusion

end Dispatch

theorem Handling.poll_answers (h : Handling) (s : System) : (h.poll s).Answers := by
  cases h with
  | permissions a => exact Progress.answers_map (fun _ _ => Dispatch.noConfusion) _ _
  | accounts a => exact Progress.answers_map (fun _ _ => Dispatch.noConfusion) _ _
  | execution e => exact Progress.answers_map Dispatch.value_ne_passedOn _ _

theorem Serving.afterHandling_answers {p : Progress Handling Dispatch} (h : p.Answers)
    (id : Option Rpc.Id) (s : System) :
    (afterHandling id s p).1 = s ∧
      (afterHandling id s p).2.awaiting awaiting = p.awaiting Handling.awaiting := by
  cases p with
  | waiting a => exact ⟨rfl, rfl⟩
  | done d =>
    cases d with
    | answered outcome => exact ⟨rfl, rfl⟩
    | passedOn c => exact absurd rfl (h c)

namespace System

/-! ## Changes that a site makes -/

/-- One change that serving an origin makes, with the decisions that are awaited after it. -/
inductive Served (o : Origin) (may : Gate → Rpc.MethodCall → Prop) (s : System) :
    System → List Awaiting → Prop where
  | nothing : Served o may s s []
  | registered {permissions : RequestedPermissions} {id : RequestId} {ticket : Ticket} {t : System}
    (valid : s.gate.validate permissions = .ok ())
    (h : s.register o permissions (s.gate.state.siteMetadata? o) = (t, .ok (id, ticket))) :
    Served o may s t [⟨id, ticket⟩]
  | recorded (m : SiteMetadata) : Served o may s (s.update (·.setMetadata o m)).1 []
  | reported (e : UsageEvent) : Served o may s (s.logUsage o e) []
  | sent {call : Rpc.MethodCall} (h : may s.gate call) : Served o may s (s.send call) []

/-- Several changes, one after the other, with all decisions that are awaited after them. -/
inductive ServedAll (o : Origin) (may : Gate → Rpc.MethodCall → Prop) :
    System → System → List Awaiting → Prop where
  | nil (s : System) : ServedAll o may s s []
  | cons {s t u : System} {as bs : List Awaiting} (first : Served o may s t as)
    (rest : ServedAll o may t u bs) : ServedAll o may s u (as ++ bs)

theorem Served.all {o : Origin} {may : Gate → Rpc.MethodCall → Prop} {s t : System}
    {as : List Awaiting} (h : Served o may s t as) : ServedAll o may s t as := by
  have := ServedAll.cons h (.nil t)
  rwa [List.append_nil] at this

theorem register_cases (o : Origin) (permissions : RequestedPermissions)
    (metadata : Option SiteMetadata) (s : System) :
    (∃ e, s.register o permissions metadata = (s, .error e)) ∨
      ∃ t id ticket, s.register o permissions metadata = (t, .ok (id, ticket)) := by
  unfold register
  split
  · exact .inl ⟨_, rfl⟩
  · exact .inr ⟨_, _, _, rfl⟩

section Serving
variable {may : Gate → Rpc.MethodCall → Prop}

theorem requestPermissions_served (o : Origin) (requested : RequestedPermissions) (s : System) :
    Served o may s (s.requestPermissions o requested).1
      ((s.requestPermissions o requested).2.awaiting ([·])) := by
  unfold requestPermissions
  split
  · exact .nothing
  · rename_i valid
    rcases register_cases o requested (s.gate.state.siteMetadata? o) s with
      ⟨e, h⟩ | ⟨t, id, ticket, h⟩
    · simp only [h]; exact .nothing
    · simp only [h]; exact .registered valid h

theorem requestAccounts_served (o : Origin) (s : System) :
    Served o may s (s.requestAccounts o).1
      ((s.requestAccounts o).2.awaiting fun a => [a.decision]) := by
  unfold requestAccounts
  split
  · simpa using requestPermissions_served o (.single accountsMethod) s
  · exact .nothing

theorem recordMetadata_served (o : Origin) (report : Option SiteReport)
    (extensionId : Option String) (s : System) :
    Served o may s (s.recordMetadata o report extensionId).1 [] := by
  unfold recordMetadata
  split
  · exact .nothing
  · exact .recorded _

theorem execute_served (o : Origin) (method : String) (params : Json) {s : System}
    (hmay : ∀ authorized, s.gate.registry.authorize s.gate.state o method params = .ok authorized →
      s.gate.registry.executor method = .provider →
      may s.gate (.create .null method (.ofJson authorized.params))) :
    Served o may s (s.execute o method params).1 [] := by
  unfold execute
  split
  · exact .nothing
  · rename_i h
    split
    · exact .nothing
    · rename_i provider
      exact .sent (hmay _ h provider)

theorem serve_served (method : WalletMethod) (caller : Caller) (params : Rpc.Params) (s : System) :
    Served caller.origin may s (s.serve method caller params).1
        ((s.serve method caller params).2.awaiting Handling.awaiting) ∧
      (s.serve method caller params).2.Answers := by
  have hanswered : ∀ outcome, (.done (.answered outcome) : Progress Handling Dispatch).Answers :=
    fun _ _ => by simp
  cases method with
  | requestPermissions =>
    rcases h : params.first? RequestedPermissions.ofDocument? with e | requested
    · simp only [serve, h]
      exact ⟨.nothing, hanswered _⟩
    · simp only [serve, h]
      refine ⟨?_, Progress.answers_map (fun _ _ => Dispatch.noConfusion) _ _⟩
      simpa [Handling.awaiting] using requestPermissions_served caller.origin requested s
  | getPermissions => exact ⟨.nothing, hanswered _⟩
  | requestAccounts =>
    refine ⟨?_, Progress.answers_map (fun _ _ => Dispatch.noConfusion) _ _⟩
    simpa [serve, Handling.awaiting] using requestAccounts_served caller.origin s
  | accounts => exact ⟨.nothing, hanswered _⟩
  | sendSiteMetadata => exact ⟨recordMetadata_served _ _ _ s, hanswered _⟩
  | logUsage =>
    rcases h : params.first? UsageEvent.ofDocument? with e | event
    · simp only [serve, h]
      exact ⟨.nothing, hanswered _⟩
    · simp only [serve, h]
      exact ⟨.reported event, hanswered _⟩

theorem authorize_restricted {g : Gate} {o : Origin} {method : String} {params : Json}
    {authorized : Authorized} (restricted : g.registry.isRestricted method = true)
    (h : g.registry.authorize g.state o method params = .ok authorized) :
    ∃ p, g.state.permission? o method = some p ∧ authorized.permission = some p ∧
      Caveats.onParams params p.caveats = .ok authorized.params := by
  rw [Registry.authorize, if_pos restricted] at h
  split at h
  · cases h
  · rename_i p hp
    split at h
    · rename_i allowed hallowed
      cases h
      exact ⟨p, hp, rfl, hallowed⟩
    · cases h

/-- A call is passed on as it is, or it is answered, now or later. -/
theorem handle_cases (caller : Caller) (call : Rpc.MethodCall) {s : System}
    (hmay : ∀ sent, s.gate.Permits caller.origin call sent → may s.gate sent) :
    (s.gate.PassesOn call ∧ s.handle caller call = (s, .done (.passedOn call))) ∨
      (Served caller.origin may s (s.handle caller call).1
          ((s.handle caller call).2.awaiting Handling.awaiting) ∧
        (s.handle caller call).2.Answers) := by
  unfold handle
  split
  · rename_i method _
    exact .inr (serve_served method caller call.params s)
  · rename_i unserved
    by_cases restricted : s.gate.registry.isRestricted call.method = true
    · rw [if_pos restricted]
      refine .inr ⟨?_, Progress.answers_map Dispatch.value_ne_passedOn _ _⟩
      have hexec : Served caller.origin may s
          (s.execute caller.origin call.method call.params.json).1 [] :=
        execute_served _ _ _ fun authorized h _ => by
          obtain ⟨p, hp, -, hcaveats⟩ := authorize_restricted restricted h
          refine hmay _ ⟨unserved, restricted, p, authorized.params, hp, hcaveats, rfl, ?_⟩
          intro hbare
          rw [hbare, Caveats.onParams] at hcaveats
          injection hcaveats with hparams
          rw [← hparams]
          exact call.params.ofJson_json
      have hnone : ((((s.execute caller.origin call.method call.params.json).2.map
          Dispatch.value).mapWaiting Handling.execution).awaiting Handling.awaiting) = [] := by
        cases (s.execute caller.origin call.method call.params.json).2 <;> rfl
      rw [hnone]
      exact hexec
    · rw [if_neg restricted]
      exact .inl ⟨⟨unserved, by simpa using restricted⟩, rfl⟩

theorem beginCall_served (caller : Caller) (id : Option Rpc.Id) (call : Rpc.MethodCall)
    {s : System} (hpass : s.gate.PassesOn call → may s.gate call)
    (hmay : ∀ sent, s.gate.Permits caller.origin call sent → may s.gate sent) :
    Served caller.origin may s (s.beginCall caller id call).1
      ((s.beginCall caller id call).2.awaiting Serving.awaiting) := by
  unfold beginCall
  rcases handle_cases caller call hmay with ⟨pass, h⟩ | ⟨served, answers⟩
  · simp only [h, Serving.afterHandling, Serving.awaitWallet]
    split
    · exact .sent (hpass pass)
    · exact .sent (hpass pass)
  · obtain ⟨hs, hawaiting⟩ :=
      Serving.afterHandling_answers answers id (s.handle caller call).1
    simp only [hs, hawaiting]
    exact served

theorem serveCall_served (caller : Caller) (call : Rpc.Call) {s : System}
    (hpass : ∀ c, call.asMethodCall? = some c → s.gate.PassesOn c → may s.gate c)
    (hmay : ∀ c sent, call.asMethodCall? = some c → s.gate.Permits caller.origin c sent →
      may s.gate sent) :
    Served caller.origin may s (s.serveCall caller call).1
      ((s.serveCall caller call).2.awaiting Serving.awaiting) := by
  cases call with
  | method c => exact beginCall_served caller _ c (hpass c rfl) (hmay c · rfl)
  | notification n => exact beginCall_served caller _ _ (hpass _ rfl) (hmay _ · rfl)
  | invalid id => exact .nothing

theorem thread_served {α : Type} {o : Origin} {step : α → System → System × Slot} :
    ∀ (l : List α) (s : System),
      (∀ a ∈ l, ∀ s, Served o may s (step a s).1 ((step a s).2.awaiting Serving.awaiting)) →
      ServedAll o may s (thread step l s).1
        ((thread step l s).2.flatMap (Progress.awaiting Serving.awaiting))
  | [], s, _ => .nil s
  | a :: rest, s, h => by
    refine .cons (h a (by simp) s) ?_
    exact thread_served rest _ fun b hb => h b (by simp [hb])

theorem answer_served (caller : Caller) (calls : List Rpc.Call) (s : System) :
    ServedAll caller.origin (fun g => Operation.Lets g (.request caller (.batch calls))) s
      (s.answer caller (.batch calls)).1
      ((s.answer caller (.batch calls)).2.awaiting Answering.awaiting) := by
  have hcall : ∀ call ∈ calls, ∀ s : System,
      Served caller.origin (fun g => Operation.Lets g (.request caller (.batch calls))) s
        (s.serveCall caller call).1 ((s.serveCall caller call).2.awaiting Serving.awaiting) :=
    fun call mem s => serveCall_served caller call (fun _ hc h => .passedOn mem hc h)
      fun _ _ hc h => .permitted mem hc h
  simpa [answer, Answering.awaiting_ofSlots] using thread_served calls s hcall

end Serving

end System

/-! ## Operations -/

/-- The origin that an operation serves; an approval serves none. -/
def Operation.site? : Operation → Option Origin
  | call caller _ | request caller _ => some caller.origin
  | requestAccounts o | requestPermissions o _ | execute o _ _ => some o
  | approve _ _ => none

/-- Beginning an operation that is no batch makes one change that serves its origin. -/
theorem Operation.begin_alone {op : Operation} {o : Origin} (h : op.site? = some o)
    (alone : ∀ caller calls, op ≠ .request caller (.batch calls)) (s : System) :
    System.Served o (fun g => Operation.Lets g op) s (op.begin s).1
      ((op.begin s).2.awaiting Waiter.awaiting) := by
  cases op with
  | call caller c =>
    cases h
    rcases @System.handle_cases (fun g => Operation.Lets g (.call caller c)) caller c s
      fun _ h => .handled h with ⟨-, h⟩ | ⟨served, -⟩
    · rw [begin, h]
      exact .nothing
    · simpa [begin, Waiter.awaiting] using served
  | request caller r =>
    cases h
    cases r with
    | single call =>
      have hserved : System.Served caller.origin
          (fun g => Operation.Lets g (.request caller (.single call))) s _ _ :=
        System.serveCall_served caller call (fun _ hc h => .passedOn (List.mem_singleton_self _) hc h)
          fun _ _ hc h => .permitted (List.mem_singleton_self _) hc h
      simpa [begin, System.answer, Answering.ofSingle, Answering.awaiting, Waiter.awaiting]
        using hserved
    | batch calls => exact absurd rfl (alone caller calls)
  | requestAccounts o =>
    cases h
    simpa [begin, Waiter.awaiting] using System.requestAccounts_served o s
  | requestPermissions o requested =>
    cases h
    simpa [begin, Waiter.awaiting] using System.requestPermissions_served o requested s
  | approve approved accounts => cases h
  | execute o method params =>
    cases h
    have hnone : ((begin (.execute o method params) s).2.awaiting Waiter.awaiting) = [] := by
      simp only [begin, Progress.awaiting_mapWaiting, Progress.awaiting_map, Waiter.awaiting]
      cases (s.execute o method params).2 <;> rfl
    rw [hnone]
    exact System.execute_served _ _ _ fun _ h provider => .executed h provider

/-- Beginning an operation for an origin makes changes that serve it, and nothing else. -/
theorem Operation.begin_served {op : Operation} {o : Origin} (h : op.site? = some o) (s : System) :
    System.ServedAll o (fun g => Operation.Lets g op) s (op.begin s).1
      ((op.begin s).2.awaiting Waiter.awaiting) := by
  by_cases hbatch : ∃ caller calls, op = .request caller (.batch calls)
  · obtain ⟨caller, calls, rfl⟩ := hbatch
    cases h
    simpa [begin, Waiter.awaiting] using System.answer_served caller calls s
  · exact (op.begin_alone h (fun caller calls heq => hbatch ⟨caller, calls, heq⟩) s).all

/-- What an operation waits with keeps its gate in being. -/
theorem Operation.holdsGate_of_begin {op : Operation} {s t : System} {w : Waiter}
    (h : op.begin s = (t, .waiting w)) : w.holdsGate := by
  have hp := congrArg Prod.snd h
  cases op <;> obtain ⟨b, -, rfl⟩ := Progress.waiting_of_mapWaiting hp <;> rfl

/-! ## Taking up what waits -/

theorem Awaiting.poll_awaiting (a : Awaiting) (s : System) :
    ((a.poll s).awaiting ([·])).Sublist [a] := by
  unfold poll
  split
  · exact .refl _
  · exact List.nil_sublist _
  · exact List.nil_sublist _
  · exact List.nil_sublist _

theorem AwaitingAccounts.poll_awaiting (a : AwaitingAccounts) (s : System) :
    ((a.poll s).awaiting fun b => [b.decision]).Sublist [a.decision] := by
  simpa [poll] using a.decision.poll_awaiting s

theorem Handling.poll_awaiting (h : Handling) (s : System) :
    ((h.poll s).awaiting awaiting).Sublist h.awaiting := by
  cases h with
  | permissions a => simpa [poll, awaiting] using a.poll_awaiting s
  | accounts a => simpa [poll, awaiting] using a.poll_awaiting s
  | execution e =>
    simp only [poll, Progress.awaiting_mapWaiting, Progress.awaiting_map, awaiting]
    cases e.poll s <;> exact List.nil_sublist _

namespace Serving

theorem poll_system (c : Serving) (s : System) : (c.poll s).1 = s := by
  obtain ⟨id, h | call⟩ := c
  · exact (afterHandling_answers (h.poll_answers s) id s).1
  · rfl

theorem poll_awaiting (c : Serving) (s : System) :
    ((c.poll s).2.awaiting awaiting).Sublist c.awaiting := by
  obtain ⟨id, h | call⟩ := c
  · simp only [poll, (afterHandling_answers (h.poll_answers s) id s).2]
    exact h.poll_awaiting s
  · simp only [poll, awaitWallet]
    split <;> exact List.nil_sublist _

end Serving

namespace Slot

theorem poll_system (slot : Slot) (s : System) : (Slot.poll slot s).1 = s := by
  cases slot with
  | done r => rfl
  | waiting c => exact c.poll_system s

theorem poll_awaiting (slot : Slot) (s : System) :
    ((Slot.poll slot s).2.awaiting Serving.awaiting).Sublist (slot.awaiting Serving.awaiting) := by
  cases slot with
  | done r => exact .refl _
  | waiting c => exact c.poll_awaiting s

theorem thread_poll : ∀ (slots : List Slot) (s : System),
    (System.thread Slot.poll slots s).1 = s ∧
      ((System.thread Slot.poll slots s).2.flatMap (Progress.awaiting Serving.awaiting)).Sublist
        (slots.flatMap (Progress.awaiting Serving.awaiting))
  | [], s => ⟨rfl, .refl _⟩
  | slot :: rest, s => by
    obtain ⟨hsystem, hawaiting⟩ := thread_poll rest (Slot.poll slot s).1
    refine ⟨hsystem.trans (poll_system slot s), ?_⟩
    simp only [System.thread, List.flatMap_cons]
    exact (poll_awaiting slot s).append hawaiting

end Slot

namespace Answering

theorem poll_spec (a : Answering) (s : System) :
    (a.poll s).1 = s ∧ ((a.poll s).2.awaiting awaiting).Sublist a.awaiting := by
  cases a with
  | single c =>
    refine ⟨c.poll_system s, ?_⟩
    simpa [poll, ofSingle, awaiting] using c.poll_awaiting s
  | batch slots =>
    obtain ⟨hsystem, hawaiting⟩ := Slot.thread_poll slots s
    refine ⟨hsystem, ?_⟩
    simp only [poll, awaiting_ofSlots]
    exact hawaiting

theorem pollCall_spec (i : Nat) (a : Answering) (s : System) :
    (a.pollCall i s).1 = s ∧ ((a.pollCall i s).2.awaiting awaiting).Sublist a.awaiting := by
  cases a with
  | single c => exact ⟨rfl, .refl _⟩
  | batch slots =>
    rcases h : slots[i]? with _ | slot
    · simp only [pollCall, h]
      exact ⟨trivial, .refl _⟩
    · simp only [pollCall, h, awaiting_ofSlots]
      refine ⟨slot.poll_system s, ?_⟩
      obtain ⟨hi, rfl⟩ := List.getElem?_eq_some_iff.1 h
      rw [awaiting, List.set_eq_take_append_cons_drop, if_pos hi]
      conv_rhs => rw [← List.take_append_drop i slots, List.drop_eq_getElem_cons hi]
      simp only [List.flatMap_append, List.flatMap_cons]
      exact (List.Sublist.refl _).append ((Slot.poll_awaiting _ s).append (.refl _))

end Answering

/-! ### What waits on waits as before -/

theorem Executing.poll_waiting {x y : Executing} {s : System} (h : x.poll s = .waiting y) :
    y = x := by
  rw [poll] at h
  split at h
  · exact (Progress.waiting.inj h).symm
  · cases h

theorem Awaiting.poll_waiting {a b : Awaiting} {s : System} (h : a.poll s = .waiting b) :
    b = a := by
  unfold poll at h
  split at h
  · exact (Progress.waiting.inj h).symm
  · cases h
  · cases h
  · cases h

theorem AwaitingAccounts.poll_waiting {a b : AwaitingAccounts} {s : System}
    (h : a.poll s = .waiting b) : b = a := by
  obtain ⟨d, hd, rfl⟩ := Progress.waiting_of_mapWaiting h
  rw [Awaiting.poll_waiting hd]

theorem Handling.poll_waiting {x y : Handling} {s : System} (h : x.poll s = .waiting y) :
    y = x := by
  cases x with
  | permissions a =>
    obtain ⟨b, hb, rfl⟩ := Progress.waiting_of_mapWaiting h
    rw [Awaiting.poll_waiting hb]
  | accounts a =>
    obtain ⟨b, hb, rfl⟩ := Progress.waiting_of_mapWaiting h
    rw [AwaitingAccounts.poll_waiting hb]
  | execution e =>
    obtain ⟨f, hf, rfl⟩ := Progress.waiting_of_mapWaiting h
    rw [Executing.poll_waiting hf]

theorem Serving.poll_waiting {x y : Serving} {s t : System} (h : x.poll s = (t, .waiting y)) :
    y = x := by
  obtain ⟨id, handling | call⟩ := x
  · have hanswers := handling.poll_answers s
    simp only [poll] at h
    rcases hpoll : handling.poll s with d | other
    · rw [hpoll] at h hanswers
      cases d with
      | answered outcome => cases h
      | passedOn call => exact absurd rfl (hanswers call)
    · rw [hpoll] at h
      rw [← Handling.poll_waiting hpoll]
      exact (Progress.waiting.inj (congrArg Prod.snd h)).symm
  · simp only [poll, awaitWallet] at h
    split at h
    · exact (Progress.waiting.inj (congrArg Prod.snd h)).symm
    · cases h

theorem Approving.poll_cases (a : Approving) (s : System) :
    a.poll s = (s, .waiting a) ∨ ∃ checked, a.check s = .done checked ∧
      a.poll s = ((a.finish checked s).1, .done (a.finish checked s).2) := by
  unfold poll
  split
  · rename_i b h
    refine .inl ?_
    have hb : b = a := by
      unfold check at h
      split at h
      · cases h
      · repeat' split at h
        all_goals cases h
        rfl
    rw [hb]
  · rename_i checked h
    exact .inr ⟨checked, h, rfl⟩

namespace Waiter

variable {act : Action} {n : Nat} {w : Waiter} {s t : System} {p : Progress Waiter Result}

/-- Taking up anything but an approval changes nothing. -/
theorem system_of_takesUp (hw : ∀ a, w ≠ approve a) (h : act.TakesUp n w s t p) : t = s := by
  rcases h with ⟨-, h⟩ | ⟨i, -, h⟩
  · rw [show t = (w.poll s).1 by rw [h]]
    cases w with
    | request a => exact (a.poll_spec s).1
    | approve a => exact absurd rfl (hw a)
    | _ => rfl
  · rw [show t = (w.pollCall i s).1 by rw [h]]
    cases w with
    | request a => exact (a.pollCall_spec i s).1
    | _ => rfl

/-- What still waits awaits nothing that it did not await before. -/
theorem awaiting_of_takesUp (h : act.TakesUp n w s t p) :
    (p.awaiting awaiting).Sublist w.awaiting := by
  rcases h with ⟨-, h⟩ | ⟨i, -, h⟩
  · rw [show p = (w.poll s).2 by rw [h]]
    cases w with
    | call handling => simpa [poll, awaiting] using handling.poll_awaiting s
    | request a => simpa [poll, awaiting] using (a.poll_spec s).2
    | requestAccounts a => simpa [poll, awaiting] using a.poll_awaiting s
    | requestPermissions a => simpa [poll, awaiting] using a.poll_awaiting s
    | approve a =>
      simp only [poll, Progress.awaiting_mapWaiting, Progress.awaiting_map, awaiting]
      cases (a.poll s).2 <;> exact List.nil_sublist _
    | execute e =>
      simp only [poll, Progress.awaiting_mapWaiting, Progress.awaiting_map, awaiting]
      cases e.poll s <;> exact List.nil_sublist _
    | ticket t =>
      simp only [poll, pollTicket]
      split <;> exact List.nil_sublist _
  · rw [show p = (w.pollCall i s).2 by rw [h]]
    cases w with
    | request a => simpa [pollCall, awaiting] using (a.pollCall_spec i s).2
    | _ => exact .refl _

/-- Two operations wait in the same way. -/
inductive SameKind : Waiter → Waiter → Prop where
  | call (a b : Handling) : SameKind (call a) (call b)
  | request (a b : Answering) : SameKind (request a) (request b)
  | requestAccounts (a b : AwaitingAccounts) : SameKind (requestAccounts a) (requestAccounts b)
  | requestPermissions (a b : Awaiting) : SameKind (requestPermissions a) (requestPermissions b)
  | approve (a b : Approving) : SameKind (approve a) (approve b)
  | execute (a b : Executing) : SameKind (execute a) (execute b)
  | ticket (t u : Ticket) : SameKind (ticket t) (ticket u)

theorem SameKind.refl (w : Waiter) : SameKind w w := by cases w <;> constructor

/-- What still waits when it was taken up waits in the same way. -/
theorem sameKind_of_takesUp {v : Waiter} (h : act.TakesUp n w s t (.waiting v)) : SameKind w v := by
  rcases h with ⟨-, h⟩ | ⟨i, -, h⟩
  · have hp := congrArg Prod.snd h
    cases w with
    | call a => obtain ⟨b, -, rfl⟩ := Progress.waiting_of_mapWaiting hp; exact .call a b
    | request a => obtain ⟨b, -, rfl⟩ := Progress.waiting_of_mapWaiting hp; exact .request a b
    | requestAccounts a =>
      obtain ⟨b, -, rfl⟩ := Progress.waiting_of_mapWaiting hp
      exact .requestAccounts a b
    | requestPermissions a =>
      obtain ⟨b, -, rfl⟩ := Progress.waiting_of_mapWaiting hp
      exact .requestPermissions a b
    | approve a => obtain ⟨b, -, rfl⟩ := Progress.waiting_of_mapWaiting hp; exact .approve a b
    | execute a => obtain ⟨b, -, rfl⟩ := Progress.waiting_of_mapWaiting hp; exact .execute a b
    | ticket u =>
      simp only [poll, pollTicket] at hp
      split at hp
      · cases hp
        exact .ticket u u
      · cases hp
      · cases hp
      · cases hp
  · have hp := congrArg Prod.snd h
    cases w with
    | request a => obtain ⟨b, -, rfl⟩ := Progress.waiting_of_mapWaiting hp; exact .request a b
    | _ =>
      cases hp
      exact .refl _

theorem holdsGate_of_takesUp {v : Waiter} (hw : w.holdsGate = true)
    (h : act.TakesUp n w s t (.waiting v)) : v.holdsGate = true := by
  cases sameKind_of_takesUp h with
  | ticket t u => exact hw
  | _ => rfl

/-- An approval that still waits is the one that was taken up, and has changed nothing. -/
theorem approve_of_takesUp {a : Approving} (h : act.TakesUp n w s t (.waiting (approve a))) :
    w = approve a ∧ t = s := by
  cases sameKind_of_takesUp h with
  | approve b a =>
    rcases h with ⟨-, h⟩ | ⟨i, -, h⟩
    · rcases b.poll_cases s with hb | ⟨checked, -, hb⟩
      · simp only [poll, hb] at h
        cases h
        exact ⟨rfl, rfl⟩
      · simp only [poll, hb] at h
        cases h
    · cases h
      exact ⟨rfl, rfl⟩

/-- Anything but a batch that waits on waits as before. -/
theorem poll_waiting {v : Waiter} (unbatched : ∀ slots, w ≠ request (.batch slots))
    (h : w.poll s = (t, .waiting v)) : v = w := by
  have hp := congrArg Prod.snd h
  cases w with
  | call a =>
    obtain ⟨b, hb, rfl⟩ := Progress.waiting_of_mapWaiting hp
    rw [Handling.poll_waiting hb]
  | request a =>
    obtain ⟨b, hb, rfl⟩ := Progress.waiting_of_mapWaiting hp
    cases a with
    | single c =>
      obtain ⟨d, hd, rfl⟩ := Progress.waiting_of_mapWaiting hb
      rw [Serving.poll_waiting (Prod.ext rfl hd)]
    | batch slots => exact absurd rfl (unbatched slots)
  | requestAccounts a =>
    obtain ⟨b, hb, rfl⟩ := Progress.waiting_of_mapWaiting hp
    rw [AwaitingAccounts.poll_waiting hb]
  | requestPermissions a =>
    obtain ⟨b, hb, rfl⟩ := Progress.waiting_of_mapWaiting hp
    rw [Awaiting.poll_waiting hb]
  | approve a =>
    rcases a.poll_cases s with ha | ⟨checked, -, ha⟩
    · simp only [poll, ha] at hp
      exact (Progress.waiting.inj hp).symm
    · simp only [poll, ha] at hp
      cases hp
  | execute e =>
    obtain ⟨f, hf, rfl⟩ := Progress.waiting_of_mapWaiting hp
    rw [Executing.poll_waiting hf]
  | ticket u =>
    simp only [poll, pollTicket] at hp
    split at hp
    · exact (Progress.waiting.inj hp).symm
    · cases hp
    · cases hp
    · cases hp

theorem eq_of_takesUp {v : Waiter} (unbatched : ∀ slots, w ≠ request (.batch slots))
    (h : act.TakesUp n w s t (.waiting v)) : v = w := by
  rcases h with ⟨-, hpoll⟩ | ⟨i, -, hcall⟩
  · exact poll_waiting unbatched hpoll
  · cases w with
    | request a =>
      cases a with
      | single c => exact (Progress.waiting.inj (congrArg Prod.snd hcall)).symm
      | batch slots => exact absurd rfl (unbatched slots)
    | _ => exact (Progress.waiting.inj (congrArg Prod.snd hcall)).symm

end Waiter

end OriginGate
