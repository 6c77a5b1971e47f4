import OriginGate.Proofs.Agreement
import OriginGate.Proofs.Concerns

/-!
# Tickets under other numbers

Systems that agree on an origin may have issued different numbers of tickets to others. What is done
for the origin is the same in both then, but for the numbers of the tickets.

* `Waiter.rename` : an operation that waits, with its tickets under other numbers;
* `System.StandAlike` : the tickets of some decisions stand as they do under other numbers;
* `Waiter.poll_rename`, `Waiter.pollCall_rename` : an operation whose tickets stand alike goes on
  alike;
* `System.InStep` : two systems agree, and their next tickets have the numbers that are renamed;
* `Operation.begin_agrees` : an operation on behalf of the origin begins alike in both.
-/

namespace OriginGate

/-! ## Renaming -/

def Awaiting.rename (f : Ticket → Ticket) (a : Awaiting) : Awaiting :=
  { a with ticket := f a.ticket }

def AwaitingAccounts.rename (f : Ticket → Ticket) (a : AwaitingAccounts) : AwaitingAccounts :=
  { a with decision := a.decision.rename f }

def Handling.rename (f : Ticket → Ticket) : Handling → Handling
  | permissions a => permissions (a.rename f)
  | accounts a => accounts (a.rename f)
  | execution e => execution e

def Serving.Stage.rename (f : Ticket → Ticket) : Serving.Stage → Serving.Stage
  | handling h => handling (h.rename f)
  | sent call => sent call

def Serving.rename (f : Ticket → Ticket) (c : Serving) : Serving := ⟨c.id, c.stage.rename f⟩

def Slot.rename (f : Ticket → Ticket) (slot : Slot) : Slot := slot.mapWaiting (Serving.rename f)

def Answering.rename (f : Ticket → Ticket) : Answering → Answering
  | single c => single (c.rename f)
  | batch slots => batch (slots.map (Slot.rename f))

/-- An operation that waits, with its tickets under other numbers. -/
def Waiter.rename (f : Ticket → Ticket) : Waiter → Waiter
  | call h => call (h.rename f)
  | request a => request (a.rename f)
  | requestAccounts a => requestAccounts (a.rename f)
  | requestPermissions a => requestPermissions (a.rename f)
  | approve a => approve a
  | execute e => execute e
  | ticket t => ticket (f t)

/-- The tickets of some decisions stand in one system as they do under other numbers in another. -/
def System.StandAlike (f : Ticket → Ticket) (ds : List Awaiting) (s t : System) : Prop :=
  ∀ d ∈ ds, t.world.tickets.status (f d.ticket) = s.world.tickets.status d.ticket

variable {o : Origin} {f : Ticket → Ticket} {s t : System}

theorem System.StandAlike.mono {ds es : List Awaiting} (h : StandAlike f ds s t)
    (sub : ∀ d ∈ es, d ∈ ds) : StandAlike f es s t :=
  fun d hd => h d (sub d hd)

/-- What is renamed first is renamed likewise in what it is put in. -/
theorem Progress.map_rename {σ τ α β : Type} {r : σ → σ} {r' : τ → τ} (g : α → β) {h : σ → τ}
    (comm : ∀ x, h (r x) = r' (h x)) (p : Progress σ α) :
    ((p.mapWaiting r).map g).mapWaiting h = ((p.map g).mapWaiting h).mapWaiting r' := by
  cases p with
  | done a => rfl
  | waiting x => exact congrArg Progress.waiting (comm x)

/-! ### Awaited decisions -/

theorem Handling.awaiting_rename (f : Ticket → Ticket) (a : Handling) :
    (a.rename f).awaiting = a.awaiting.map (Awaiting.rename f) := by
  cases a <;> rfl

theorem Serving.awaiting_rename (f : Ticket → Ticket) (c : Serving) :
    (c.rename f).awaiting = c.awaiting.map (Awaiting.rename f) := by
  obtain ⟨id, a | call⟩ := c
  · exact a.awaiting_rename f
  · rfl

theorem Slot.awaiting_rename (f : Ticket → Ticket) (slot : Slot) :
    (slot.rename f).awaiting Serving.awaiting =
      (slot.awaiting Serving.awaiting).map (Awaiting.rename f) := by
  cases slot with
  | done r => rfl
  | waiting c => exact c.awaiting_rename f

/-- What is renamed awaits the same decisions, with their tickets under other numbers. -/
theorem Waiter.awaiting_rename (f : Ticket → Ticket) (w : Waiter) :
    (w.rename f).awaiting = w.awaiting.map (Awaiting.rename f) := by
  cases w with
  | call a => exact a.awaiting_rename f
  | request a =>
    cases a with
    | single c => exact c.awaiting_rename f
    | batch slots =>
      simp only [rename, Answering.rename, awaiting, Answering.awaiting, List.flatMap_map,
        List.map_flatMap, Slot.awaiting_rename]
  | _ => rfl

/-! ### Batches -/

namespace Answering

theorem responses?_rename (f : Ticket → Ticket) (slots : List Slot) :
    responses? (slots.map (Slot.rename f)) = responses? slots := by
  have hdone : ∀ slot : Slot, (slot.rename f).done? = slot.done? := by
    intro slot
    cases slot <;> rfl
  simp only [responses?, List.mapM_map, Function.comp_def, hdone]

theorem ofSlots_rename (f : Ticket → Ticket) (slots : List Slot) :
    ofSlots (slots.map (Slot.rename f)) = (ofSlots slots).mapWaiting (rename f) := by
  unfold ofSlots
  rw [responses?_rename]
  split <;> rfl

theorem ofSingle_rename (f : Ticket → Ticket) (slot : Slot) :
    ofSingle (slot.rename f) = (ofSingle slot).mapWaiting (rename f) :=
  Progress.map_rename _ (by intro; rfl) slot

end Answering

/-! ## Going on -/

theorem Awaiting.poll_rename {a : Awaiting} (stands : System.StandAlike f [a] s t) :
    (a.rename f).poll t = (a.poll s).mapWaiting (rename f) := by
  unfold poll
  rw [show t.world.tickets.status (a.rename f).ticket = _ from stands a (List.mem_singleton_self a)]
  split <;> rfl

theorem AwaitingAccounts.finish_agrees (h : s.Agrees o t) : finish o t = finish o s := by
  funext d
  cases d with
  | error e => rfl
  | ok ps => simp only [finish, h.accounts]

theorem AwaitingAccounts.poll_rename {a : AwaitingAccounts} (h : s.Agrees o t) (ha : a.origin = o)
    (stands : System.StandAlike f [a.decision] s t) :
    (a.rename f).poll t = (a.poll s).mapWaiting (rename f) := by
  subst ha
  unfold poll
  rw [show (a.rename f).decision.poll t = _ from Awaiting.poll_rename stands,
    show finish (a.rename f).origin t = _ from finish_agrees h]
  exact Progress.map_rename _ (by intro; rfl) _

namespace Executing

theorem result_agrees (h : s.Agrees o t) {e : Executing} (he : e.Concerns o) :
    e.result t = e.result s := by
  cases e with
  | accounts q p =>
    cases he
    simp only [result, rawResult, h.accounts, h.wallet.accounts]
  | call c p => simp only [result, rawResult, h.wallet.answer]

theorem poll_agrees (h : s.Agrees o t) {e : Executing} (he : e.Concerns o) :
    e.poll t = e.poll s := by
  rw [poll, poll, h.wallet.busy, result_agrees h he]

end Executing

theorem Handling.poll_rename {a : Handling} (h : s.Agrees o t) (ha : a.Concerns o)
    (stands : System.StandAlike f a.awaiting s t) :
    (a.rename f).poll t = (a.poll s).mapWaiting (rename f) := by
  cases a with
  | permissions b =>
    simp only [rename, poll, Awaiting.poll_rename stands]
    exact Progress.map_rename _ (by intro; rfl) _
  | accounts b =>
    simp only [rename, poll, AwaitingAccounts.poll_rename h ha stands]
    exact Progress.map_rename _ (by intro; rfl) _
  | execution e =>
    simp only [rename, poll, Executing.poll_agrees h ha]
    cases e.poll s <;> rfl

theorem System.Agrees.send (h : s.Agrees o t) (call : Rpc.MethodCall) :
    (s.send call).Agrees o (t.send call) :=
  ⟨h.registry, h.validateAccounts, h.store, h.pending,
    ⟨h.wallet.accounts, h.wallet.answer, h.wallet.busy⟩, h.supply⟩

namespace Serving

theorem awaitWallet_rename (h : s.Agrees o t) (id : Option Rpc.Id) (call : Rpc.MethodCall) :
    awaitWallet id call t = (awaitWallet id call s).mapWaiting (rename f) := by
  unfold awaitWallet
  rw [h.wallet.busy, h.wallet.answer]
  split <;> rfl

theorem afterHandling_rename (h : s.Agrees o t) (id : Option Rpc.Id)
    (p : Progress Handling Dispatch) :
    (afterHandling id t (p.mapWaiting (Handling.rename f))).2 =
      (afterHandling id s p).2.mapWaiting (rename f) := by
  cases p with
  | waiting a => rfl
  | done d =>
    cases d with
    | answered outcome => rfl
    | passedOn call => exact awaitWallet_rename (h.send call) id call

theorem poll_rename {c : Serving} (h : s.Agrees o t) (hc : c.Concerns o)
    (stands : System.StandAlike f c.awaiting s t) :
    ((c.rename f).poll t).2 = (c.poll s).2.mapWaiting (rename f) := by
  obtain ⟨id, a | call⟩ := c
  · have ha := Handling.poll_rename (a := a) h hc stands
    simp only [rename, Stage.rename, poll, ha]
    exact afterHandling_rename h id _
  · exact awaitWallet_rename h id call

end Serving

namespace Slot

theorem poll_rename (slot : Slot) (h : s.Agrees o t)
    (hslot : Progress.Waits (Serving.Concerns o) slot)
    (stands : System.StandAlike f (slot.awaiting Serving.awaiting) s t) :
    (Slot.poll (slot.rename f) t).2 = (Slot.poll slot s).2.rename f := by
  cases slot with
  | done r => rfl
  | waiting c => exact c.poll_rename h hslot stands

theorem thread_poll_rename (h : s.Agrees o t) : ∀ slots : List Slot,
    (∀ slot ∈ slots, Progress.Waits (Serving.Concerns o) slot) →
    System.StandAlike f (slots.flatMap (Progress.awaiting Serving.awaiting)) s t →
    (System.thread Slot.poll (slots.map (rename f)) t).2 =
      (System.thread Slot.poll slots s).2.map (rename f)
  | [], _, _ => rfl
  | slot :: rest, hslots, stands => by
    have hfirst := poll_rename slot h (hslots slot List.mem_cons_self)
      (stands.mono fun d hd => List.mem_flatMap.2 ⟨slot, List.mem_cons_self, hd⟩)
    have hrest := thread_poll_rename h rest (fun c hc => hslots c (List.mem_cons_of_mem _ hc))
      (stands.mono fun d hd => by
        obtain ⟨c, hc, hd⟩ := List.mem_flatMap.1 hd
        exact List.mem_flatMap.2 ⟨c, List.mem_cons_of_mem _ hc, hd⟩)
    simp only [System.thread, List.map_cons, hfirst, poll_system, hrest]

end Slot

namespace Answering

theorem poll_rename {a : Answering} (h : s.Agrees o t) (ha : a.Concerns o)
    (stands : System.StandAlike f a.awaiting s t) :
    ((a.rename f).poll t).2 = (a.poll s).2.mapWaiting (rename f) := by
  cases a with
  | single c =>
    simp only [rename, poll, c.poll_rename h ha stands]
    exact ofSingle_rename f _
  | batch slots =>
    simp only [rename, poll, Slot.thread_poll_rename h slots ha stands]
    exact ofSlots_rename f _

theorem pollCall_rename {a : Answering} (h : s.Agrees o t) (ha : a.Concerns o)
    (stands : System.StandAlike f a.awaiting s t) (i : Nat) :
    ((a.rename f).pollCall i t).2 = (a.pollCall i s).2.mapWaiting (rename f) := by
  cases a with
  | single c => rfl
  | batch slots =>
    rcases hslot : slots[i]? with _ | slot
    · simp only [rename, pollCall, List.getElem?_map, hslot, Option.map_none]
      rfl
    · have hmem := List.mem_of_getElem? hslot
      have hpoll := Slot.poll_rename slot h (ha slot hmem)
        (stands.mono fun d hd => List.mem_flatMap.2 ⟨slot, hmem, hd⟩)
      simp only [rename, pollCall, List.getElem?_map, hslot, Option.map_some, hpoll,
        ← List.map_set]
      exact ofSlots_rename f _

end Answering

namespace Waiter

/-- An operation that concerns the origin, and whose tickets stand alike, goes on alike. -/
theorem poll_rename {w : Waiter} (h : s.Agrees o t) (hw : w.Concerns o)
    (stands : System.StandAlike f w.awaiting s t)
    (finds : ∀ a, w = approve a → System.Finds o a.approved.id s t) :
    (w.poll s).1.Agrees o ((w.rename f).poll t).1 ∧
      ((w.rename f).poll t).2 = (w.poll s).2.mapWaiting (rename f) := by
  cases w with
  | call a =>
    refine ⟨h, ?_⟩
    simp only [rename, poll, Handling.poll_rename h hw stands]
    exact Progress.map_rename _ (by intro; rfl) _
  | request a =>
    refine ⟨?_, ?_⟩
    · simp only [rename, poll, (a.poll_spec s).1, ((a.rename f).poll_spec t).1]
      exact h
    · simp only [rename, poll, Answering.poll_rename h hw stands]
      exact Progress.map_rename _ (by intro; rfl) _
  | requestAccounts a =>
    refine ⟨h, ?_⟩
    simp only [rename, poll, AwaitingAccounts.poll_rename h hw stands]
    exact Progress.map_rename _ (by intro; rfl) _
  | requestPermissions a =>
    refine ⟨h, ?_⟩
    simp only [rename, poll, Awaiting.poll_rename stands]
    exact Progress.map_rename _ (by intro; rfl) _
  | approve a =>
    obtain ⟨hsystems, hdecision⟩ := Approving.poll_agrees h hw (finds a rfl)
    refine ⟨hsystems, ?_⟩
    simp only [rename, poll, hdecision]
    cases (a.poll s).2 <;> rfl
  | execute e =>
    refine ⟨h, ?_⟩
    simp only [rename, poll, Executing.poll_agrees h hw]
    cases e.poll s <;> rfl
  | ticket k => exact hw.elim

theorem pollCall_rename {w : Waiter} (h : s.Agrees o t) (hw : w.Concerns o)
    (stands : System.StandAlike f w.awaiting s t) (i : Nat) :
    (w.pollCall i s).1.Agrees o ((w.rename f).pollCall i t).1 ∧
      ((w.rename f).pollCall i t).2 = (w.pollCall i s).2.mapWaiting (rename f) := by
  cases w with
  | request a =>
    refine ⟨?_, ?_⟩
    · simp only [rename, pollCall, (a.pollCall_spec i s).1, ((a.rename f).pollCall_spec i t).1]
      exact h
    · simp only [rename, pollCall, Answering.pollCall_rename h hw stands]
      exact Progress.map_rename _ (by intro; rfl) _
  | _ => exact ⟨h, rfl⟩

end Waiter

/-! ## Beginning -/

/-- Two systems agree on an origin, and their next tickets have the numbers that are renamed. -/
structure System.InStep (o : Origin) (f : Ticket → Ticket) (s t : System) : Prop
    extends System.Agrees o s t where
  shift : ∀ k, f (s.world.tickets.statuses.length + k) = t.world.tickets.statuses.length + k

/-- The number under which the next tickets of one system are issued in another. -/
def System.shift (s t : System) (k : Ticket) : Ticket :=
  k - s.world.tickets.statuses.length + t.world.tickets.statuses.length

theorem System.Agrees.inStep (h : s.Agrees o t) : s.InStep o (s.shift t) t := by
  refine ⟨h, fun k => ?_⟩
  rw [shift, Nat.add_sub_cancel_left, Nat.add_comm]

/-- Two operations end alike or wait alike but for their tickets, and leave systems in step. -/
structure Alike {σ α : Type} (o : Origin) (f : Ticket → Ticket) (rename : σ → σ)
    (x y : System × Progress σ α) : Prop where
  systems : x.1.InStep o f y.1
  progress : y.2 = x.2.mapWaiting rename

theorem System.InStep.done {σ α : Type} (h : s.InStep o f t) (rename : σ → σ) (a : α) :
    Alike o f rename (s, .done a) (t, .done a) :=
  ⟨h, rfl⟩

theorem Alike.map {σ τ α β : Type} {r : σ → σ} {r' : τ → τ} {x y : System × Progress σ α}
    (h : Alike o f r x y) (g : α → β) {k : σ → τ} (comm : ∀ a, k (r a) = r' (k a)) :
    Alike o f r' (x.1, (x.2.map g).mapWaiting k) (y.1, (y.2.map g).mapWaiting k) := by
  refine ⟨h.systems, ?_⟩
  rw [h.progress]
  exact Progress.map_rename g comm x.2

namespace System.InStep

variable (h : s.InStep o f t)
include h

theorem register (permissions : RequestedPermissions) (metadata : Option SiteMetadata) :
    (s.register o permissions metadata).1.InStep o f (t.register o permissions metadata).1 ∧
      (t.register o permissions metadata).2 =
        (s.register o permissions metadata).2.map fun r => (r.1, f r.2) := by
  obtain ⟨hsupply, hid⟩ := h.supply.drawRequestId
  have hticket := h.shift 0
  unfold System.register
  rw [h.pending.idFor]
  split
  · exact ⟨h, rfl⟩
  · refine ⟨⟨⟨h.registry, h.validateAccounts, h.store, .add rfl ?_, h.wallet, hsupply⟩, ?_⟩, ?_⟩
    · simp only [hid]
    · intro k
      have hshift := h.shift (1 + k)
      simp only [Tickets.issue, List.length_append, List.length_singleton]
      rwa [← Nat.add_assoc, ← Nat.add_assoc] at hshift
    · simp only [hid]
      exact congrArg (fun k => Except.ok (_, k)) hticket.symm

theorem requestPermissions (requested : RequestedPermissions) :
    Alike o f (Awaiting.rename f) (s.requestPermissions o requested)
      (t.requestPermissions o requested) := by
  obtain ⟨hsystems, hresult⟩ := h.register requested (s.gate.state.siteMetadata? o)
  unfold System.requestPermissions
  rw [h.validate, h.siteMetadata?]
  split
  · exact h.done _ _
  · rcases hs : s.register o requested (s.gate.state.siteMetadata? o) with ⟨s', e | ⟨id, k⟩⟩ <;>
      rcases ht : t.register o requested (s.gate.state.siteMetadata? o) with ⟨t', e' | ⟨id', k'⟩⟩ <;>
      rw [hs, ht] at hsystems hresult <;> cases hresult
    · exact hsystems.done _ _
    · exact ⟨hsystems, rfl⟩

theorem requestAccounts :
    Alike o f (AwaitingAccounts.rename f) (s.requestAccounts o) (t.requestAccounts o) := by
  have halike := h.requestPermissions (.single accountsMethod)
  unfold System.requestAccounts
  rw [h.accounts]
  split
  · simp only [AwaitingAccounts.finish_agrees halike.systems.toAgrees]
    exact halike.map _ fun _ => rfl
  · exact h.done _ _

theorem send (call : Rpc.MethodCall) : (s.send call).InStep o f (t.send call) :=
  ⟨h.toAgrees.send call, h.shift⟩

theorem execute (method : String) (params : Json) :
    Alike o f id (s.execute o method params) (t.execute o method params) := by
  have hsame : ∀ {s t : System} {e : Executing}, s.InStep o f t → e.Concerns o →
      Alike o f id (s, e.poll s) (t, e.poll t) := by
    intro s t e h he
    refine ⟨h, ?_⟩
    simp only [Executing.poll_agrees h.toAgrees he]
    cases e.poll s <;> rfl
  unfold System.execute
  rw [h.authorize, h.registry]
  split
  · exact h.done _ _
  · rename_i permission sent _
    split
    · exact hsame (e := .accounts o permission) h rfl
    · exact hsame (e := .call _ permission) (h.send _) trivial

theorem recordMetadata (report : Option SiteReport) (extensionId : Option String) :
    (s.recordMetadata o report extensionId).1.InStep o f
        (t.recordMetadata o report extensionId).1 ∧
      (t.recordMetadata o report extensionId).2 = (s.recordMetadata o report extensionId).2 := by
  obtain ⟨hsystems, hresult⟩ := h.toAgrees.recordMetadata report extensionId
  refine ⟨⟨hsystems, ?_⟩, hresult⟩
  unfold System.recordMetadata
  split <;> exact h.shift

theorem serve (method : WalletMethod) (extensionId : Option String) (params : Rpc.Params) :
    Alike o f (Handling.rename f) (s.serve method ⟨o, extensionId⟩ params)
      (t.serve method ⟨o, extensionId⟩ params) := by
  cases method with
  | requestPermissions =>
    simp only [System.serve]
    split
    · exact h.done _ _
    · rename_i requested _
      exact (h.requestPermissions requested).map _ fun _ => rfl
  | getPermissions =>
    simp only [System.serve, h.permissions]
    exact h.done _ _
  | requestAccounts => exact h.requestAccounts.map _ fun _ => rfl
  | accounts =>
    simp only [System.serve, h.accounts]
    exact h.done _ _
  | sendSiteMetadata =>
    obtain ⟨hsystems, hresult⟩ := h.recordMetadata params.siteReport? extensionId
    simp only [System.serve, hresult]
    exact hsystems.done _ _
  | logUsage =>
    simp only [System.serve]
    split
    · exact h.done _ _
    · rename_i event _
      exact ⟨⟨h.toAgrees.logUsage event, h.shift⟩, rfl⟩

theorem handle (extensionId : Option String) (call : Rpc.MethodCall) :
    Alike o f (Handling.rename f) (s.handle ⟨o, extensionId⟩ call)
      (t.handle ⟨o, extensionId⟩ call) := by
  unfold System.handle
  rw [h.registry]
  split
  · exact h.serve _ extensionId call.params
  · split
    · exact (h.execute call.method call.params.json).map _ fun _ => rfl
    · exact h.done _ _

theorem beginCall (extensionId : Option String) (id : Option Rpc.Id) (call : Rpc.MethodCall) :
    Alike o f (Serving.rename f) (s.beginCall ⟨o, extensionId⟩ id call)
      (t.beginCall ⟨o, extensionId⟩ id call) := by
  have halike := h.handle extensionId call
  have hsystems := halike.systems
  unfold System.beginCall
  simp only [halike.progress]
  refine ⟨?_, Serving.afterHandling_rename hsystems.toAgrees id _⟩
  cases (s.handle ⟨o, extensionId⟩ call).2 with
  | waiting a => exact hsystems
  | done d =>
    cases d with
    | answered outcome => exact hsystems
    | passedOn sent => exact hsystems.send sent

theorem serveCall (extensionId : Option String) (call : Rpc.Call) :
    Alike o f (Serving.rename f) (s.serveCall ⟨o, extensionId⟩ call)
      (t.serveCall ⟨o, extensionId⟩ call) := by
  cases call with
  | method c => exact h.beginCall extensionId _ c
  | notification n => exact h.beginCall extensionId _ _
  | invalid id => exact h.done _ _

theorem thread_serveCall (extensionId : Option String) (calls : List Rpc.Call) :
    (thread (System.serveCall ⟨o, extensionId⟩) calls s).1.InStep o f
        (thread (System.serveCall ⟨o, extensionId⟩) calls t).1 ∧
      (thread (System.serveCall ⟨o, extensionId⟩) calls t).2 =
        (thread (System.serveCall ⟨o, extensionId⟩) calls s).2.map (Slot.rename f) := by
  induction calls generalizing s t with
  | nil => exact ⟨h, rfl⟩
  | cons call rest ih =>
    have hfirst := h.serveCall extensionId call
    obtain ⟨hsystems, hslots⟩ := ih hfirst.systems
    refine ⟨hsystems, ?_⟩
    simp only [thread, List.map_cons, hfirst.progress, hslots]
    rfl

theorem answer (extensionId : Option String) (request : Rpc.Request) :
    Alike o f (Answering.rename f) (s.answer ⟨o, extensionId⟩ request)
      (t.answer ⟨o, extensionId⟩ request) := by
  cases request with
  | single call =>
    have halike := h.serveCall extensionId call
    refine ⟨halike.systems, ?_⟩
    simp only [System.answer, halike.progress]
    exact Answering.ofSingle_rename f _
  | batch calls =>
    obtain ⟨hsystems, hslots⟩ := h.thread_serveCall extensionId calls
    refine ⟨hsystems, ?_⟩
    simp only [System.answer, hslots]
    exact Answering.ofSlots_rename f _

end System.InStep

/-- An operation for the origin begins alike in systems that are in step. -/
theorem Operation.begin_alike {op : Operation} (h : s.InStep o f t) (site : op.site? = some o) :
    Alike o f (Waiter.rename f) (op.begin s) (op.begin t) := by
  cases op with
  | call caller c =>
    cases site
    exact (h.handle caller.extensionId c).map _ fun _ => rfl
  | request caller r =>
    cases site
    exact (h.answer caller.extensionId r).map _ fun _ => rfl
  | requestAccounts q =>
    cases site
    exact h.requestAccounts.map _ fun _ => rfl
  | requestPermissions q requested =>
    cases site
    exact (h.requestPermissions requested).map _ fun _ => rfl
  | approve approved accounts => cases site
  | execute q method params =>
    cases site
    exact (h.execute method params).map _ fun _ => rfl

/-- An operation on behalf of an origin begins alike in systems that agree on it. -/
theorem Operation.begin_agrees {op : Operation} (h : s.Agrees o t)
    (listed : s.gate.pending.Listed) (behalf : op.behalf? s = some o) :
    ∃ f, (op.begin s).1.Agrees o (op.begin t).1 ∧
      (op.begin t).2 = (op.begin s).2.mapWaiting (Waiter.rename f) ∧
      System.StandAlike f ((op.begin s).2.awaiting Waiter.awaiting) (op.begin s).1
        (op.begin t).1 := by
  rcases site : op.site? with _ | q
  · cases op with
    | approve approved accounts =>
      obtain ⟨r, hr, horigin⟩ := Option.map_eq_some_iff.1 behalf
      have hpoll := Approving.poll_agrees (a := ⟨approved, r.origin, accounts⟩) h horigin
        (h.finds listed hr horigin)
      refine ⟨id, ?_⟩
      rw [Session.awaiting_approve]
      simp only [begin, System.approve, hr, h.pending.find?_eq listed hr horigin]
      refine ⟨hpoll.1, ?_, fun d hd => absurd hd List.not_mem_nil⟩
      rw [hpoll.2]
      cases (Approving.poll ⟨approved, r.origin, accounts⟩ s).2 <;> rfl
    | _ => cases site
  · cases (behalf?_site site s).symm.trans behalf
    have halike := begin_alike h.inStep site
    obtain ⟨hs, hissued⟩ := (op.begin_served site s).issues
    obtain ⟨ht, -⟩ := (op.begin_served site t).issues
    refine ⟨_, halike.systems.toAgrees, halike.progress, fun d hd => ?_⟩
    -- What is awaited was issued last in both systems.
    obtain ⟨hle, hlt⟩ := hissued d hd
    rw [hs.unsettled hle hlt]
    refine ht.unsettled (Nat.le_add_left _ _) ?_
    have hlength : s.shift t (op.begin s).1.world.tickets.statuses.length =
      (op.begin t).1.world.tickets.statuses.length := halike.systems.shift 0
    rw [← hlength]
    exact Nat.add_lt_add_right (Nat.sub_lt_sub_right hle hlt) _

end OriginGate
