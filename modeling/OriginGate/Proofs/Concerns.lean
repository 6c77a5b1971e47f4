import OriginGate.Proofs.Ownership

/-!
# Whom a waiting operation concerns

* `Progress.Waits` : whatever an operation still waits with has a property;
* `Waiter.Concerns` : an operation reads, or grants, what is permitted to one origin only;
* `Operation.begin_concerns` : this is the origin on behalf of which it was begun;
* `Waiter.concerns_of_takesUp` : it stays so, however often the operation is taken up;
* `Session.concerns_run` : what waits in a run concerns the origin that it serves.
-/

namespace OriginGate

/-! ## What is waited with -/

namespace Progress

variable {σ τ α β : Type}

/-- Whatever an operation still waits with has a property. -/
def Waits (P : σ → Prop) : Progress σ α → Prop
  | done _ => True
  | waiting s => P s

@[simp] theorem waits_map (P : σ → Prop) (g : α → β) (p : Progress σ α) :
    (p.map g).Waits P ↔ p.Waits P := by
  cases p <;> rfl

@[simp] theorem waits_mapWaiting (P : τ → Prop) (g : σ → τ) (p : Progress σ α) :
    (p.mapWaiting g).Waits P ↔ p.Waits fun s => P (g s) := by
  cases p <;> rfl

@[simp] theorem waits_true (p : Progress σ α) : p.Waits fun _ => True := by
  cases p <;> trivial

end Progress

def Executing.Concerns (o : Origin) : Executing → Prop
  | accounts q _ => q = o
  | call _ _ => True

def Handling.Concerns (o : Origin) : Handling → Prop
  | permissions _ => True
  | accounts a => a.origin = o
  | execution e => e.Concerns o

def Serving.Concerns (o : Origin) (c : Serving) : Prop :=
  match c.stage with
  | .handling h => h.Concerns o
  | .sent _ => True

def Answering.Concerns (o : Origin) : Answering → Prop
  | single c => c.Concerns o
  | batch slots => ∀ slot ∈ slots, Progress.Waits (Serving.Concerns o) slot

/-- An operation reads, or grants, what is permitted to one origin only. A ticket alone tells no
origin. -/
def Waiter.Concerns (o : Origin) : Waiter → Prop
  | call h => h.Concerns o
  | request a => a.Concerns o
  | requestAccounts a => a.origin = o
  | requestPermissions _ => True
  | approve a => a.origin = o
  | execute e => e.Concerns o
  | ticket _ => False

variable {o : Origin}

/-! ## Beginning an operation -/

theorem Executing.poll_concerns {e : Executing} (h : e.Concerns o) (s : System) :
    (e.poll s).Waits (Concerns o) := by
  unfold poll
  split
  · exact h
  · trivial

namespace Serving

theorem awaitWallet_concerns (id : Option Rpc.Id) (call : Rpc.MethodCall) (s : System) :
    (awaitWallet id call s).Waits (Concerns o) := by
  unfold awaitWallet
  split <;> trivial

theorem afterHandling_concerns {p : Progress Handling Dispatch}
    (h : p.Waits (Handling.Concerns o)) (id : Option Rpc.Id) (s : System) :
    (afterHandling id s p).2.Waits (Concerns o) := by
  cases p with
  | waiting a => exact h
  | done d =>
    cases d with
    | answered outcome => trivial
    | passedOn call => exact awaitWallet_concerns id call _

end Serving

/-- What every step gives is given by all of them. -/
theorem System.thread_forall {α β : Type} {P : β → Prop} {step : α → System → System × β} :
    ∀ (l : List α) (s : System), (∀ a ∈ l, ∀ s, P (step a s).2) → ∀ b ∈ (thread step l s).2, P b
  | [], _, _ => fun _ hb => absurd hb List.not_mem_nil
  | a :: rest, s, h => fun b hb => by
    rcases List.mem_cons.1 hb with rfl | hb
    · exact h a List.mem_cons_self s
    · exact thread_forall rest _ (fun c hc => h c (List.mem_cons_of_mem _ hc)) b hb

theorem Answering.ofSlots_concerns {slots : List Slot}
    (h : ∀ slot ∈ slots, Progress.Waits (Serving.Concerns o) slot) :
    (ofSlots slots).Waits (Concerns o) := by
  unfold ofSlots
  split
  · trivial
  · exact h

namespace System

theorem execute_concerns (o : Origin) (method : String) (params : Json) (s : System) :
    (s.execute o method params).2.Waits (Executing.Concerns o) := by
  unfold execute
  split
  · trivial
  · split
    · exact Executing.poll_concerns (e := .accounts o _) rfl s
    · exact Executing.poll_concerns (e := .call _ _) trivial _

theorem requestAccounts_concerns (o : Origin) (s : System) :
    (s.requestAccounts o).2.Waits (·.origin = o) := by
  unfold requestAccounts
  split
  · simp
  · trivial

theorem serve_concerns (method : WalletMethod) (caller : Caller) (params : Rpc.Params)
    (s : System) :
    (s.serve method caller params).2.Waits (Handling.Concerns caller.origin) := by
  cases method with
  | requestPermissions =>
    simp only [serve]
    split
    · trivial
    · simp [Handling.Concerns]
  | requestAccounts =>
    simpa [serve, Handling.Concerns] using requestAccounts_concerns caller.origin s
  | logUsage =>
    simp only [serve]
    split <;> trivial
  | _ => trivial

theorem handle_concerns (caller : Caller) (call : Rpc.MethodCall) (s : System) :
    (s.handle caller call).2.Waits (Handling.Concerns caller.origin) := by
  unfold handle
  split
  · exact serve_concerns _ caller call.params s
  · split
    · simpa [Handling.Concerns] using execute_concerns caller.origin call.method _ s
    · trivial

theorem serveCall_concerns (caller : Caller) (call : Rpc.Call) (s : System) :
    (s.serveCall caller call).2.Waits (Serving.Concerns caller.origin) := by
  cases call with
  | method c => exact Serving.afterHandling_concerns (handle_concerns caller c s) _ _
  | notification n => exact Serving.afterHandling_concerns (handle_concerns caller _ s) _ _
  | invalid id => trivial

theorem answer_concerns (caller : Caller) (request : Rpc.Request) (s : System) :
    (s.answer caller request).2.Waits (Answering.Concerns caller.origin) := by
  cases request with
  | single call =>
    simpa [answer, Answering.ofSingle, Answering.Concerns] using serveCall_concerns caller call s
  | batch calls =>
    exact Answering.ofSlots_concerns
      (thread_forall calls s fun call _ s => serveCall_concerns caller call s)

end System

/-- An operation that waits concerns the origin on behalf of which it was begun. -/
theorem Operation.begin_concerns {op : Operation} {s : System} (h : op.behalf? s = some o) :
    (op.begin s).2.Waits (Waiter.Concerns o) := by
  cases op with
  | call caller c =>
    cases h
    simpa [begin, Waiter.Concerns] using System.handle_concerns caller c s
  | request caller r =>
    cases h
    simpa [begin, Waiter.Concerns] using System.answer_concerns caller r s
  | requestAccounts q =>
    cases h
    simpa [begin, Waiter.Concerns] using System.requestAccounts_concerns o s
  | requestPermissions q requested =>
    simp [begin, Waiter.Concerns]
  | approve approved accounts =>
    obtain ⟨r, hr, rfl⟩ := Option.map_eq_some_iff.1 h
    rcases System.approve_cases approved accounts s with ⟨hnone, -⟩ | ⟨q, hq, hpoll⟩
    · cases hnone.symm.trans hr
    · cases hq.symm.trans hr
      simp only [begin, hpoll, Progress.waits_mapWaiting, Progress.waits_map, Waiter.Concerns]
      rcases Approving.poll_cases ⟨approved, r.origin, accounts⟩ s with hw | ⟨checked, -, hd⟩
      · rw [hw]
        rfl
      · rw [hd]
        trivial
  | execute q method params =>
    cases h
    simpa [begin, Waiter.Concerns] using System.execute_concerns o method params s

/-- Whatever waits was begun on behalf of an origin. -/
theorem Operation.exists_behalf? {op : Operation} {s t : System} {w : Waiter}
    (h : op.begin s = (t, .waiting w)) : ∃ o, op.behalf? s = some o := by
  cases op with
  | approve approved accounts =>
    rcases System.approve_cases approved accounts s with ⟨-, hend⟩ | ⟨r, hr, -⟩
    · simp only [begin, hend] at h
      cases h
    · exact ⟨r.origin, by rw [behalf?, hr]; rfl⟩
  | _ => exact ⟨_, rfl⟩

/-! ## Taking up what waits -/

theorem Handling.poll_concerns {h : Handling} (hh : h.Concerns o) (s : System) :
    (h.poll s).Waits (Concerns o) := by
  cases h with
  | permissions a => simp [poll, Concerns]
  | accounts a =>
    have horigin : a.origin = o := hh
    simp [poll, AwaitingAccounts.poll, Concerns, horigin]
  | execution e => simpa [poll, Concerns] using e.poll_concerns hh s

theorem Serving.poll_concerns {c : Serving} (hc : c.Concerns o) (s : System) :
    (c.poll s).2.Waits (Concerns o) := by
  obtain ⟨id, h | call⟩ := c
  · exact afterHandling_concerns (h.poll_concerns hc s) id s
  · exact awaitWallet_concerns id call s

theorem Slot.poll_concerns {slot : Slot} (h : Progress.Waits (Serving.Concerns o) slot)
    (s : System) : Progress.Waits (Serving.Concerns o) (Slot.poll slot s).2 := by
  cases slot with
  | done r => trivial
  | waiting c => exact c.poll_concerns h s

namespace Answering

theorem poll_concerns {a : Answering} (h : a.Concerns o) (s : System) :
    (a.poll s).2.Waits (Concerns o) := by
  cases a with
  | single c => simpa [poll, ofSingle, Concerns] using c.poll_concerns h s
  | batch slots =>
    refine ofSlots_concerns (System.thread_forall slots s fun slot hslot s => ?_)
    exact Slot.poll_concerns (h slot hslot) s

theorem pollCall_concerns {a : Answering} (h : a.Concerns o) (i : Nat) (s : System) :
    (a.pollCall i s).2.Waits (Concerns o) := by
  cases a with
  | single c => exact h
  | batch slots =>
    rcases hslot : slots[i]? with _ | slot
    · simp only [pollCall, hslot]
      exact h
    · simp only [pollCall, hslot]
      refine ofSlots_concerns fun other hother => ?_
      rcases List.mem_or_eq_of_mem_set hother with hother | rfl
      · exact h other hother
      · exact Slot.poll_concerns (h slot (List.mem_of_getElem? hslot)) s

end Answering

/-- What is taken up and still waits concerns the same origin. -/
theorem Waiter.concerns_of_takesUp {a : Action} {n : Nat} {w : Waiter} {s t : System}
    {p : Progress Waiter Result} (hw : w.Concerns o) (h : a.TakesUp n w s t p) :
    p.Waits (Concerns o) := by
  rcases h with ⟨-, h⟩ | ⟨i, -, h⟩
  · rw [show p = (w.poll s).2 by rw [h]]
    cases w with
    | call handling => simpa [poll, Concerns] using handling.poll_concerns hw s
    | request a => simpa [poll, Concerns] using a.poll_concerns hw s
    | requestAccounts a =>
      have horigin : a.origin = o := hw
      simp [poll, AwaitingAccounts.poll, Concerns, horigin]
    | requestPermissions a => simp [poll, Concerns]
    | approve a =>
      simp only [poll, Progress.waits_mapWaiting, Progress.waits_map, Concerns]
      rcases a.poll_cases s with hwait | ⟨checked, -, hd⟩
      · rw [hwait]
        exact hw
      · rw [hd]
        trivial
    | execute e => simpa [poll, Concerns] using e.poll_concerns hw s
    | ticket t => exact hw.elim
  · rw [show p = (w.pollCall i s).2 by rw [h]]
    cases w with
    | request a => simpa [pollCall, Concerns] using a.pollCall_concerns hw i s
    | _ => exact hw

/-! ## Runs -/

namespace Session

variable {s : Session}

theorem concerned_run {settings : Settings} {w : World} (created : create settings w = .ok s)
    (actions : List Action) {v : Suspended} (hv : v ∈ (s.run actions).waiting) :
    ∃ q, s.Serves actions v.number q ∧ v.waiter.Concerns q := by
  have hu := undivided_create created
  induction actions using List.reverseRecOn generalizing v with
  | nil =>
    have hnone : (s.run []).waiting = [] := waiting_create created
    rw [hnone] at hv
    exact absurd hv List.not_mem_nil
  | append_singleton before a ih =>
    rw [run_snoc] at hv
    rcases waiting_after (undivided_run hu before) hv with
      ⟨hv, -⟩ | ⟨op, t, rfl, hbegin, hn⟩ | ⟨u, t, hsuspended, htakes⟩
    · obtain ⟨q, hserves, hconcerns⟩ := ih hv
      exact ⟨q, hserves.snoc a, hconcerns⟩
    · obtain ⟨q, hq⟩ := Operation.exists_behalf? hbegin
      have hconcerns := Operation.begin_concerns hq
      rw [hbegin] at hconcerns
      exact ⟨q, hn ▸ serves_started hq, hconcerns⟩
    · obtain ⟨hu', hn⟩ := mem_of_suspended? hsuspended
      obtain ⟨q, hserves, hconcerns⟩ := ih hu'
      exact ⟨q, hn ▸ hserves.snoc a, Waiter.concerns_of_takesUp hconcerns htakes⟩

/-- What waits in a run concerns the origin that it serves. -/
theorem concerns_run {settings : Settings} {w : World} (created : create settings w = .ok s)
    {actions : List Action} {v : Suspended} (hv : v ∈ (s.run actions).waiting)
    (serves : s.Serves actions v.number o) : v.waiter.Concerns o := by
  obtain ⟨q, hserves, hconcerns⟩ := concerned_run created actions hv
  exact serves.unique (undivided_create created) hserves ▸ hconcerns

end Session

end OriginGate
