import OriginGate.Proofs.Callers
import OriginGate.Proofs.Decisions

/-!
# Approvals that fail

* `Backend.Intact` : a write that failed left what was persisted (`intact_persist`);
* `Approving.Cause` : why the approval of a registered request fails;
* `System.Freed` : one request left the registry and its origin may ask again, while all other
  requests and their callers are as before;
* `Waiter.failed?` : what an operation ends with when the decision that it awaits is an error;
* `Session.FailedApproval` : what an approval leaves that ends with an error;
* `Session.failedApprovals_run` : so it is after any run, and as long as an approval has not ended
  it changes nothing.
-/

namespace OriginGate

/-! ## Writes that fail -/

namespace Backend

/-- What is persisted is the same; a file that is blocked may have got a staged text beside it. -/
inductive Intact (b : Backend) : Backend → Prop where
  | same : Intact b b
  | blocked {f : FileBackend} (file : b = .file f) (entry : f.entry = .directory) :
    Intact b (.file { f with staged := true })

theorem Intact.load {b c : Backend} (h : b.Intact c) : c.load = b.load := by
  cases h with
  | same => rfl
  | blocked file entry => rw [file]; rfl

theorem intact_persist {next : State} {b c : Backend} {e : StoreError}
    (h : b.persist next = (c, .error e)) : b.Intact c := by
  cases b with
  | memory b =>
    simp only [persist, MemoryBackend.persist] at h
    split at h
    · cases h
      exact .same
    · cases h
  | file b =>
    simp only [persist, FileBackend.persist] at h
    split at h
    · rename_i entry
      cases h
      exact .blocked rfl entry
    · cases h

end Backend

/-! ## Why approvals fail -/

namespace Approving

/-- Why the approval of a registered request fails. -/
inductive Cause (a : Approving) (s : System) : PermissionError → Prop where
  | nothingApproved (h : a.approved.permissions.isEmpty) :
    Cause a s (.invalidParams "must request at least one permission")
  | unknownMethod {method : String} (h : method ∈ a.approved.permissions.keys)
    (unknown : s.gate.registry.isRestricted method = false) :
    Cause a s (.unknownPermission method)
  | noAccounts (h : a.approved.permissions.contains accountsMethod) (none : a.accounts = []) :
    Cause a s (.invalidAccounts "must provide a non-empty list of accounts")
  | unknownAccount {account : Account} (h : a.approved.permissions.contains accountsMethod)
    (mem : account ∈ a.accounts) (unknown : account ∉ s.world.wallet.accounts) :
    Cause a s (.invalidAccounts ("unknown account " ++ account.checksummed))
  | notStored {e : StoreError} {backend : Backend} {granted : List Permission}
    (h : s.world.backend.persist (s.gate.state.grant a.origin granted) = (backend, .error e)) :
    Cause a s (.store e)

variable {a : Approving} {s t : System} {err : PermissionError}

theorem cause_check (h : a.check s = .done (.error err)) : a.Cause s err := by
  unfold check at h
  split at h
  · rename_i e hvalidate
    cases h
    unfold Gate.validate at hvalidate
    split at hvalidate
    · rename_i hempty
      cases hvalidate
      exact .nothingApproved hempty
    · split at hvalidate
      · rename_i method hfind
        cases hvalidate
        have hrestricted := List.find?_some hfind
        exact .unknownMethod (List.mem_of_find?_eq_some hfind) (by simpa using hrestricted)
      · cases hvalidate
  · split at h
    · rename_i haccounts
      split at h
      · rename_i hnone
        cases h
        exact .noAccounts haccounts (List.isEmpty_iff.1 hnone)
      · split at h
        · split at h
          · cases h
          · unfold checkAccounts at h
            split at h
            · rename_i account hfind
              cases h
              have hunknown := List.find?_some hfind
              exact .unknownAccount haccounts (List.mem_of_find?_eq_some hfind)
                (of_decide_eq_true hunknown)
            · cases h
        · cases h
    · cases h

theorem Cause.ne_absent (h : a.Cause s err) (id : RequestId) : err ≠ .noSuchPendingApproval id := by
  rintro rfl
  cases h

/-- An approval that fails on a registered request leaves the state and what is persisted. -/
theorem Finished.failed (h : a.Finished s t (.error err)) {e : PendingRequest}
    (found : s.gate.pending.lookUp? a.approved.id = some e) :
    a.Cause s err ∧ t.gate.state = s.gate.state ∧ s.world.backend.Intact t.world.backend := by
  cases h with
  | late absent _ => cases absent.symm.trans found
  | invalid _ invalid => exact ⟨cause_check invalid, rfl, .same⟩
  | unstored _ _ stored _ =>
    cases Store.taken_grant stored with
    | failed hpersist => exact ⟨.notStored hpersist, rfl, Backend.intact_persist hpersist⟩

end Approving

/-! ## The registry after a request left it -/

namespace System

/-- A request left the registry, and nothing else did. -/
structure Freed (s t : System) (e : PendingRequest) : Prop where
  /-- It was registered under its id and listed for its origin. -/
  found : s.gate.pending.lookUp? e.id = some e
  listed : s.gate.pending.idFor? e.origin = some e.id
  gone : t.gate.pending.lookUp? e.id = none
  unlisted : t.gate.pending.idFor? e.origin = none
  /-- All other entries of both maps are as before. -/
  entries : t.gate.pending.entries = s.gate.pending.entries.filter (·.id ≠ e.id)
  origins : ∀ o, o ≠ e.origin → t.gate.pending.idFor? o = s.gate.pending.idFor? o
  /-- The other requests can be decided as before. -/
  statuses : ∀ f ∈ t.gate.pending.entries,
    t.world.tickets.status f.ticket = s.world.tickets.status f.ticket
  /-- The origin may ask again. -/
  free : ∀ permissions metadata, ∃ u id ticket,
    t.register e.origin permissions metadata = (u, .ok (id, ticket))

theorem Decides.freed {s t : System} {e : PendingRequest} {d : Decision} (h : s.Decides e d t)
    (hs : s.Tended) : s.Freed t e := by
  have hmem := (Pending.lookUp?_spec h.found).1
  have hunlisted : t.gate.pending.idFor? e.origin = none := by
    rw [h.pending, Pending.idFor?_without, if_pos rfl]
  refine ⟨h.found, hs.listed.listed e hmem, ?_, hunlisted, ?_, fun o ho => ?_, fun f hf => ?_,
    register_free hunlisted⟩
  · rw [Pending.lookUp?_eq_none, h.pending]
    intro hid
    obtain ⟨f, hf, hfid⟩ := List.mem_map.1 hid
    exact (Pending.mem_without.1 hf).2 hfid
  · rw [h.pending]
    rfl
  · rw [h.pending, Pending.idFor?_without, if_neg ho]
  · rw [h.pending] at hf
    obtain ⟨hf, hid⟩ := Pending.mem_without.1 hf
    rw [h.tickets]
    exact Tickets.status_settle_ne (hs.ticket_ne hmem hf hid)

end System

/-! ## What callers are told -/

/-- What an operation ends with when the decision that it awaits is an error. Of the calls in a
message only the answer of the call is known, which is put into the reply. -/
def Waiter.failed? (err : PermissionError) : Waiter → Option Result
  | call (.permissions _) | call (.accounts _) =>
    some (.dispatch (.answered (.failure err.toRpc)))
  | requestAccounts _ => some (.accounts (.error err))
  | requestPermissions _ => some (.decision (.error err))
  | _ => none

theorem Waiter.poll_failed {w : Waiter} {err : PermissionError} {r : Result} {s : System}
    (h : w.failed? err = some r) {c : Awaiting} (hc : c ∈ w.awaiting)
    (hd : c.poll s = .done (.error err)) : w.poll s = (s, .done r) := by
  unfold Waiter.failed? at h
  split at h
  · cases h
    obtain rfl := List.mem_singleton.1 hc
    simp only [Waiter.poll, Handling.poll, hd]
    rfl
  · cases h
    obtain rfl := List.mem_singleton.1 hc
    simp only [Waiter.poll, Handling.poll, AwaitingAccounts.poll, hd]
    rfl
  · cases h
    obtain rfl := List.mem_singleton.1 hc
    simp only [Waiter.poll, AwaitingAccounts.poll, hd]
    rfl
  · cases h
    obtain rfl := List.mem_singleton.1 hc
    simp only [Waiter.poll, hd]
    rfl
  · cases h

namespace Session

variable {s : Session} {a : Action}

theorem Approves.keeps_waiting (hs : s.Undivided) (hn : s.Numbered) {id : RequestId} {d : Decision}
    (h : s.Approves a id d) {v : Suspended} (hv : v ∈ s.waiting)
    (other : ∀ approving, v.waiter ≠ .approve approving) : v ∈ (s.after a).waiting := by
  cases h with
  | atOnce _ => exact waiting_stays hs hv nofun nofun nofun
  | @later n approving _ hw _ =>
    refine waiting_stays hs hv ?_ nofun nofun
    -- The operation that is taken up is the approval itself.
    rintro heq
    obtain ⟨w, hsuspended, hwaiter⟩ := Option.map_eq_some_iff.1 hw
    rw [Action.poll.inj heq, suspended?_of_mem hn hv] at hsuspended
    cases hsuspended
    exact other approving hwaiter

/-- Whoever awaits a decision that was made in a run gets it, whenever the operation is taken up. -/
theorem told_run (hu : s.Undivided) {e : PendingRequest} {d : Decision} {t : Session}
    (decides : t.system.Decides e d s.system) (tended : t.system.Tended) {later : List Action}
    (attentive : (s.run later).Attentive) {v : Suspended} (hv : v ∈ (s.run later).waiting)
    {c : Awaiting} (hc : c ∈ v.waiter.awaiting) (ticket : c.ticket = e.ticket) :
    c.poll (s.run later).system = .done d := by
  have hmem := (Pending.lookUp?_spec decides.found).1
  have hissued : e.ticket < s.world.tickets.statuses.length := by
    rw [show s.world.tickets = _ from decides.tickets, Tickets.settle_length]
    exact tended.issued e hmem
  have hstatus : s.world.tickets.status e.ticket = .decided d ∨
      s.world.tickets.status e.ticket = .abandoned := by
    rw [show s.world.tickets = _ from decides.tickets]
    rcases tended.undecided e hmem with h | h
    · exact .inl (Tickets.status_settle_self h)
    · right
      rw [Tickets.settle_settled (by rw [h]; exact Ticket.Status.noConfusion)]
      exact h
  have hkept : (s.run later).world.tickets.status e.ticket = s.world.tickets.status e.ticket := by
    refine settled_run hu hissued ?_ later
    rcases hstatus with h | h <;> (rw [h]; exact Ticket.Status.noConfusion)
  have hpresent := attentive.present v hv c hc
  rw [ticket, hkept] at hpresent
  rw [Awaiting.poll, ticket,
    show (s.run later).system.world.tickets.status e.ticket = _ from hkept]
  rcases hstatus with h | h
  · rw [h]
  · exact absurd h hpresent

/-! ## Every run -/

/-- What an approval leaves that ends with an error. -/
structure FailedApproval (s : Session) (a : Action) (id : RequestId) (err : PermissionError) :
    Prop where
  state : (s.after a).gate.state = s.gate.state
  /-- A new gate on the backend shows the same as before. -/
  backend : s.world.backend.Intact (s.after a).world.backend
  load : (s.after a).world.backend.load = s.world.backend.load
  /-- If there was no such request, nothing is changed. -/
  absent : err = .noSuchPendingApproval id →
    s.gate.pending.lookUp? id = none ∧ (s.after a).gate = s.gate ∧
      (s.after a).world.tickets = s.world.tickets
  /-- Otherwise this request is gone and its callers are told the same error. -/
  present : err ≠ .noSuchPendingApproval id →
    ∃ e n approving, e.id = id ∧ s.approving? a = some (n, approving) ∧
      approving.approved.id = id ∧ approving.Cause s.system err ∧
      s.system.Freed (s.after a).system e ∧
      (∀ v ∈ s.waiting, ∀ c ∈ v.waiter.awaiting, c.ticket = e.ticket →
        v ∈ (s.after a).waiting) ∧
      ∀ later, ∀ v ∈ ((s.after a).run later).waiting, ∀ c ∈ v.waiter.awaiting,
        c.ticket = e.ticket →
          c.poll ((s.after a).run later).system = .done (.error err) ∧
          ∀ r, v.waiter.failed? err = some r →
            ((s.after a).run later).answers (.poll v.number) = .ended v.number r

/-- An approval begins, or one that waits is taken up or given up. -/
inductive OfApproval (s : Session) : Action → Prop where
  | begins (approved : ApprovedRequest) (accounts : List Account) :
    OfApproval s (.start (.approve approved accounts))
  | takenUp {n : Nat} {approving : Approving} (hw : s.waiter? n = some (.approve approving)) :
    OfApproval s (.poll n)
  | givenUp {n : Nat} {approving : Approving} (hw : s.waiter? n = some (.approve approving)) :
    OfApproval s (.drop n)

theorem OfApproval.unfinished (hs : s.Undivided) (h : s.OfApproval a)
    (running : ∀ n d, s.answers a ≠ .ended n (.decision d)) : (s.after a).system = s.system := by
  have hchanged := changed_step hs a
  generalize (s.after a).system = t at hchanged
  cases hchanged with
  | same => rfl
  | served begun site _ =>
    subst begun
    cases h
    cases site
  | approved _ ended _ => exact absurd ended (running _ _)
  | abandoned dropped hw =>
    subst dropped
    cases h with
    | givenUp hwaiter =>
      rw [waiter?, hw, Option.map_some, Option.some.injEq] at hwaiter
      rw [hwaiter]
      rfl
  | commanded given _ => subst given; cases h
  | happened given => subst given; cases h

theorem failedApproval_step (hu : s.Undivided) (hn : s.Numbered) (tended : s.system.Tended)
    (attentive : ∀ actions, (s.run actions).Attentive) {id : RequestId} {err : PermissionError}
    (h : s.Approves a id (.error err)) : s.FailedApproval a id err := by
  have hafter := undivided_after hu a
  rcases h.ends hu with ⟨hnone, herr, hsystem⟩ | ⟨n, approving, hid, under, finished⟩
  · cases herr
    have hgate : (s.after a).gate = s.gate := congrArg System.gate hsystem
    have hworld : (s.after a).world = s.world := congrArg System.world hsystem
    refine ⟨by rw [hgate], ?_, by rw [hworld], fun _ => ⟨hnone, hgate, by rw [hworld]⟩,
      fun hne => absurd rfl hne⟩
    rw [hworld]
    exact .same
  · rcases finished.decides with ⟨hnone, herr, supply, ht⟩ | ⟨e, he, hdecides⟩
    · -- The request was decided while the approval waited.
      cases herr
      have hgate : (s.after a).gate = s.gate := congrArg System.gate ht
      have hbackend : (s.after a).world.backend = s.world.backend :=
        congrArg (fun t : System => t.world.backend) ht
      have htickets : (s.after a).world.tickets = s.world.tickets :=
        congrArg (fun t : System => t.world.tickets) ht
      refine ⟨by rw [hgate], ?_, by rw [hbackend], fun _ => ⟨hid ▸ hnone, hgate, htickets⟩,
        fun hne => absurd (by rw [hid]) hne⟩
      rw [hbackend]
      exact .same
    · obtain ⟨hcause, hstate, hintact⟩ := finished.failed (he ▸ hdecides.found)
      refine ⟨hstate, hintact, hintact.load, fun habsent => ?_, fun _ => ?_⟩
      · exact absurd habsent (hcause.ne_absent id)
      · refine ⟨e, n, approving, he.trans hid, under, hid, hcause, hdecides.freed tended,
          fun v hv c hc _ => ?_, fun later v hv c hc hticket => ?_⟩
        · refine h.keeps_waiting hu hn hv fun b hb => ?_
          rw [hb] at hc
          exact absurd hc List.not_mem_nil
        · have hattentive : ((s.after a).run later).Attentive := attentive (a :: later)
          have hpoll := told_run hafter hdecides tended hattentive hv hc hticket
          refine ⟨hpoll, fun r hr => ?_⟩
          have hnumbered := numbered_run hafter (numbered_after hu hn a) later
          exact answers_done (undivided_run hafter later) hnumbered hv
            (Waiter.poll_failed hr hc hpoll)

/-- After any run of a new session, an approval that fails changes nothing but the registry, where
exactly its request is gone, and tells the error to whoever awaits the decision; an approval that
has not ended, or is given up, changes nothing at all. -/
theorem failedApprovals_run {settings : Settings} {w : World} (created : create settings w = .ok s)
    (before : List Action) :
    (∀ a id err, (s.run before).Approves a id (.error err) →
      (s.run before).FailedApproval a id err) ∧
    ∀ a, (s.run before).OfApproval a →
      (∀ n d, (s.run before).answers a ≠ .ended n (.decision d)) →
        ((s.run before).after a).system = (s.run before).system := by
  have hs := undivided_create created
  have hu := undivided_run hs before
  refine ⟨fun a id err h => ?_, fun a h running => h.unfinished hu running⟩
  refine failedApproval_step hu (numbered_run hs (numbered_create created) before)
    (tended_run created before) (fun actions => ?_) h
  rw [← run_append]
  exact attentive_run created (before ++ actions)

/-- The backend refuses to write what was approved: the caller is told so and nothing is granted. -/
theorem failedApprovals_run_readOnly :
    ∃ s before a, create .signing (.initial []) = .ok s ∧
      before = [.start (.requestPermissions ⟨"site"⟩ (.single "eth_sign")),
        .event (.readOnly true)] ∧
      (s.run before).Approves a ⟨⟨0⟩⟩ (.error (.store .readOnly)) ∧
      (s.run before).FailedApproval a ⟨⟨0⟩⟩ (.store .readOnly) ∧
      ((s.run before).after a).answers (.poll 1) =
        .ended 1 (.decision (.error (.store .readOnly))) := by
  have created : create .signing (.initial []) =
      .ok ⟨.signing, .initial [], ⟨Settings.signing.registry, true, .empty, .empty⟩, 0, [], [], 0,
        []⟩ := rfl
  refine ⟨_, _, .start (.approve ⟨⟨⟨0⟩⟩, .single "eth_sign"⟩ []), created, rfl, ?_, ?_, rfl⟩
  · exact .atOnce (n := 2) rfl
  · exact (failedApprovals_run created _).1 _ _ _ (.atOnce (n := 2) rfl)

end Session

end OriginGate
