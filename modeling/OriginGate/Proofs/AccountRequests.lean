import OriginGate.Proofs.GrantedApprovals
import OriginGate.Proofs.Disclosure
import OriginGate.Proofs.Mapping
import OriginGate.Proofs.Ownership

/-!
# Callers who ask for the accounts

* `System.requestAccounts_known`, `requestAccounts_listed`, `requestAccounts_free` : the three ways
  in which such a call begins;
* `Session.Sole` : no other request has the ticket of this one (`sole_registered`);
* `Session.Decided` : a step decides a request; `Session.Standing` : what has become of a request,
  by its ticket (`standing_run`);
* `AwaitingAccounts.Told` : what the caller is told by the decision and the accounts of that moment
  (`told_finish`);
* `Action.Withdraws` : what takes the accounts of an origin; `accounts_after` : nothing else does;
* `Session.Asking` : an operation awaits the decision on a request (`Asking.run`); `Session.Pends` :
  what becomes of it (`pends_run`);
* `Session.AsksUser` : what a call registers (`asksUser_run`);
* `Session.AsksForAccounts` : what becomes of a call (`asksForAccounts_run`).

A request is followed by its ticket, which no other request can have, whatever ids are drawn.
-/

namespace OriginGate

/-! ## How a call begins -/

namespace System

variable {o : Origin} {s : System}

theorem requestAccounts_known (h : s.accounts o ≠ []) :
    s.requestAccounts o = (s, .done (.ok (s.accounts o))) := by
  unfold requestAccounts
  split
  · rename_i hnone
    exact absurd hnone h
  · rfl

theorem validate_accounts (restricted : s.gate.registry.isRestricted accountsMethod = true) :
    s.gate.validate (.single accountsMethod) = .ok () := by
  have hnone : (RequestedPermissions.single accountsMethod).keys.find?
      (!s.gate.registry.isRestricted ·) = none := by
    rw [List.find?_eq_none]
    intro method hmethod
    rw [show method = accountsMethod from List.mem_singleton.1 hmethod, restricted]
    exact Bool.false_ne_true
  rw [Gate.validate, hnone]
  rfl

theorem requestAccounts_listed (restricted : s.gate.registry.isRestricted accountsMethod = true)
    (absent : s.accounts o = []) {id : RequestId} (listed : s.gate.pending.idFor? o = some id) :
    s.requestAccounts o = (s, .done (.error (.requestAlreadyPending o))) := by
  rw [requestAccounts, absent]
  simp only [requestPermissions, validate_accounts restricted, register_listed listed]
  rfl

theorem requestAccounts_free (restricted : s.gate.registry.isRestricted accountsMethod = true)
    (absent : s.accounts o = []) (free : s.gate.pending.idFor? o = none) :
    ∃ t id ticket, s.register o (.single accountsMethod) (s.gate.state.siteMetadata? o) =
        (t, .ok (id, ticket)) ∧ s.requestAccounts o = (t, .waiting ⟨o, ⟨id, ticket⟩⟩) := by
  obtain ⟨t, id, ticket, h⟩ :=
    register_free free (.single accountsMethod) (s.gate.state.siteMetadata? o)
  refine ⟨t, id, ticket, h, ?_⟩
  rw [requestAccounts, absent]
  simp only [requestPermissions, validate_accounts restricted, h]
  rfl

end System

/-! ## What becomes of a request -/

namespace Session

variable {s u : Session} {e : PendingRequest} {a : Action}

/-- After some actions a step decides a request. -/
structure Decided (u : Session) (e : PendingRequest) (d : Decision) (early : List Action)
    (b : Action) : Prop where
  concludes : (u.run early).Concludes b e.id d
  decides : (u.run early).system.Decides e d ((u.run early).after b).system

/-- What has become of a request: nobody decided it, its caller gave up, or one step decided it. -/
inductive Standing (u : Session) (e : PendingRequest) (later : List Action) : Prop where
  | undecided (status : (u.run later).world.tickets.status e.ticket = .unsettled)
  | abandoned (status : (u.run later).world.tickets.status e.ticket = .abandoned)
  | decided {early late : List Action} {b : Action} {d : Decision}
    (split : later = early ++ b :: late) (decided : u.Decided e d early b)
    (status : (u.run later).world.tickets.status e.ticket = .decided d)

/-- No other request has the ticket of this one. -/
structure Sole (e : PendingRequest) (s : Session) : Prop where
  issued : e.ticket < s.world.tickets.statuses.length
  sole : ∀ f ∈ s.gate.pending.entries, f.ticket = e.ticket → f = e

theorem Sole.after (h : s.Sole e) (hs : s.Undivided) (a : Action) : (s.after a).Sole e := by
  refine ⟨Nat.lt_of_lt_of_le h.issued (tickets_length_after hs a), fun f hf hticket => ?_⟩
  rcases entries_after hs a f hf with hmem | ⟨op, -, -, hle⟩
  · exact h.sole f hmem hticket
  · rw [hticket] at hle
    exact absurd h.issued (Nat.not_lt_of_le hle)

theorem Sole.run (h : u.Sole e) (hu : u.Undivided) (later : List Action) :
    (u.run later).Sole e :=
  hu.run_induction h (fun _ a ht h => h.after ht a) later

theorem Standing.settled {before : List Action} (hu : u.Undivided) (sole : u.Sole e)
    (h : u.Standing e before)
    (settled : (u.run before).world.tickets.status e.ticket ≠ .unsettled) (a : Action) :
    u.Standing e (before ++ [a]) := by
  have hstatus := settled_after (undivided_run hu before) (sole.run hu before).issued settled a
  rw [← run_snoc] at hstatus
  cases h with
  | undecided status => exact absurd status settled
  | abandoned status => exact .abandoned (hstatus.trans status)
  | @decided early late b d split decided status =>
    have hsplit : before ++ [a] = early ++ b :: (late ++ [a]) := by
      rw [split, List.append_assoc, List.cons_append]
    exact .decided hsplit decided (hstatus.trans status)

/-- A request whose ticket is not settled is decided by a step that settles it. -/
theorem standing_run (hu : u.Undivided) (sole : u.Sole e)
    (status : u.world.tickets.status e.ticket = .unsettled) (later : List Action) :
    u.Standing e later := by
  induction later using List.reverseRecOn with
  | nil => exact .undecided status
  | append_singleton before a ih =>
    by_cases hopen : (u.run before).world.tickets.status e.ticket = .unsettled
    · have hbefore := undivided_run hu before
      have hsole := sole.run hu before
      have hmoved := moved_step hbefore a
      have hafter : (u.run (before ++ [a])).world.tickets =
          ((u.run before).after a).system.world.tickets := by rw [run_snoc]; rfl
      generalize ht : ((u.run before).after a).system = t at hmoved hafter
      cases hmoved with
      | kept h =>
        refine .undecided ?_
        rw [hafter, h.tickets]
        exact hopen
      | served _ _ h =>
        refine .undecided ?_
        rw [hafter, h.issues.1.status hsole.issued]
        exact hopen
      | @decided f d _ concludes h =>
        by_cases hticket : f.ticket = e.ticket
        · obtain rfl := hsole.sole f (Pending.lookUp?_spec h.found).1 hticket
          have hsplit : before ++ [a] = before ++ a :: [] := rfl
          refine .decided hsplit ⟨concludes, ht ▸ h⟩ ?_
          rw [hafter, h.tickets]
          exact Tickets.status_settle_self hopen
        · refine .undecided ?_
          rw [hafter, h.tickets, Tickets.status_settle_ne (Ne.symm hticket)]
          exact hopen
      | @abandoned n w _ _ =>
        rcases status_abandonAll_cases e.ticket w.waiter.tickets (u.run before).world with h | h
        · exact .undecided (by rw [hafter, h]; exact hopen)
        · exact .abandoned (by rw [hafter]; exact h)
    · exact ih.settled hu sole hopen a

end Session

/-! ## What the caller is told -/

/-- What a caller is told who asked for the accounts of an origin, by the decision on the request
and the accounts of the moment. -/
inductive AwaitingAccounts.Told (o : Origin) (t : System) :
    Decision → Except PermissionError (List Account) → Prop where
  | failed (err : PermissionError) : Told o t (.error err) (.error err)
  | accounts {granted : List Permission} (some : t.accounts o ≠ []) :
    Told o t (.ok granted) (.ok (t.accounts o))
  | unavailable {granted : List Permission} (none : t.accounts o = []) :
    Told o t (.ok granted) (.error (.internal "accounts unavailable after permissions approval"))

namespace AwaitingAccounts

variable {o : Origin} {t : System} {d : Decision}

theorem told_finish (o : Origin) (t : System) (d : Decision) : Told o t d (finish o t d) := by
  cases d with
  | error err => exact .failed err
  | ok granted =>
    rw [finish]
    rcases haccounts : t.accounts o with _ | ⟨a, rest⟩
    · exact .unavailable haccounts
    · have hsome : t.accounts o ≠ [] := by
        rw [haccounts]
        exact List.cons_ne_nil a rest
      have htold : Told o t (.ok granted) (.ok (t.accounts o)) := .accounts hsome
      rwa [haccounts] at htold

theorem Told.ne_nil : ¬ Told o t d (.ok []) := by
  intro h
  generalize hr : (Except.ok [] : Except PermissionError (List Account)) = r at h
  cases h with
  | failed err => cases hr
  | accounts some => exact some (Except.ok.inj hr).symm
  | unavailable none => cases hr

end AwaitingAccounts

/-! ## What takes accounts away -/

/-- An action takes the accounts of an origin: a revocation, or a clearance. -/
inductive Action.Withdraws (o : Origin) : Action → Prop where
  | revoked {methods : List String} (mem : accountsMethod ∈ methods) :
    Withdraws o (.command (.revoke o methods))
  | cleared : Withdraws o (.command .clear)

theorem System.accounts_of_permission? {s t : System} {o : Origin}
    (same : t.gate.state.permission? o accountsMethod =
      s.gate.state.permission? o accountsMethod) : t.accounts o = s.accounts o := by
  rw [accounts, accounts, Gate.accounts, Gate.accounts, same]

namespace Session

variable {s : Session} {o : Origin} {a : Action}

theorem accounts_finished {approving : Approving} {s t : System} {d : Decision}
    (h : approving.Finished s t d) (o : Origin) :
    t.accounts o = s.accounts o ∨ t.accounts o ≠ [] := by
  rcases h.state with hstate | ⟨e, granted, -, hd, drawn, hstate, -⟩
  · left
    rw [System.accounts, Gate.accounts, hstate]
    rfl
  · by_cases ho : o = approving.origin
    · subst ho
      have hyields : approving.Yields granted := drawn ▸ approving.yields_drawn _
      have haccounts := hyields.accounts_grant hstate
      rw [System.accounts, haccounts]
      split
      · rename_i happroved
        subst hd
        exact .inr (h.valid.1.accounts happroved)
      · exact .inl rfl
    · left
      apply System.accounts_of_permission?
      rw [hstate, State.permission?, State.permissions_congr (s.gate.state.find?_grant ho granted)]
      rfl

/-- Nothing but a revocation or a clearance takes the accounts of an origin. -/
theorem accounts_after (hs : s.Undivided) (a : Action) (some : s.system.accounts o ≠ [])
    (none : (s.after a).system.accounts o = []) : a.Withdraws o := by
  have hchanged := changed_step hs a
  generalize (s.after a).system = t at hchanged none
  cases hchanged with
  | same => exact absurd none some
  | served begun site h =>
    have haccounts := System.accounts_of_permission? (h.sameGrants.permission? o accountsMethod)
    exact absurd (haccounts.symm.trans none) some
  | approved under ended h =>
    rcases accounts_finished h o with hsame | hsome
    · exact absurd (hsame.symm.trans none) some
    · exact absurd none hsome
  | abandoned dropped hw => exact absurd none some
  | @commanded c given h =>
    subst given
    rcases state_command c s.system with hdomains | ⟨q, methods, rfl, hstate⟩ | ⟨rfl, -⟩
    · have haccounts := System.accounts_of_permission? (State.permission?_congr hdomains o _)
      exact absurd (haccounts.symm.trans none) some
    · by_cases hq : o = q ∧ accountsMethod ∈ methods
      · rw [← hq.1]
        exact .revoked hq.2
      · have haccounts : (Command.carryOut (.revoke q methods) s.system).1.accounts o =
            s.system.accounts o := by
          apply System.accounts_of_permission?
          rw [hstate, State.permission?_revoke, if_neg hq]
        exact absurd (haccounts.symm.trans none) some
    · exact .cleared
  | happened given => exact absurd none some

/-- An origin that has lost its accounts in a run lost them by such a step. -/
theorem accounts_run (hs : s.Undivided) {later : List Action} (some : s.system.accounts o ≠ [])
    (none : (s.run later).system.accounts o = []) :
    ∃ mid x post, later = mid ++ x :: post ∧ Action.Withdraws o x := by
  induction later using List.reverseRecOn with
  | nil => exact absurd none some
  | append_singleton before a ih =>
    rw [run_snoc] at none
    by_cases hbefore : (s.run before).system.accounts o = []
    · obtain ⟨mid, x, post, rfl, hx⟩ := ih hbefore
      exact ⟨mid, x, post ++ [a], by rw [List.append_assoc, List.cons_append], hx⟩
    · exact ⟨before, a, [], rfl, accounts_after (undivided_run hs before) a hbefore none⟩

/-! ## The call in a session -/

/-- What becomes of the operation with a number whose request for the accounts was registered. -/
structure Pends (u : Session) (n : Nat) (o : Origin) (e : PendingRequest) : Prop where
  /-- As long as nobody has decided the request, the caller waits on. -/
  undecided : ∀ later, ((u.run later).suspended? n).isSome →
    (∀ early b late d, later = early ++ b :: late → ¬ u.Decided e d early b) →
      (u.run later).answers (.poll n) = .silent
  /-- After that it is told, when it is taken up, what follows from the decision. -/
  decided : ∀ early b late d, u.Decided e d early b →
    let t := u.run (early ++ b :: late)
    (t.suspended? n).isSome → ∃ told, AwaitingAccounts.Told o t.system d told ∧
      t.answers (.poll n) = .ended n (.accounts told)
  /-- It ends in no other way. -/
  ends : ∀ later a r, (u.run later).answers a = .ended n r →
    ∃ early b late d told, later = early ++ b :: late ∧ u.Decided e d early b ∧
      r = .accounts told ∧ AwaitingAccounts.Told o (u.run later).system d told
  /-- As long as no id was drawn twice, a grant leaves it without accounts only if none were approved,
  or if they were revoked or cleared before it was taken up. -/
  unavailable : ∀ early b late granted, (u.run early).world.Fresh →
    u.Decided e (.ok granted) early b → (u.run (early ++ b :: late)).system.accounts o = [] →
      (∀ p ∈ granted, p.capability ≠ accountsMethod) ∨
        ∃ mid x post, late = mid ++ x :: post ∧ Action.Withdraws o x

theorem poll_requestAccounts_done {c : AwaitingAccounts} {t : System} {d : Decision}
    (h : c.decision.poll t = .done d) :
    (Waiter.requestAccounts c).poll t =
      (t, .done (.accounts (AwaitingAccounts.finish c.origin t d))) := by
  rw [Waiter.poll, AwaitingAccounts.poll, h]
  rfl

theorem poll_requestAccounts_waiting {c : AwaitingAccounts} {t : System}
    (h : c.decision.poll t = .waiting c.decision) :
    (Waiter.requestAccounts c).poll t = (t, .waiting (.requestAccounts c)) := by
  rw [Waiter.poll, AwaitingAccounts.poll, h]
  rfl

theorem answers_silent (hs : s.Undivided) {n : Nat} {w : Suspended} (hw : s.suspended? n = some w)
    {t : System} {v : Waiter} (h : w.waiter.poll s.system = (t, .waiting v)) :
    s.answers (.poll n) = .silent := by
  rw [answers, step, poll, resume_waiting hs hw h]
  rfl

/-- A caller who still waits has not given up: its request is undecided, or it was decided. -/
theorem Standing.poll {u : Session} {e : PendingRequest} {later : List Action}
    (h : u.Standing e later) (present : (u.run later).world.tickets.status e.ticket ≠ .abandoned) :
    Awaiting.poll ⟨e.id, e.ticket⟩ (u.run later).system = .waiting ⟨e.id, e.ticket⟩ ∨
      ∃ early b late d, later = early ++ b :: late ∧ u.Decided e d early b ∧
        Awaiting.poll ⟨e.id, e.ticket⟩ (u.run later).system = .done d := by
  cases h with
  | undecided status =>
    left
    rw [Awaiting.poll, show (u.run later).system.world.tickets.status e.ticket = _ from status]
  | abandoned status => exact absurd status present
  | @decided early late b d split decided status =>
    refine .inr ⟨early, b, late, d, split, decided, ?_⟩
    rw [Awaiting.poll, show (u.run later).system.world.tickets.status e.ticket = _ from status]

theorem Concludes.approves {id : RequestId} {granted : List Permission}
    (h : s.Concludes a id (.ok granted)) : s.Approves a id (.ok granted) := by
  cases h with
  | approved h => exact .atOnce h
  | approvedLater hw h => exact .later hw h

theorem accounts_granted {settings : Settings} {w : World} (created : create settings w = .ok s)
    {before : List Action} {e : PendingRequest} {granted : List Permission}
    (fresh : (s.run before).world.Fresh) (concludes : (s.run before).Concludes a e.id (.ok granted))
    (decides : (s.run before).system.Decides e (.ok granted) ((s.run before).after a).system)
    {p : Permission} (hp : p ∈ granted) (capability : p.capability = accountsMethod) :
    ((s.run before).after a).system.accounts e.origin ≠ [] := by
  have hs := undivided_create created
  have hu := undivided_run hs before
  obtain ⟨n, approving, f, hid, under, hfound, finished⟩ := (concluded_step hu concludes).of_granted
  have hfe : f = e := by
    have hsame := decides.found
    rw [show (s.run before).system.gate.pending.lookUp? e.id = some f from hfound] at hsame
    exact Option.some.inj hsame
  subst hfe
  obtain ⟨-, -, r, -, -, -, horigin, hsame⟩ := approving_request hs (orderly_create created)
    (waiting_create created) under (by rw [hid]; exact hfound)
  have heorigin : f.origin = approving.origin := (congrArg _ (hsame fresh)).trans horigin
  have happroves := concludes.approves
  rw [← hid] at happroves
  have hgranted := grantedApproval_step hu (numbered_run hs (numbered_create created) before)
    (tended_run created before)
    (fun actions => by rw [← run_append]; exact attentive_run created (before ++ actions))
    happroves finished decides
  have happroved : approving.approved.permissions.contains accountsMethod = true := by
    rw [← SortedMap.mem_keys_iff, ← hgranted.yields.methods, ← capability]
    exact List.mem_map_of_mem hp
  rw [heorigin, hgranted.accounts, if_pos happroved]
  exact finished.valid.1.accounts happroved

/-- If the operation with a number still waits, it awaits the decision on a request of its own. -/
structure Asking (n : Nat) (e : PendingRequest) (s : Session) : Prop where
  undivided : s.Undivided
  numbered : s.Numbered
  tended : s.system.Tended
  attentive : s.Attentive
  sole : s.Sole e
  waits : s.Waits n (· = .requestAccounts ⟨e.origin, ⟨e.id, e.ticket⟩⟩)

namespace Asking

variable {u : Session} {n : Nat} {e : PendingRequest}

theorem after (h : s.Asking n e) (a : Action) : (s.after a).Asking n e where
  undivided := undivided_after h.undivided a
  numbered := numbered_after h.undivided h.numbered a
  tended := tended_after h.undivided h.tended a
  attentive := attentive_after h.undivided h.attentive a
  sole := h.sole.after h.undivided a
  waits := by
    apply h.waits.after h.undivided a (fun _ _ _ hw => hw)
    rintro v w t rfl htakes
    exact Waiter.eq_of_takesUp nofun htakes

theorem run (h : u.Asking n e) (later : List Action) : (u.run later).Asking n e :=
  run_induction h (fun _ a h => h.after a) later

/-- Who waits under the number waits for the decision on the request, and has not given up. -/
theorem suspended (h : s.Asking n e) {v : Suspended} (hv : s.suspended? n = some v) :
    v ∈ s.waiting ∧ v.number = n ∧ v.waiter = .requestAccounts ⟨e.origin, ⟨e.id, e.ticket⟩⟩ ∧
      s.world.tickets.status e.ticket ≠ .abandoned := by
  obtain ⟨hmem, hnumber⟩ := mem_of_suspended? hv
  have hwaiter := h.waits.2 v hmem hnumber
  refine ⟨hmem, hnumber, hwaiter, h.attentive.present v hmem ⟨e.id, e.ticket⟩ ?_⟩
  rw [hwaiter]
  exact List.mem_singleton_self _

theorem silent (h : u.Asking n e) (status : u.world.tickets.status e.ticket = .unsettled)
    {later : List Action} (suspended : ((u.run later).suspended? n).isSome)
    (undecided : ∀ early b late d, later = early ++ b :: late → ¬ u.Decided e d early b) :
    (u.run later).answers (.poll n) = .silent := by
  obtain ⟨v, hv⟩ := Option.isSome_iff_exists.1 suspended
  obtain ⟨-, -, hwaiter, hpresent⟩ := (h.run later).suspended hv
  rcases (standing_run h.undivided h.sole status later).poll hpresent with
    hwait | ⟨early, b, late, d, hsplit, hdecided, -⟩
  · apply answers_silent (h.run later).undivided hv
    rw [hwaiter]
    exact poll_requestAccounts_waiting hwait
  · exact absurd hdecided (undecided early b late d hsplit)

theorem told (h : u.Asking n e) {early : List Action} {b : Action} {d : Decision}
    (decided : u.Decided e d early b) (late : List Action)
    (suspended : ((u.run (early ++ b :: late)).suspended? n).isSome) :
    ∃ told, AwaitingAccounts.Told e.origin (u.run (early ++ b :: late)).system d told ∧
      (u.run (early ++ b :: late)).answers (.poll n) = .ended n (.accounts told) := by
  have hearly := h.run early
  have hlast := h.run (early ++ b :: late)
  refine ⟨_, AwaitingAccounts.told_finish _ _ _, ?_⟩
  rw [show u.run (early ++ b :: late) = ((u.run early).after b).run late from run_append _ _ _]
    at suspended hlast ⊢
  obtain ⟨v, hv⟩ := Option.isSome_iff_exists.1 suspended
  obtain ⟨hmem, hnumber, hwaiter, -⟩ := hlast.suspended hv
  have hpoll : Awaiting.poll ⟨e.id, e.ticket⟩ (((u.run early).after b).run late).system =
      .done d := by
    have hdecides := decided.decides
    apply told_run (hearly.after b).undivided hdecides hearly.tended hlast.attentive hmem _ rfl
    rw [hwaiter]
    exact List.mem_singleton_self _
  rw [← hnumber]
  apply answers_done hlast.undivided hlast.numbered hmem
  rw [hwaiter]
  exact poll_requestAccounts_done hpoll

theorem ends (h : u.Asking n e) (status : u.world.tickets.status e.ticket = .unsettled)
    {later : List Action} {r : Result} (ended : (u.run later).answers a = .ended n r) :
    ∃ early b late d told, later = early ++ b :: late ∧ u.Decided e d early b ∧
      r = .accounts told ∧ AwaitingAccounts.Told e.origin (u.run later).system d told := by
  have hlater := h.run later
  obtain ⟨v, t, hv, hwaiter, htakes⟩ := hlater.waits.suspended hlater.undivided ended
  obtain ⟨-, -, -, hpresent⟩ := hlater.suspended hv
  rw [hwaiter] at htakes
  rcases htakes with ⟨-, hdone⟩ | ⟨i, -, hdone⟩
  · rcases (standing_run h.undivided h.sole status later).poll hpresent with
      hwait | ⟨early, b, late, d, hsplit, hdecided, hpoll⟩
    · rw [poll_requestAccounts_waiting hwait] at hdone
      cases hdone
    · rw [poll_requestAccounts_done hpoll] at hdone
      cases hdone
      exact ⟨early, b, late, d, _, hsplit, hdecided, rfl, AwaitingAccounts.told_finish _ _ _⟩
  · cases hdone

end Asking

theorem unavailable_run {settings : Settings} {w : World} (created : create settings w = .ok s)
    {before early late : List Action} {b : Action} {e : PendingRequest}
    {granted : List Permission} (fresh : ((s.run before).run early).world.Fresh)
    (decided : (s.run before).Decided e (.ok granted) early b)
    (none : ((s.run before).run (early ++ b :: late)).system.accounts e.origin = []) :
    (∀ p ∈ granted, p.capability ≠ accountsMethod) ∨
      ∃ mid x post, late = mid ++ x :: post ∧ Action.Withdraws e.origin x := by
  obtain ⟨hconcludes, hdecides⟩ := decided
  rw [show (s.run before).run (early ++ b :: late) =
    (((s.run before).run early).after b).run late from run_append _ _ _] at none
  rw [show (s.run before).run early = s.run (before ++ early) from (run_append _ _ _).symm]
    at fresh hconcludes hdecides none
  by_cases hgranted : ∀ p ∈ granted, p.capability ≠ accountsMethod
  · exact .inl hgranted
  · push Not at hgranted
    obtain ⟨p, hp, hcapability⟩ := hgranted
    have hsome := accounts_granted created fresh hconcludes hdecides hp hcapability
    have hbefore := undivided_run (undivided_create created) (before ++ early)
    exact .inr (accounts_run (undivided_after hbefore b) hsome none)

theorem pends_run {settings : Settings} {w : World} (created : create settings w = .ok s)
    {before : List Action} {n : Nat} {e : PendingRequest} (asking : (s.run before).Asking n e)
    (status : (s.run before).world.tickets.status e.ticket = .unsettled) :
    (s.run before).Pends n e.origin e where
  undecided _ suspended undecided := asking.silent status suspended undecided
  decided _ _ late _ decided := asking.told decided late
  ends _ _ _ ended := asking.ends status ended
  unavailable _ _ _ _ fresh decided none := unavailable_run created fresh decided none

/-- A call for the accounts of an origin registers one request. -/
structure AsksUser (s : Session) (o : Origin) (e : PendingRequest) : Prop where
  /-- It is for the accounts, without caveats. -/
  request : e.request = ⟨e.id, o, .single accountsMethod, s.gate.state.siteMetadata? o⟩
  waits : s.answers (.start (.requestAccounts o)) = .waits (s.begun + 1)
  gate : (s.after (.start (.requestAccounts o))).gate =
    { s.gate with pending := s.gate.pending.add e }
  announced : (s.after (.start (.requestAccounts o))).world.announcements =
    s.world.announcements.announce e.request
  backend : (s.after (.start (.requestAccounts o))).world.backend = s.world.backend
  pends : (s.after (.start (.requestAccounts o))).Pends (s.begun + 1) o e

/-- What becomes of a call for the accounts of an origin. -/
structure AsksForAccounts (s : Session) (o : Origin) : Prop where
  /-- An origin with accounts is told them at once and nothing changes, whatever is registered. -/
  known : s.system.accounts o ≠ [] →
    s.answers (.start (.requestAccounts o)) =
        .ended (s.begun + 1) (.accounts (.ok (s.system.accounts o))) ∧
      (s.after (.start (.requestAccounts o))).system = s.system
  /-- Without accounts it is refused if it has a request already, and nothing changes. -/
  refused : s.system.accounts o = [] → (s.gate.pending.idFor? o).isSome →
    s.answers (.start (.requestAccounts o)) =
        .ended (s.begun + 1) (.accounts (.error (.requestAlreadyPending o))) ∧
      (s.after (.start (.requestAccounts o))).system = s.system
  /-- Otherwise the caller waits for the decision on a request. -/
  asks : s.system.accounts o = [] → s.gate.pending.idFor? o = none → ∃ e, s.AsksUser o e
  /-- It never ends with an empty list. -/
  nonempty : s.answers (.start (.requestAccounts o)) ≠
      .ended (s.begun + 1) (.accounts (.ok [])) ∧
    ∀ later a, ((s.after (.start (.requestAccounts o))).run later).answers a ≠
      .ended (s.begun + 1) (.accounts (.ok []))

theorem begin_requestAccounts {t : System}
    {p : Progress AwaitingAccounts (Except PermissionError (List Account))}
    (h : s.system.requestAccounts o = (t, p)) :
    (Operation.requestAccounts o).begin s.system =
      (t, (p.map Result.accounts).mapWaiting Waiter.requestAccounts) := by
  rw [Operation.begin, h]

theorem ends_requestAccounts {r : Except PermissionError (List Account)}
    (h : s.system.requestAccounts o = (s.system, .done r)) :
    s.answers (.start (.requestAccounts o)) = .ended (s.begun + 1) (.accounts r) ∧
      (s.after (.start (.requestAccounts o))).system = s.system := by
  rw [answers_start, start_system, begin_requestAccounts h]
  exact ⟨rfl, rfl⟩

theorem spent_requestAccounts (hs : s.Undivided) (hn : s.Numbered) {r : Result}
    (h : s.answers (.start (.requestAccounts o)) = .ended (s.begun + 1) r) (later : List Action)
    (a : Action) (r : Result) :
    ((s.after (.start (.requestAccounts o))).run later).answers a ≠ .ended (s.begun + 1) r := by
  have hafter := undivided_after hs (.start (.requestAccounts o))
  exact answers_spent (undivided_run hafter later)
    ((spent_of_ended hs hn h).run hafter later) a r

/-- A request that was just registered is the only one with its ticket, which is not settled. -/
theorem sole_registered {permissions : RequestedPermissions} {metadata : Option SiteMetadata}
    {t : System} {id : RequestId} {ticket : Ticket} (tended : s.system.Tended)
    (h : s.system.register o permissions metadata = (t, .ok (id, ticket))) {u : Session}
    (hu : u.system = t) :
    u.Sole ⟨⟨id, o, permissions, metadata⟩, ticket⟩ ∧
      u.world.tickets.status ticket = .unsettled := by
  obtain ⟨-, -, rfl, rfl⟩ := System.register_ok h
  have hpending : u.gate.pending = s.gate.pending.add _ := congrArg (·.gate.pending) hu
  have htickets : u.world.tickets = ⟨s.world.tickets.statuses ++ [.unsettled]⟩ :=
    congrArg (·.world.tickets) hu
  refine ⟨⟨?_, fun f hf hticket => ?_⟩, ?_⟩
  · rw [htickets, List.length_append]
    exact Nat.lt_succ_self _
  · rw [hpending] at hf
    rcases Pending.mem_add.1 hf with ⟨hmem, -⟩ | rfl
    · exact absurd hticket (Nat.ne_of_lt (tended.issued f hmem))
    · rfl
  · have hlast : (s.world.tickets.statuses ++ [Ticket.Status.unsettled])[
        s.world.tickets.statuses.length]? = some .unsettled := List.getElem?_concat_length
    rw [htickets, Tickets.status]
    exact congrArg (·.getD .lost) hlast

theorem asksUser_run {settings : Settings} {w : World} (created : create settings w = .ok s)
    (before : List Action)
    (restricted : (s.run before).system.gate.registry.isRestricted accountsMethod = true)
    (absent : (s.run before).system.accounts o = [])
    (free : (s.run before).gate.pending.idFor? o = none) :
    ∃ e, (s.run before).AsksUser o e := by
  have hs := undivided_create created
  have hu := undivided_run hs before
  obtain ⟨t, id, ticket, hregister, hrequest⟩ := System.requestAccounts_free restricted absent free
  have hbegin := begin_requestAccounts hrequest
  have hsystem : ((s.run before).after (.start (.requestAccounts o))).system = t := by
    rw [start_system, hbegin]
  obtain ⟨hsole, hstatus⟩ := sole_registered (tended_run created before) hregister hsystem
  have hwaits : ((s.run before).after (.start (.requestAccounts o))).Waits
      ((s.run before).begun + 1) (· = .requestAccounts ⟨o, ⟨id, ticket⟩⟩) := by
    apply waits_start hu (numbered_run hs (numbered_create created) before)
    intro t w hw
    rw [hbegin] at hw
    exact (Progress.waiting.inj (congrArg Prod.snd hw)).symm
  let e : PendingRequest :=
    ⟨⟨id, o, .single accountsMethod, (s.run before).gate.state.siteMetadata? o⟩, ticket⟩
  have hpends : ((s.run before).after (.start (.requestAccounts o))).Pends
      ((s.run before).begun + 1) e.origin e := by
    rw [← run_snoc] at hwaits hsole hstatus ⊢
    apply pends_run created _ hstatus
    exact ⟨undivided_run hs _, numbered_run hs (numbered_create created) _, tended_run created _,
      attentive_run created _, hsole, hwaits⟩
  obtain ⟨-, -, -, rfl⟩ := System.register_ok hregister
  exact ⟨e, {
    request := rfl
    waits := by
      rw [answers_start, hbegin]
      rfl
    gate := congrArg System.gate hsystem
    announced := congrArg (·.world.announcements) hsystem
    backend := congrArg (·.world.backend) hsystem
    pends := hpends }⟩

/-- After any run of a new session, a call for the accounts of an origin ends at once with those
that it has, or with a refusal, or by the decision on the one request that it registers. -/
theorem asksForAccounts_run {settings : Settings} {w : World} (created : create settings w = .ok s)
    (before : List Action) (o : Origin) : (s.run before).AsksForAccounts o := by
  have hs := undivided_create created
  have hu := undivided_run hs before
  have hn := numbered_run hs (numbered_create created) before
  have hrestricted :
      (s.run before).system.gate.registry.isRestricted accountsMethod = true := by
    rw [(sameRules_run hs before).registry]
    obtain ⟨store, -, rfl⟩ := create_eq created
    exact settings.isRestricted_always
  have known (h : (s.run before).system.accounts o ≠ []) :=
    ends_requestAccounts (System.requestAccounts_known h)
  have refused (h : (s.run before).system.accounts o = []) {id : RequestId}
    (hid : (s.run before).gate.pending.idFor? o = some id) :=
    ends_requestAccounts (System.requestAccounts_listed hrestricted h hid)
  have asks := asksUser_run (o := o) created before hrestricted
  refine ⟨known, fun h hsome => ?_, asks, ?nonempty⟩
  · obtain ⟨id, hid⟩ := Option.isSome_iff_exists.1 hsome
    exact refused h hid
  case nonempty =>
    by_cases h : (s.run before).system.accounts o = []
    · rcases hid : (s.run before).gate.pending.idFor? o with _ | id
      · obtain ⟨e, hasks⟩ := asks h hid
        refine ⟨by rw [hasks.waits]; exact nofun, fun later a hended => ?_⟩
        obtain ⟨early, b, late, d, told, -, -, hr, htold⟩ := hasks.pends.ends later a _ hended
        cases hr
        exact htold.ne_nil
      · have hended := (refused h hid).1
        refine ⟨by rw [hended]; exact nofun, fun later a => ?_⟩
        exact spent_requestAccounts hu hn hended later a _
    · have hended := (known h).1
      refine ⟨fun hempty => ?_, fun later a => spent_requestAccounts hu hn hended later a _⟩
      rw [hended] at hempty
      exact h (Except.ok.inj (Result.accounts.inj (Answer.ended.inj hempty).2))

/-- Accounts are approved and, in one of two sessions, cleared before the caller is taken up. -/
theorem asksForAccounts_run_cleared :
    ∃ s u : Session, ∃ approval : Action, create .signing (.initial [⟨1⟩]) = .ok s ∧
      s.AsksForAccounts ⟨"site"⟩ ∧ u = s.after (.start (.requestAccounts ⟨"site"⟩)) ∧
      (u.run [approval]).answers (.poll 1) = .ended 1 (.accounts (.ok [⟨1⟩])) ∧
      (u.run [approval, .command .clear]).answers (.poll 1) = .ended 1
        (.accounts (.error (.internal "accounts unavailable after permissions approval"))) := by
  have created : create .signing (.initial [⟨1⟩]) =
      .ok ⟨.signing, .initial [⟨1⟩], ⟨Settings.signing.registry, true, .empty, .empty⟩, 0, [], [],
        0, []⟩ := rfl
  exact ⟨_, _, .start (.approve ⟨⟨⟨0⟩⟩, .single accountsMethod⟩ [⟨1⟩]), created,
    asksForAccounts_run created [] ⟨"site"⟩, rfl, rfl, rfl⟩

end Session

end OriginGate
