import OriginGate.Proofs.Equality
import OriginGate.Proofs.Grants
import OriginGate.Proofs.Waiting

/-!
# Every request is decided once

* `System.Concluded` : what an operation on a request does that ends with a decision
  (`concluded_step`);
* `State.grant_new` : a grant of new permissions is a new state; `Backend.Keeps` : it was persisted;
* `Session.gone_run` : a request that was removed is never registered again;
* `Session.Decisions` : at each step of a run, who removes requests, who decides, what is stored
  and what callers are told (`decisions_run`).
-/

namespace OriginGate

/-! ## Operations on a request -/

namespace Session

/-- What an operation on a request does that ends with a decision: an approval ends, there is no
such request, or it is rejected. -/
inductive Concluded (s : Session) (a : Action) : RequestId → Decision → System → Prop where
  | approval {n : Nat} {approving : Approving} {d : Decision} {t : System}
    (under : s.approving? a = some (n, approving)) (h : approving.Finished s.system t d) :
    Concluded s a approving.approved.id d t
  | absent {id : RequestId} (none : s.gate.pending.lookUp? id = none) :
    Concluded s a id (.error (.noSuchPendingApproval id)) s.system
  | rejection {id : RequestId} {e : PendingRequest} {reason : PermissionError}
    (found : s.gate.pending.lookUp? id = some e) :
    Concluded s a id (.error reason) ((s.system.withdraw e).deliver e (.error reason))

variable {s : Session} {a : Action}

/-- An operation on a request that is registered removes and decides it. -/
theorem Concluded.decides {id : RequestId} {d : Decision} {t : System} (h : s.Concluded a id d t)
    {e : PendingRequest} (found : s.gate.pending.lookUp? id = some e) :
    s.system.Decides e d t := by
  cases h with
  | approval _ h =>
    rcases h.decides with ⟨none, -, -⟩ | ⟨f, hid, hdecides⟩
    · cases none.symm.trans found
    · have hfound := hdecides.found
      rw [hid] at hfound
      cases hfound.symm.trans found
      exact hdecides
  | absent none => cases none.symm.trans found
  | rejection found' =>
    cases found'.symm.trans found
    rw [← (Pending.lookUp?_spec found).2] at found
    exact System.decides_deliver _ found rfl rfl rfl

theorem Concluded.of_absent {id : RequestId} {d : Decision} {t : System}
    (h : s.Concluded a id d t) (none : s.gate.pending.lookUp? id = none) :
    d = .error (.noSuchPendingApproval id) ∧ ∃ supply, t = s.system.withSupply supply := by
  cases h with
  | approval _ h =>
    rcases h.decides with ⟨-, hd, ht⟩ | ⟨f, hid, hdecides⟩
    · exact ⟨hd, ht⟩
    · have hfound := hdecides.found
      rw [hid] at hfound
      cases none.symm.trans hfound
  | absent _ => exact ⟨rfl, s.world.supply, rfl⟩
  | rejection found => cases none.symm.trans found

/-- Only an approval that finds its request grants something. -/
theorem Concluded.of_granted {id : RequestId} {granted : List Permission} {t : System}
    (h : s.Concluded a id (.ok granted) t) :
    ∃ n approving e, approving.approved.id = id ∧ s.approving? a = some (n, approving) ∧
      s.gate.pending.lookUp? id = some e ∧ approving.Finished s.system t (.ok granted) := by
  cases h with
  | @approval n approving _ _ under finished =>
    rcases finished.decides with ⟨-, hd, -⟩ | ⟨e, hid, hdecides⟩
    · cases hd
    · have found := hdecides.found
      rw [hid] at found
      exact ⟨n, approving, e, rfl, under, found, finished⟩

theorem answers_start (op : Operation) (s : Session) :
    s.answers (.start op) =
      match (op.begin s.system).2 with
      | .done r => .ended (s.begun + 1) r
      | .waiting _ => .waits (s.begun + 1) := by
  rcases h : op.begin s.system with ⟨t, r | w⟩
  · rw [answers, step_ended h]
  · rw [answers, step_waits h]

/-- The decision with which a rejection ends, by what it answers. -/
def rejection (reason : PermissionError) : Except PermissionError Unit → Decision
  | .ok () => .error reason
  | .error e => .error e

theorem concluded_resolve (id : RequestId) (reason : PermissionError) :
    s.Concluded a id (rejection reason (s.system.resolve id (.error reason)).2)
      (s.system.resolve id (.error reason)).1 := by
  rcases h : s.system.gate.pending.lookUp? id with _ | e
  · rw [System.resolve_absent _ h]
    exact .absent h
  · rw [System.resolve_found _ h]
    exact .rejection h

theorem command_system (c : Command) (s : Session) :
    (s.after (.command c)).system = (c.carryOut s.system).1 := rfl

/-- An approval that ends found no request and changed nothing, or it is finished. -/
theorem Approves.ends (hs : s.Undivided) {id : RequestId} {d : Decision} (h : s.Approves a id d) :
    (s.gate.pending.lookUp? id = none ∧ d = .error (.noSuchPendingApproval id) ∧
        (s.after a).system = s.system) ∨
      ∃ n approving, approving.approved.id = id ∧ s.approving? a = some (n, approving) ∧
        approving.Finished s.system (s.after a).system d := by
  cases h with
  | @atOnce approved accounts n _ h =>
    rw [start_system]
    rcases hbegin : (Operation.approve approved accounts).begin s.system with ⟨t, r | w⟩
    · rw [answers_start, hbegin] at h
      cases h
      rcases System.approve_cases approved accounts s.system with ⟨hnone, hend⟩ | ⟨r, hr, hpoll⟩
      · simp only [Operation.begin, hend] at hbegin
        cases hbegin
        exact .inl ⟨Option.map_eq_none_iff.1 hnone, rfl, rfl⟩
      · have under : s.approving? (.start (.approve approved accounts)) =
            some (s.begun + 1, ⟨approved, r.origin, accounts⟩) := by
          rw [approving?, show s.gate.pending.find? approved.id = some r from hr]
          rfl
        rcases Approving.poll_finished ⟨approved, r.origin, accounts⟩ s.system with
          hw | ⟨u, d', hd, finished⟩
        · simp only [Operation.begin, hpoll, hw] at hbegin
          cases hbegin
        · simp only [Operation.begin, hpoll, hd] at hbegin
          cases hbegin
          exact .inr ⟨_, _, rfl, under, finished⟩
    · rw [answers_start, hbegin] at h
      cases h
  | @later n approving d hw h =>
    obtain ⟨w, hsuspended, hwaiter⟩ := Option.map_eq_some_iff.1 hw
    have under : s.approving? (.poll n) = some (n, approving) := by rw [approving?, hw]
    have hstep := stepped_step hs (.poll n)
    generalize s.after (.poll n) = u, s.answers (.poll n) = answer at hstep h
    subst h
    cases hstep with
    | @ended _ _ v t _ hv htakes =>
      cases hv.symm.trans hsuspended
      rcases htakes with ⟨-, hpoll⟩ | ⟨i, hi, -⟩
      · rw [hwaiter, Waiter.poll] at hpoll
        rcases approving.poll_finished s.system with hwait | ⟨t', d', hd, finished⟩
        · rw [hwait] at hpoll
          cases hpoll
        · rw [hd] at hpoll
          cases hpoll
          exact .inr ⟨n, approving, rfl, under, finished⟩
      · cases hi

theorem concluded_approves (hs : s.Undivided) {id : RequestId} {d : Decision}
    (h : s.Approves a id d) : s.Concluded a id d (s.after a).system := by
  rcases h.ends hs with ⟨hnone, rfl, hsystem⟩ | ⟨n, approving, rfl, under, finished⟩
  · rw [hsystem]
    exact .absent hnone
  · exact .approval under finished

theorem concluded_reject {id : RequestId} {reason : Option PermissionError}
    {r : Except PermissionError Unit}
    (h : s.answers (.command (.reject id reason)) = .done r) :
    s.Concluded (.command (.reject id reason)) id (rejection (reason.getD .rejected) r)
      (s.after (.command (.reject id reason))).system := by
  rw [answers_command, Command.carryOut, System.reject] at h
  cases h
  exact concluded_resolve id (reason.getD .rejected)

theorem concluded_rejectOrigin {o : Origin} {id : RequestId}
    (h : s.answers (.command (.rejectOrigin o)) = .rejected (some id)) :
    s.Concluded (.command (.rejectOrigin o)) id (.error .rejected)
      (s.after (.command (.rejectOrigin o))).system := by
  rw [answers_command, Command.carryOut, System.rejectOrigin] at h
  rw [command_system, Command.carryOut, System.rejectOrigin]
  rcases hid : s.system.gate.pending.idFor? o with _ | pendingId
  · rw [hid] at h
    cases h
  · simp only [hid, System.reject, Option.getD_none] at h ⊢
    have hresolve := concluded_resolve (s := s) (a := .command (.rejectOrigin o)) pendingId
      .rejected
    rcases hr : s.system.resolve pendingId (.error .rejected) with ⟨t, e | u⟩
    · rw [hr] at h
      cases h
    · rw [hr] at h hresolve
      cases h
      exact hresolve

theorem concluded_step (hs : s.Undivided) {id : RequestId} {d : Decision}
    (h : s.Concludes a id d) : s.Concluded a id d (s.after a).system := by
  cases h with
  | approved h => exact concluded_approves hs (.atOnce h)
  | approvedLater hw h => exact concluded_approves hs (.later hw h)
  | rejected h => exact concluded_reject h
  | notRejected h => exact concluded_reject h
  | originRejected h => exact concluded_rejectOrigin h

end Session

/-! ## Grants that are stored -/

namespace State

/-- A grant of permissions with new ids is not equal to the state before it. -/
theorem grant_new {o : Origin} {granted : List Permission} {s : State} (some : granted ≠ [])
    (new : ∀ p ∈ granted, ∀ q ∈ s.permissions o, q.id ≠ p.id) :
    ¬ (s.grant o granted == s) = true := by
  intro h
  obtain ⟨p, hp⟩ := List.exists_mem_of_ne_nil granted some
  have hgranted : p ∈ (s.grant o granted).permissions o := by
    rw [permissions_grant, if_pos rfl]
    exact List.mem_append_right _ hp
  obtain ⟨q, hq, heq⟩ := exists_beq_of_mem (permissions_beq h o) hgranted
  exact new p hp q hq (Permission.sameFields_of_beq heq).id.symm

end State

/-- The backend keeps a state: in memory as it is, in a file as its text. -/
def Backend.Keeps (next : State) : Backend → Prop
  | memory b => b.persisted = some next
  | file b => b.entry = .text (FileBackend.format next)

theorem Backend.keeps_persist {next : State} {b c : Backend} (h : b.persist next = (c, .ok ())) :
    c.Keeps next := by
  cases b with
  | memory b =>
    simp only [persist, MemoryBackend.persist] at h
    split at h
    · cases h
    · cases h
      rfl
  | file b =>
    simp only [persist, FileBackend.persist] at h
    split at h
    · cases h
    · cases h
      rfl

theorem Approving.grants_of_valid {a : Approving} {s : System}
    (valid : a.check s = .done (.ok ())) : a.grants ≠ [] := by
  intro hnone
  have hentries : a.approved.permissions.entries = [] := List.map_eq_nil_iff.1 hnone
  exact (check_valid valid).some (by rw [SortedMap.isEmpty, hentries]; rfl)

/-- What an approval grants, the store takes, and it is new unless its ids were given before. -/
theorem Approving.Finished.stored {a : Approving} {s t : System} {granted : List Permission}
    (h : a.Finished s t (.ok granted)) :
    Store.Taken (s.gate.state.grant a.origin granted) s.store t.store (.ok ()) ∧
      ((∀ p ∈ granted, ∀ q ∈ s.gate.state.permissions a.origin, q.id ≠ p.id) →
        t.gate.state = s.gate.state.grant a.origin granted ∧
          t.world.backend.Keeps t.gate.state) := by
  cases h with
  | @granted e supply store _ found valid drawn stored =>
    have htaken := Store.taken_grant stored
    refine ⟨htaken, fun new => ?_⟩
    cases htaken with
    | shown same =>
      have hsome : granted ≠ [] := by
        rintro rfl
        have hmap := (Supply.drawPermissions_map a.origin a.grants s.world.supply).1
        rw [← drawn, List.map_nil] at hmap
        exact grants_of_valid valid hmap.symm
      exact absurd same (State.grant_new hsome new)
    | written hpersist => exact ⟨rfl, Backend.keeps_persist hpersist⟩

namespace Session

variable {s : Session} {a : Action}

/-! ## Requests that were removed -/

theorem gone_after (hs : s.Undivided) (ho : s.system.Orderly)
    (fresh : (s.after a).world.Fresh) {id : RequestId}
    (announced : id ∈ s.world.announcements.announced.map (·.id))
    (gone : id ∉ s.gate.pending.ids) : id ∉ (s.after a).gate.pending.ids := by
  have hmoved := moved_step hs a
  change (s.after a).system.world.Fresh at fresh
  change id ∉ (s.after a).system.gate.pending.ids
  generalize (s.after a).system = t at hmoved fresh
  cases hmoved with
  | kept h =>
    rw [h.pending]
    exact gone
  | served begun site h =>
    obtain ⟨news, hnews, -⟩ := h.registers ho fresh
    intro hid
    rw [Pending.ids, hnews.entries, List.map_append, List.mem_append] at hid
    rcases hid with hid | hid
    · exact gone hid
    · unfold World.Fresh at fresh
      rw [hnews.announced, List.map_append, List.map_map] at fresh
      exact List.disjoint_of_nodup_append fresh announced hid
  | decided concludes h =>
    rw [h.pending]
    intro hid
    exact gone ((List.filter_sublist.map _).subset hid)
  | abandoned dropped hw => exact gone

theorem gone_run (hs : s.Undivided) (ho : s.system.Orderly) {later : List Action}
    (fresh : (s.run later).world.Fresh) {id : RequestId}
    (announced : id ∈ s.world.announcements.announced.map (·.id))
    (gone : id ∉ s.gate.pending.ids) : id ∉ (s.run later).gate.pending.ids := by
  induction later using List.reverseRecOn with
  | nil => exact gone
  | append_singleton before b ih =>
    have hfresh := fresh.of_prefix (announced_append hs before [b])
    rw [run_snoc] at fresh ⊢
    have hannounced := (announced_run hs before).subset
    refine gone_after (undivided_run hs before) (orderly_run hs ho before hfresh) fresh ?_
      (ih hfresh)
    obtain ⟨r, hr, rfl⟩ := List.mem_map.1 announced
    exact List.mem_map_of_mem (hannounced hr)

theorem concludes_of_removed (hs : s.Undivided) (ho : s.system.Orderly)
    (fresh : (s.after a).world.Fresh) {id : RequestId} (registered : id ∈ s.gate.pending.ids)
    (removed : id ∉ (s.after a).gate.pending.ids) : ∃ d, s.Concludes a id d := by
  have hmoved := moved_step hs a
  change (s.after a).system.world.Fresh at fresh
  change id ∉ (s.after a).system.gate.pending.ids at removed
  generalize (s.after a).system = t at hmoved fresh removed
  cases hmoved with
  | kept h =>
    rw [h.pending] at removed
    exact absurd registered removed
  | served begun site h =>
    obtain ⟨news, hnews, -⟩ := h.registers ho fresh
    rw [Pending.ids, hnews.entries, List.map_append, List.mem_append, not_or] at removed
    exact absurd registered removed.1
  | @decided e d _ concludes h =>
    obtain ⟨f, hf, rfl⟩ := List.mem_map.1 registered
    by_cases hid : f.id = e.id
    · rw [hid]
      exact ⟨d, concludes⟩
    · rw [h.pending] at removed
      exact absurd (List.mem_map_of_mem (List.mem_filter.2 ⟨hf, decide_eq_true hid⟩)) removed
  | abandoned dropped hw => exact absurd registered removed

/-! ## What callers are told -/

theorem Fate.poll {actions : List Action} {c : Awaiting} (h : s.Fate actions c) :
    (c.poll (s.run actions).system = .waiting c ∧
        ∃ e ∈ (s.run actions).gate.pending.entries, e.id = c.id ∧ e.ticket = c.ticket) ∨
      ∃ early b later d, actions = early ++ b :: later ∧ (s.run early).Concludes b c.id d ∧
        c.id ∈ (s.run early).gate.pending.ids ∧ c.poll (s.run actions).system = .done d := by
  cases h with
  | @pending e mem id ticket unsettled =>
    refine .inl ⟨?_, e, mem, id, ticket⟩
    rw [Awaiting.poll, show (s.run actions).system.world.tickets.status c.ticket = _ from unsettled]
  | @decided early later b d split concludes registered status =>
    refine .inr ⟨early, b, later, d, split, concludes, registered, ?_⟩
    rw [Awaiting.poll, show (s.run actions).system.world.tickets.status c.ticket = _ from status]

theorem suspended?_of_mem (h : s.Numbered) {w : Suspended} (hw : w ∈ s.waiting) :
    s.suspended? w.number = some w := by
  rcases hv : s.suspended? w.number with _ | v
  · exact absurd (decide_eq_true rfl) (List.find?_eq_none.1 hv w hw)
  · obtain ⟨hmem, hnumber⟩ := mem_of_suspended? hv
    rw [List.inj_on_of_nodup_map h.distinct hmem hw hnumber]

theorem answers_done (hs : s.Undivided) (hn : s.Numbered) {w : Suspended} (hw : w ∈ s.waiting)
    {t : System} {r : Result} (h : w.waiter.poll s.system = (t, .done r)) :
    s.answers (.poll w.number) = .ended w.number r := by
  rw [answers, step, poll, resume_done hs (suspended?_of_mem hn hw) h]
  rfl

theorem answers_poll (hs : s.Undivided) (hn : s.Numbered) {w : Suspended} (hw : w ∈ s.waiting)
    {c : Awaiting} (hc : w.waiter = .requestPermissions c) {d : Decision}
    (hd : c.poll s.system = .done d) :
    s.answers (.poll w.number) = .ended w.number (.decision d) := by
  refine answers_done (t := s.system) hs hn hw ?_
  rw [hc, Waiter.poll, hd]
  rfl

/-! ## Every run -/

/-- What holds of requests, decisions and callers at a step after a run. -/
structure Decisions (s : Session) (before : List Action) (a : Action) : Prop where
  /-- Only an operation on a request removes it. -/
  removed : ∀ id ∈ (s.run before).gate.pending.ids,
    id ∉ (s.run (before ++ [a])).gate.pending.ids → ∃ d, (s.run before).Concludes a id d
  /-- What was removed after some of the actions stays removed. -/
  gone : ∀ early later id, before ++ [a] = early ++ later →
    id ∈ (s.run early).world.announcements.announced.map (·.id) →
      id ∉ (s.run early).gate.pending.ids → id ∉ (s.run (before ++ [a])).gate.pending.ids
  /-- An operation on a registered request removes this one alone, and hands the decision that it
  returns to the caller, if the caller still waits. -/
  decided : ∀ id d, (s.run before).Concludes a id d → id ∈ (s.run before).gate.pending.ids →
    ∃ e, e.id = id ∧ (s.run before).system.Decides e d (s.run (before ++ [a])).system
  /-- What is granted is stored in the same step, for the origin of the request. It is visible and
  persisted then, unless the origin held permissions with the same ids before. -/
  stored : ∀ id granted, (s.run before).Concludes a id (.ok granted) →
    ∃ e, (s.run before).gate.pending.lookUp? id = some e ∧
      Store.Taken ((s.run before).gate.state.grant e.origin granted) (s.run before).system.store
        (s.run (before ++ [a])).system.store (.ok ()) ∧
      ((∀ p ∈ granted, ∀ q ∈ (s.run before).gate.state.permissions e.origin, q.id ≠ p.id) →
        (s.run (before ++ [a])).gate.state = (s.run before).gate.state.grant e.origin granted ∧
          (s.run (before ++ [a])).world.backend.Keeps (s.run (before ++ [a])).gate.state)
  /-- Any other operation on the request says that there is no such request, and changes nothing. -/
  absent : ∀ id d, (s.run before).Concludes a id d → id ∉ (s.run before).gate.pending.ids →
    d = .error (.noSuchPendingApproval id) ∧
      (s.run (before ++ [a])).gate = (s.run before).gate ∧
      (s.run (before ++ [a])).world.backend = (s.run before).world.backend ∧
      (s.run (before ++ [a])).world.tickets = (s.run before).world.tickets
  /-- Whoever waits for a decision waits as long as the request is registered, and is told then what
  the operation decided that removed it. -/
  told : ∀ w ∈ (s.run before).waiting, ∀ c ∈ w.waiter.awaiting,
    (c.poll (s.run before).system = .waiting c ∧
        ∃ e ∈ (s.run before).gate.pending.entries, e.id = c.id ∧ e.ticket = c.ticket) ∨
      ∃ early b later d, before = early ++ b :: later ∧ (s.run early).Concludes b c.id d ∧
        c.id ∈ (s.run early).gate.pending.ids ∧ c.poll (s.run before).system = .done d
  /-- The decision is what the caller of a request for permissions receives. -/
  received : ∀ w ∈ (s.run before).waiting, ∀ c d, w.waiter = .requestPermissions c →
    c.poll (s.run before).system = .done d →
      (s.run before).answers (.poll w.number) = .ended w.number (.decision d)
  /-- No operation ends twice. -/
  once : ∀ early b later n r, before = early ++ b :: later →
    (s.run early).answers b = .ended n r → ∀ q, (s.run before).answers a ≠ .ended n q

/-- In every run of a new session in which no id is given to two requests, each request is decided
once, by the operation that removes it. -/
theorem decisions_run {settings : Settings} {w : World} (created : create settings w = .ok s)
    (before : List Action) (a : Action) (fresh : (s.run (before ++ [a])).world.Fresh) :
    s.Decisions before a := by
  have hs := undivided_create created
  have ho := orderly_create created
  have hbefore := undivided_run hs before
  have hnumbered := numbered_run hs (numbered_create created) before
  have hfresh := fresh.of_prefix (announced_append hs before [a])
  have hafter : s.run (before ++ [a]) = (s.run before).after a := run_snoc _ _ _
  constructor
  case removed =>
    intro id registered removed
    rw [hafter] at fresh removed
    exact concludes_of_removed hbefore (orderly_run hs ho before hfresh) fresh registered removed
  case gone =>
    intro early later id hsplit announced gone
    rw [hsplit] at fresh ⊢
    have hearly := fresh.of_prefix (announced_append hs early later)
    rw [run_append] at fresh ⊢
    exact gone_run (undivided_run hs early) (orderly_run hs ho early hearly) fresh announced gone
  case decided =>
    intro id d concludes registered
    have hsome : (s.run before).gate.pending.lookUp? id ≠ none := by
      intro hnone
      exact Pending.lookUp?_eq_none.1 hnone registered
    obtain ⟨e, he⟩ := Option.ne_none_iff_exists'.1 hsome
    rw [hafter]
    exact ⟨e, (Pending.lookUp?_spec he).2, (concluded_step hbefore concludes).decides he⟩
  case stored =>
    intro id granted concludes
    have hconcluded := concluded_step hbefore concludes
    rw [← hafter] at hconcluded
    obtain ⟨n, approving, e, rfl, under, found, finished⟩ := hconcluded.of_granted
    obtain ⟨-, -, r, -, -, -, horigin, hsame⟩ :=
      approving_request hs ho (waiting_create created) under found
    have he : e.origin = approving.origin := (congrArg _ (hsame hfresh)).trans horigin
    refine ⟨e, found, ?_⟩
    rw [he]
    exact finished.stored
  case absent =>
    intro id d concludes gone
    have hconcluded := concluded_step hbefore concludes
    obtain ⟨hd, supply, ht⟩ := hconcluded.of_absent (Pending.lookUp?_eq_none.2 gone)
    rw [← hafter] at ht
    refine ⟨hd, ?_, ?_, ?_⟩
    · exact congrArg System.gate ht
    · exact congrArg (fun t : System => t.world.backend) ht
    · exact congrArg (fun t : System => t.world.tickets) ht
  case told =>
    intro w hw c hc
    exact ((attended_run created before hfresh).fate w hw c hc).poll
  case received =>
    intro w hw c d hc hd
    exact answers_poll hbefore hnumbered hw hc hd
  case once =>
    intro early b later n r hsplit hended q
    have hspent := spent_of_ended (undivided_run hs early)
      (numbered_run hs (numbered_create created) early) hended
    have hlater := hspent.run (undivided_after (undivided_run hs early) b) later
    have hrun : ((s.run early).after b).run later = s.run before := by
      rw [hsplit, run_append]
      rfl
    rw [hrun] at hlater
    exact answers_spent hbefore hlater a q

/-- A rejection that comes while an approval waits for a busy wallet: the approval then finds no
request, and the caller is told of the rejection. -/
theorem decisions_run_race :
    ∃ s before, create .signing (.initial []) = .ok s ∧
      before = [.event (.wallet [] (fun _ => .failure .methodNotFound) true),
        .start (.requestPermissions ⟨"site"⟩ (.single accountsMethod)),
        .start (.approve ⟨⟨⟨0⟩⟩, .single accountsMethod⟩ [⟨0⟩]),
        .command (.reject ⟨⟨0⟩⟩ none),
        .event (.wallet [] (fun _ => .failure .methodNotFound) false)] ∧
      (s.run before).answers (.poll 2) =
        .ended 2 (.decision (.error (.noSuchPendingApproval ⟨⟨0⟩⟩))) ∧
      (s.run before).answers (.poll 1) = .ended 1 (.decision (.error .rejected)) ∧
      s.Decisions before (.poll 2) := by
  have created : create .signing (.initial []) =
      .ok ⟨.signing, .initial [], ⟨Settings.signing.registry, true, .empty, .empty⟩, 0, [], [], 0,
        []⟩ := rfl
  refine ⟨_, _, created, rfl, rfl, rfl, decisions_run created _ _ ?_⟩
  exact List.nodup_singleton _

end Session

end OriginGate
