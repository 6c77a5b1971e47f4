import OriginGate.Proofs.OneRequest

/-!
# Callers and their tickets

What holds of the tickets of a run, whatever ids are drawn.

* `System.Issues` : tickets were issued, and nothing else was done to tickets;
* `System.Tended` : every request that is registered has a ticket of its own, which nobody settled
  but perhaps the caller by giving up (`tended_run`);
* `Session.settled_run` : a ticket that is settled stays as it is;
* `Session.Attentive` : whoever awaits a decision holds the ticket alone and has not given up
  (`attentive_run`).
-/

namespace OriginGate

/-! ## Tickets that are settled -/

theorem Tickets.status_settle (t u : Ticket) (status : Ticket.Status) (ts : Tickets) :
    (ts.settle t status).status u = ts.status u ∨
      u = t ∧ (ts.settle t status).status u = status := by
  by_cases hu : u = t
  · subst hu
    by_cases h : ts.status u = .unsettled
    · exact .inr ⟨rfl, status_settle_self h⟩
    · rw [settle_settled h]
      exact .inl rfl
  · exact .inl (status_settle_ne hu)

namespace Session

theorem status_abandonAll_cases (t : Ticket) (tickets : List Ticket) (w : World) :
    (abandonAll tickets w).tickets.status t = w.tickets.status t ∨
      (abandonAll tickets w).tickets.status t = .abandoned := by
  unfold abandonAll
  induction tickets generalizing w with
  | nil => exact .inl rfl
  | cons u rest ih =>
    rw [List.foldl_cons]
    have hone : (w.abandon u).tickets.status t = w.tickets.status t ∨
        (w.abandon u).tickets.status t = .abandoned :=
      (Tickets.status_settle u t .abandoned w.tickets).imp_right And.right
    rcases ih (w.abandon u) with h | h
    · rw [h]
      exact hone
    · exact .inr h

theorem status_abandonAll {t : Ticket} {tickets : List Ticket} (h : t ∉ tickets) (w : World) :
    (abandonAll tickets w).tickets.status t = w.tickets.status t := by
  unfold abandonAll
  induction tickets generalizing w with
  | nil => rfl
  | cons u rest ih =>
    rw [List.mem_cons, not_or] at h
    rw [List.foldl_cons, ih h.2]
    exact Tickets.status_settle_ne h.1

theorem status_abandonAll_settled {t : Ticket} {w : World}
    (h : w.tickets.status t ≠ .unsettled) (tickets : List Ticket) :
    (abandonAll tickets w).tickets.status t = w.tickets.status t := by
  unfold abandonAll
  induction tickets generalizing w with
  | nil => rfl
  | cons u rest ih =>
    have hone : (w.abandon u).tickets.status t = w.tickets.status t :=
      Tickets.status_settle_settled h
    rw [List.foldl_cons, ih (hone ▸ h), hone]

end Session

/-! ## Tickets that are issued -/

namespace System

/-- Tickets were issued, and nothing else was done to tickets. -/
def Issues (s t : System) : Prop :=
  ∃ n, t.world.tickets.statuses = s.world.tickets.statuses ++ List.replicate n .unsettled

theorem Issues.refl (s : System) : Issues s s := ⟨0, (List.append_nil _).symm⟩

theorem Issues.trans {s t u : System} (h₁ : Issues s t) (h₂ : Issues t u) : Issues s u := by
  obtain ⟨n, hn⟩ := h₁
  obtain ⟨m, hm⟩ := h₂
  exact ⟨n + m, by rw [hm, hn, List.append_assoc, List.replicate_append_replicate]⟩

theorem Issues.length_le {s t : System} (h : Issues s t) :
    s.world.tickets.statuses.length ≤ t.world.tickets.statuses.length := by
  obtain ⟨n, hn⟩ := h
  rw [hn, List.length_append]
  exact Nat.le_add_right _ _

theorem Issues.status {s t : System} (h : Issues s t) {k : Ticket}
    (hk : k < s.world.tickets.statuses.length) :
    t.world.tickets.status k = s.world.tickets.status k := by
  obtain ⟨n, hn⟩ := h
  rw [← Tickets.status_append (List.replicate n .unsettled) hk, ← hn]

theorem Issues.unsettled {s t : System} (h : Issues s t) {k : Ticket}
    (hk : s.world.tickets.statuses.length ≤ k) (hlt : k < t.world.tickets.statuses.length) :
    t.world.tickets.status k = .unsettled := by
  obtain ⟨n, hn⟩ := h
  rw [hn, List.length_append, List.length_replicate] at hlt
  have hindex : k - s.world.tickets.statuses.length < n := Nat.sub_lt_left_of_lt_add hk hlt
  rw [Tickets.status, hn, List.getElem?_append_right hk, List.getElem?_replicate, if_pos hindex]
  rfl

theorem Served.issues {o : Origin} {may : Gate → Rpc.MethodCall → Prop} {s t : System}
    {as : List Awaiting} (h : Served o may s t as) :
    Issues s t ∧ ∀ d ∈ as, s.world.tickets.statuses.length ≤ d.ticket ∧
      d.ticket < t.world.tickets.statuses.length := by
  cases h with
  | @registered permissions id ticket _ valid h =>
    obtain ⟨-, -, hticket, rfl⟩ := register_ok h
    refine ⟨⟨1, rfl⟩, fun d hd => ?_⟩
    rw [List.mem_singleton.1 hd]
    change _ ≤ ticket ∧ ticket < (s.world.tickets.statuses ++ [_]).length
    rw [hticket, List.length_append]
    exact ⟨Nat.le_refl _, Nat.lt_succ_self _⟩
  | _ => exact ⟨.refl _, fun d hd => absurd hd List.not_mem_nil⟩

/-- Serving an origin issues the tickets of the decisions that are awaited afterwards. -/
theorem ServedAll.issues {o : Origin} {may : Gate → Rpc.MethodCall → Prop} {s t : System}
    {as : List Awaiting} (h : ServedAll o may s t as) :
    Issues s t ∧ ∀ d ∈ as, s.world.tickets.statuses.length ≤ d.ticket ∧
      d.ticket < t.world.tickets.statuses.length := by
  induction h with
  | nil s => exact ⟨.refl _, fun d hd => absurd hd List.not_mem_nil⟩
  | cons first _ ih =>
    obtain ⟨hfirst, has⟩ := first.issues
    obtain ⟨hrest, hbs⟩ := ih
    refine ⟨hfirst.trans hrest, fun d hd => ?_⟩
    rcases List.mem_append.1 hd with hd | hd
    · exact ⟨(has d hd).1, Nat.lt_of_lt_of_le (has d hd).2 hrest.length_le⟩
    · exact ⟨Nat.le_trans hfirst.length_le (hbs d hd).1, (hbs d hd).2⟩

/-! ## The tickets of requests -/

/-- Every request that is registered has a ticket of its own, on which nobody decided. -/
structure Tended (s : System) : Prop where
  listed : s.gate.pending.Listed
  /-- Later requests have later tickets. -/
  ascending : (s.gate.pending.entries.map (·.ticket)).Pairwise (· < ·)
  issued : ∀ e ∈ s.gate.pending.entries, e.ticket < s.world.tickets.statuses.length
  undecided : ∀ e ∈ s.gate.pending.entries,
    s.world.tickets.status e.ticket = .unsettled ∨ s.world.tickets.status e.ticket = .abandoned

theorem Tended.kept {s t : System} (hs : s.Tended) (h : SameRequests s t) : t.Tended := by
  constructor
  · rw [h.pending]
    exact hs.listed
  · rw [h.pending]
    exact hs.ascending
  · rw [h.pending, h.tickets]
    exact hs.issued
  · rw [h.pending, h.tickets]
    exact hs.undecided

theorem Served.tended {o : Origin} {may : Gate → Rpc.MethodCall → Prop} {s t : System}
    {as : List Awaiting} (h : Served o may s t as) (hs : s.Tended) : t.Tended := by
  have hissues := h.issues.1
  cases h with
  | nothing => exact hs
  | @registered permissions id ticket _ valid h =>
    obtain ⟨hfree, -, hticket, rfl⟩ := register_ok h
    have hlength := hissues.length_le
    refine ⟨hs.listed.add hfree, ?_, fun e he => ?_, fun e he => ?_⟩
    · change ((s.gate.pending.entries.filter _ ++ [_]).map _).Pairwise _
      rw [List.map_append, List.map_singleton]
      refine List.pairwise_append.2 ⟨hs.ascending.sublist (List.filter_sublist.map _),
        List.pairwise_singleton _ _, fun j hj k hk => ?_⟩
      obtain ⟨e, he, rfl⟩ := List.mem_map.1 hj
      rw [List.mem_singleton.1 hk, hticket]
      exact hs.issued e (List.mem_filter.1 he).1
    · rcases Pending.mem_add.1 he with ⟨hmem, -⟩ | rfl
      · exact Nat.lt_of_lt_of_le (hs.issued e hmem) hlength
      · change ticket < (s.world.tickets.statuses ++ [_]).length
        rw [hticket, List.length_append]
        exact Nat.lt_succ_self _
    · rcases Pending.mem_add.1 he with ⟨hmem, -⟩ | rfl
      · rw [hissues.status (hs.issued e hmem)]
        exact hs.undecided e hmem
      · refine .inl (hissues.unsettled (Nat.le_of_eq hticket.symm) ?_)
        change ticket < (s.world.tickets.statuses ++ [_]).length
        rw [hticket, List.length_append]
        exact Nat.lt_succ_self _
  | recorded m => exact hs.kept ⟨rfl, rfl, rfl⟩
  | reported e => exact hs.kept ⟨rfl, rfl, rfl⟩
  | sent h => exact hs.kept ⟨rfl, rfl, rfl⟩

theorem ServedAll.tended {o : Origin} {may : Gate → Rpc.MethodCall → Prop} {s t : System}
    {as : List Awaiting} (h : ServedAll o may s t as) (hs : s.Tended) : t.Tended := by
  induction h with
  | nil s => exact hs
  | cons first _ ih => exact ih (first.tended hs)

theorem Tended.ticket_ne {s : System} (h : s.Tended) {e f : PendingRequest}
    (he : e ∈ s.gate.pending.entries) (hf : f ∈ s.gate.pending.entries) (hne : f.id ≠ e.id) :
    f.ticket ≠ e.ticket := by
  intro hticket
  have hinj := List.inj_on_of_nodup_map (h.ascending.imp Nat.ne_of_lt) hf he hticket
  exact hne (congrArg PendingRequest.id hinj)

theorem Decides.tended {s t : System} {e : PendingRequest} {d : Decision} (h : s.Decides e d t)
    (hs : s.Tended) : t.Tended := by
  have hmem := (Pending.lookUp?_spec h.found).1
  constructor
  · rw [h.pending]
    exact hs.listed.without hmem
  · rw [h.pending]
    exact hs.ascending.sublist (List.filter_sublist.map _)
  · rw [h.pending, h.tickets, Tickets.settle_length]
    exact fun f hf => hs.issued f (Pending.mem_without.1 hf).1
  · intro f hf
    rw [h.pending] at hf
    obtain ⟨hf, hid⟩ := Pending.mem_without.1 hf
    rw [h.tickets, Tickets.status_settle_ne (hs.ticket_ne hmem hf hid)]
    exact hs.undecided f hf

end System

namespace Session

variable {s : Session} {a : Action}

theorem tended_after (hu : s.Undivided) (hs : s.system.Tended) (a : Action) :
    (s.after a).system.Tended := by
  have hmoved := moved_step hu a
  generalize (s.after a).system = t at hmoved
  cases hmoved with
  | kept h => exact hs.kept h
  | served _ _ h => exact h.tended hs
  | decided _ h => exact h.tended hs
  | abandoned _ _ =>
    refine ⟨hs.listed, hs.ascending, fun e he => ?_, fun e he => ?_⟩
    · rw [abandonAll_length]
      exact hs.issued e he
    · rcases status_abandonAll_cases e.ticket _ s.world with h | h
      · rw [h]
        exact hs.undecided e he
      · exact .inr h

theorem tended_create {settings : Settings} {w : World} (h : create settings w = .ok s) :
    s.system.Tended := by
  obtain ⟨store, -, rfl⟩ := create_eq h
  exact ⟨.empty, List.Pairwise.nil, fun e he => absurd he List.not_mem_nil,
    fun e he => absurd he List.not_mem_nil⟩

/-- The requests of a run have tickets of their own, on which nobody decided. -/
theorem tended_run {settings : Settings} {w : World} (created : create settings w = .ok s)
    (actions : List Action) : (s.run actions).system.Tended := by
  refine (undivided_create created).run_induction (P := fun t => t.system.Tended)
    (tended_create created) (fun t a ht h => ?_) actions
  exact tended_after ht h a

/-! ## What is awaited after a step -/

/-- What is awaited after a step was awaited before, by a caller who did not give up, or the
operation awaits it that the step began. -/
theorem awaiting_after (hs : s.Undivided) {w : Suspended} (hw : w ∈ (s.after a).waiting)
    {d : Awaiting} (hd : d ∈ w.waiter.awaiting) :
    (∃ v ∈ s.waiting, v.number = w.number ∧ a ≠ .drop v.number ∧ d ∈ v.waiter.awaiting) ∨
      ∃ op, a = .start op ∧ w.number = s.begun + 1 ∧
        d ∈ (op.begin s.system).2.awaiting Waiter.awaiting := by
  rcases waiting_after hs hw with ⟨hw, ha⟩ | ⟨op, t, ha, hbegin, hn⟩ | ⟨v, t, hv, htakes⟩
  · exact .inl ⟨w, hw, rfl, ha, hd⟩
  · refine .inr ⟨op, ha, hn, ?_⟩
    rw [hbegin]
    exact hd
  · obtain ⟨hmem, hn⟩ := mem_of_suspended? hv
    exact .inl ⟨v, hmem, hn, htakes.ne_drop _, (Waiter.awaiting_of_takesUp htakes).subset hd⟩

theorem start_system (op : Operation) (s : Session) :
    (s.after (.start op)).system = (op.begin s.system).1 := by
  rcases h : op.begin s.system with ⟨t, r | w⟩
  · rw [after, step_ended h]
    rfl
  · rw [after, step_waits h]
    rfl

theorem awaiting_approve (approved : ApprovedRequest) (accounts : List Account) (s : System) :
    ((Operation.approve approved accounts).begin s).2.awaiting Waiter.awaiting = [] := by
  simp only [Operation.begin, Progress.awaiting_mapWaiting, Progress.awaiting_map,
    Waiter.awaiting]
  cases (s.approve approved accounts).2 <;> rfl

theorem issues_started {op : Operation} {d : Awaiting} (ha : a = .start op)
    (hd : d ∈ (op.begin s.system).2.awaiting Waiter.awaiting) :
    System.Issues s.system (s.after a).system ∧ s.world.tickets.statuses.length ≤ d.ticket ∧
      d.ticket < (s.after a).world.tickets.statuses.length := by
  subst ha
  rcases hsite : op.site? with _ | o
  · cases op with
    | approve approved accounts =>
      rw [awaiting_approve] at hd
      exact absurd hd List.not_mem_nil
    | _ => cases hsite
  · have hserved := op.begin_served hsite s.system
    rw [← start_system] at hserved
    exact ⟨hserved.issues.1, hserved.issues.2 d hd⟩

theorem tickets_length_after (hu : s.Undivided) (a : Action) :
    s.world.tickets.statuses.length ≤ (s.after a).world.tickets.statuses.length := by
  have hmoved := moved_step hu a
  change _ ≤ (s.after a).system.world.tickets.statuses.length
  generalize (s.after a).system = t at hmoved
  cases hmoved with
  | kept h =>
    rw [h.tickets]
    exact Nat.le_refl _
  | served _ _ h => exact h.issues.1.length_le
  | decided _ h =>
    rw [h.tickets, Tickets.settle_length]
    exact Nat.le_refl _
  | abandoned _ _ => exact Nat.le_of_eq (abandonAll_length _ _).symm

/-- A ticket is abandoned by nobody but those who hold it and give up. -/
theorem present_after (hu : s.Undivided) {t : Ticket} (issued : t < s.world.tickets.statuses.length)
    (present : s.world.tickets.status t ≠ .abandoned)
    (kept : ∀ n w, a = .drop n → s.suspended? n = some w → t ∉ w.waiter.tickets) :
    (s.after a).world.tickets.status t ≠ .abandoned := by
  have hmoved := moved_step hu a
  change (s.after a).system.world.tickets.status t ≠ _
  generalize (s.after a).system = u at hmoved
  cases hmoved with
  | kept h =>
    rw [h.tickets]
    exact present
  | served _ _ h =>
    rw [h.issues.1.status issued]
    exact present
  | @decided e d _ _ h =>
    rw [h.tickets]
    rcases Tickets.status_settle e.ticket t (.decided d) s.world.tickets with hstatus | ⟨-, hstatus⟩
    · intro habandoned
      exact present (hstatus.symm.trans habandoned)
    · intro habandoned
      cases hstatus.symm.trans habandoned
  | @abandoned n w dropped hw =>
    rw [status_abandonAll (kept n w dropped hw)]
    exact present

/-- A step leaves a ticket as it is, unless it decides the request that has the ticket, or whoever
holds the ticket gives up. -/
theorem status_after (hu : s.Undivided) {t : Ticket} (issued : t < s.world.tickets.statuses.length)
    (undecided : ∀ e ∈ s.gate.pending.entries, e.ticket = t → ∀ d, ¬ s.Concludes a e.id d)
    (kept : ∀ n w, a = .drop n → s.suspended? n = some w → t ∉ w.waiter.tickets) :
    (s.after a).world.tickets.status t = s.world.tickets.status t := by
  have hmoved := moved_step hu a
  change (s.after a).system.world.tickets.status t = _
  generalize (s.after a).system = u at hmoved
  cases hmoved with
  | kept h =>
    rw [h.tickets]
    rfl
  | served _ _ h => exact h.issues.1.status issued
  | @decided e d _ concludes h =>
    rw [h.tickets]
    refine Tickets.status_settle_ne fun heq => ?_
    exact undecided e (Pending.lookUp?_spec h.found).1 heq.symm d concludes
  | @abandoned n w dropped hw => exact status_abandonAll (kept n w dropped hw) _

theorem settled_after (hu : s.Undivided) {t : Ticket} (issued : t < s.world.tickets.statuses.length)
    (settled : s.world.tickets.status t ≠ .unsettled) (a : Action) :
    (s.after a).world.tickets.status t = s.world.tickets.status t := by
  have hmoved := moved_step hu a
  change (s.after a).system.world.tickets.status t = _
  generalize (s.after a).system = u at hmoved
  cases hmoved with
  | kept h => rw [h.tickets]; rfl
  | served _ _ h => exact h.issues.1.status issued
  | decided _ h =>
    rw [h.tickets]
    exact Tickets.status_settle_settled settled
  | abandoned _ _ => exact status_abandonAll_settled settled _

theorem settled_run (hu : s.Undivided) {t : Ticket} (issued : t < s.world.tickets.statuses.length)
    (settled : s.world.tickets.status t ≠ .unsettled) (actions : List Action) :
    (s.run actions).world.tickets.status t = s.world.tickets.status t := by
  suffices h : t < (s.run actions).world.tickets.statuses.length ∧
      (s.run actions).world.tickets.status t = s.world.tickets.status t from h.2
  induction actions using List.reverseRecOn with
  | nil => exact ⟨issued, rfl⟩
  | append_singleton before a ih =>
    obtain ⟨hissued, hstatus⟩ := ih
    have hbefore := undivided_run hu before
    rw [run_snoc, settled_after hbefore hissued (hstatus ▸ settled) a]
    exact ⟨Nat.lt_of_lt_of_le hissued (tickets_length_after hbefore a), hstatus⟩

/-! ## Those who wait -/

/-- Whoever awaits a decision holds its ticket alone, and has not given up. -/
structure Attentive (s : Session) : Prop where
  holds : ∀ w ∈ s.waiting, w.waiter.holdsGate = true
  issued : ∀ w ∈ s.waiting, ∀ d ∈ w.waiter.awaiting, d.ticket < s.world.tickets.statuses.length
  owned : ∀ w ∈ s.waiting, ∀ v ∈ s.waiting, ∀ d ∈ w.waiter.awaiting, ∀ c ∈ v.waiter.awaiting,
    d.ticket = c.ticket → w.number = v.number
  present : ∀ w ∈ s.waiting, ∀ d ∈ w.waiter.awaiting,
    s.world.tickets.status d.ticket ≠ .abandoned

/-- Whoever gives up abandons no ticket but those of the own operation. -/
theorem Attentive.not_mem_tickets (h : s.Attentive) {v w : Suspended} (hv : v ∈ s.waiting)
    (hw : w ∈ s.waiting) {d : Awaiting} (hd : d ∈ v.waiter.awaiting) (hne : v.number ≠ w.number) :
    d.ticket ∉ w.waiter.tickets := by
  rw [Waiter.tickets_eq (h.holds w hw)]
  intro hmem
  obtain ⟨c, hc, hticket⟩ := List.mem_map.1 hmem
  exact hne (h.owned v hv w hw d hd c hc hticket.symm)

/-- Those who do not give up keep their tickets when others do. -/
theorem Attentive.kept (h : s.Attentive) {v : Suspended} (hv : v ∈ s.waiting) {d : Awaiting}
    (hd : d ∈ v.waiter.awaiting) (stays : a ≠ .drop v.number) :
    ∀ n w, a = .drop n → s.suspended? n = some w → d.ticket ∉ w.waiter.tickets := by
  intro n w hdrop hw
  obtain ⟨hmem, rfl⟩ := mem_of_suspended? hw
  refine h.not_mem_tickets hv hmem hd fun heq => ?_
  rw [heq] at stays
  exact stays hdrop

theorem attentive_after (hu : s.Undivided) (h : s.Attentive) (a : Action) :
    (s.after a).Attentive := by
  constructor
  case holds =>
    intro w hw
    rcases waiting_after hu hw with ⟨hw, -⟩ | ⟨op, t, -, hbegin, -⟩ | ⟨v, t, hv, htakes⟩
    · exact h.holds w hw
    · exact Operation.holdsGate_of_begin hbegin
    · exact Waiter.holdsGate_of_takesUp (h.holds v (mem_of_suspended? hv).1) htakes
  case issued =>
    intro w hw d hd
    rcases awaiting_after hu hw hd with ⟨v, hv, -, -, hd⟩ | ⟨op, ha, -, hd⟩
    · exact Nat.lt_of_lt_of_le (h.issued v hv d hd) (tickets_length_after hu a)
    · exact (issues_started ha hd).2.2
  case owned =>
    -- A ticket that a step issues is later than all that were awaited before.
    have hlater : ∀ {c d : Awaiting} {op : Operation}, a = .start op →
        c.ticket < s.world.tickets.statuses.length →
        d ∈ (op.begin s.system).2.awaiting Waiter.awaiting → c.ticket ≠ d.ticket := by
      intro c d op ha hissued hd
      exact Nat.ne_of_lt (Nat.lt_of_lt_of_le hissued (issues_started ha hd).2.1)
    intro w hw v hv d hd c hc hticket
    rcases awaiting_after hu hw hd with ⟨u, hu', hun, -, hd⟩ | ⟨op, ha, hwn, hd⟩ <;>
      rcases awaiting_after hu hv hc with ⟨x, hx, hxn, -, hc⟩ | ⟨op', ha', hvn, hc⟩
    · rw [← hun, ← hxn]
      exact h.owned u hu' x hx d hd c hc hticket
    · exact absurd hticket (hlater ha' (h.issued u hu' d hd) hc)
    · exact absurd hticket.symm (hlater ha (h.issued x hx c hc) hd)
    · rw [hwn, hvn]
  case present =>
    intro w hw d hd
    rcases awaiting_after hu hw hd with ⟨v, hv, -, hstays, hd⟩ | ⟨op, ha, -, hd⟩
    · exact present_after hu (h.issued v hv d hd) (h.present v hv d hd) (h.kept hv hd hstays)
    · obtain ⟨hissues, hle, hlt⟩ := issues_started ha hd
      rw [show (s.after a).world.tickets.status d.ticket = _ from hissues.unsettled hle hlt]
      exact Ticket.Status.noConfusion

/-- Whoever awaits a decision in a run holds its ticket alone, and has not given up. -/
theorem attentive_run {settings : Settings} {w : World} (created : create settings w = .ok s)
    (actions : List Action) : (s.run actions).Attentive := by
  refine (undivided_create created).run_induction ?_ (fun t a ht h => attentive_after ht h a)
    actions
  have hnone := waiting_create created
  refine ⟨?_, ?_, ?_, ?_⟩ <;> (rw [hnone]; exact fun w hw => absurd hw List.not_mem_nil)

end Session

end OriginGate
