import OriginGate.Proofs.Callers

/-!
# Callers who wait

* `Session.Fate` : what has become of an awaited decision: its request is still registered, or one
  operation decided it;
* `Session.Attended` : every decision that somebody awaits has a fate, and nobody else awaits it
  (`attended_run`);
* `Session.Waits` : what an operation waits with, from its begin (`waits_start`) through every step
  (`Waits.after`, `Waits.run`) to its end (`Waits.ended`);
* `Session.Spent` : an operation that ended ends no more (`answers_spent`).
-/

namespace OriginGate

/-! ## What is awaited after a step -/

theorem System.Registers.unsettled {s t : System} {news : List PendingRequest}
    (h : Registers s news t) {e : PendingRequest} (he : e ∈ news) :
    t.world.tickets.status e.ticket = .unsettled := by
  have hmem : e.ticket ∈ news.map (·.ticket) := List.mem_map_of_mem he
  rw [h.tickets, List.mem_range'_1] at hmem
  obtain ⟨hle, hlt⟩ := hmem
  have hindex : e.ticket - s.world.tickets.statuses.length < news.length :=
    Nat.sub_lt_left_of_lt_add hle hlt
  rw [Tickets.status, h.statuses, List.getElem?_append_right hle, List.getElem?_map,
    List.getElem?_eq_getElem hindex]
  rfl

namespace Session

variable {s : Session} {a : Action}

theorem awaiting_start (op : Operation) (hs : s.system.Orderly)
    (fresh : (s.after (.start op)).world.Fresh) :
    ∃ news, (op.begin s.system).2.awaiting Waiter.awaiting = news.map (fun e => ⟨e.id, e.ticket⟩) ∧
      (news = [] ∨ System.Registers s.system news (s.after (.start op)).system) := by
  rcases hsite : op.site? with _ | o
  · refine ⟨[], ?_, .inl rfl⟩
    cases op with
    | approve approved accounts => exact awaiting_approve approved accounts s.system
    | _ => cases hsite
  · have hserved := op.begin_served hsite s.system
    rw [← start_system] at hserved
    obtain ⟨news, hnews, has⟩ := hserved.registers hs fresh
    exact ⟨news, has, .inr hnews⟩

/-! ## The fate of a decision -/

/-- What has become of an awaited decision. -/
inductive Fate (s : Session) (actions : List Action) (d : Awaiting) : Prop where
  /-- The request is registered, and the caller waits. -/
  | pending {e : PendingRequest} (mem : e ∈ (s.run actions).gate.pending.entries)
    (id : e.id = d.id) (ticket : e.ticket = d.ticket)
    (unsettled : (s.run actions).world.tickets.status d.ticket = .unsettled)
  /-- An operation on the request decided it while it was registered. -/
  | decided {before later : List Action} {a : Action} {decision : Decision}
    (split : actions = before ++ a :: later) (concludes : (s.run before).Concludes a d.id decision)
    (registered : d.id ∈ (s.run before).gate.pending.ids)
    (status : (s.run actions).world.tickets.status d.ticket = .decided decision)

theorem Fate.decided_snoc {early later : List Action} {b : Action} {d : Awaiting}
    {decision : Decision} (concludes : (s.run early).Concludes b d.id decision)
    (registered : d.id ∈ (s.run early).gate.pending.ids)
    (status : (s.run (early ++ b :: later ++ [a])).world.tickets.status d.ticket =
      .decided decision) : s.Fate (early ++ b :: later ++ [a]) d := by
  have hsplit : early ++ b :: later ++ [a] = early ++ b :: (later ++ [a]) := by
    rw [List.append_assoc, List.cons_append]
  exact .decided hsplit concludes registered status

/-- A step that keeps a request and the status of its ticket leaves the fate of the decision. -/
theorem Fate.kept {before : List Action} {d : Awaiting} (h : s.Fate before d)
    (entries : ∀ e ∈ (s.run before).gate.pending.entries,
      e ∈ (s.run (before ++ [a])).gate.pending.entries)
    (status : (s.run (before ++ [a])).world.tickets.status d.ticket =
      (s.run before).world.tickets.status d.ticket) : s.Fate (before ++ [a]) d := by
  cases h with
  | pending mem id ticket unsettled =>
    exact .pending (entries _ mem) id ticket (status.trans unsettled)
  | decided split concludes registered decided =>
    subst split
    exact decided_snoc concludes registered (status.trans decided)

/-- A step that decides a request decides all that is awaited for it, and leaves other fates. -/
theorem Fate.of_decides {before : List Action} {d : Awaiting} (h : s.Fate before d)
    (ho : (s.run before).system.Orderly) (fresh : (s.run before).world.Fresh)
    {e : PendingRequest} {decision : Decision}
    (concludes : (s.run before).Concludes a e.id decision)
    (decides : (s.run before).system.Decides e decision (s.run (before ++ [a])).system) :
    s.Fate (before ++ [a]) d := by
  have hpending : (s.run (before ++ [a])).gate.pending =
      (s.run before).gate.pending.without e := decides.pending
  have htickets : (s.run (before ++ [a])).world.tickets =
      (s.run before).world.tickets.settle e.ticket (.decided decision) := decides.tickets
  have hmem : e ∈ (s.run before).gate.pending.entries := (Pending.lookUp?_spec decides.found).1
  cases h with
  | @pending f mem id ticket unsettled =>
    by_cases hid : f.id = e.id
    · -- It is the request that the step decides.
      obtain rfl : f = e := List.inj_on_of_nodup_map (ho.ids_nodup fresh) mem hmem hid
      rw [id] at concludes
      refine .decided rfl concludes ?_ ?_
      · rw [← id]
        exact List.mem_map_of_mem hmem
      · rw [htickets, ticket]
        exact Tickets.status_settle_self unsettled
    · have hne : d.ticket ≠ e.ticket := by
        intro hticket
        have hinj := List.inj_on_of_nodup_map (ho.ascending.imp Nat.ne_of_lt) mem hmem
        exact hid (congrArg PendingRequest.id (hinj (ticket.trans hticket)))
      refine .pending ?_ id ticket ?_
      · rw [hpending]
        exact List.mem_filter.2 ⟨mem, decide_eq_true hid⟩
      · rw [htickets, Tickets.status_settle_ne hne]
        exact unsettled
  | decided split concluded registered status =>
    subst split
    refine decided_snoc concluded registered ?_
    rw [htickets, Tickets.status_settle_settled]
    · exact status
    · intro hunsettled
      cases status.symm.trans hunsettled

/-- A step leaves the fate of a decision, or decides it. -/
theorem Fate.snoc {before : List Action} {d : Awaiting} (h : s.Fate before d)
    (hu : (s.run before).Undivided) (ho : (s.run before).system.Orderly)
    (fresh : (s.run (before ++ [a])).world.Fresh)
    (issued : d.ticket < (s.run before).world.tickets.statuses.length)
    (kept : ∀ n w, a = .drop n → (s.run before).suspended? n = some w →
      d.ticket ∉ w.waiter.tickets) : s.Fate (before ++ [a]) d := by
  have hmoved := moved_step hu a
  have hbefore : (s.run before).world.Fresh := by
    rw [run_snoc] at fresh
    exact fresh.of_prefix (announced_after hu a)
  rw [← run_snoc] at hmoved
  change (s.run (before ++ [a])).system.world.Fresh at fresh
  generalize ht : (s.run (before ++ [a])).system = t at hmoved fresh
  have hgate : (s.run (before ++ [a])).gate = t.gate := congrArg System.gate ht
  have hworld : (s.run (before ++ [a])).world = t.world := congrArg System.world ht
  cases hmoved with
  | kept hkept =>
    refine h.kept (fun e he => ?_) ?_
    · rw [hgate, hkept.pending]
      exact he
    · rw [hworld, hkept.tickets]
      rfl
  | served begun site hserved =>
    obtain ⟨news, hnews, -⟩ := hserved.registers ho fresh
    refine h.kept (fun e he => ?_) ?_
    · rw [hgate, hnews.entries]
      exact List.mem_append_left _ he
    · have happend : t.world.tickets = ⟨_⟩ := congrArg Tickets.mk hnews.statuses
      rw [hworld, happend]
      exact Tickets.status_append _ issued
  | decided hconcludes hdecides =>
    subst ht
    exact h.of_decides ho hbefore hconcludes hdecides
  | @abandoned n w dropped hw =>
    refine h.kept (fun e he => ?_) ?_
    · rw [hgate]
      exact he
    · rw [hworld]
      exact status_abandonAll (kept n w dropped hw) _

/-- Every decision that is awaited has a fate, and only one operation awaits it. -/
structure Attended (s : Session) (actions : List Action) : Prop where
  holds : ∀ w ∈ (s.run actions).waiting, w.waiter.holdsGate = true
  issued : ∀ w ∈ (s.run actions).waiting, ∀ d ∈ w.waiter.awaiting,
    d.ticket < (s.run actions).world.tickets.statuses.length
  owned : ∀ w ∈ (s.run actions).waiting, ∀ v ∈ (s.run actions).waiting,
    ∀ d ∈ w.waiter.awaiting, ∀ c ∈ v.waiter.awaiting, d.ticket = c.ticket → w.number = v.number
  fate : ∀ w ∈ (s.run actions).waiting, ∀ d ∈ w.waiter.awaiting, s.Fate actions d

theorem registers_started {op : Operation} {d : Awaiting} (ha : a = .start op)
    (ho : s.system.Orderly) (fresh : (s.after a).world.Fresh)
    (hd : d ∈ (op.begin s.system).2.awaiting Waiter.awaiting) :
    ∃ e news, System.Registers s.system news (s.after a).system ∧ e ∈ news ∧ e.id = d.id ∧
      e.ticket = d.ticket := by
  subst ha
  obtain ⟨news, hnews, hregisters⟩ := awaiting_start op ho fresh
  rw [hnews] at hd
  obtain ⟨e, he, rfl⟩ := List.mem_map.1 hd
  rcases hregisters with rfl | hregisters
  · exact absurd he List.not_mem_nil
  · exact ⟨e, news, hregisters, he, rfl, rfl⟩

theorem attended_snoc {before : List Action} (hu : (s.run before).Undivided)
    (ho : (s.run before).system.Orderly) (fresh : (s.run (before ++ [a])).world.Fresh)
    (attentive : (s.run before).Attentive) (h : s.Attended before) :
    s.Attended (before ++ [a]) := by
  have hafter : s.run (before ++ [a]) = (s.run before).after a := run_snoc _ _ _
  have hattentive : (s.run (before ++ [a])).Attentive :=
    hafter ▸ attentive_after hu attentive a
  refine ⟨hattentive.holds, hattentive.issued, hattentive.owned, fun w hw d hd => ?_⟩
  rw [hafter] at hw
  rcases awaiting_after hu hw hd with ⟨v, hv, -, hstays, hd⟩ | ⟨op, ha, -, hd⟩
  · exact (h.fate v hv d hd).snoc hu ho fresh (h.issued v hv d hd)
      (attentive.kept hv hd hstays)
  · obtain ⟨e, news, hnews, he, hid, hticket⟩ := registers_started ha ho (hafter ▸ fresh) hd
    rw [← hafter] at hnews
    have hentries : (s.run (before ++ [a])).gate.pending.entries = _ := hnews.entries
    refine .pending ?_ hid hticket ?_
    · rw [hentries]
      exact List.mem_append_right _ he
    · rw [← hticket]
      exact hnews.unsettled he

/-- Every decision that is awaited in a run of a new session has a fate. -/
theorem attended_run {settings : Settings} {w : World} (created : create settings w = .ok s)
    (actions : List Action) (fresh : (s.run actions).world.Fresh) : s.Attended actions := by
  have hs := undivided_create created
  induction actions using List.reverseRecOn with
  | nil =>
    have hnone : (s.run []).waiting = [] := waiting_create created
    refine ⟨?_, ?_, ?_, ?_⟩ <;> (rw [hnone]; exact fun w hw => absurd hw List.not_mem_nil)
  | append_singleton before a ih =>
    have hfresh := fresh.of_prefix (announced_append hs before [a])
    exact attended_snoc (undivided_run hs before)
      (orderly_run hs (orderly_create created) before hfresh) fresh
      (attentive_run created before) (ih hfresh)

/-! ## Operations that ended -/

/-- A number was given to an operation that waits no longer. -/
def Spent (n : Nat) (s : Session) : Prop := n ≤ s.begun ∧ ∀ w ∈ s.waiting, w.number ≠ n

theorem begun_after (hs : s.Undivided) (a : Action) : s.begun ≤ (s.after a).begun := by
  have hstep := stepped_step hs a
  generalize s.after a = u, s.answers a = answer at hstep
  cases hstep with
  | endedAtOnce _ => exact Nat.le_succ _
  | began _ => exact Nat.le_succ _
  | _ => exact Nat.le_refl _

theorem begun_run (hs : s.Undivided) (actions : List Action) : s.begun ≤ (s.run actions).begun := by
  refine hs.run_induction (P := fun t => s.begun ≤ t.begun) (Nat.le_refl _) (fun t a ht h => ?_)
    actions
  exact Nat.le_trans h (begun_after ht a)

theorem begun_start (op : Operation) (s : Session) :
    (s.after (.start op)).begun = s.begun + 1 := by
  rcases h : op.begin s.system with ⟨t, r | w⟩
  · rw [after, step_ended h]
  · rw [after, step_waits h]

/-! ### Following one operation -/

/-- A number was given to an operation, and as long as this waits, it waits with something that
satisfies a condition. -/
def Waits (n : Nat) (P : Waiter → Prop) (s : Session) : Prop :=
  n ≤ s.begun ∧ ∀ w ∈ s.waiting, w.number = n → P w.waiter

variable {n : Nat} {P Q : Waiter → Prop}

theorem waiting_named (hs : s.Undivided) {w : Suspended} (h : w ∈ (s.after a).waiting)
    (named : a = .poll w.number ∨ ∃ i, a = .pollCall w.number i) :
    ∃ v t, s.suspended? w.number = some v ∧
      a.TakesUp w.number v.waiter s.system t (.waiting w.waiter) := by
  have hnumber : ∀ {m : Nat} {v : Waiter} {t : System} {p : Progress Waiter Result},
      a.TakesUp m v s.system t p → m = w.number := by
    rintro m v t p (⟨ha, -⟩ | ⟨i, ha, -⟩) <;> rcases named with hn | ⟨j, hn⟩ <;> rw [ha] at hn <;>
      cases hn <;> rfl
  have hstep := stepped_step hs a
  generalize s.after a = u, s.answers a = answer at hstep h
  cases hstep with
  | @absent _ m ha hnone =>
    have hm : m = w.number := by
      rcases ha with ha | ⟨i, ha⟩ | ha <;> rcases named with hn | ⟨j, hn⟩ <;> rw [ha] at hn <;>
        cases hn <;> rfl
    subst hm
    exact absurd (decide_eq_true rfl) (List.find?_eq_none.1 hnone w h)
  | @wentOn _ m v t waiter hv htakes =>
    have hm := hnumber htakes
    subst hm
    have hvn := (mem_of_suspended? hv).2
    obtain ⟨x, hx, hxw⟩ := List.mem_map.1 h
    by_cases heq : x.number = v.number
    · rw [if_pos heq] at hxw
      subst hxw
      exact ⟨v, t, hv, htakes⟩
    · rw [if_neg heq] at hxw
      exact absurd ((congrArg Suspended.number hxw).trans hvn.symm) heq
  | ended _ htakes =>
    exact absurd (hnumber htakes).symm (of_decide_eq_true (List.mem_filter.1 h).2)
  | _ => rcases named with hn | ⟨j, hn⟩ <;> cases hn

theorem waits_start (hs : s.Undivided) (hn : s.Numbered) {op : Operation}
    (h : ∀ t w, op.begin s.system = (t, .waiting w) → P w) :
    (s.after (.start op)).Waits (s.begun + 1) P := by
  refine ⟨Nat.le_of_eq (begun_start op s).symm, fun w hw hnumber => ?_⟩
  rcases waiting_after hs hw with ⟨hw, -⟩ | ⟨op', t, heq, hbegin, -⟩ | ⟨v, t, hv, -⟩
  · have := hn.given w hw
    omega
  · cases heq
    exact h t w.waiter hbegin
  · obtain ⟨hmem, hnumber'⟩ := mem_of_suspended? hv
    have := hn.given v hmem
    omega

/-- A step that does not take up the operation leaves what it waits with. -/
theorem Waits.after (h : s.Waits n P) (hs : s.Undivided) (a : Action)
    (stays : a ≠ .poll n → (∀ i, a ≠ .pollCall n i) → ∀ w, P w → Q w)
    (goesOn : ∀ v w t, P v → a.TakesUp n v s.system t (.waiting w) → Q w) :
    (s.after a).Waits n Q := by
  refine ⟨Nat.le_trans h.1 (begun_after hs a), ?_⟩
  rintro w hw rfl
  by_cases named : a = .poll w.number ∨ ∃ i, a = .pollCall w.number i
  · obtain ⟨v, t, hv, htakes⟩ := waiting_named hs hw named
    obtain ⟨hmem, hnumber⟩ := mem_of_suspended? hv
    exact goesOn v.waiter w.waiter t (h.2 v hmem hnumber) htakes
  · have hpoll : a ≠ .poll w.number := fun ha => named (.inl ha)
    have hcall : ∀ i, a ≠ .pollCall w.number i := fun i ha => named (.inr ⟨i, ha⟩)
    rcases waiting_after hs hw with ⟨hw, -⟩ | ⟨op, t, -, -, hnew⟩ | ⟨v, t, -, htakes⟩
    · exact stays hpoll hcall w.waiter (h.2 w hw rfl)
    · have := h.1
      omega
    · rcases htakes with ⟨ha, -⟩ | ⟨i, ha, -⟩
      · exact absurd ha hpoll
      · exact absurd ha (hcall i)

theorem Waits.run (h : s.Waits n P) (hs : s.Undivided)
    (kept : ∀ (a : Action) v w t u, P v → a.TakesUp n v t u (.waiting w) → P w)
    (actions : List Action) : (s.run actions).Waits n P := by
  refine hs.run_induction h (fun t a ht h => ?_) actions
  exact h.after ht a (fun _ _ _ hw => hw) fun v w u => kept a v w _ u

theorem waits_unbatched (hs : s.Undivided) (hn : s.Numbered) {op : Operation} {w : Waiter}
    (unbatched : ∀ slots, w ≠ .request (.batch slots))
    (begins : ∀ t v, op.begin s.system = (t, .waiting v) → v = w) (later : List Action) :
    (s.run (.start op :: later)).Waits (s.begun + 1) (· = w) := by
  apply (waits_start hs hn begins).run (undivided_after hs _)
  rintro a v w' t u rfl htakes
  exact Waiter.eq_of_takesUp unbatched htakes

theorem Waits.suspended (h : s.Waits n P) (hs : s.Undivided) {r : Result}
    (hr : s.answers a = .ended n r) :
    ∃ v t, s.suspended? n = some v ∧ P v.waiter ∧ a.TakesUp n v.waiter s.system t (.done r) := by
  rcases ended_after hs hr with ⟨op, t, -, rfl, -, -⟩ | ⟨v, t, hv, htakes, -⟩
  · exact absurd h.1 (Nat.not_succ_le_self _)
  · obtain ⟨hmem, hnumber⟩ := mem_of_suspended? hv
    exact ⟨v, t, hv, h.2 v hmem hnumber, htakes⟩

theorem Waits.ended (h : s.Waits n P) (hs : s.Undivided) {r : Result}
    (hr : s.answers a = .ended n r) :
    ∃ v t, P v ∧ a.TakesUp n v s.system t (.done r) := by
  obtain ⟨v, t, -, hwaiter, htakes⟩ := h.suspended hs hr
  exact ⟨v.waiter, t, hwaiter, htakes⟩

/-! ### What is spent -/

theorem Spent.run (h : s.Spent n) (hs : s.Undivided) (actions : List Action) :
    (s.run actions).Spent n :=
  Waits.run (P := fun _ => False) h hs (fun _ _ _ _ _ hv _ => hv) actions

theorem spent_of_ended (hs : s.Undivided) (hn : s.Numbered) {r : Result}
    (h : s.answers a = .ended n r) : (s.after a).Spent n := by
  rcases ended_after hs h with ⟨op, t, -, rfl, -, hafter⟩ | ⟨v, t, hv, -, hafter⟩ <;> rw [hafter]
  · refine ⟨Nat.le_refl _, fun w hw => ?_⟩
    have := hn.given w hw
    omega
  · obtain ⟨hmem, rfl⟩ := mem_of_suspended? hv
    exact ⟨hn.given v hmem, fun w hw => of_decide_eq_true (List.mem_filter.1 hw).2⟩

theorem answers_spent (hs : s.Undivided) (h : s.Spent n) (a : Action) (r : Result) :
    s.answers a ≠ .ended n r := by
  intro hended
  obtain ⟨-, -, hnothing, -⟩ := Waits.ended (P := fun _ => False) h hs hended
  exact hnothing

end Session

end OriginGate
