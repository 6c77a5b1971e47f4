import OriginGate.Proofs.Grants
import OriginGate.Proofs.Waiting

/-!
# On whose behalf a step is

* `Operation.behalf?`, `Command.behalf?` : the origin on behalf of which something is begun: a site
  that asks, or the origin whose request is decided;
* `Session.Serves` : the operation with a number was begun on behalf of an origin, and of no other
  (`Serves.unique`);
* `Session.OnBehalf` : so is a step, which begins, takes up or gives up such an operation, or carries
  out a command;
* `Session.paired_run` : every origin is listed with its own request;
* `Session.serves_of_ticket` : whoever holds the ticket of a request waits on behalf of its origin;
* `Session.OnBehalf.approving` : an approval grants to the origin on behalf of which it is begun.
-/

namespace OriginGate

/-- The origin on behalf of which an operation is begun. -/
def Operation.behalf? (s : System) : Operation → Option Origin
  | approve approved _ => (s.gate.pending.find? approved.id).map (·.origin)
  | op => op.site?

/-- The origin on behalf of which a command is carried out; that of a clearance is on behalf of none. -/
def Command.behalf? (s : System) : Command → Option Origin
  | reject id _ => (s.gate.pending.find? id).map (·.origin)
  | rejectOrigin o | recordMetadata o _ _ | revoke o _ | logUsage o _ => some o
  | clear => none

theorem Operation.behalf?_site {op : Operation} {o : Origin} (h : op.site? = some o) (s : System) :
    op.behalf? s = some o := by
  cases op with
  | approve approved accounts => cases h
  | _ => exact h

namespace Session

/-- The operation with a number was begun with one of some actions on behalf of an origin. -/
def Serves (s : Session) (actions : List Action) (n : Nat) (o : Origin) : Prop :=
  ∃ early op late, actions = early ++ .start op :: late ∧ n = (s.run early).begun + 1 ∧
    op.behalf? (s.run early).system = some o

/-- A step on behalf of an origin. -/
inductive OnBehalf (s : Session) (before : List Action) (o : Origin) : Action → Prop where
  | started {op : Operation} (h : op.behalf? (s.run before).system = some o) :
    OnBehalf s before o (.start op)
  | polled {n : Nat} (serves : s.Serves before n o) : OnBehalf s before o (.poll n)
  | calledOn {n i : Nat} (serves : s.Serves before n o) : OnBehalf s before o (.pollCall n i)
  | dropped {n : Nat} (serves : s.Serves before n o) : OnBehalf s before o (.drop n)
  | commanded {c : Command} (h : c.behalf? (s.run before).system = some o) :
    OnBehalf s before o (.command c)

variable {s : Session} {before : List Action} {a : Action} {n : Nat} {o q : Origin}

theorem Serves.snoc (h : s.Serves before n o) (a : Action) : s.Serves (before ++ [a]) n o := by
  obtain ⟨early, op, late, rfl, hrest⟩ := h
  exact ⟨early, op, late ++ [a], by rw [List.append_assoc, List.cons_append], hrest⟩

theorem serves_started {op : Operation} (h : op.behalf? (s.run before).system = some o) :
    s.Serves (before ++ [.start op]) ((s.run before).begun + 1) o :=
  ⟨before, op, [], rfl, rfl, h⟩

theorem begun_lt (hs : s.Undivided) (early : List Action) (op : Operation) (late : List Action) :
    (s.run early).begun < (s.run (early ++ .start op :: late)).begun := by
  have hu := undivided_after (undivided_run hs early) (.start op)
  have hle := begun_run hu late
  rw [begun_start] at hle
  rw [run_append]
  exact hle

theorem Serves.unique (hs : s.Undivided) (h₁ : s.Serves before n o) (h₂ : s.Serves before n q) :
    o = q := by
  obtain ⟨early₁, op₁, late₁, hsplit₁, hn₁, ho₁⟩ := h₁
  obtain ⟨early₂, op₂, late₂, hsplit₂, hn₂, ho₂⟩ := h₂
  rcases List.append_eq_append_iff.1 (hsplit₁.symm.trans hsplit₂) with
    ⟨between, hearly, hlate⟩ | ⟨between, hearly, hlate⟩
  · cases between with
    | nil =>
      rw [List.append_nil] at hearly
      subst hearly
      cases hlate
      exact Option.some.inj (ho₁.symm.trans ho₂)
    | cons b rest =>
      cases hlate
      have hlt := begun_lt hs early₁ op₁ rest
      rw [← hearly] at hlt
      omega
  · cases between with
    | nil =>
      rw [List.append_nil] at hearly
      subst hearly
      cases hlate
      exact Option.some.inj (ho₁.symm.trans ho₂)
    | cons b rest =>
      cases hlate
      have hlt := begun_lt hs early₂ op₂ rest
      rw [← hearly] at hlt
      omega

end Session

/-! ## Tickets of requests -/

namespace System

theorem Served.entries {may : Gate → Rpc.MethodCall → Prop} {o : Origin} {s t : System}
    {as : List Awaiting} (h : Served o may s t as) :
    ∀ e ∈ t.gate.pending.entries, e ∈ s.gate.pending.entries ∨
      e.origin = o ∧ s.world.tickets.statuses.length ≤ e.ticket := by
  intro e he
  cases h with
  | registered valid h =>
    obtain ⟨-, -, hticket, rfl⟩ := register_ok h
    rcases Pending.mem_add.1 he with ⟨hmem, -⟩ | rfl
    · exact .inl hmem
    · exact .inr ⟨rfl, Nat.le_of_eq hticket.symm⟩
  | _ => exact .inl he

theorem ServedAll.entries {may : Gate → Rpc.MethodCall → Prop} {o : Origin} {s t : System}
    {as : List Awaiting} (h : ServedAll o may s t as) :
    ∀ e ∈ t.gate.pending.entries, e ∈ s.gate.pending.entries ∨
      e.origin = o ∧ s.world.tickets.statuses.length ≤ e.ticket := by
  induction h with
  | nil s => exact fun e he => .inl he
  | cons first _ ih =>
    intro e he
    rcases ih e he with hmem | ⟨horigin, hle⟩
    · exact first.entries e hmem
    · exact .inr ⟨horigin, Nat.le_trans first.issues.1.length_le hle⟩

end System

/-! ## Requests by origin -/

namespace System

theorem Served.paired {may : Gate → Rpc.MethodCall → Prop} {o : Origin} {s t : System}
    {as : List Awaiting} (h : Served o may s t as) (hs : s.Orderly) (fresh : t.world.Fresh)
    (paired : s.gate.pending.Paired) : t.gate.pending.Paired := by
  cases h with
  | registered valid h =>
    have hnew := register_new h fresh fun r hr => hs.announced.subset hr
    obtain ⟨hfree, -, -, rfl⟩ := register_ok h
    exact paired.add hfree hnew
  | _ => exact paired

theorem ServedAll.paired {may : Gate → Rpc.MethodCall → Prop} {o : Origin} {s t : System}
    {as : List Awaiting} (h : ServedAll o may s t as) (hs : s.Orderly) (fresh : t.world.Fresh)
    (paired : s.gate.pending.Paired) : t.gate.pending.Paired := by
  induction h with
  | nil s => exact paired
  | cons first rest ih =>
    have hfresh := fresh.of_prefix rest.announced_prefix
    obtain ⟨news, hnews, -⟩ := first.registers hs hfresh
    exact ih (hnews.orderly hs) fresh (first.paired hs hfresh paired)

end System

namespace Session

variable {s : Session} {before : List Action} {a : Action}

theorem paired_after (hu : s.Undivided) (hs : s.system.Orderly) (a : Action)
    (fresh : (s.after a).world.Fresh) (paired : s.gate.pending.Paired) :
    (s.after a).gate.pending.Paired := by
  have hmoved := moved_step hu a
  change (s.after a).system.world.Fresh at fresh
  change (s.after a).system.gate.pending.Paired
  generalize (s.after a).system = t at hmoved fresh
  cases hmoved with
  | kept h =>
    rw [h.pending]
    exact paired
  | served _ _ h => exact h.paired hs fresh paired
  | decided _ h =>
    rw [h.pending]
    exact paired.without (Pending.lookUp?_spec h.found).1
  | abandoned _ _ => exact paired

/-- As long as no id is given twice, every origin is listed with its own request. -/
theorem paired_run {settings : Settings} {w : World} (created : create settings w = .ok s)
    (actions : List Action) (fresh : (s.run actions).world.Fresh) :
    (s.run actions).gate.pending.Paired := by
  have hu := undivided_create created
  have ho := orderly_create created
  induction actions using List.reverseRecOn with
  | nil =>
    obtain ⟨store, -, rfl⟩ := create_eq created
    exact .empty
  | append_singleton before a ih =>
    rw [run_snoc] at fresh ⊢
    have hbefore := undivided_run hu before
    have hfresh := fresh.of_prefix (announced_after hbefore a)
    exact paired_after hbefore (orderly_run hu ho before hfresh) a fresh (ih hfresh)

/-- Where the requests after a step come from. -/
theorem entries_after (hs : s.Undivided) (a : Action) :
    ∀ e ∈ (s.after a).gate.pending.entries, e ∈ s.gate.pending.entries ∨
      ∃ op, a = .start op ∧ op.site? = some e.origin ∧
        s.world.tickets.statuses.length ≤ e.ticket := by
  have hmoved := moved_step hs a
  change ∀ e ∈ (s.after a).system.gate.pending.entries, _
  generalize (s.after a).system = t at hmoved
  intro e he
  cases hmoved with
  | kept h =>
    rw [h.pending] at he
    exact .inl he
  | @served op o _ begun site h =>
    rcases h.entries e he with hmem | ⟨rfl, hle⟩
    · exact .inl hmem
    · exact .inr ⟨op, begun, site, hle⟩
  | decided _ h =>
    rw [h.pending] at he
    exact .inl (Pending.mem_without.1 he).1
  | abandoned _ _ => exact .inl he

/-- Whoever awaits a decision with the ticket of a registered request waits on behalf of the origin
of the request. -/
theorem serves_of_ticket {settings : Settings} {w : World} (created : create settings w = .ok s)
    (actions : List Action) {w : Suspended} (hw : w ∈ (s.run actions).waiting) {d : Awaiting}
    (hd : d ∈ w.waiter.awaiting) {e : PendingRequest}
    (he : e ∈ (s.run actions).gate.pending.entries) (ticket : e.ticket = d.ticket) :
    s.Serves actions w.number e.origin := by
  have hu := undivided_create created
  induction actions using List.reverseRecOn generalizing w with
  | nil =>
    have hnone : (s.run []).waiting = [] := waiting_create created
    rw [hnone] at hw
    exact absurd hw List.not_mem_nil
  | append_singleton before a ih =>
    rw [run_snoc] at hw he
    have hbefore := undivided_run hu before
    have htended := tended_run created before
    -- A ticket that is issued by the step is later than those that were issued before.
    rcases awaiting_after hbefore hw hd with ⟨v, hv, hnumber, -, hd⟩ | ⟨op, ha, hnumber, hd⟩ <;>
      rcases entries_after hbefore a e he with hmem | ⟨op', ha', hsite, hle⟩
    · rw [← hnumber]
      exact (ih hv hd hmem).snoc a
    · have hissued := (attentive_run created before).issued v hv d hd
      exact absurd (ticket ▸ hle) (Nat.not_le_of_lt hissued)
    · have hissued := htended.issued e hmem
      exact absurd (issues_started ha hd).2.1 (Nat.not_le_of_lt (ticket ▸ hissued))
    · subst ha'
      rw [hnumber]
      exact serves_started (Operation.behalf?_site hsite _)

/-! ## Approvals -/

theorem serves_approving (hs : s.Undivided) (none : s.waiting = []) {n : Nat}
    {approving : Approving} (under : (s.run before).approving? a = some (n, approving)) :
    s.Serves (before ++ [a]) n approving.origin := by
  obtain ⟨early, late, r, hsplit, hn, hr, horigin⟩ := began_approving hs none under
  refine ⟨early, _, late, hsplit, hn, ?_⟩
  change ((s.run early).gate.pending.find? approving.approved.id).map (·.origin) = _
  rw [hr, ← horigin]
  rfl

theorem approving?_number {n : Nat} {approving : Approving}
    (h : s.approving? a = some (n, approving)) :
    (∃ op, a = .start op ∧ n = s.begun + 1) ∨ a = .poll n := by
  unfold approving? at h
  split at h
  · obtain ⟨r, -, hpair⟩ := Option.map_eq_some_iff.1 h
    cases hpair
    exact .inl ⟨_, rfl, rfl⟩
  · split at h
    · cases h
      exact .inr rfl
    · cases h
  · cases h

/-- A step that begins an approval or goes on with one is on behalf of the origin to which it
grants. -/
theorem OnBehalf.approving (hs : s.Undivided) (none : s.waiting = []) {o : Origin}
    (h : s.OnBehalf before o a) {n : Nat} {approving : Approving}
    (under : (s.run before).approving? a = some (n, approving)) : approving.origin = o := by
  have hserves := serves_approving hs none under
  rcases approving?_number under with ⟨op, rfl, rfl⟩ | rfl
  · cases h with
    | started h => exact hserves.unique hs (serves_started h)
  · cases h with
    | polled serves => exact hserves.unique hs (serves.snoc _)

theorem origin_of_approving (hs : s.Undivided) (ho : s.system.Orderly) (none : s.waiting = [])
    (fresh : (s.run before).world.Fresh) {n : Nat} {approving : Approving}
    (under : (s.run before).approving? a = some (n, approving)) {e : PendingRequest}
    (found : (s.run before).gate.pending.lookUp? approving.approved.id = some e) :
    e.origin = approving.origin := by
  obtain ⟨-, -, r, -, -, -, horigin, heq⟩ := approving_request hs ho none under found
  rw [← horigin, ← heq fresh]
  rfl

theorem idFor?_of_rejectOrigin {q : Origin} {id : RequestId} {s : Session}
    (h : s.answers (.command (.rejectOrigin q)) = .rejected (some id)) :
    s.gate.pending.idFor? q = some id := by
  rw [answers_command, Command.carryOut, System.rejectOrigin] at h
  change s.system.gate.pending.idFor? q = some id
  rcases hid : s.system.gate.pending.idFor? q with _ | listed
  · rw [hid] at h
    cases h
  · simp only [hid] at h
    rcases hreject : s.system.reject listed none with ⟨t, e | u⟩
    · rw [hreject] at h
      cases h
    · rw [hreject] at h
      cases h
      rfl

/-- A step decides only requests of the origin on behalf of which it is. -/
theorem OnBehalf.decided {settings : Settings} {w : World} (created : create settings w = .ok s)
    {o : Origin} (h : s.OnBehalf before o a) (fresh : (s.run before).world.Fresh)
    {id : RequestId} {d : Decision} (concludes : (s.run before).Concludes a id d)
    {e : PendingRequest} (found : (s.run before).gate.pending.lookUp? id = some e) :
    e.origin = o := by
  have hu := undivided_create created
  have ho := orderly_create created
  have hnone := waiting_create created
  -- What is begun or commanded with an id is on behalf of the origin of the request.
  have hnamed : ((s.run before).gate.pending.find? id).map (·.origin) = some o → e.origin = o := by
    intro hbehalf
    rw [Pending.find?, found] at hbehalf
    exact Option.some.inj hbehalf
  cases concludes with
  | approved _ =>
    cases h with
    | started h => exact hnamed h
  | @approvedLater n approving _ hw _ =>
    have under : (s.run before).approving? (.poll n) = some (n, approving) := by
      rw [approving?, hw]
    rw [origin_of_approving hu ho hnone fresh under found]
    exact h.approving hu hnone under
  | rejected _ =>
    cases h with
    | commanded h => exact hnamed h
  | notRejected _ =>
    cases h with
    | commanded h => exact hnamed h
  | originRejected hanswer =>
    cases h with
    | commanded h =>
      cases h
      obtain ⟨r, hr, -, horigin⟩ :=
        (paired_run created before fresh).idFor?_eq_some_iff.1 (idFor?_of_rejectOrigin hanswer)
      rw [Pending.find?, found] at hr
      cases hr
      exact horigin

end Session

end OriginGate
