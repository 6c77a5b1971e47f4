import OriginGate.Proofs.Asking
import OriginGate.Proofs.Callers

/-!
# What subscribers are told

Every request that is registered is announced once, to all who subscribed before and are still
there.

* `Announcements.Holds` : a subscriber is there and has these requests to read;
  `Announcements.Sound` : whoever is there is listed; `Announcements.present` : who is there;
* `Session.registers`, `Session.reads` : what a step registers, and what a subscriber reads in it;
  `Session.gather` : either of them over a run;
* `Session.Notifies` : all that a step can do to subscribers (`notifies_step`);
* `Session.Stays` : a subscriber is there after a run (`mem_present_run`);
* `Session.Announces` : what subscribers have read and may read, and what becomes of requests;
* `Session.announcing_run` : that is so after any run.
-/

namespace OriginGate

/-! ## Subscribers -/

namespace Announcements

/-- A subscriber is there and listed, and has some requests to read. -/
def Holds (n : Nat) (unread : List PermissionsRequest) (a : Announcements) : Prop :=
  a.subscriptions[n]? = some ⟨unread, true, true⟩

/-- Whoever is there is listed. -/
def Sound (a : Announcements) : Prop := ∀ s ∈ a.subscriptions, s.alive = true → s.listed = true

/-- The numbers of the subscribers that are there. -/
def present (a : Announcements) : List Nat := a.subscriptions.findIdxs (·.alive)

variable {a : Announcements} {n : Nat} {unread : List PermissionsRequest}

theorem holds_subscribe (a : Announcements) : a.subscribe.2.Holds a.subscribe.1 [] :=
  List.getElem?_concat_length

theorem Holds.lt (h : a.Holds n unread) : n < a.subscriptions.length :=
  (List.getElem?_eq_some_iff.1 h).1

theorem Holds.drain (h : a.Holds n unread) : (a.drain n).1 = unread := by
  have hn : a.subscriptions[n]? = some ⟨unread, true, true⟩ := h
  rw [Announcements.drain, hn]
  rfl

theorem Holds.announce (h : a.Holds n unread) (r : PermissionsRequest) :
    (a.announce r).Holds n (unread ++ [r]) := by
  have hn : a.subscriptions[n]? = some ⟨unread, true, true⟩ := h
  rw [Holds, Announcements.announce, List.getElem?_map, hn]
  rfl

theorem mem_present : n ∈ a.present ↔ (a.subscriptions[n]?).map (·.alive) = some true := by
  simp only [present, List.mem_findIdxs_iff_getElem_sub_pos, Nat.zero_le, Nat.sub_zero, true_and,
    Option.map_eq_some_iff, List.getElem?_eq_some_iff]
  constructor
  · rintro ⟨hn, halive⟩
    exact ⟨_, ⟨hn, rfl⟩, halive⟩
  · rintro ⟨s, ⟨hn, rfl⟩, halive⟩
    exact ⟨hn, halive⟩

theorem sound_empty : Sound .empty := fun _ h => absurd h List.not_mem_nil

theorem receive_alive (r : PermissionsRequest) (s : Subscription) :
    (s.receive r).alive = s.alive := by
  unfold Subscription.receive
  split
  · split <;> rfl
  · rfl

theorem Sound.announce (h : a.Sound) (r : PermissionsRequest) : (a.announce r).Sound := by
  intro s hs halive
  obtain ⟨t, ht, rfl⟩ := List.mem_map.1 hs
  rw [receive_alive] at halive
  rw [Subscription.receive, if_pos (h t ht halive), if_pos halive]
  exact h t ht halive

theorem present_announce (r : PermissionsRequest) (a : Announcements) :
    (a.announce r).present = a.present := by
  rw [present, Announcements.announce, List.findIdxs_map]
  congr 1
  funext s
  exact receive_alive r s

/-- After an announcement those are listed who are there. -/
theorem Sound.listeners_announce (h : a.Sound) (r : PermissionsRequest) :
    (a.announce r).listeners = (a.announce r).present.length := by
  rw [present, List.length_findIdxs, listeners, ← List.countP_eq_length_filter]
  refine List.countP_congr fun s hs => ⟨fun hlisted => ?_, h.announce r s hs⟩
  obtain ⟨t, ht, rfl⟩ := List.mem_map.1 hs
  rw [receive_alive]
  -- Whoever is gone is struck out.
  by_contra halive
  unfold Subscription.receive at hlisted
  rw [if_neg halive] at hlisted
  split at hlisted
  · cases hlisted
  · rename_i hnot
    exact hnot hlisted

end Announcements

namespace Event

/-- What a subscriber reads in an event. -/
def reads (n : Nat) (e : Event) (a : Announcements) : List PermissionsRequest :=
  match e with
  | read m => if m = n then (a.drain n).1 else []
  | _ => []

variable {n : Nat} {w : World} {e : Event}

/-- An event takes from a subscriber that stays only what the subscriber reads. -/
theorem change_holds {unread : List PermissionsRequest} (h : w.announcements.Holds n unread)
    (stays : e ≠ .unsubscribe n) :
    ∃ rest, (e.change w).announcements.Holds n rest ∧
      e.reads n w.announcements ++ rest = unread := by
  have hn : w.announcements.subscriptions[n]? = some ⟨unread, true, true⟩ := h
  cases e with
  | subscribe => exact ⟨unread, (List.getElem?_append_left h.lt).trans hn, rfl⟩
  | unsubscribe m =>
    have hm : m ≠ n := fun heq => stays (congrArg unsubscribe heq)
    refine ⟨unread, ?_, rfl⟩
    rw [Announcements.Holds, change, Announcements.close, List.getElem?_modify_ne _ _ hm]
    exact hn
  | read m =>
    by_cases hm : m = n
    · subst hm
      refine ⟨[], ?_, ?_⟩
      · rw [Announcements.Holds, change, Announcements.drain, List.getElem?_modify_eq, hn]
        rfl
      · rw [reads, if_pos rfl, h.drain, List.append_nil]
    · refine ⟨unread, ?_, ?_⟩
      · rw [Announcements.Holds, change, Announcements.drain, List.getElem?_modify_ne _ _ hm]
        exact hn
      · rw [reads, if_neg hm, List.nil_append]
  | _ => exact ⟨unread, h, rfl⟩

theorem change_sound (h : w.announcements.Sound) (e : Event) :
    (e.change w).announcements.Sound := by
  have hmodify : ∀ (m : Nat) (f : Subscription → Subscription),
      (∀ s, (f s).alive = true → s.alive = true ∧ (f s).listed = s.listed) →
      ∀ s ∈ w.announcements.subscriptions.modify m f, s.alive = true → s.listed = true := by
    intro m f hf s hs halive
    obtain ⟨j, hj⟩ := List.mem_iff_getElem?.1 hs
    rw [List.getElem?_modify] at hj
    obtain ⟨t, ht, rfl⟩ := Option.map_eq_some_iff.1 hj
    have hmem := List.mem_of_getElem? ht
    split at halive
    · rename_i heq
      rw [if_pos heq, (hf t halive).2]
      exact h t hmem (hf t halive).1
    · rename_i hne
      rw [if_neg hne]
      exact h t hmem halive
  cases e with
  | subscribe =>
    intro s hs halive
    rcases List.mem_append.1 hs with hs | hs
    · exact h s hs halive
    · rw [List.mem_singleton.1 hs]
  | unsubscribe m => exact hmodify m _ fun s halive => by cases halive
  | read m => exact hmodify m _ fun s halive => ⟨halive, rfl⟩
  | _ => exact h

/-- Who is there after an event was there and did not go, or has just subscribed. -/
theorem mem_present_change : n ∈ (e.change w).announcements.present ↔
    (n ∈ w.announcements.present ∧ e ≠ .unsubscribe n) ∨
      (e = .subscribe ∧ n = w.announcements.subscribe.1) := by
  cases e with
  | subscribe =>
    have hlast : (w.announcements.subscriptions ++ [⟨[], true, true⟩])[n]?.map (·.alive) =
        some true ↔ w.announcements.subscriptions[n]?.map (·.alive) = some true ∨
          n = w.announcements.subscriptions.length := by
      rcases Nat.lt_trichotomy n w.announcements.subscriptions.length with hlt | rfl | hgt
      · rw [List.getElem?_append_left hlt, or_iff_left (Nat.ne_of_lt hlt)]
      · rw [List.getElem?_concat_length]
        exact iff_of_true rfl (.inr rfl)
      · rw [List.getElem?_eq_none (by rw [List.length_append]; exact hgt),
          List.getElem?_eq_none (Nat.le_of_lt hgt), or_iff_left (Nat.ne_of_gt hgt)]
    rw [Announcements.mem_present, Announcements.mem_present]
    refine hlast.trans (or_congr ?_ ?_)
    · exact (and_iff_left nofun).symm
    · exact (and_iff_right rfl).symm
  | unsubscribe m =>
    rw [Announcements.mem_present, Announcements.mem_present, change, Announcements.close,
      List.getElem?_modify]
    by_cases hm : m = n
    · subst hm
      refine iff_of_false ?_ ?_
      · cases w.announcements.subscriptions[m]? <;> simp
      · simp
    · simp [hm]
  | read m =>
    rw [Announcements.mem_present, Announcements.mem_present, change, Announcements.drain,
      List.getElem?_modify]
    by_cases hm : m = n <;> cases w.announcements.subscriptions[n]? <;> simp [hm]
  | _ => exact ⟨fun h => .inl ⟨h, nofun⟩, fun h => (h.resolve_right nofun).1⟩

end Event

/-! ## Steps -/

namespace Session

/-- The requests that a step registers: those that have the tickets it issues. -/
def registers (a : Action) (s : Session) : List PermissionsRequest :=
  ((s.after a).gate.pending.entries.filter
    (s.world.tickets.statuses.length ≤ ·.ticket)).map (·.request)

/-- What a subscriber reads in a step. -/
def reads (n : Nat) (a : Action) (s : Session) : List PermissionsRequest :=
  match a with
  | .event e => e.reads n s.world.announcements
  | _ => []

/-- What the steps of a run give, one after the other. -/
def gather {α : Type} (f : Action → Session → List α) : List Action → Session → List α
  | [], _ => []
  | a :: rest, s => f a s ++ gather f rest (s.after a)

/-- What a step registers and announces. -/
inductive Notifies (s : Session) (a : Action) : Prop where
  | happened {e : Event} (given : a = .event e) (none : s.registers a = [])
  | nothing (inside : ∀ e, a ≠ .event e) (none : s.registers a = [])
    (same : (s.after a).world.announcements = s.world.announcements)
  /-- One call of an operation registers a request. -/
  | created {op : Operation} {r : PermissionsRequest} {v w : System} (begun : a = .start op)
    (passes : op.Passes s.system v w) (before : System.Quiet s.system v)
    (creates : System.Creates r v w) (later : System.Quiet w (s.after a).system) : Notifies s a

variable {s : Session} {a : Action}

/-- What stays registered has its ticket already. -/
theorem registers_nil (ht : s.system.Tended)
    (h : ∀ e ∈ (s.after a).gate.pending.entries, e ∈ s.gate.pending.entries) :
    s.registers a = [] := by
  rw [registers, List.map_eq_nil_iff, List.filter_eq_nil_iff]
  intro e he hticket
  exact Nat.not_lt_of_le (of_decide_eq_true hticket) (ht.issued e (h e he))

section Created
variable {r : PermissionsRequest} {v w : System} (before : System.Quiet s.system v)
  (creates : System.Creates r v w) (later : System.Quiet w (s.after a).system)
include before creates later

theorem pending_created : (s.after a).gate.pending =
    s.gate.pending.add ⟨r, s.world.tickets.statuses.length⟩ := by
  rw [show (s.after a).gate.pending = w.gate.pending from later.pending, creates.pending,
    before.pending, before.tickets]
  rfl

theorem announcements_created :
    (s.after a).world.announcements = s.world.announcements.announce r := by
  rw [show (s.after a).world.announcements = w.world.announcements from later.announcements,
    creates.announcements, before.announcements]
  rfl

theorem registers_created (ht : s.system.Tended) : s.registers a = [r] := by
  have hold : ∀ e ∈ s.gate.pending.entries,
      decide (s.world.tickets.statuses.length ≤ e.ticket) = false :=
    fun e he => decide_eq_false (Nat.not_le_of_lt (ht.issued e he))
  rw [registers, pending_created before creates later, Pending.add, List.filter_append,
    List.filter_eq_nil_iff.2 fun e he => by simp [hold e (List.mem_filter.1 he).1]]
  simp

end Created

theorem notifies_step (hu : s.Undivided) (ht : s.system.Tended) (a : Action) : s.Notifies a := by
  by_cases hevent : ∃ e, a = .event e
  · obtain ⟨e, rfl⟩ := hevent
    exact .happened rfl (registers_nil ht fun _ he => he)
  by_cases hserves : ∃ op o, a = .start op ∧ op.site? = some o
  · obtain ⟨op, o, rfl, site⟩ := hserves
    have hsystem := start_system op s
    rcases Operation.begin_creates site s.system with
      hquiet | ⟨r, v, w, -, hpasses, hbefore, hcreates, hlater⟩
    · rw [← hsystem] at hquiet
      refine .nothing nofun (registers_nil ht ?_) hquiet.announcements
      rw [show (s.after _).gate.pending = s.gate.pending from hquiet.pending]
      exact fun _ he => he
    · rw [← hsystem] at hlater
      exact .created rfl hpasses hbefore hcreates hlater
  · have hnone : ∀ op o, a = .start op → op.site? = some o → False :=
      fun op o ha hsite => hserves ⟨op, o, ha, hsite⟩
    refine .nothing (fun e ha => hevent ⟨e, ha⟩) (registers_nil ht ?_) ?_
    · have hmoved := moved_step hu a
      change ∀ e ∈ (s.after a).system.gate.pending.entries, _
      generalize (s.after a).system = t at hmoved
      cases hmoved with
      | kept h =>
        rw [h.pending]
        exact fun _ he => he
      | served begun site _ => exact (hnone _ _ begun site).elim
      | decided _ h =>
        rw [h.pending]
        exact fun _ he => (Pending.mem_without.1 he).1
      | abandoned _ _ => exact fun _ he => he
    · have hchanged := changed_step hu a
      change (s.after a).system.world.announcements = _
      generalize (s.after a).system = t at hchanged
      cases hchanged with
      | same => rfl
      | served begun site _ => exact (hnone _ _ begun site).elim
      | approved _ _ h => exact h.steady.announcements
      | abandoned _ _ =>
        change (abandonAll _ s.world).announcements = _
        rw [abandonAll_eq]
      | @commanded c _ _ => exact (System.steady_carryOut c s.system).announcements
      | happened given => exact (hevent ⟨_, given⟩).elim

/-! ## Runs -/

/-- What a subscriber that stays had to read and what a step registers, it reads in the step or
may read afterwards. -/
theorem holds_after (hu : s.Undivided) (ht : s.system.Tended) {n : Nat}
    {unread : List PermissionsRequest} (h : s.world.announcements.Holds n unread)
    (stays : a ≠ .event (.unsubscribe n)) :
    ∃ rest, (s.after a).world.announcements.Holds n rest ∧
      s.reads n a ++ rest = unread ++ s.registers a := by
  cases notifies_step hu ht a with
  | @happened e given none =>
    subst given
    obtain ⟨rest, hrest, hreads⟩ := e.change_holds h fun he => stays (congrArg Action.event he)
    refine ⟨rest, hrest, ?_⟩
    rw [none, List.append_nil]
    exact hreads
  | nothing inside none same =>
    refine ⟨unread, same ▸ h, ?_⟩
    rw [none, List.append_nil, reads]
    · rfl
    · exact inside
  | @created op r v w begun _ before creates later =>
    refine ⟨unread ++ [r], ?_, ?_⟩
    · rw [announcements_created before creates later]
      exact h.announce r
    · rw [registers_created before creates later ht]
      subst begun
      rfl

theorem holds_run (hu : s.Undivided) (ht : s.system.Tended) {n : Nat}
    {unread : List PermissionsRequest} (h : s.world.announcements.Holds n unread)
    {later : List Action} (stays : .event (.unsubscribe n) ∉ later) :
    ∃ rest, (s.run later).world.announcements.Holds n rest ∧
      gather (reads n) later s ++ rest = unread ++ gather registers later s := by
  induction later generalizing s unread with
  | nil => exact ⟨unread, h, (List.append_nil unread).symm⟩
  | cons a later ih =>
    rw [List.mem_cons, not_or] at stays
    obtain ⟨middle, hmiddle, hstep⟩ := holds_after hu ht h (Ne.symm stays.1)
    obtain ⟨rest, hrest, hrun⟩ :=
      ih (undivided_after hu a) (tended_after hu ht a) hmiddle stays.2
    refine ⟨rest, hrest, ?_⟩
    rw [gather, gather, List.append_assoc, hrun, ← List.append_assoc, hstep, List.append_assoc]

theorem sound_after (hu : s.Undivided) (ht : s.system.Tended) (h : s.world.announcements.Sound)
    (a : Action) : (s.after a).world.announcements.Sound := by
  cases notifies_step hu ht a with
  | @happened e given _ =>
    subst given
    exact e.change_sound h
  | nothing _ _ same => exact same ▸ h
  | @created op r v w _ _ before creates later =>
    rw [announcements_created before creates later]
    exact h.announce r

theorem mem_present_after (hu : s.Undivided) (ht : s.system.Tended) {n : Nat} :
    n ∈ (s.after a).world.announcements.present ↔
      (n ∈ s.world.announcements.present ∧ a ≠ .event (.unsubscribe n)) ∨
        (a = .event .subscribe ∧ n = s.world.announcements.subscribe.1) := by
  have hinside (inside : ∀ e, a ≠ .event e)
      (same : (s.after a).world.announcements.present = s.world.announcements.present) :
      n ∈ (s.after a).world.announcements.present ↔
        (n ∈ s.world.announcements.present ∧ a ≠ .event (.unsubscribe n)) ∨
          (a = .event .subscribe ∧ n = s.world.announcements.subscribe.1) := by
    rw [same, and_iff_left (inside _), or_iff_left fun h => inside _ h.1]
  cases notifies_step hu ht a with
  | @happened e given _ =>
    subst given
    simp only [Action.event.injEq, ne_eq]
    exact Event.mem_present_change
  | nothing inside _ same => exact hinside inside (congrArg _ same)
  | @created op r v w begun _ before creates later =>
    refine hinside (by subst begun; exact nofun) ?_
    rw [announcements_created before creates later, Announcements.present_announce]

/-- A subscriber is there after a run: it was there before or subscribed in it, and did not go. -/
def Stays (n : Nat) (actions : List Action) (s : Session) : Prop :=
  (n ∈ s.world.announcements.present ∧ .event (.unsubscribe n) ∉ actions) ∨
    ∃ before later, actions = before ++ .event .subscribe :: later ∧
      n = (s.run before).world.announcements.subscribe.1 ∧ .event (.unsubscribe n) ∉ later

theorem stays_cons (hu : s.Undivided) (ht : s.system.Tended) {n : Nat} {later : List Action} :
    s.Stays n (a :: later) ↔ (s.after a).Stays n later := by
  rw [Stays, Stays, mem_present_after hu ht]
  constructor
  · rintro (⟨hn, hstays⟩ | ⟨before, rest, hsplit, hn, hstays⟩)
    · rw [List.mem_cons, not_or] at hstays
      exact .inl ⟨.inl ⟨hn, Ne.symm hstays.1⟩, hstays.2⟩
    · cases before with
      | nil =>
        obtain ⟨rfl, rfl⟩ := List.cons.inj hsplit
        exact .inl ⟨.inr ⟨rfl, hn⟩, hstays⟩
      | cons b before =>
        obtain ⟨rfl, rfl⟩ := List.cons.inj hsplit
        exact .inr ⟨before, rest, rfl, hn, hstays⟩
  · rintro (⟨⟨hn, ha⟩ | ⟨rfl, hn⟩, hstays⟩ | ⟨before, rest, rfl, hn, hstays⟩)
    · refine .inl ⟨hn, ?_⟩
      rw [List.mem_cons, not_or]
      exact ⟨Ne.symm ha, hstays⟩
    · exact .inr ⟨[], later, rfl, hn, hstays⟩
    · exact .inr ⟨a :: before, rest, rfl, hn, hstays⟩

theorem mem_present_run (hu : s.Undivided) (ht : s.system.Tended) {n : Nat}
    (actions : List Action) :
    n ∈ (s.run actions).world.announcements.present ↔ s.Stays n actions := by
  induction actions generalizing s with
  | nil =>
    refine ⟨fun h => .inl ⟨h, List.not_mem_nil⟩, fun h => (h.resolve_right ?_).1⟩
    rintro ⟨before, later, hsplit, -⟩
    exact List.append_ne_nil_of_right_ne_nil before (List.cons_ne_nil _ _) hsplit.symm
  | cons a later ih =>
    rw [stays_cons hu ht]
    exact ih (undivided_after hu a) (tended_after hu ht a)

/-- What a session tells its subscribers from now on, and what it does with requests. -/
structure Announces (s : Session) : Prop where
  /-- What whoever subscribes now has read and may read, unless it goes, is what was registered
  since then. -/
  received : ∀ n later, n = s.world.announcements.subscribe.1 → .event (.unsubscribe n) ∉ later →
    gather (reads n) later (s.after (.event .subscribe)) ++
        (((s.after (.event .subscribe)).run later).world.announcements.drain n).1 =
      gather registers later (s.after (.event .subscribe))
  /-- What is registered is found in the registry, and carries what the store held about its origin
  when the call for it was begun. -/
  created : ∀ a r, r ∈ s.registers a → (s.after a).gate.pending.find? r.id = some r ∧
    ∃ op v w, a = .start op ∧ op.Passes s.system v w ∧ v.gate.pending.idFor? r.origin = none ∧
      w.gate.pending.find? r.id = some r ∧ r.metadata = v.gate.state.siteMetadata? r.origin
  /-- After an announcement those are counted who are there. -/
  counted : ∀ a, s.registers a ≠ [] → (s.after a).world.announcements.listeners =
    (s.after a).world.announcements.present.length
  /-- A request that is refused uses up a number and changes nothing else. -/
  refused : ∀ op o requested ended e, op.AsksFor s.gate o requested ended →
    s.gate.RefusesRequest o requested e → s.registers (.start op) = [] ∧
      s.step (.start op) = ({ s with begun := s.begun + 1 }, .ended (s.begun + 1) (ended e))
  /-- Any other is registered, and its caller waits. -/
  accepted : ∀ op o requested ended, op.AsksFor s.gate o requested ended →
    (∀ e, ¬ s.gate.RefusesRequest o requested e) →
      s.answers (.start op) = .waits (s.begun + 1) ∧
        ∃ r, s.registers (.start op) = [r] ∧ r.origin = o ∧ r.permissions = requested
  /-- A call that is refused after other calls of its batch leaves the system as they left it. -/
  declined : ∀ caller before call c requested e, call.asMethodCall? = some c →
    (System.thread (System.serveCall caller) before s.system).1.gate.Asks caller.origin c requested →
    (System.thread (System.serveCall caller) before s.system).1.gate.RefusesRequest caller.origin
      requested e →
    (System.thread (System.serveCall caller) before s.system).1.Declines caller call e
  /-- One that is not refused then is registered. -/
  batched : ∀ caller before call later c requested, call.asMethodCall? = some c →
    (System.thread (System.serveCall caller) before s.system).1.gate.Asks caller.origin c requested →
    (∀ e, ¬ (System.thread (System.serveCall caller) before s.system).1.gate.RefusesRequest
      caller.origin requested e) →
    ∃ r, s.registers (.start (.request caller (.batch (before ++ call :: later)))) = [r] ∧
      r.origin = caller.origin ∧ r.permissions = requested

theorem announces (hu : s.Undivided) (ht : s.system.Tended) (sound : s.world.announcements.Sound) :
    s.Announces where
  received := by
    rintro n later rfl stays
    have hholds : (s.after (.event .subscribe)).world.announcements.Holds
        s.world.announcements.subscribe.1 [] := Announcements.holds_subscribe _
    obtain ⟨rest, hrest, hrun⟩ := holds_run (undivided_after hu _) (tended_after hu ht _) hholds stays
    rw [hrest.drain]
    exact hrun
  created := by
    intro a r hr
    cases notifies_step hu ht a with
    | happened _ none =>
      rw [none] at hr
      cases hr
    | nothing _ none _ =>
      rw [none] at hr
      cases hr
    | @created op q v w begun passes before creates later =>
      rw [registers_created before creates later ht] at hr
      obtain rfl := List.mem_singleton.1 hr
      have hfound : w.gate.pending.find? r.id = some r := by
        rw [creates.pending]
        exact Pending.find?_add_self ⟨r, _⟩ _
      refine ⟨?_, op, v, w, begun, passes, creates.free, hfound, creates.metadata⟩
      rw [← hfound]
      exact congrArg (Pending.find? r.id) later.pending
  counted := by
    intro a hsome
    cases notifies_step hu ht a with
    | happened _ none => exact absurd none hsome
    | nothing _ none _ => exact absurd none hsome
    | created _ _ before creates later =>
      rw [announcements_created before creates later]
      exact sound.listeners_announce _
  refused := by
    intro op o requested ended e asks refused
    have hstep := step_unchanged (Operation.begin_unasked (s := s.system) asks refused)
    refine ⟨registers_nil ht fun f hf => ?_, hstep⟩
    rwa [after, hstep] at hf
  accepted := by
    intro op o requested ended asks accepted
    obtain ⟨r, t, w, hbegin, hcreates, hr⟩ :=
      Operation.begin_asked (s := s.system) asks accepted
    have hsystem : (s.after (.start op)).system = t := by rw [start_system, hbegin]
    refine ⟨?_, r, registers_created (.refl _) hcreates (hsystem ▸ .refl t) ht, hr⟩
    rw [answers, step_waits hbegin]
  declined _ _ _ _ _ _ hc asks refused := System.declines_asks hc asks refused
  batched := by
    intro caller before call later c requested hc asks accepted
    obtain ⟨r, t, hbefore, hcreates, hlater, hr⟩ :=
      Operation.begin_asked_batch later hc asks accepted
    rw [← start_system] at hlater
    exact ⟨r, registers_created hbefore hcreates hlater ht, hr⟩

/-- In every run of a new session whoever subscribes is told of each request once, in order, as it
is registered; those who are there are the ones who did not go, and they are counted after each
announcement. What is refused is never announced. -/
theorem announcing_run {settings : Settings} {w : World} (created : create settings w = .ok s)
    (sound : w.announcements.Sound) (actions : List Action) :
    (s.run actions).Announces ∧
      ∀ n, n ∈ (s.run actions).world.announcements.present ↔ s.Stays n actions := by
  have hs := undivided_create created
  have ht := tended_run created
  refine ⟨announces (undivided_run hs actions) (ht actions) ?_, fun n => ?_⟩
  · induction actions using List.reverseRecOn with
    | nil =>
      obtain ⟨store, -, rfl⟩ := create_eq created
      exact sound
    | append_singleton before a ih =>
      rw [run_snoc]
      exact sound_after (undivided_run hs before) (ht before) ih a
  · exact mem_present_run hs (ht []) actions

/-- One of two subscribers goes before a request; the other one is told of it and counted. -/
theorem announcing_run_request :
    ∃ s r, create .signing (.initial []) = .ok s ∧ (World.initial []).announcements.Sound ∧
      (s.run []).Announces ∧
      gather registers [.event .subscribe, .event (.unsubscribe 1),
        .start (.requestPermissions ⟨"site"⟩ (.single "eth_sign"))] (s.after (.event .subscribe)) =
          [r] ∧
      (((s.after (.event .subscribe)).run [.event .subscribe, .event (.unsubscribe 1),
        .start (.requestPermissions ⟨"site"⟩ (.single "eth_sign"))]).world.announcements.drain 0).1 =
          [r] := by
  have created : create .signing (.initial []) =
      .ok ⟨.signing, .initial [], ⟨Settings.signing.registry, true, .empty, .empty⟩, 0, [], [],
        0, []⟩ := rfl
  have hannounces := (announcing_run created Announcements.sound_empty []).1
  exact ⟨_, ⟨⟨⟨0⟩⟩, ⟨"site"⟩, .single "eth_sign", none⟩, created, Announcements.sound_empty,
    hannounces, rfl, hannounces.received 0 [.event .subscribe, .event (.unsubscribe 1),
      .start (.requestPermissions ⟨"site"⟩ (.single "eth_sign"))] rfl (by simp)⟩

end Session

end OriginGate
