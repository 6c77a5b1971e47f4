import OriginGate.Session.Surroundings
import Mathlib.Data.List.Induction

/-!
# Runs of a session

What can happen while one gate stays in force, step by step and in any order.

* `Command` : an operation that never waits; `Event` : a change of the world from outside;
* `Action` : a command, an event, or an operation that is begun, taken up or given up;
* `Session.step` : an action, with what it answers; `Session.after`, `Session.answers` : its halves;
* `Session.run` : a list of actions; `create_eq` : where a run of a new session begins;
* `Session.Stepped` : all that a step can do, from which every invariant is derived
  (`stepped_step`);
* `Session.Undivided`, `Session.Numbered` : the gate in force is the only one, and every waiting
  operation has a number of its own; both hold throughout a run (`undivided_run`, `numbered_run`);
* `World.initial`, `Settings.signing` : where the runs of the examples begin.

The calls of a waiting batch need not be taken up together: `pollCall` goes on with one of them.
-/

namespace OriginGate

/-! ## Actions -/

/-- An operation that never waits. -/
inductive Command where
  | reject (id : RequestId) (reason : Option PermissionError)
  | rejectOrigin (o : Origin)
  | recordMetadata (o : Origin) (report : Option SiteReport) (extensionId : Option String)
  | revoke (o : Origin) (methods : List String)
  | clear
  | logUsage (o : Origin) (e : UsageEvent)

/-- A change of what a gate works with. -/
inductive Event where
  /-- The wallet has these accounts and answers from now on, and is busy or not. -/
  | wallet (accounts : List Account) (answer : Rpc.MethodCall → Rpc.Outcome) (busy : Bool)
  | readOnly (value : Bool)
  | file (change : FileBackend → FileBackend)
  | subscribe
  | unsubscribe (n : Nat)
  | read (n : Nat)

/-- What can happen while a gate is in force. -/
inductive Action where
  | start (op : Operation)
  | poll (number : Nat)
  /-- One call of a waiting batch is taken up. -/
  | pollCall (number index : Nat)
  /-- The caller of a waiting operation gives up. -/
  | drop (number : Nat)
  | command (c : Command)
  | event (e : Event)

/-- What an action answers. -/
inductive Answer where
  | silent
  | waits (number : Nat)
  | ended (number : Nat) (r : Result)
  | done (r : Except PermissionError Unit)
  | revoked (r : Except PermissionError (List Permission))
  | rejected (id : Option RequestId)

namespace Command

def carryOut (c : Command) (s : System) : System × Answer :=
  match c with
  | reject id reason => let (s, r) := s.reject id reason; (s, .done r)
  | rejectOrigin o => let (s, id) := s.rejectOrigin o none; (s, .rejected id)
  | recordMetadata o report extensionId =>
    let (s, r) := s.recordMetadata o report extensionId; (s, .done r)
  | revoke o methods => let (s, r) := s.revoke o methods; (s, .revoked r)
  | clear => let (s, r) := s.clear; (s, .done r)
  | logUsage o e => (s.logUsage o e, .silent)

end Command

namespace Event

def change (e : Event) (w : World) : World :=
  match e with
  | wallet accounts answer busy => { w with wallet := { w.wallet with accounts, answer, busy } }
  | readOnly value => { w with backend := w.backend.setReadOnly value }
  | file f => { w with backend := w.backend.modifyFile f }
  | subscribe => { w with announcements := w.announcements.subscribe.2 }
  | unsubscribe n => { w with announcements := w.announcements.close n }
  | read n => { w with announcements := (w.announcements.drain n).2 }

end Event

/-- Goes on with one call of a batch; the others stay as they are. -/
def Answering.pollCall (index : Nat) (a : Answering) (s : System) :
    System × Progress Answering (Option Rpc.Reply) :=
  match a with
  | single c => (s, .waiting (single c))
  | batch slots =>
    match slots[index]? with
    | some slot =>
      let (s, slot) := slot.poll s
      (s, ofSlots (slots.set index slot))
    | none => (s, .waiting (batch slots))

/-- Goes on with one call of a waiting batch; nothing else waits call by call. -/
def Waiter.pollCall (index : Nat) (w : Waiter) (s : System) : System × Progress Waiter Result :=
  match w with
  | request a =>
    let (s, progress) := a.pollCall index s
    (s, (progress.map .reply).mapWaiting request)
  | w => (s, .waiting w)

/-- An action takes up the operation with a number, which waits with `w`, or one call of it. -/
def Action.TakesUp (a : Action) (n : Nat) (w : Waiter) (s t : System)
    (p : Progress Waiter Result) : Prop :=
  (a = .poll n ∧ w.poll s = (t, p)) ∨ ∃ i, a = .pollCall n i ∧ w.pollCall i s = (t, p)

theorem Action.TakesUp.ne_drop {a : Action} {n : Nat} {w : Waiter} {s t : System}
    {p : Progress Waiter Result} (h : a.TakesUp n w s t p) (m : Nat) : a ≠ .drop m := by
  rintro rfl
  rcases h with ⟨ha, -⟩ | ⟨i, ha, -⟩
  · cases ha
  · cases ha

namespace Session

/-! ## Steps -/

/-- What a session answers when it began, or went on with, an operation. -/
def ended (number : Nat) : Option Result → Answer
  | some r => .ended number r
  | none => .silent

def step (a : Action) (s : Session) : Session × Answer :=
  match a with
  | .start op =>
    match s.start op with
    | (s, .done r) => (s, .ended s.begun r)
    | (s, .waiting number) => (s, .waits number)
  | .poll number => let (s, r) := s.poll number; (s, ended number r)
  | .pollCall number index =>
    let (s, r) := s.resume (Waiter.pollCall index) number; (s, ended number r)
  | .drop number => ((s.drop number).1, .silent)
  | .command c => s.act c.carryOut
  | .event e => ({ s with world := e.change s.world }, .silent)

/-- The session after an action. -/
def after (a : Action) (s : Session) : Session := (s.step a).1

/-- What an action answers. -/
def answers (a : Action) (s : Session) : Answer := (s.step a).2

/-- The session after some actions. -/
def run (actions : List Action) (s : Session) : Session := actions.foldl (fun s a => s.after a) s

theorem run_append (before later : List Action) (s : Session) :
    s.run (before ++ later) = (s.run before).run later :=
  List.foldl_append

theorem run_snoc (before : List Action) (a : Action) (s : Session) :
    s.run (before ++ [a]) = (s.run before).after a := by
  rw [run_append]; rfl

/-- What holds at first and is kept by every step holds throughout a run. -/
theorem run_induction {P : Session → Prop} {s : Session} (first : P s)
    (kept : ∀ t a, P t → P (t.after a)) (actions : List Action) : P (s.run actions) := by
  induction actions using List.reverseRecOn with
  | nil => exact first
  | append_singleton before a ih => rw [run_snoc]; exact kept _ a ih

/-! ## One gate -/

/-- There are no former gates, and all that waits began on the gate in force. -/
structure Undivided (s : Session) : Prop where
  former : s.former = []
  current : ∀ w ∈ s.waiting, w.generation = s.generation

/-- The waiting operation with a number. -/
def suspended? (number : Nat) (s : Session) : Option Suspended :=
  s.waiting.find? (·.number = number)

/-- What the operation with a number waits with. -/
def waiter? (number : Nat) (s : Session) : Option Waiter := (s.suspended? number).map (·.waiter)

/-- The session with another gate in force, in its world. -/
def withSystem (t : System) (s : Session) : Session := { s with world := t.world, gate := t.gate }

/-- The session without a waiting operation. -/
def without (number : Nat) (s : Session) : Session :=
  { s with waiting := s.waiting.filter (·.number ≠ number) }

theorem mem_of_suspended? {s : Session} {n : Nat} {w : Suspended} (h : s.suspended? n = some w) :
    w ∈ s.waiting ∧ w.number = n :=
  ⟨List.mem_of_find?_eq_some h, by simpa using List.find?_some h⟩

theorem release_eq {s : Session} (h : s.former = []) : s.release = s := by
  obtain ⟨settings, world, gate, generation, former, waiting, begun, taken⟩ := s
  subst h
  rfl

theorem within_current {α : Type} (act : System → System × α) (s : Session) :
    s.within s.generation act = (s.withSystem (act s.system).1, (act s.system).2) := by
  simp [within, gateOf, withGate, withSystem, system]

variable {s : Session} {n : Nat} {w : Suspended} {t : System}
  {go : Waiter → System → System × Progress Waiter Result}

theorem resume_absent (h : s.suspended? n = none) : s.resume go n = (s, none) := by
  rw [suspended?] at h
  rw [resume, h]

theorem resume_waiting (hs : s.Undivided) (hw : s.suspended? n = some w) {waiter : Waiter}
    (h : go w.waiter s.system = (t, .waiting waiter)) :
    s.resume go n = ((s.withSystem t).keep { w with waiter }, none) := by
  have hg := hs.current w (mem_of_suspended? hw).1
  rw [suspended?] at hw
  rw [resume, hw]
  simp only [hg, within_current, h]

theorem resume_done (hs : s.Undivided) (hw : s.suspended? n = some w) {r : Result}
    (h : go w.waiter s.system = (t, .done r)) :
    s.resume go n = ((s.withSystem t).without n, some r) := by
  have hg := hs.current w (mem_of_suspended? hw).1
  rw [suspended?] at hw
  rw [resume, hw]
  simp only [hg, within_current, h]
  rw [forget, release_eq (by exact hs.former)]
  rfl

theorem step_ended {op : Operation} {r : Result} (h : op.begin s.system = (t, .done r)) :
    s.step (.start op) =
      ({ s with world := t.world, gate := t.gate, begun := s.begun + 1 },
        .ended (s.begun + 1) r) := by
  simp only [step, start, act, h]

theorem step_waits {op : Operation} {waiter : Waiter}
    (h : op.begin s.system = (t, .waiting waiter)) :
    s.step (.start op) =
      ({ s with
          world := t.world
          gate := t.gate
          begun := s.begun + 1
          waiting := s.waiting ++ [⟨s.begun + 1, s.generation, waiter⟩] },
        .waits (s.begun + 1)) := by
  simp only [step, start, act, h]
  rfl

/-! ## What a step can do -/

/-- All that a step can do to a session, with what it answers. -/
inductive Stepped (s : Session) : Action → Session → Answer → Prop where
  | endedAtOnce {op : Operation} {t : System} {r : Result} (h : op.begin s.system = (t, .done r)) :
    Stepped s (.start op) { s with world := t.world, gate := t.gate, begun := s.begun + 1 }
      (.ended (s.begun + 1) r)
  | began {op : Operation} {t : System} {w : Waiter} (h : op.begin s.system = (t, .waiting w)) :
    Stepped s (.start op)
      { s with
        world := t.world
        gate := t.gate
        begun := s.begun + 1
        waiting := s.waiting ++ [⟨s.begun + 1, s.generation, w⟩] }
      (.waits (s.begun + 1))
  | absent {a : Action} {n : Nat} (ha : a = .poll n ∨ (∃ i, a = .pollCall n i) ∨ a = .drop n)
    (h : s.suspended? n = none) : Stepped s a s .silent
  | wentOn {a : Action} {n : Nat} {w : Suspended} {t : System} {waiter : Waiter}
    (hw : s.suspended? n = some w) (h : a.TakesUp n w.waiter s.system t (.waiting waiter)) :
    Stepped s a ((s.withSystem t).keep { w with waiter }) .silent
  | ended {a : Action} {n : Nat} {w : Suspended} {t : System} {r : Result}
    (hw : s.suspended? n = some w) (h : a.TakesUp n w.waiter s.system t (.done r)) :
    Stepped s a ((s.withSystem t).without n) (.ended n r)
  | dropped {n : Nat} {w : Suspended} (hw : s.suspended? n = some w) :
    Stepped s (.drop n)
      (({ s with
          world := w.waiter.tickets.foldl (fun world t => world.abandon t) s.world } :
        Session).without n) .silent
  | carriedOut {c : Command} {t : System} {answer : Answer}
    (h : c.carryOut s.system = (t, answer)) :
    Stepped s (.command c) (s.withSystem t) answer
  | happened {e : Event} : Stepped s (.event e) { s with world := e.change s.world } .silent

theorem stepped_step (hs : s.Undivided) (a : Action) : Stepped s a (s.after a) (s.answers a) := by
  unfold after answers
  cases a with
  | start op =>
    rcases h : op.begin s.system with ⟨t, r | w⟩
    · rw [step_ended h]
      exact .endedAtOnce h
    · rw [step_waits h]
      exact .began h
  | poll n =>
    rcases hw : s.suspended? n with _ | w
    · simp only [step, Session.poll, resume_absent hw]
      exact .absent (.inl rfl) hw
    · rcases h : w.waiter.poll s.system with ⟨t, r | waiter⟩
      · simp only [step, Session.poll, resume_done hs hw h]
        exact .ended hw (.inl ⟨rfl, h⟩)
      · simp only [step, Session.poll, resume_waiting hs hw h]
        exact .wentOn hw (.inl ⟨rfl, h⟩)
  | pollCall n i =>
    rcases hw : s.suspended? n with _ | w
    · simp only [step, resume_absent hw]
      exact .absent (.inr (.inl ⟨i, rfl⟩)) hw
    · rcases h : w.waiter.pollCall i s.system with ⟨t, r | waiter⟩
      · simp only [step, resume_done hs hw h]
        exact .ended hw (.inr ⟨i, rfl, h⟩)
      · simp only [step, resume_waiting hs hw h]
        exact .wentOn hw (.inr ⟨i, rfl, h⟩)
  | drop n =>
    rcases hw : s.suspended? n with _ | w
    · rw [suspended?] at hw
      simp only [step, drop, hw]
      exact .absent (.inr (.inr rfl)) hw
    · have hw' := hw
      rw [suspended?] at hw
      simp only [step, drop, hw]
      rw [forget, release_eq (by exact hs.former)]
      exact .dropped hw'
  | command c => exact .carriedOut rfl
  | event e => exact .happened

/-! ## What every run keeps -/

/-- Every waiting operation has a number of its own, given to it when it began. -/
structure Numbered (s : Session) : Prop where
  given : ∀ w ∈ s.waiting, w.number ≤ s.begun
  distinct : (s.waiting.map (·.number)).Nodup

theorem keep_numbers (v : Suspended) (s : Session) :
    (s.keep v).waiting.map (·.number) = s.waiting.map (·.number) := by
  rw [keep, List.map_map]
  refine List.map_congr_left fun w _ => ?_
  by_cases h : w.number = v.number <;> simp [h]

/-- A new session: nothing waits, no request is registered, and the backend gives the state. -/
theorem create_eq {settings : Settings} {w : World} (h : create settings w = .ok s) :
    ∃ store, Store.load w.backend = .ok store ∧
      s = ⟨settings, w, ⟨settings.registry, settings.validateAccounts, store.state, .empty⟩, 0, [],
        [], 0, []⟩ := by
  rw [create] at h
  split at h
  · rename_i t ht
    rw [System.create] at ht
    split at ht
    · rename_i store hload
      cases ht
      cases h
      exact ⟨store, hload, rfl⟩
    · cases ht
  · cases h

theorem waiting_create {settings : Settings} {w : World} (h : create settings w = .ok s) :
    s.waiting = [] := by
  obtain ⟨store, -, rfl⟩ := create_eq h
  rfl

theorem undivided_create {settings : Settings} {w : World} (h : create settings w = .ok s) :
    s.Undivided := by
  obtain ⟨store, -, rfl⟩ := create_eq h
  exact ⟨rfl, by simp⟩

theorem numbered_create {settings : Settings} {w : World} (h : create settings w = .ok s) :
    s.Numbered := by
  have hnone := waiting_create h
  exact ⟨by simp [hnone], by simp [hnone]⟩

theorem undivided_after (hs : s.Undivided) (a : Action) : (s.after a).Undivided := by
  have hstep := stepped_step hs a
  generalize s.after a = u, s.answers a = answer at hstep
  cases hstep with
  | endedAtOnce h => exact ⟨hs.former, hs.current⟩
  | began h =>
    refine ⟨hs.former, fun w hw => ?_⟩
    rcases List.mem_append.1 hw with hw | hw
    · exact hs.current w hw
    · rw [List.mem_singleton.1 hw]
  | absent ha h => exact hs
  | wentOn hw h =>
    refine ⟨hs.former, fun v hv => ?_⟩
    obtain ⟨u, hu, rfl⟩ := List.mem_map.1 hv
    split
    · exact (hs.current _ (mem_of_suspended? hw).1 :)
    · exact hs.current u hu
  | ended hw h => exact ⟨hs.former, fun v hv => hs.current v (List.mem_filter.1 hv).1⟩
  | dropped hw => exact ⟨hs.former, fun v hv => hs.current v (List.mem_filter.1 hv).1⟩
  | carriedOut h => exact ⟨hs.former, hs.current⟩
  | happened => exact ⟨hs.former, hs.current⟩

theorem numbered_after (hu : s.Undivided) (hs : s.Numbered) (a : Action) :
    (s.after a).Numbered := by
  have hstep := stepped_step hu a
  generalize s.after a = u, s.answers a = answer at hstep
  have hout : ∀ (n : Nat) (u : Session), u.waiting = s.waiting → u.begun = s.begun →
      (u.without n).Numbered := by
    intro n u hw hb
    refine ⟨fun v hv => ?_, ?_⟩
    · have := hs.given v (hw ▸ (List.mem_filter.1 hv).1)
      exact hb ▸ this
    · exact (List.filter_sublist.map _).nodup (hw ▸ hs.distinct)
  cases hstep with
  | endedAtOnce h => exact ⟨fun w hw => Nat.le_succ_of_le (hs.given w hw), hs.distinct⟩
  | began h =>
    refine ⟨fun w hw => ?_, ?_⟩
    · rcases List.mem_append.1 hw with hw | hw
      · exact Nat.le_succ_of_le (hs.given w hw)
      · obtain rfl := List.mem_singleton.1 hw
        exact Nat.le_refl _
    · rw [List.map_append, List.map_singleton]
      refine List.nodup_append.2 ⟨hs.distinct, by simp, fun n hn m hm => ?_⟩
      obtain ⟨w, hw, rfl⟩ := List.mem_map.1 hn
      have := hs.given w hw
      rw [List.mem_singleton.1 hm]
      simp only
      omega
  | absent ha h => exact hs
  | @wentOn n _ w t waiter hw h =>
    refine ⟨fun v hv => ?_, ?_⟩
    · obtain ⟨u, hu, rfl⟩ := List.mem_map.1 hv
      split
      · exact hs.given w (mem_of_suspended? hw).1
      · exact hs.given u hu
    · rw [keep_numbers]; exact hs.distinct
  | ended hw h => exact hout _ _ rfl rfl
  | dropped hw => exact hout _ _ rfl rfl
  | carriedOut h => exact ⟨hs.given, hs.distinct⟩
  | happened => exact ⟨hs.given, hs.distinct⟩

theorem undivided_run (hs : s.Undivided) (actions : List Action) : (s.run actions).Undivided :=
  run_induction hs (fun _ a h => undivided_after h a) actions

/-- Of what is kept it may be assumed that there is one gate. -/
theorem Undivided.run_induction {P : Session → Prop} (hs : s.Undivided) (first : P s)
    (kept : ∀ t a, t.Undivided → P t → P (t.after a)) (actions : List Action) :
    P (s.run actions) := by
  have hkept : ∀ (t : Session) a, t.Undivided ∧ P t → (t.after a).Undivided ∧ P (t.after a) :=
    fun t a h => ⟨undivided_after h.1 a, kept t a h.1 h.2⟩
  exact (Session.run_induction ⟨hs, first⟩ hkept actions).2

theorem numbered_run (hu : s.Undivided) (hs : s.Numbered) (actions : List Action) :
    (s.run actions).Numbered :=
  hu.run_induction hs (fun _ a ht h => numbered_after ht h a) actions

/-- Where the waiting operations after a step come from: they waited before and their callers did
not give up, or the step began one, or went on with one. -/
theorem waiting_after (hs : s.Undivided) {a : Action} {w : Suspended}
    (h : w ∈ (s.after a).waiting) :
    (w ∈ s.waiting ∧ a ≠ .drop w.number) ∨
      (∃ op t, a = .start op ∧ op.begin s.system = (t, .waiting w.waiter) ∧
        w.number = s.begun + 1) ∨
      ∃ v t, s.suspended? w.number = some v ∧
        a.TakesUp w.number v.waiter s.system t (.waiting w.waiter) := by
  have hstep := stepped_step hs a
  generalize s.after a = u, s.answers a = answer at hstep h
  cases hstep with
  | endedAtOnce _ => exact .inl ⟨h, nofun⟩
  | @began op t waiter hbegin =>
    rcases List.mem_append.1 h with h | h
    · exact .inl ⟨h, nofun⟩
    · rw [List.mem_singleton] at h
      subst h
      exact .inr (.inl ⟨op, t, rfl, hbegin, rfl⟩)
  | absent ha hnone =>
    refine .inl ⟨h, ?_⟩
    rintro rfl
    rcases ha with ha | ⟨i, ha⟩ | ha
    · cases ha
    · cases ha
    · cases ha
      exact absurd (decide_eq_true rfl) (List.find?_eq_none.1 hnone w h)
  | @wentOn _ n v t waiter hv htakes =>
    obtain ⟨u, hu, rfl⟩ := List.mem_map.1 h
    split
    · have hn := (mem_of_suspended? hv).2
      subst hn
      exact .inr (.inr ⟨v, t, hv, htakes⟩)
    · exact .inl ⟨hu, htakes.ne_drop _⟩
  | ended _ htakes => exact .inl ⟨(List.mem_filter.1 h).1, htakes.ne_drop _⟩
  | dropped _ =>
    refine .inl ⟨(List.mem_filter.1 h).1, ?_⟩
    rintro heq
    cases heq
    exact absurd rfl (of_decide_eq_true (List.mem_filter.1 h).2)
  | carriedOut _ => exact .inl ⟨h, nofun⟩
  | happened => exact .inl ⟨h, nofun⟩

/-- An operation ends in a step that begins it, or that takes it up. -/
theorem ended_after (hs : s.Undivided) {a : Action} {n : Nat} {r : Result}
    (h : s.answers a = .ended n r) :
    (∃ op t, a = .start op ∧ n = s.begun + 1 ∧ op.begin s.system = (t, .done r) ∧
        s.after a = { s with world := t.world, gate := t.gate, begun := s.begun + 1 }) ∨
      ∃ w t, s.suspended? n = some w ∧ a.TakesUp n w.waiter s.system t (.done r) ∧
        s.after a = (s.withSystem t).without n := by
  have hstep := stepped_step hs a
  generalize s.after a = u, s.answers a = answer at hstep h
  cases hstep with
  | @endedAtOnce op t _ hbegin =>
    cases h
    exact .inl ⟨op, t, rfl, rfl, hbegin, rfl⟩
  | @ended _ _ w t _ hw htakes =>
    cases h
    exact .inr ⟨w, t, hw, htakes, rfl⟩
  | @carriedOut c _ _ hc =>
    -- No command answers that an operation ended.
    cases c with
    | _ => cases (congrArg Prod.snd hc).trans h
  | _ => cases h

/-- An operation goes on waiting when a step neither takes it up nor gives it up. -/
theorem waiting_stays (hs : s.Undivided) {v : Suspended} (hv : v ∈ s.waiting) {a : Action}
    (notPolled : a ≠ .poll v.number) (notCalled : ∀ i, a ≠ .pollCall v.number i)
    (notDropped : a ≠ .drop v.number) : v ∈ (s.after a).waiting := by
  have hother : ∀ {n : Nat} {w : Waiter} {t : System} {p : Progress Waiter Result},
      a.TakesUp n w s.system t p → v.number ≠ n := by
    rintro n w t p (⟨rfl, -⟩ | ⟨i, rfl, -⟩) rfl
    · exact notPolled rfl
    · exact notCalled i rfl
  have hstep := stepped_step hs a
  generalize s.after a = u, s.answers a = answer at hstep
  cases hstep with
  | endedAtOnce _ => exact hv
  | began _ => exact List.mem_append_left _ hv
  | absent _ _ => exact hv
  | wentOn hw htakes =>
    refine List.mem_map.2 ⟨v, hv, if_neg ?_⟩
    rw [(mem_of_suspended? hw).2]
    exact hother htakes
  | ended _ htakes => exact List.mem_filter.2 ⟨hv, decide_eq_true (hother htakes)⟩
  | dropped _ =>
    refine List.mem_filter.2 ⟨hv, decide_eq_true ?_⟩
    rintro rfl
    exact notDropped rfl
  | carriedOut _ => exact hv
  | happened => exact hv

end Session

/-! ## A world to begin with -/

/-- A world in which nothing has happened. Its wallet has some accounts and knows no methods. -/
def World.initial (accounts : List Account) : World where
  backend := .memory .empty
  wallet := ⟨accounts, fun _ => .failure .methodNotFound, false, []⟩
  announcements := .empty
  tickets := .empty
  usage := ⟨false, []⟩
  supply := ⟨fun n => ⟨BitVec.ofNat 128 n⟩, fun n => Int64.ofNat n, 0⟩

/-- Settings with one restricted method that the wallet answers. -/
def Settings.signing : Settings :=
  Settings.default.withRestrictedMethod "eth_sign" "Sign with a chosen account."

end OriginGate
