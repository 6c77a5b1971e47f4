import OriginGate.Proofs.Decisions
import OriginGate.Proofs.Renaming
import OriginGate.Proofs.Separation

/-!
# One step of two sessions

* `Session.number?` : the operation that an action begins, takes up or gives up;
* `Session.WaitsLike` : an operation waits like one in another session, but for its tickets;
* `Session.AnsweredAlike` : two steps answer the same, leave the same for an origin, and the
  operation waits alike;
* `Session.answeredAlike_start`, `answeredAlike_takesUp`, `answeredAlike_drop`,
  `answeredAlike_command` : so do the same steps in sessions that agree on the origin.
-/

namespace OriginGate

namespace Progress

variable {σ τ α : Type}

/-- What an operation waits with, if it is not done. -/
def waiting? : Progress σ α → Option σ
  | done _ => none
  | waiting s => some s

theorem waiting?_mapWaiting (f : σ → τ) (p : Progress σ α) :
    (p.mapWaiting f).waiting? = p.waiting?.map f := by
  cases p <;> rfl

theorem done?_mapWaiting (f : σ → τ) (p : Progress σ α) : (p.mapWaiting f).done? = p.done? := by
  cases p <;> rfl

theorem awaiting_waiting? (f : σ → List Awaiting) {p : Progress σ α} {w : σ}
    (h : p.waiting? = some w) : p.awaiting f = f w := by
  cases p with
  | done a => cases h
  | waiting s => cases h; rfl

end Progress

/-- An answer without the number of the operation. -/
def Answer.unnumbered : Answer → Answer
  | waits _ => waits 0
  | ended _ r => ended 0 r
  | answer => answer

namespace Answer

variable {x : Answer}

theorem unnumbered_eq_ended {r : Result} : x.unnumbered = ended 0 r ↔ ∃ n, x = ended n r := by
  cases x <;> simp [unnumbered]

theorem unnumbered_eq_done {r : Except PermissionError Unit} :
    x.unnumbered = done r ↔ x = done r := by
  cases x <;> simp [unnumbered]

theorem unnumbered_eq_rejected {id : Option RequestId} :
    x.unnumbered = rejected id ↔ x = rejected id := by
  cases x <;> simp [unnumbered]

end Answer

namespace Session

/-! ## What is compared -/

/-- The number of the operation that an action begins, takes up or gives up. -/
def number? (a : Action) (s : Session) : Option Nat :=
  match a with
  | .start _ => some (s.begun + 1)
  | .poll n | .pollCall n _ | .drop n => some n
  | .command _ | .event _ => none

end Session

theorem Action.TakesUp.number? {a : Action} {n : Nat} {w : Waiter} {t u : System}
    {p : Progress Waiter Result} (h : a.TakesUp n w t u p) {s : Session} :
    s.number? a = some n := by
  rcases h with ⟨rfl, -⟩ | ⟨i, rfl, -⟩ <;> rfl

namespace Session

/-- An operation waits like one in another session, with the same but for its tickets, and the
tickets stand alike; or neither of them waits. -/
def WaitsLike (s : Session) (n : Nat) (t : Session) (m : Nat) : Prop :=
  ∃ f, t.waiter? m = (s.waiter? n).map (Waiter.rename f) ∧
    ∀ w, s.waiter? n = some w → System.StandAlike f w.awaiting s.system t.system

/-- Two steps answer the same, but for the number of the operation, and leave the same for an
origin. -/
structure AnsweredAlike (s : Session) (a : Action) (t : Session) (b : Action) (o : Origin) :
    Prop where
  answer : (t.answers b).unnumbered = (s.answers a).unnumbered
  agrees : (s.after a).system.Agrees o (t.after b).system
  /-- What begins to wait, or waits on, waits alike. -/
  waiting : ∀ n m, s.number? a = some n → t.number? b = some m →
    (s.after a).WaitsLike n (t.after b) m

/-! ## Steps of one session -/

section Steps
variable {s : Session} {a : Action} {n : Nat} {w : Suspended}

theorem waiter?_start (hn : s.Numbered) (op : Operation) :
    (s.after (.start op)).waiter? (s.begun + 1) = (op.begin s.system).2.waiting? := by
  have hnew : s.waiting.find? (·.number = s.begun + 1) = none := by
    rw [List.find?_eq_none]
    intro v hv
    have := hn.given v hv
    simp only [decide_eq_true_eq]
    omega
  rcases h : op.begin s.system with ⟨t, r | w⟩
  · rw [after, step_ended h, waiter?, suspended?, hnew]
    rfl
  · rw [after, step_waits h, waiter?, suspended?, List.find?_append, hnew]
    simp [Progress.waiting?]

theorem suspended?_keep_eq (v : Suspended) (n : Nat) (s : Session) :
    (s.keep v).suspended? n =
      (s.suspended? n).map fun u => if u.number = v.number then v else u := by
  have hnumbers : ∀ u : Suspended, (if u.number = v.number then v else u).number = u.number := by
    intro u
    split
    · rename_i h
      exact h.symm
    · rfl
  rw [suspended?, keep, List.find?_map]
  simp only [Function.comp_def, hnumbers]
  rfl

theorem suspended?_keep {v : Suspended} (hv : v.number = n) (hw : s.suspended? n = some w) :
    (s.keep v).suspended? n = some v := by
  rw [suspended?_keep_eq, hw, Option.map_some, if_pos ((mem_of_suspended? hw).2.trans hv.symm)]

theorem suspended?_without (n : Nat) (s : Session) : (s.without n).suspended? n = none := by
  rw [suspended?, List.find?_eq_none]
  intro v hv
  simpa using (List.mem_filter.1 hv).2

theorem suspended?_keep_ne {v : Suspended} (hne : v.number ≠ n) (s : Session) :
    (s.keep v).suspended? n = s.suspended? n := by
  rw [suspended?_keep_eq]
  rcases hu : s.suspended? n with _ | u
  · rfl
  · have hn := (mem_of_suspended? hu).2
    rw [Option.map_some, if_neg fun heq => hne (heq.symm.trans hn)]

theorem suspended?_without_ne {m : Nat} (hne : m ≠ n) (s : Session) :
    (s.without m).suspended? n = s.suspended? n := by
  refine find?_filter_of_imp fun v _ hv => decide_eq_true fun heq => hne ?_
  exact heq.symm.trans (of_decide_eq_true hv)

theorem mem_of_waiter? {v : Waiter} (h : s.waiter? n = some v) :
    ∃ u ∈ s.waiting, u.number = n ∧ u.waiter = v := by
  obtain ⟨u, hu, hv⟩ := Option.map_eq_some_iff.1 h
  obtain ⟨hmem, hn⟩ := mem_of_suspended? hu
  exact ⟨u, hmem, hn, hv⟩

/-- A step leaves every operation that it neither begins nor takes up nor gives up. -/
theorem waiter?_other (hs : s.Undivided) (other : s.number? a ≠ some n) :
    (s.after a).waiter? n = s.waiter? n := by
  have hne : ∀ {m : Nat}, s.number? a = some m → m ≠ n := by
    rintro m hm rfl
    exact other hm
  have hstep := stepped_step hs a
  generalize s.after a = u, s.answers a = answer at hstep
  cases hstep with
  | endedAtOnce _ => rfl
  | began _ =>
    have hnew := hne rfl
    rw [waiter?, waiter?, suspended?, suspended?, List.find?_append]
    simp [hnew]
  | absent _ _ => rfl
  | wentOn hw h =>
    have hn := (mem_of_suspended? hw).2
    rw [waiter?, suspended?_keep_ne (by exact hn ▸ hne h.number?)]
    rfl
  | ended hw h =>
    rw [waiter?, suspended?_without_ne (hne h.number?)]
    rfl
  | dropped _ =>
    rw [waiter?, suspended?_without_ne (hne rfl)]
    rfl
  | carriedOut _ => rfl
  | happened => rfl

/-- What ends in a step is the operation that the step begins or takes up. -/
theorem number?_of_ended (hs : s.Undivided) {r : Result} (h : s.answers a = .ended n r) :
    s.number? a = some n := by
  rcases ended_after hs h with ⟨op, t, rfl, rfl, -, -⟩ | ⟨w, t, -, htakes, -⟩
  · rfl
  · exact htakes.number?

/-- What a step does that takes up an operation. -/
theorem takenUp (hs : s.Undivided) (hw : s.suspended? n = some w) {t : System}
    {p : Progress Waiter Result} (h : a.TakesUp n w.waiter s.system t p) :
    (s.after a).system = t ∧ s.answers a = ended n p.done? ∧
      (s.after a).waiter? n = p.waiting? := by
  have hn := (mem_of_suspended? hw).2
  have hkeep : ∀ u, ((s.withSystem t).keep { w with waiter := u }).suspended? n =
      some { w with waiter := u } := fun u => suspended?_keep hn (w := w) hw
  rcases h with ⟨rfl, h⟩ | ⟨i, rfl, h⟩
  · cases p with
    | done r =>
      simp only [after, answers, step, Session.poll, resume_done hs hw h, waiter?,
        suspended?_without]
      exact ⟨rfl, rfl, rfl⟩
    | waiting u =>
      simp only [after, answers, step, Session.poll, resume_waiting hs hw h, waiter?, hkeep]
      exact ⟨rfl, rfl, rfl⟩
  · cases p with
    | done r =>
      simp only [after, answers, step, resume_done hs hw h, waiter?, suspended?_without]
      exact ⟨rfl, rfl, rfl⟩
    | waiting u =>
      simp only [after, answers, step, resume_waiting hs hw h, waiter?, hkeep]
      exact ⟨rfl, rfl, rfl⟩

theorem takenUp_absent (ha : a = .poll n ∨ ∃ i, a = .pollCall n i) (h : s.suspended? n = none) :
    s.after a = s ∧ s.answers a = .silent := by
  rcases ha with rfl | ⟨i, rfl⟩
  · simp only [after, answers, step, Session.poll, resume_absent h]
    exact ⟨trivial, rfl⟩
  · simp only [after, answers, step, resume_absent h]
    exact ⟨trivial, rfl⟩

/-- Whoever gives up waits no longer, and nothing else changes but tickets. -/
theorem dropped_spec (hs : s.Undivided) (n : Nat) :
    (∃ tickets, (s.after (.drop n)).system = ⟨s.gate, { s.world with tickets }⟩) ∧
      (s.after (.drop n)).waiter? n = none := by
  have hstep := stepped_step hs (.drop n)
  generalize s.after (.drop n) = u, s.answers (.drop n) = answer at hstep
  cases hstep with
  | absent ha h =>
    rcases ha with ha | ⟨i, ha⟩ | ha <;> cases ha
    refine ⟨⟨s.world.tickets, rfl⟩, ?_⟩
    rw [waiter?, h]
    rfl
  | wentOn _ h => exact absurd rfl (h.ne_drop n)
  | ended _ h => exact absurd rfl (h.ne_drop n)
  | dropped _ =>
    refine ⟨⟨_, congrArg (System.mk s.gate) (abandonAll_eq _ s.world)⟩, ?_⟩
    rw [waiter?, suspended?_without]
    rfl

end Steps

/-! ## The same step in two sessions -/

section TwoSessions
variable {s t : Session} {a b : Action} {o : Origin} {n m : Nat}

theorem answeredAlike_start (hs : s.Numbered) (ht : t.Numbered)
    (h : s.system.Agrees o t.system) (listed : s.gate.pending.Listed) {op : Operation}
    (behalf : op.behalf? s.system = some o) :
    AnsweredAlike s (.start op) t (.start op) o := by
  obtain ⟨f, hsystems, hprogress, hstand⟩ := Operation.begin_agrees h listed behalf
  refine ⟨?_, ?_, ?_⟩
  · rw [answers_start, answers_start, hprogress]
    cases (op.begin s.system).2 <;> rfl
  · rw [start_system, start_system]
    exact hsystems
  · intro n m hn hm
    cases hn
    cases hm
    refine ⟨f, ?_, fun w hw => ?_⟩
    · rw [waiter?_start hs, waiter?_start ht, hprogress, Progress.waiting?_mapWaiting]
    · rw [waiter?_start hs] at hw
      rw [start_system, start_system, ← Progress.awaiting_waiting? Waiter.awaiting hw]
      exact hstand

theorem answeredAlike_command (h : s.system.Agrees o t.system) (paired : s.gate.pending.Paired)
    {c : Command} (behalf : c.behalf? s.system = some o) :
    AnsweredAlike s (.command c) t (.command c) o := by
  obtain ⟨hsystems, hanswer⟩ := h.carryOut paired behalf
  refine ⟨?_, ?_, fun n m hn => ?_⟩
  · rw [answers_command, answers_command, hanswer]
  · rw [command_system, command_system]
    exact hsystems
  · cases hn

theorem answeredAlike_drop (hs : s.Undivided) (ht : t.Undivided) (h : s.system.Agrees o t.system)
    (n m : Nat) : AnsweredAlike s (.drop n) t (.drop m) o := by
  obtain ⟨⟨tickets, hsystem⟩, hwaiter⟩ := dropped_spec hs n
  obtain ⟨⟨tickets', hsystem'⟩, hwaiter'⟩ := dropped_spec ht m
  refine ⟨rfl, ?_, ?_⟩
  · rw [hsystem, hsystem']
    exact ⟨h.registry, h.validateAccounts, h.store, h.pending, h.wallet, h.supply⟩
  · intro k l hk hl
    cases hk
    cases hl
    refine ⟨id, by rw [hwaiter, hwaiter', Option.map_none], fun w hw => ?_⟩
    rw [hwaiter] at hw
    cases hw

/-- Operations that wait alike go on alike, if that which takes them up treats them alike. -/
theorem answeredAlike_takesUp (go : Waiter → System → System × Progress Waiter Result)
    (hs : s.Undivided) (ht : t.Undivided) (h : s.system.Agrees o t.system)
    (like : s.WaitsLike n t m)
    (ha : a = .poll n ∨ ∃ i, a = .pollCall n i) (hb : b = .poll m ∨ ∃ i, b = .pollCall m i)
    (takes : ∀ w, a.TakesUp n w s.system (go w s.system).1 (go w s.system).2)
    (takes' : ∀ w, b.TakesUp m w t.system (go w t.system).1 (go w t.system).2)
    (alike : ∀ f w, s.waiter? n = some w → t.waiter? m = some (w.rename f) →
      System.StandAlike f w.awaiting s.system t.system →
      (go w s.system).1.Agrees o (go (w.rename f) t.system).1 ∧
        (go (w.rename f) t.system).2 = (go w s.system).2.mapWaiting (Waiter.rename f)) :
    AnsweredAlike s a t b o := by
  have hnumber : s.number? a = some n := by
    rcases ha with rfl | ⟨i, rfl⟩ <;> rfl
  have hnumber' : t.number? b = some m := by
    rcases hb with rfl | ⟨i, rfl⟩ <;> rfl
  obtain ⟨f, hwaiter, hstand⟩ := like
  rcases hw : s.suspended? n with _ | w
  · have hw' : t.suspended? m = none := by
      rw [waiter?, waiter?, hw] at hwaiter
      exact Option.map_eq_none_iff.1 hwaiter
    obtain ⟨hafter, hanswer⟩ := takenUp_absent ha hw
    obtain ⟨hafter', hanswer'⟩ := takenUp_absent hb hw'
    refine ⟨by rw [hanswer, hanswer'], by rw [hafter, hafter']; exact h, ?_⟩
    intro k l hk hl
    cases hnumber.symm.trans hk
    cases hnumber'.symm.trans hl
    rw [hafter, hafter']
    exact ⟨f, hwaiter, hstand⟩
  · have hsw : s.waiter? n = some w.waiter := by rw [waiter?, hw]; rfl
    rw [hsw, Option.map_some] at hwaiter
    obtain ⟨v, hv, hvw⟩ := Option.map_eq_some_iff.1 hwaiter
    obtain ⟨hsystems, hprogress⟩ := alike f w.waiter hsw hwaiter (hstand w.waiter hsw)
    obtain ⟨hafter, hanswer, hstill⟩ := takenUp hs hw (takes w.waiter)
    obtain ⟨hafter', hanswer', hstill'⟩ := takenUp ht hv (takes' v.waiter)
    rw [hvw] at hafter' hanswer' hstill'
    refine ⟨?_, by rw [hafter, hafter']; exact hsystems, ?_⟩
    · rw [hanswer, hanswer', hprogress, Progress.done?_mapWaiting]
      cases (go w.waiter s.system).2 <;> rfl
    · intro k l hk hl
      cases hnumber.symm.trans hk
      cases hnumber'.symm.trans hl
      refine ⟨f, ?_, fun u hu => ?_⟩
      · rw [hstill, hstill', hprogress, Progress.waiting?_mapWaiting]
      · rw [hstill] at hu
        have hsub := Waiter.awaiting_of_takesUp (takes w.waiter)
        rw [Progress.awaiting_waiting? Waiter.awaiting hu] at hsub
        -- Only an approval changes the system, and it awaits nothing.
        by_cases happrove : ∃ c, w.waiter = .approve c
        · obtain ⟨c, hc⟩ := happrove
          rw [hc] at hsub
          intro d hd
          exact absurd (hsub.subset hd) List.not_mem_nil
        · have hne : ∀ c, w.waiter ≠ .approve c := fun c hc => happrove ⟨c, hc⟩
          have hne' : ∀ c, w.waiter.rename f ≠ .approve c := by
            intro c hc
            cases hcase : w.waiter with
            | approve d => exact hne d hcase
            | _ => rw [hcase] at hc; cases hc
          rw [hafter, hafter', Waiter.system_of_takesUp hne (takes w.waiter),
            Waiter.system_of_takesUp hne' (takes' (w.waiter.rename f))]
          exact (hstand w.waiter hsw).mono fun d hd => hsub.subset hd

end TwoSessions

end Session

end OriginGate
