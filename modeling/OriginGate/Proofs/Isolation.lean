import OriginGate.Proofs.TwoSessions

/-!
# Origins do not influence each other

* `Session.SameStep` : two sessions take the same step on behalf of an origin;
* `Session.SameStep.answeredAlike` : it is answered alike in sessions that agree on the origin;
* `Session.SameStep.concludes_iff` : it decides the same requests, so that whoever waits alike
  elsewhere goes on waiting alike (`SameStep.waitsLike`);
* `Session.SameOutcome` : both together;
* `Session.isolated_run` : a step on behalf of one origin disturbs no other, and what it answers and
  leaves for its own depends on no other.
-/

namespace OriginGate

namespace Session

/-- Two sessions take the same step on behalf of an origin: they begin the same, go on with, or give
up, operations that wait alike, or carry out the same. -/
inductive SameStep (s : Session) (before : List Action) (t : Session) (early : List Action)
    (o : Origin) : Action → Action → Prop where
  | started {op : Operation} (h : op.behalf? (s.run before).system = some o) :
    SameStep s before t early o (.start op) (.start op)
  | polled {n m : Nat} (serves : s.Serves before n o) (serves' : t.Serves early m o)
    (like : (s.run before).WaitsLike n (t.run early) m) :
    SameStep s before t early o (.poll n) (.poll m)
  | calledOn {n m i : Nat} (serves : s.Serves before n o) (serves' : t.Serves early m o)
    (like : (s.run before).WaitsLike n (t.run early) m) :
    SameStep s before t early o (.pollCall n i) (.pollCall m i)
  | dropped {n m : Nat} (serves : s.Serves before n o) (serves' : t.Serves early m o)
    (like : (s.run before).WaitsLike n (t.run early) m) :
    SameStep s before t early o (.drop n) (.drop m)
  | commanded {c : Command} (h : c.behalf? (s.run before).system = some o) :
    SameStep s before t early o (.command c) (.command c)

/-- Two steps are answered alike and leave the same for an origin, and whatever waited alike besides
goes on waiting alike: whoever asked is told the same. -/
structure SameOutcome (s : Session) (a : Action) (t : Session) (b : Action) (o : Origin) : Prop
    extends AnsweredAlike s a t b o where
  others : ∀ n m, s.number? a ≠ some n → t.number? b ≠ some m → s.WaitsLike n t m →
    (s.after a).WaitsLike n (t.after b) m

/-! ## Decisions -/

section Decisions
variable {s t : Session} {a : Action} {n m : Nat} {id : RequestId} {d : Decision}

theorem Concludes.alike (h : s.Concludes a id d)
    (answer : (t.answers a).unnumbered = (s.answers a).unnumbered) (ne : ∀ n, a ≠ .poll n) :
    t.Concludes a id d := by
  cases h with
  | approved hended =>
    rw [hended] at answer
    obtain ⟨k, hk⟩ := Answer.unnumbered_eq_ended.1 answer
    exact .approved hk
  | approvedLater _ _ => exact absurd rfl (ne _)
  | rejected hdone =>
    rw [hdone] at answer
    exact .rejected (Answer.unnumbered_eq_done.1 answer)
  | notRejected hdone =>
    rw [hdone] at answer
    exact .notRejected (Answer.unnumbered_eq_done.1 answer)
  | originRejected hrejected =>
    rw [hrejected] at answer
    exact .originRejected (Answer.unnumbered_eq_rejected.1 answer)

theorem Concludes.alike_poll (ht : t.Undivided) (h : s.Concludes (.poll n) id d)
    (answer : (t.answers (.poll m)).unnumbered = (s.answers (.poll n)).unnumbered)
    (approving : ∀ c, s.waiter? n = some (.approve c) → t.waiter? m = some (.approve c)) :
    t.Concludes (.poll m) id d := by
  cases h with
  | approvedLater hw hended =>
    rw [hended] at answer
    obtain ⟨k, hk⟩ := Answer.unnumbered_eq_ended.1 answer
    cases number?_of_ended ht hk
    exact .approvedLater (approving _ hw) hk

theorem WaitsLike.approve_iff (h : s.WaitsLike n t m) (c : Approving) :
    t.waiter? m = some (.approve c) ↔ s.waiter? n = some (.approve c) := by
  obtain ⟨f, hwaiter, -⟩ := h
  rw [hwaiter]
  rcases s.waiter? n with _ | w
  · exact Iff.rfl
  · cases w <;> simp [Waiter.rename]

theorem SameStep.concludes_iff {before early : List Action} {o : Origin} {b : Action}
    (hs : s.Undivided) (ht : t.Undivided) (same : SameStep s before t early o a b)
    (answer : ((t.run early).answers b).unnumbered = ((s.run before).answers a).unnumbered) :
    (t.run early).Concludes b id d ↔ (s.run before).Concludes a id d := by
  cases same with
  | started _ | commanded _ =>
    exact ⟨fun h => h.alike answer.symm fun n => Action.noConfusion,
      fun h => h.alike answer fun n => Action.noConfusion⟩
  | polled _ _ like =>
    constructor <;> intro h
    · exact h.alike_poll (undivided_run hs before) answer.symm fun c => (like.approve_iff c).1
    · exact h.alike_poll (undivided_run ht early) answer fun c => (like.approve_iff c).2
  | calledOn _ _ _ | dropped _ _ _ => constructor <;> intro h <;> cases h

end Decisions

/-! ## Answers -/

section Runs
variable {s t : Session} {settings settings' : Settings} {w w' : World}
  {before early : List Action} {o : Origin} {n m : Nat}

/-- As long as no id is given twice, an approval that serves an origin finds a request of this
origin or none. -/
theorem ofOrigin_approving (created : create settings w = .ok s)
    (fresh : (s.run before).world.Fresh) {a : Approving}
    (hw : (s.run before).waiter? n = some (.approve a)) (ha : a.origin = o) (r : PermissionsRequest)
    (found : (s.run before).gate.pending.find? a.approved.id = some r) : r.origin = o := by
  obtain ⟨e, he, rfl⟩ := Option.map_eq_some_iff.1 found
  have under : (s.run before).approving? (.poll n) = some (n, a) := by rw [approving?, hw]
  exact (origin_of_approving (undivided_create created) (orderly_create created)
    (waiting_create created) fresh under he).trans ha

theorem concerns_waiter? (created : create settings w = .ok s) (serves : s.Serves before n o)
    {v : Waiter} (hv : (s.run before).waiter? n = some v) : v.Concerns o := by
  obtain ⟨u, hmem, rfl, rfl⟩ := mem_of_waiter? hv
  exact concerns_run created hmem serves

theorem answeredAlike_poll (created : create settings w = .ok s)
    (created' : create settings' w' = .ok t)
    (fresh : (s.run before).world.Fresh) (fresh' : (t.run early).world.Fresh)
    (h : (s.run before).system.Agrees o (t.run early).system) (serves : s.Serves before n o)
    (like : (s.run before).WaitsLike n (t.run early) m) :
    AnsweredAlike (s.run before) (.poll n) (t.run early) (.poll m) o := by
  refine answeredAlike_takesUp Waiter.poll
    (undivided_run (undivided_create created) before)
    (undivided_run (undivided_create created') early) h like (.inl rfl) (.inl rfl)
    (fun _ => .inl ⟨rfl, rfl⟩) (fun _ => .inl ⟨rfl, rfl⟩) fun f v hv hv' hstand => ?_
  have hconcerns := concerns_waiter? created serves hv
  refine v.poll_rename h hconcerns hstand fun a ha => ?_
  subst ha
  have hfound := ofOrigin_approving created fresh hv hconcerns
  refine System.finds_of_find? ?_ hfound
  exact h.pending.find?_congr (tended_run created before).listed (tended_run created' early).listed
    hfound (ofOrigin_approving created' fresh' hv' hconcerns)

theorem answeredAlike_pollCall (created : create settings w = .ok s)
    (created' : create settings' w' = .ok t)
    (h : (s.run before).system.Agrees o (t.run early).system) (serves : s.Serves before n o)
    (like : (s.run before).WaitsLike n (t.run early) m) (i : Nat) :
    AnsweredAlike (s.run before) (.pollCall n i) (t.run early) (.pollCall m i) o := by
  refine answeredAlike_takesUp (Waiter.pollCall i)
    (undivided_run (undivided_create created) before)
    (undivided_run (undivided_create created') early) h like (.inr ⟨i, rfl⟩) (.inr ⟨i, rfl⟩)
    (fun _ => .inr ⟨i, rfl, rfl⟩) (fun _ => .inr ⟨i, rfl, rfl⟩) fun f v hv _ hstand => ?_
  exact v.pollCall_rename h (concerns_waiter? created serves hv) hstand i

/-- The same step on behalf of an origin is answered alike in sessions that agree on it. -/
theorem SameStep.answeredAlike (created : create settings w = .ok s)
    (created' : create settings' w' = .ok t)
    (fresh : (s.run before).world.Fresh) (fresh' : (t.run early).world.Fresh)
    (h : (s.run before).system.Agrees o (t.run early).system) {a b : Action}
    (same : SameStep s before t early o a b) :
    AnsweredAlike (s.run before) a (t.run early) b o := by
  have hu := undivided_create created
  have hu' := undivided_create created'
  have hpaired := paired_run created before fresh
  cases same with
  | started behalf =>
    exact answeredAlike_start (numbered_run hu (numbered_create created) before)
      (numbered_run hu' (numbered_create created') early) h hpaired.toListed behalf
  | polled serves _ like => exact answeredAlike_poll created created' fresh fresh' h serves like
  | calledOn serves _ like => exact answeredAlike_pollCall created created' h serves like _
  | dropped _ _ _ =>
    exact answeredAlike_drop (undivided_run hu before) (undivided_run hu' early) h _ _
  | commanded behalf => exact answeredAlike_command h hpaired behalf

/-! ## What callers are told -/

section Told
variable {v : Waiter} {d : Awaiting} {a b : Action}

theorem status_concluded (created : create settings w = .ok s) (fresh : (s.run before).world.Fresh)
    (hv : (s.run before).waiter? n = some v) (hd : d ∈ v.awaiting)
    (unsettled : (s.run before).world.tickets.status d.ticket = .unsettled) {decision : Decision}
    (concludes : (s.run before).Concludes a d.id decision) :
    ((s.run before).after a).world.tickets.status d.ticket = .decided decision := by
  obtain ⟨u, hu, -, rfl⟩ := mem_of_waiter? hv
  cases (attended_run created before fresh).fate u hu d hd with
  | @pending e mem id ticket _ =>
    have found := (tended_run created before).listed.lookUp? mem
    rw [id] at found
    have hbefore := undivided_run (undivided_create created) before
    have hdecides := (concluded_step hbefore concludes).decides found
    change ((s.run before).after a).system.world.tickets.status d.ticket = _
    rw [hdecides.tickets, ticket]
    exact Tickets.status_settle_self unsettled
  | decided _ _ _ status => cases status.symm.trans unsettled

theorem status_undecided (created : create settings w = .ok s) (fresh : (s.run before).world.Fresh)
    (hv : (s.run before).waiter? n = some v) (hd : d ∈ v.awaiting)
    (unsettled : (s.run before).world.tickets.status d.ticket = .unsettled)
    (none : ∀ decision, ¬ (s.run before).Concludes a d.id decision) (stays : a ≠ .drop n) :
    ((s.run before).after a).world.tickets.status d.ticket = .unsettled := by
  obtain ⟨u, hu, rfl, rfl⟩ := mem_of_waiter? hv
  have hattentive := attentive_run created before
  rw [← unsettled]
  refine status_after (undivided_run (undivided_create created) before)
    (hattentive.issued u hu d hd) (fun e he hticket => ?_) (hattentive.kept hu hd stays)
  cases (attended_run created before fresh).fate u hu d hd with
  | @pending f mem id ticket _ =>
    -- No two requests have the same ticket.
    have hdistinct := (tended_run created before).ascending.imp Nat.ne_of_lt
    rw [List.inj_on_of_nodup_map hdistinct he mem (hticket.trans ticket.symm), id]
    exact none
  | decided _ _ _ status => cases status.symm.trans unsettled

theorem status_settled (created : create settings w = .ok s)
    (hv : (s.run before).waiter? n = some v) (hd : d ∈ v.awaiting)
    (settled : (s.run before).world.tickets.status d.ticket ≠ .unsettled) (a : Action) :
    ((s.run before).after a).world.tickets.status d.ticket =
      (s.run before).world.tickets.status d.ticket := by
  obtain ⟨u, hu, -, rfl⟩ := mem_of_waiter? hv
  exact settled_after (undivided_run (undivided_create created) before)
    ((attentive_run created before).issued u hu d hd) settled a

theorem SameStep.waitsLike (created : create settings w = .ok s)
    (created' : create settings' w' = .ok t)
    (fresh : (s.run before).world.Fresh) (fresh' : (t.run early).world.Fresh)
    (same : SameStep s before t early o a b)
    (answer : ((t.run early).answers b).unnumbered = ((s.run before).answers a).unnumbered)
    (hn : (s.run before).number? a ≠ some n) (hm : (t.run early).number? b ≠ some m)
    (like : (s.run before).WaitsLike n (t.run early) m) :
    ((s.run before).after a).WaitsLike n ((t.run early).after b) m := by
  have hu := undivided_create created
  have hu' := undivided_create created'
  have hafter := waiter?_other (undivided_run hu before) hn
  have hafter' := waiter?_other (undivided_run hu' early) hm
  obtain ⟨f, hwaiter, hstand⟩ := like
  refine ⟨f, by rw [hafter, hafter', hwaiter], fun v hv d hd => ?_⟩
  rw [hafter] at hv
  have hv' : (t.run early).waiter? m = some (v.rename f) := by
    rw [hwaiter, hv]
    rfl
  have hd' : d.rename f ∈ (v.rename f).awaiting := by
    rw [Waiter.awaiting_rename]
    exact List.mem_map_of_mem hd
  have hstands : (t.run early).world.tickets.status (d.rename f).ticket =
      (s.run before).world.tickets.status d.ticket := hstand v hv d hd
  change ((t.run early).after b).world.tickets.status (d.rename f).ticket =
    ((s.run before).after a).world.tickets.status d.ticket
  by_cases hsettled : (s.run before).world.tickets.status d.ticket = .unsettled
  · by_cases hconcludes : ∃ decision, (s.run before).Concludes a d.id decision
    · obtain ⟨decision, hconcludes⟩ := hconcludes
      have hconcludes' := (same.concludes_iff hu hu' answer).2 hconcludes
      rw [status_concluded created fresh hv hd hsettled hconcludes,
        status_concluded created' fresh' hv' hd' (hstands.trans hsettled) hconcludes']
    · have hnone' : ∀ decision, ¬ (t.run early).Concludes b d.id decision := by
        intro decision h
        exact hconcludes ⟨decision, (same.concludes_iff hu hu' answer).1 h⟩
      rw [status_undecided created fresh hv hd hsettled (fun c h => hconcludes ⟨c, h⟩)
          fun h => hn (h ▸ rfl),
        status_undecided created' fresh' hv' hd' (hstands.trans hsettled) hnone'
          fun h => hm (h ▸ rfl)]
  · rw [status_settled created hv hd hsettled, status_settled created' hv' hd' (hstands ▸ hsettled),
      hstands]

end Told

/-- The same step on behalf of an origin has the same outcome in sessions that agree on it. -/
theorem SameStep.sameOutcome (created : create settings w = .ok s)
    (created' : create settings' w' = .ok t)
    (fresh : (s.run before).world.Fresh) (fresh' : (t.run early).world.Fresh)
    (h : (s.run before).system.Agrees o (t.run early).system) {a b : Action}
    (same : SameStep s before t early o a b) :
    SameOutcome (s.run before) a (t.run early) b o := by
  have halike := same.answeredAlike created created' fresh fresh' h
  refine ⟨halike, fun n m hn hm like => ?_⟩
  exact same.waitsLike created created' fresh fresh' halike.answer hn hm like

end Runs

/-- Origins do not influence each other, as long as no id is given to two requests. A step on behalf
of one disturbs no other; and whatever two sessions hold for the others, the same step on behalf of
an origin on which they agree has the same outcome in both. -/
theorem isolated_run {settings : Settings} {w : World} {s : Session}
    (created : create settings w = .ok s) :
    (∀ before a o q, o ≠ q → s.OnBehalf before q a → (s.run (before ++ [a])).world.Fresh →
      s.Undisturbed before a o) ∧
    ∀ settings' w' t, create settings' w' = .ok t → ∀ before early a b o,
      (s.run before).world.Fresh → (t.run early).world.Fresh →
      (s.run before).system.Agrees o (t.run early).system →
      SameStep s before t early o a b → SameOutcome (s.run before) a (t.run early) b o := by
  refine ⟨fun before a o q hne behalf fresh => undisturbed created behalf fresh hne, ?_⟩
  intro settings' w' t created' before early a b o fresh fresh' agrees same
  exact same.sameOutcome created created' fresh fresh' agrees

/-- What is recorded about one site stays when the request of another is approved, and makes no
difference to the approval. -/
theorem isolated_run_approval :
    ∃ s early before a, create .signing (.initial []) = .ok s ∧
      early = [.start (.requestPermissions ⟨"site"⟩ (.single "eth_sign"))] ∧
      before = .command (.recordMetadata ⟨"other"⟩ (some ⟨some "Other"⟩) none) :: early ∧
      a = .start (.approve ⟨⟨⟨0⟩⟩, .single "eth_sign"⟩ []) ∧
      (s.run early).gate.state.siteMetadata? ⟨"other"⟩ = none ∧
      (s.run before).gate.state.siteMetadata? ⟨"other"⟩ = some ⟨"Other", none⟩ ∧
      s.Undisturbed before a ⟨"other"⟩ ∧
      SameOutcome (s.run before) a (s.run early) a ⟨"site"⟩ := by
  have created : create .signing (.initial []) =
      .ok ⟨.signing, .initial [], ⟨Settings.signing.registry, true, .empty, .empty⟩, 0, [], [], 0,
        []⟩ := rfl
  refine ⟨_, _, _, _, created, rfl, rfl, rfl, rfl, rfl, ?_, ?_⟩
  · refine (isolated_run created).1 _ _ _ ⟨"site"⟩ (by decide) (.started rfl) ?_
    exact List.nodup_singleton _
  · refine (isolated_run created).2 _ _ _ created _ _ _ _ _ ?_ ?_ ?_ (.started rfl)
    · exact List.nodup_singleton _
    · exact List.nodup_singleton _
    · refine ⟨rfl, rfl, ⟨rfl, rfl, rfl⟩, ⟨rfl, fun id h => ?_⟩, ⟨rfl, rfl, rfl⟩,
        ⟨fun _ => rfl, fun _ => rfl⟩⟩
      cases h
      rfl

end Session

end OriginGate
