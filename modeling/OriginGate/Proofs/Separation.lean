import OriginGate.Proofs.Ownership

/-!
# What a step on behalf of one origin leaves of the others

* `System.Spares` : a change leaves what is granted to an origin, what is recorded about it, and its
  request;
* `ServedAll.spares`, `Approving.Finished.spares`, `spares_command` : so does what is done for another
  origin;
* `Session.Undisturbed` : a step leaves all of this, and the callers of the origin;
* `Session.undisturbed` : so does every step on behalf of another origin.

A request can only be lost to one that is given the same id, so that no id may be given twice.
-/

namespace OriginGate

/-- What a change leaves of an origin. -/
structure System.Spares (o : Origin) (s t : System) : Prop where
  domain : t.gate.state.domains.find? o = s.gate.state.domains.find? o
  metadata : t.gate.state.siteMetadata? o = s.gate.state.siteMetadata? o
  idFor : t.gate.pending.idFor? o = s.gate.pending.idFor? o
  /-- The request of the origin, with the ticket of its caller. -/
  request : t.gate.pending.entries.find? (·.origin = o) =
    s.gate.pending.entries.find? (·.origin = o)

namespace System.Spares

variable {o : Origin} {s t u : System}

theorem refl (o : Origin) (s : System) : Spares o s s := ⟨rfl, rfl, rfl, rfl⟩

theorem of_gate (h : t.gate = s.gate) : Spares o s t := by
  constructor <;> rw [h]

theorem of_put {next : State} (domain : next.domains.find? o = s.gate.state.domains.find? o)
    (metadata : next.siteMetadata? o = s.gate.state.siteMetadata? o) {t : System}
    (state : t.gate.state = (s.store.put next).1.state)
    (pending : t.gate.pending = s.gate.pending) : Spares o s t := by
  have hput := Store.put_state next s.store
  rw [← state] at hput
  constructor
  · rcases hput with h | h
    · rw [h, domain]
    · rw [h]; rfl
  · rcases hput with h | h
    · rw [h, metadata]
    · rw [h]; rfl
  · rw [pending]
  · rw [pending]

end System.Spares

/-! ## Changes of the state -/

namespace State

variable {o q : Origin} (s : State)

theorem find?_setPermissions (hne : o ≠ q) (ps : List Permission) :
    (s.setPermissions q ps).domains.find? o = s.domains.find? o := by
  unfold setPermissions
  split
  · rw [SortedMap.find?_erase, if_neg hne]
  · rw [SortedMap.find?_insert, if_neg hne]

theorem find?_grant (hne : o ≠ q) (ps : List Permission) :
    (s.grant q ps).domains.find? o = s.domains.find? o := by
  rw [grant, SortedMap.find?_insert, if_neg hne]

theorem siteMetadata?_setMetadata (hne : o ≠ q) (m : SiteMetadata) :
    (s.setMetadata q m).siteMetadata? o = s.siteMetadata? o := by
  rw [siteMetadata?, setMetadata, SortedMap.find?_insert, if_neg hne]
  rfl

end State

/-! ## Changes of the requests -/

theorem Pending.Listed.find?_without {p : Pending} (h : p.Listed) {e : PendingRequest}
    (he : e ∈ p.entries) {o : Origin} (hne : o ≠ e.origin) :
    (p.without e).entries.find? (·.origin = o) = p.entries.find? (·.origin = o) := by
  refine find?_filter_of_imp fun f hf horigin => decide_eq_true fun hid => hne ?_
  rw [← List.inj_on_of_nodup_map h.ids hf he hid]
  exact (of_decide_eq_true horigin).symm

namespace System

variable {o : Origin} {s t : System}

theorem Decides.spares {e : PendingRequest} {d : Decision} (h : s.Decides e d t)
    (listed : s.gate.pending.Listed) (hne : o ≠ e.origin)
    (domain : t.gate.state.domains.find? o = s.gate.state.domains.find? o)
    (metadata : t.gate.state.siteMetadata? o = s.gate.state.siteMetadata? o) : Spares o s t where
  domain := domain
  metadata := metadata
  idFor := by rw [h.pending, Pending.idFor?_without, if_neg hne]
  request := by rw [h.pending, listed.find?_without (Pending.lookUp?_spec h.found).1 hne]

section Serving
variable {q : Origin} {may : Gate → Rpc.MethodCall → Prop} {as : List Awaiting}

theorem Served.state_spared (h : Served q may s t as) (hne : o ≠ q) :
    t.gate.state.siteMetadata? o = s.gate.state.siteMetadata? o ∧
      t.gate.pending.idFor? o = s.gate.pending.idFor? o := by
  cases h with
  | nothing => exact ⟨rfl, rfl⟩
  | registered valid h =>
    obtain ⟨-, -, -, rfl⟩ := register_ok h
    exact ⟨rfl, (Pending.idFor?_add _ _ _).trans (if_neg hne)⟩
  | recorded m =>
    refine ⟨?_, rfl⟩
    have hput := Store.put_state (s.gate.state.setMetadata q m) s.store
    change (s.store.put (s.gate.state.setMetadata q m)).1.state.siteMetadata? o = _
    rcases hput with h | h
    · rw [h, State.siteMetadata?_setMetadata _ hne]
    · rw [h]; rfl
  | reported e => exact ⟨rfl, rfl⟩
  | sent h => exact ⟨rfl, rfl⟩

theorem ServedAll.state_spared (h : ServedAll q may s t as) (hne : o ≠ q) :
    t.gate.state.siteMetadata? o = s.gate.state.siteMetadata? o ∧
      t.gate.pending.idFor? o = s.gate.pending.idFor? o := by
  induction h with
  | nil s => exact ⟨rfl, rfl⟩
  | cons first _ ih =>
    obtain ⟨hmetadata, hid⟩ := first.state_spared hne
    exact ⟨ih.1.trans hmetadata, ih.2.trans hid⟩

/-- New requests of another origin come behind all others. -/
theorem ServedAll.spares (h : ServedAll q may s t as) (hs : s.Orderly) (fresh : t.world.Fresh)
    (hne : o ≠ q) : Spares o s t where
  domain := by rw [h.sameGrants.domains]
  metadata := (h.state_spared hne).1
  idFor := (h.state_spared hne).2
  request := by
    obtain ⟨news, hnews, -⟩ := h.registers hs fresh
    rw [hnews.entries, List.find?_append]
    have hothers : news.find? (·.origin = o) = none := by
      rw [List.find?_eq_none]
      intro e he horigin
      have hmem : e ∈ t.gate.pending.entries := by
        rw [hnews.entries]
        exact List.mem_append_right _ he
      rcases h.entries e hmem with hold | ⟨hq, -⟩
      · have hissued : e.ticket < s.world.tickets.statuses.length := hs.issued e hold
        have hnew : e.ticket ∈ news.map (·.ticket) := List.mem_map_of_mem he
        rw [hnews.tickets, List.mem_range'_1] at hnew
        exact absurd hnew.1 (Nat.not_le_of_lt hissued)
      · exact hne ((of_decide_eq_true horigin).symm.trans hq)
    rw [hothers, Option.or_none]

end Serving

end System

/-- An approval grants to the origin whose request it takes. -/
theorem Approving.Finished.spares {a : Approving} {s t : System} {d : Decision}
    (h : a.Finished s t d) (listed : s.gate.pending.Listed) {o : Origin} (hne : o ≠ a.origin)
    (requested : ∀ e, s.gate.pending.lookUp? a.approved.id = some e → e.origin = a.origin) :
    System.Spares o s t := by
  have hstate : t.gate.state.domains.find? o = s.gate.state.domains.find? o ∧
      t.gate.state.siteMetadata? o = s.gate.state.siteMetadata? o := by
    rcases h.state with hsame | ⟨-, granted, -, -, -, hgrant, -⟩
    · rw [hsame]
      exact ⟨rfl, rfl⟩
    · rw [hgrant]
      exact ⟨State.find?_grant _ hne granted, rfl⟩
  rcases h.decides with ⟨-, -, supply, rfl⟩ | ⟨e, hid, hdecides⟩
  · exact .of_gate rfl
  · have horigin := requested e (hid ▸ hdecides.found)
    exact hdecides.spares listed (horigin ▸ hne) hstate.1 hstate.2

namespace System

variable {o q : Origin} {s : System}

theorem spares_resolve (listed : s.gate.pending.Listed) (id : RequestId) (d : Decision)
    (other : ∀ e, s.gate.pending.lookUp? id = some e → o ≠ e.origin) :
    Spares o s (s.resolve id d).1 := by
  rcases h : s.gate.pending.lookUp? id with _ | e
  · rw [resolve_absent d h]
    exact .refl o s
  · rw [resolve_found d h]
    have hne := other e h
    rw [← (Pending.lookUp?_spec h).2] at h
    have hdecides : s.Decides e d ((s.withdraw e).deliver e d) := decides_deliver d h rfl rfl rfl
    exact hdecides.spares listed hne rfl rfl

theorem spares_command (paired : s.gate.pending.Paired) {c : Command}
    (h : c.behalf? s = some q) (hne : o ≠ q) : Spares o s (c.carryOut s).1 := by
  cases c with
  | reject id reason =>
    obtain ⟨r, hr, rfl⟩ := Option.map_eq_some_iff.1 h
    obtain ⟨e, he, rfl⟩ := Option.map_eq_some_iff.1 hr
    refine spares_resolve paired.toListed id _ fun f hf => ?_
    cases he.symm.trans hf
    exact hne
  | rejectOrigin o' =>
    cases h
    rcases rejectOrigin_fst q none s with hsame | ⟨id, hid, hsame⟩
    · rw [Command.carryOut, hsame]
      exact .refl o s
    · rw [Command.carryOut, hsame]
      refine spares_resolve paired.toListed id _ fun e he horigin => hne ?_
      obtain ⟨r, hr, -, rfl⟩ := paired.idFor?_eq_some_iff.1 hid
      rw [Pending.find?, he] at hr
      cases hr
      exact horigin
  | recordMetadata o' report extensionId =>
    cases h
    simp only [Command.carryOut, recordMetadata]
    split
    · exact .refl o s
    · rename_i name _
      have hspared := State.siteMetadata?_setMetadata s.gate.state hne ⟨name, extensionId⟩
      refine .of_put ?_ hspared rfl rfl
      rfl
  | revoke o' methods =>
    cases h
    have hspared := State.find?_setPermissions s.gate.state hne
      ((s.gate.state.permissions q).filter (·.capability ∉ methods))
    exact .of_put hspared rfl rfl rfl
  | clear => cases h
  | logUsage o' e => exact .of_gate rfl

end System

namespace Session

/-- What a step after some actions leaves of an origin. -/
structure Undisturbed (s : Session) (before : List Action) (a : Action) (o : Origin) : Prop where
  spares : System.Spares o (s.run before).system (s.run (before ++ [a])).system
  /-- Whoever asked for the request of the origin is told nothing. -/
  asked : ∀ e ∈ (s.run before).gate.pending.entries, e.origin = o →
    (s.run (before ++ [a])).world.tickets.status e.ticket =
      (s.run before).world.tickets.status e.ticket
  /-- Whatever waits on behalf of the origin goes on waiting, and is told nothing. -/
  waiting : ∀ w ∈ (s.run before).waiting, s.Serves before w.number o →
    w ∈ (s.run (before ++ [a])).waiting ∧
      ∀ d ∈ w.waiter.awaiting, (s.run (before ++ [a])).world.tickets.status d.ticket =
        (s.run before).world.tickets.status d.ticket

variable {s : Session} {settings : Settings} {w : World} {before : List Action} {a : Action}
  {o q : Origin}

theorem spares_after (created : create settings w = .ok s) (h : s.OnBehalf before q a)
    (fresh : (s.run (before ++ [a])).world.Fresh) (hne : o ≠ q) :
    System.Spares o (s.run before).system (s.run (before ++ [a])).system := by
  have hu := undivided_create created
  have ho := orderly_create created
  have hbefore := undivided_run hu before
  have hfresh : (s.run before).world.Fresh := fresh.of_prefix (announced_append hu before [a])
  have hpaired := paired_run created before hfresh
  have hchanged := changed_step hbefore a
  rw [run_snoc] at fresh ⊢
  change ((s.run before).after a).system.world.Fresh at fresh
  generalize ((s.run before).after a).system = t at hchanged fresh
  cases hchanged with
  | same => exact .refl o _
  | served begun site hserved =>
    subst begun
    cases h with
    | started h =>
      cases (Operation.behalf?_site site _).symm.trans h
      exact hserved.spares (orderly_run hu ho before hfresh) fresh hne
  | @approved n approving t d under _ finished =>
    have horigin := h.approving hu (waiting_create created) under
    refine finished.spares hpaired.toListed (horigin ▸ hne) fun e found => ?_
    exact origin_of_approving hu ho (waiting_create created) hfresh under found
  | abandoned _ _ => exact .of_gate rfl
  | commanded given _ =>
    subst given
    cases h with
    | commanded h => exact System.spares_command hpaired h hne
  | happened given =>
    subst given
    cases h

/-- A step on behalf of another origin decides no request of an origin. -/
theorem OnBehalf.not_concludes (created : create settings w = .ok s) (h : s.OnBehalf before q a)
    (fresh : (s.run before).world.Fresh) {e : PendingRequest}
    (he : e ∈ (s.run before).gate.pending.entries) (other : e.origin ≠ q) (d : Decision) :
    ¬ (s.run before).Concludes a e.id d := by
  intro concludes
  have found := (tended_run created before).listed.lookUp? he
  exact other (h.decided created fresh concludes found)

theorem asked_undisturbed (created : create settings w = .ok s) (h : s.OnBehalf before q a)
    (fresh : (s.run before).world.Fresh) (hne : o ≠ q) {e : PendingRequest}
    (he : e ∈ (s.run before).gate.pending.entries) (horigin : e.origin = o) :
    (s.run (before ++ [a])).world.tickets.status e.ticket =
      (s.run before).world.tickets.status e.ticket := by
  have hu := undivided_create created
  have htended := tended_run created before
  rw [run_snoc]
  refine status_after (undivided_run hu before) (htended.issued e he) ?_ ?_
  · intro f hf hticket
    have hdistinct := htended.ascending.imp Nat.ne_of_lt
    rw [List.inj_on_of_nodup_map hdistinct hf he hticket]
    exact h.not_concludes created fresh he (horigin ▸ hne)
  · -- Whoever holds the ticket and gives up serves the origin, and not the other one.
    intro n v ha hv hticket
    obtain ⟨hmem, hn⟩ := mem_of_suspended? hv
    rw [Waiter.tickets_eq ((attentive_run created before).holds v hmem)] at hticket
    obtain ⟨d, hd, hheld⟩ := List.mem_map.1 hticket
    have hserves := serves_of_ticket created before hmem hd he hheld.symm
    subst ha
    cases h with
    | dropped hq => exact hne (horigin.symm.trans (hserves.unique hu (hn ▸ hq)))

theorem OnBehalf.ne_number (hs : s.Undivided) (h : s.OnBehalf before q a) (hne : o ≠ q) {n : Nat}
    (serves : s.Serves before n o) : a ≠ .poll n ∧ (∀ i, a ≠ .pollCall n i) ∧ a ≠ .drop n := by
  have hother : ¬ s.Serves before n q := fun hq => hne (serves.unique hs hq)
  refine ⟨?_, ?_, ?_⟩
  · rintro rfl
    cases h with
    | polled hn => exact hother hn
  · rintro i rfl
    cases h with
    | calledOn hn => exact hother hn
  · rintro rfl
    cases h with
    | dropped hn => exact hother hn

/-- Whoever waits on behalf of an origin waits on after a step on behalf of another, and is told
nothing. -/
theorem waiting_undisturbed (created : create settings w = .ok s) (h : s.OnBehalf before q a)
    (fresh : (s.run before).world.Fresh) (hne : o ≠ q) {v : Suspended}
    (hv : v ∈ (s.run before).waiting) (serves : s.Serves before v.number o) :
    v ∈ (s.run (before ++ [a])).waiting ∧
      ∀ d ∈ v.waiter.awaiting, (s.run (before ++ [a])).world.tickets.status d.ticket =
        (s.run before).world.tickets.status d.ticket := by
  have hu := undivided_create created
  have hbefore := undivided_run hu before
  have hattentive := attentive_run created before
  obtain ⟨notPolled, notCalled, notDropped⟩ := h.ne_number hu hne serves
  rw [run_snoc]
  refine ⟨waiting_stays hbefore hv notPolled notCalled notDropped, fun d hd => ?_⟩
  refine status_after hbefore (hattentive.issued v hv d hd) (fun e he hticket => ?_)
    (hattentive.kept hv hd notDropped)
  have hserves := serves_of_ticket created before hv hd he hticket
  exact h.not_concludes created fresh he (serves.unique hu hserves ▸ hne)

/-- A step on behalf of one origin disturbs no other. -/
theorem undisturbed (created : create settings w = .ok s) (h : s.OnBehalf before q a)
    (fresh : (s.run (before ++ [a])).world.Fresh) (hne : o ≠ q) :
    s.Undisturbed before a o := by
  have hu := undivided_create created
  have hfresh : (s.run before).world.Fresh := fresh.of_prefix (announced_append hu before [a])
  refine ⟨spares_after created h fresh hne, fun e he horigin => ?_, fun v hv serves => ?_⟩
  · exact asked_undisturbed created h hfresh hne he horigin
  · exact waiting_undisturbed created h hfresh hne hv serves

end Session

end OriginGate
