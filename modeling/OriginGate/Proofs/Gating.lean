import OriginGate.Proofs.Changes

/-!
# What reaches the wallet

* `Operation.Lets.congr` : what may be sent depends on the registry and the permissions alone;
* `Session.sent_step` : a step sends only what the operation that it begins may send;
* `Session.Sends` : a call that a step of a run sent, let through at that very step;
* `Gate.Refuses` : a restricted call without a permission, or one that a caveat refuses;
  `System.Declines` : a call is answered with an error and does nothing else (`declines_refused`);
* `Session.received_run` : both together, for every state that a session reaches.
-/

namespace OriginGate

/-! ## What is sent -/

section Sent
variable {s t : System} {o : Origin} {op : Operation} {c sent : Rpc.MethodCall}

theorem Gate.PassesOn.congr (h : System.SameGrants s t) (hc : s.gate.PassesOn c) :
    t.gate.PassesOn c := by
  refine ⟨hc.unserved, ?_⟩
  rw [h.registry]
  exact hc.unrestricted

theorem Gate.Permits.congr (h : System.SameGrants s t) (hc : s.gate.Permits o c sent) :
    t.gate.Permits o c sent := by
  obtain ⟨p, params, hp, hparams, hsent, hbare⟩ := hc.granted
  refine ⟨hc.unserved, ?_, p, params, ?_, hparams, hsent, hbare⟩
  · rw [h.registry]
    exact hc.restricted
  · rw [h.permission?]
    exact hp

theorem Registry.authorize_congr (h : System.SameGrants s t) (o : Origin) (method : String)
    (params : Json) :
    t.gate.registry.authorize t.gate.state o method params =
      s.gate.registry.authorize s.gate.state o method params := by
  rw [Registry.authorize, Registry.authorize, h.registry, h.permission?]

theorem Operation.Lets.congr (h : System.SameGrants s t) (hc : Operation.Lets s.gate op c) :
    Operation.Lets t.gate op c := by
  cases hc with
  | passedOn mem hc pass => exact .passedOn mem hc (pass.congr h)
  | permitted mem hc permits => exact .permitted mem hc (permits.congr h)
  | handled permits => exact .handled (permits.congr h)
  | executed authorized provider =>
    refine .executed ?_ ?_
    · rw [Registry.authorize_congr h]
      exact authorized
    · rw [h.registry]
      exact provider

end Sent

namespace System

theorem Served.received {o : Origin} {may : Gate → Rpc.MethodCall → Prop} {s t : System}
    {as : List Awaiting} (h : Served o may s t as) :
    ∃ sent, t.world.wallet.received = s.world.wallet.received ++ sent ∧
      ∀ c ∈ sent, may s.gate c := by
  cases h with
  | nothing => exact ⟨[], (List.append_nil _).symm, by simp⟩
  | registered valid h =>
    obtain ⟨-, -, -, rfl⟩ := register_ok h
    exact ⟨[], (List.append_nil _).symm, by simp⟩
  | recorded m => exact ⟨[], (List.append_nil _).symm, by simp⟩
  | reported e => exact ⟨[], (List.append_nil _).symm, by simp⟩
  | @sent call h =>
    refine ⟨[call], rfl, fun c hc => ?_⟩
    rw [List.mem_singleton.1 hc]
    exact h

theorem ServedAll.received {o : Origin} {op : Operation} {s t : System} {as : List Awaiting}
    (h : ServedAll o (fun g => Operation.Lets g op) s t as) :
    ∃ sent, t.world.wallet.received = s.world.wallet.received ++ sent ∧
      ∀ c ∈ sent, Operation.Lets s.gate op c := by
  induction h with
  | nil s => exact ⟨[], (List.append_nil _).symm, by simp⟩
  | cons first _ ih =>
    obtain ⟨sent, hsent, hlets⟩ := first.received
    obtain ⟨more, hmore, hrest⟩ := ih
    refine ⟨sent ++ more, ?_, fun c hc => ?_⟩
    · rw [hmore, hsent, List.append_assoc]
    · rcases List.mem_append.1 hc with hc | hc
      · exact hlets c hc
      · exact (hrest c hc).congr first.sameGrants.symm

end System

theorem Event.change_received (e : Event) (w : World) :
    (e.change w).wallet.received = w.wallet.received := by
  cases e <;> rfl

namespace Session

/-- A step sends only what the operation that it begins may send, and changes no grants then. -/
theorem sent_step {s : Session} (hs : s.Undivided) (a : Action) :
    ∃ sent, (s.after a).world.wallet.received = s.world.wallet.received ++ sent ∧
      ∀ c ∈ sent, ∃ op, a = .start op ∧ Operation.Lets s.gate op c ∧
        System.SameGrants s.system (s.after a).system := by
  have hsame : ∀ t : System, t.world.wallet.received = s.world.wallet.received →
      ∃ sent, t.world.wallet.received = s.world.wallet.received ++ sent ∧
        ∀ c ∈ sent, ∃ op, a = .start op ∧ Operation.Lets s.gate op c ∧
          System.SameGrants s.system t := by
    intro t ht
    exact ⟨[], by rw [ht, List.append_nil], by simp⟩
  have hchanged := changed_step hs a
  change ∃ sent, (s.after a).system.world.wallet.received = _ ++ sent ∧ _
  generalize (s.after a).system = t at hchanged ⊢
  cases hchanged with
  | same => exact hsame _ rfl
  | @served op o _ begun site h =>
    obtain ⟨sent, hsent, hlets⟩ := h.received
    exact ⟨sent, hsent, fun c hc => ⟨op, begun, hlets c hc, h.sameGrants⟩⟩
  | approved under ended h =>
    refine hsame _ ?_
    rw [h.steady.wallet]
    rfl
  | abandoned dropped hw =>
    refine hsame _ ?_
    rw [abandonAll_eq]
  | @commanded c given h =>
    refine hsame _ ?_
    rw [(System.steady_carryOut c s.system).wallet]
    rfl
  | @happened e given => exact hsame _ (e.change_received _)

/-- A call was sent in a run, by a step that began an operation and changed no grants; when that
step began, the gate let the call through. -/
def Sends (s : Session) (actions : List Action) (c : Rpc.MethodCall) : Prop :=
  ∃ before op later sent, actions = before ++ .start op :: later ∧
    (s.run (before ++ [.start op])).world.wallet.received =
      (s.run before).world.wallet.received ++ sent ∧ c ∈ sent ∧
    Operation.Lets (s.run before).gate op c ∧
    System.SameGrants (s.run before).system (s.run (before ++ [.start op])).system

theorem Sends.snoc {s : Session} {actions : List Action} {c : Rpc.MethodCall}
    (h : s.Sends actions c) (a : Action) : s.Sends (actions ++ [a]) c := by
  obtain ⟨before, op, later, sent, rfl, hrest⟩ := h
  refine ⟨before, op, later ++ [a], sent, ?_, hrest⟩
  rw [List.append_assoc, List.cons_append]

/-- Whatever the wallet received in a run was let through when it was sent. -/
theorem sent_run {s : Session} (hs : s.Undivided) (actions : List Action) :
    ∃ sent, (s.run actions).world.wallet.received = s.world.wallet.received ++ sent ∧
      ∀ c ∈ sent, s.Sends actions c := by
  induction actions using List.reverseRecOn with
  | nil => exact ⟨[], (List.append_nil _).symm, by simp⟩
  | append_singleton before a ih =>
    obtain ⟨earlier, hearlier, hsends⟩ := ih
    obtain ⟨sent, hsent, hlets⟩ := sent_step (undivided_run hs before) a
    rw [← run_snoc] at hsent
    refine ⟨earlier ++ sent, ?_, fun c hc => ?_⟩
    · rw [hsent, hearlier, List.append_assoc]
    · rcases List.mem_append.1 hc with hc | hc
      · exact (hsends c hc).snoc a
      · obtain ⟨op, rfl, hop, hsame⟩ := hlets c hc
        rw [← run_snoc] at hsame
        exact ⟨before, op, [], sent, rfl, hsent, hc, hop, hsame⟩

end Session

/-! ## What is refused -/

/-- The id with which a call is responded to. -/
def Rpc.Call.replyId? : Rpc.Call → Option Rpc.Id
  | .method c => some c.id
  | .notification _ => none
  | .invalid id => some id

/-- A restricted call that the gate refuses to an origin, and why. -/
inductive Gate.Refuses (g : Gate) (o : Origin) (c : Rpc.MethodCall) : PermissionError → Prop where
  | ungranted (unserved : WalletMethod.ofName? c.method = none)
    (restricted : g.registry.isRestricted c.method = true)
    (none : g.state.permission? o c.method = none) : Refuses g o c (.unauthorized o c.method)
  | caveat {p : Permission} {kind : Caveat.Kind} {reason : Caveat.Refusal}
    (unserved : WalletMethod.ofName? c.method = none)
    (restricted : g.registry.isRestricted c.method = true)
    (granted : g.state.permission? o c.method = some p)
    (refused : Caveats.onParams c.params.json p.caveats = .error (kind, reason)) :
    Refuses g o c (.caveatRejected o c.method kind reason)

theorem Gate.Refuses.congr {s t : System} {o : Origin} {c : Rpc.MethodCall} {e : PermissionError}
    (h : System.SameGrants s t) (hc : s.gate.Refuses o c e) : t.gate.Refuses o c e := by
  cases hc with
  | ungranted unserved restricted none =>
    rw [← h.registry] at restricted
    rw [← h.permission?] at none
    exact .ungranted unserved restricted none
  | caveat unserved restricted granted refused =>
    rw [← h.registry] at restricted
    rw [← h.permission?] at granted
    exact .caveat unserved restricted granted refused

namespace System

variable {s : System} {caller : Caller} {c : Rpc.MethodCall} {e : PermissionError}

theorem execute_refused (h : s.gate.Refuses caller.origin c e) :
    s.execute caller.origin c.method c.params.json = (s, .done (.error e)) := by
  unfold execute
  cases h with
  | ungranted unserved restricted none =>
    rw [Registry.authorize, if_pos restricted, none]
  | caveat unserved restricted granted refused =>
    rw [Registry.authorize, if_pos restricted, granted]
    simp only [refused]

theorem handle_refused (h : s.gate.Refuses caller.origin c e) :
    s.handle caller c = (s, .done (.answered (.failure e.toRpc))) := by
  have hunserved : WalletMethod.ofName? c.method = none := by cases h <;> assumption
  have hrestricted : s.gate.registry.isRestricted c.method = true := by cases h <;> assumption
  rw [handle, hunserved]
  simp only [if_pos hrestricted, execute_refused h]
  rfl

theorem serveCall_eq {call : Rpc.Call} (hc : call.asMethodCall? = some c) :
    s.serveCall caller call = s.beginCall caller call.replyId? c := by
  cases call with
  | method m =>
    cases hc
    rfl
  | notification n =>
    cases hc
    rfl
  | invalid id => cases hc

theorem serveCall_answered {call : Rpc.Call} {t : System} {outcome : Rpc.Outcome}
    (hc : call.asMethodCall? = some c) (h : s.handle caller c = (t, .done (.answered outcome))) :
    s.serveCall caller call = (t, .done (Serving.respond call.replyId? outcome)) := by
  rw [serveCall_eq hc, beginCall, h]
  rfl

theorem thread_append {α β : Type} (step : α → System → System × β) (l r : List α) (s : System) :
    thread step (l ++ r) s =
      ((thread step r (thread step l s).1).1,
        (thread step l s).2 ++ (thread step r (thread step l s).1).2) := by
  induction l generalizing s with
  | nil => rfl
  | cons a rest ih => simp only [List.cons_append, thread, ih]

theorem thread_length {α β : Type} (step : α → System → System × β) (l : List α)
    (s : System) : (thread step l s).2.length = l.length := by
  induction l generalizing s with
  | nil => rfl
  | cons a rest ih => exact congrArg (· + 1) (ih _)

theorem thread_middle {α β : Type} (step : α → System → System × β) (before after : List α)
    (a : α) (s : System) :
    (thread step (before ++ a :: after) s).2[before.length]? =
      some (step a (thread step before s).1).2 := by
  rw [thread_append, List.getElem?_append_right (Nat.le_of_eq (thread_length _ _ _)),
    thread_length, Nat.sub_self]
  rfl

theorem thread_serveCall (caller : Caller) (l : List Rpc.Call) (s : System) :
    ServedAll caller.origin (fun _ _ => True) s (thread (serveCall caller) l s).1
      ((thread (serveCall caller) l s).2.flatMap (Progress.awaiting Serving.awaiting)) :=
  thread_served l s fun call _ _ =>
    serveCall_served caller call (fun _ _ _ => trivial) fun _ _ _ _ => trivial

/-- A call is answered with an error and does nothing else, alone and anywhere in a batch. -/
structure Declines (s : System) (caller : Caller) (call : Rpc.Call) (e : PermissionError) :
    Prop where
  alone : s.answer caller (.single call) =
    (s, .done ((Serving.respond call.replyId? (.failure e.toRpc)).map .single))
  /-- Its slot in a batch is filled at once, and the system stays as earlier calls left it. -/
  within : ∀ l, (thread (serveCall caller) l s).1.serveCall caller call =
    ((thread (serveCall caller) l s).1, .done (Serving.respond call.replyId? (.failure e.toRpc)))
  /-- A batch does the same with the call as without it. -/
  batch : ∀ l r, (s.answer caller (.batch (l ++ call :: r))).1 =
    (s.answer caller (.batch (l ++ r))).1

/-- A call that is answered with an error whatever calls of the batch came before is declined. -/
theorem declines_of_within {call : Rpc.Call}
    (h : ∀ l, (thread (serveCall caller) l s).1.serveCall caller call =
      ((thread (serveCall caller) l s).1,
        .done (Serving.respond call.replyId? (.failure e.toRpc)))) :
    s.Declines caller call e := by
  have halone : s.serveCall caller call = _ := h []
  refine ⟨?_, h, fun l r => ?_⟩
  · rw [answer, halone]
    rfl
  · have hcall := h l
    simp only [answer, thread_append, thread, hcall]

theorem declines_refused {call : Rpc.Call} (hc : call.asMethodCall? = some c)
    (h : s.gate.Refuses caller.origin c e) : s.Declines caller call e := by
  refine declines_of_within fun l => serveCall_answered hc (handle_refused ?_)
  exact h.congr (thread_serveCall caller l s).sameGrants

end System

/-! ## Every run -/

theorem Session.step_unchanged {s : Session} {op : Operation} {r : Result}
    (h : op.begin s.system = (s.system, .done r)) :
    s.step (.start op) = ({ s with begun := s.begun + 1 }, .ended (s.begun + 1) r) := by
  rw [step_ended h]
  rfl

/-- A request of one call that is declined ends at once; only its number is used up. -/
theorem Session.after_declined {s : Session} {caller : Caller} {call : Rpc.Call}
    {e : PermissionError} (h : s.system.Declines caller call e) :
    s.step (.start (.request caller (.single call))) =
      ({ s with begun := s.begun + 1 },
        .ended (s.begun + 1)
          (.reply ((Serving.respond call.replyId? (.failure e.toRpc)).map .single))) := by
  apply step_unchanged
  rw [Operation.begin, h.alone]
  rfl

/-- In every run of a new session, each call that the wallet receives was let through when it was
sent, and a restricted call that is refused reaches no wallet and changes nothing. -/
theorem Session.received_run {settings : Settings} {w : World} {s : Session}
    (created : Session.create settings w = .ok s) (actions : List Action) :
    (∃ sent, (s.run actions).world.wallet.received = w.wallet.received ++ sent ∧
      ∀ c ∈ sent, s.Sends actions c) ∧
    ∀ (caller : Caller) (call : Rpc.Call) (c : Rpc.MethodCall) (e : PermissionError),
      call.asMethodCall? = some c → (s.run actions).gate.Refuses caller.origin c e →
        (s.run actions).system.Declines caller call e ∧
        (s.run actions).after (.start (.request caller (.single call))) =
          { s.run actions with begun := (s.run actions).begun + 1 } := by
  constructor
  · have hsent := sent_run (undivided_create created) actions
    obtain ⟨store, -, rfl⟩ := create_eq created
    exact hsent
  · intro caller call c e hc refused
    have hdeclines : (s.run actions).system.Declines caller call e :=
      System.declines_refused hc refused
    refine ⟨hdeclines, ?_⟩
    rw [after, after_declined hdeclines]

/-- Of a batch of two calls by a site without permissions, the one to a method that is not
restricted is sent as it is, and the other is refused. -/
theorem Session.received_run_batch :
    ∃ s, Session.create .signing (.initial []) = .ok s ∧
      s.Sends [.start (.request ⟨⟨"site"⟩, none⟩ (.batch
        [.method (.create .null "net_version" .none), .notification ⟨none, "eth_sign", .none⟩]))]
          (.create .null "net_version" .none) ∧
      s.system.Declines ⟨⟨"site"⟩, none⟩ (.notification ⟨none, "eth_sign", .none⟩)
        (.unauthorized ⟨"site"⟩ "eth_sign") := by
  have created : Session.create .signing (.initial []) =
      .ok ⟨.signing, .initial [], ⟨Settings.signing.registry, true, .empty, .empty⟩, 0, [], [], 0,
        []⟩ := rfl
  refine ⟨_, created, ?_, ?_⟩
  · obtain ⟨⟨sent, hsent, hsends⟩, -⟩ := received_run created
      [.start (.request ⟨⟨"site"⟩, none⟩ (.batch
        [.method (.create .null "net_version" .none), .notification ⟨none, "eth_sign", .none⟩]))]
    have hreceived : [Rpc.MethodCall.create .null "net_version" .none] = [] ++ sent := hsent
    rw [List.nil_append] at hreceived
    apply hsends
    rw [← hreceived]
    exact List.mem_singleton_self _
  · have hrefuses : (⟨Settings.signing.registry, true, .empty, .empty⟩ : Gate).Refuses ⟨"site"⟩
        (.create .null "eth_sign" .none) (.unauthorized ⟨"site"⟩ "eth_sign") :=
      .ungranted (by decide) (by decide) rfl
    exact ((received_run created []).2 ⟨⟨"site"⟩, none⟩
      (.notification ⟨none, "eth_sign", .none⟩) _ _ rfl hrefuses).1

end OriginGate
