import OriginGate.Proofs.Batches
import OriginGate.Proofs.Gating
import OriginGate.Proofs.SeenAccounts

/-!
# What callers see of errors

* `PermissionError.Details` : the data of an error, which names the call that was refused;
* `PermissionError.Told` : code, message and data of the error object that a caller sees (`told`);
* `System.execute_details` : the error of an execution that is refused names this execution;
* `Gate.Relays` : a call that is sent to the wallet by a permission of its origin;
  `Serving.Relays`, `Waiter.Relays` : what waits with it and hands on the error of the wallet;
* `Operation.Calls` : the operations that make a call, and how they end by an error;
* `Session.PassesErrors` : an error of the wallet reaches the caller as it is, at once or later, and
  a refusal as its error object;
* `Session.failures_run` : that is so after every run.

The caveats of a permission look at values only, so no error meets them on its way back.
-/

namespace OriginGate

/-! ## Error objects -/

namespace PermissionError

/-- The data of an error: the call that was refused, and the caveat that refused it. -/
inductive Details : PermissionError → List (String × Json) → Prop where
  | unauthorized (o : Origin) (method : String) :
    Details (.unauthorized o method) [("method", .str method), ("origin", .str o.name)]
  | caveatRejected (o : Origin) (method : String) (kind : Caveat.Kind) (reason : Caveat.Refusal) :
    Details (.caveatRejected o method kind reason)
      [("caveat", .str kind.name), ("method", .str method), ("origin", .str o.name),
        ("reason", .str reason.message)]

/-- How an error is told to a caller. -/
structure Told (e : PermissionError) : Prop where
  code : e.toRpc.code = e.code
  /-- An error of the wallet stays as it is. -/
  provider : ∀ error, e = .provider error → e.toRpc = error
  message : (∀ error, e ≠ .provider error) → e.toRpc.message = e.message
  data : (∀ error, e ≠ .provider error) →
    ∀ j, e.toRpc.data = some j ↔ ∃ fields, e.Details fields ∧ j = .obj fields

theorem data_toRpc {e : PermissionError} (other : ∀ error, e ≠ .provider error) (j : Json) :
    e.toRpc.data = some j ↔ ∃ fields, e.Details fields ∧ j = .obj fields := by
  have hnone (undetailed : ∀ fields, ¬ e.Details fields) (none : e.toRpc.data = .none) :
      e.toRpc.data = some j ↔ ∃ fields, e.Details fields ∧ j = .obj fields := by
    rw [none]
    exact iff_of_false nofun fun ⟨fields, h, _⟩ => undetailed fields h
  cases e with
  | unauthorized o method =>
    refine ⟨fun h => ⟨_, .unauthorized o method, (Option.some.inj h).symm⟩, ?_⟩
    rintro ⟨_, ⟨⟩, rfl⟩
    rfl
  | caveatRejected o method kind reason =>
    refine ⟨fun h => ⟨_, .caveatRejected o method kind reason, (Option.some.inj h).symm⟩, ?_⟩
    rintro ⟨_, ⟨⟩, rfl⟩
    rfl
  | provider error => exact absurd rfl (other error)
  | _ => exact hnone nofun rfl

theorem told (e : PermissionError) : e.Told where
  code := by cases e <;> rfl
  provider := by
    rintro error rfl
    rfl
  message other := by
    cases e with
    | provider error => exact absurd rfl (other error)
    | _ => rfl
  data := data_toRpc

end PermissionError

/-! ## Executions -/

variable {s t : System} {o : Origin} {caller : Caller} {c sent : Rpc.MethodCall}
  {call : Rpc.Call} {e : PermissionError} {err : Rpc.Error}

/-- A call that is sent to the wallet by a permission of its origin, and what is sent. -/
structure Gate.Relays (g : Gate) (o : Origin) (c sent : Rpc.MethodCall) : Prop
    extends g.Permits o c sent where
  provider : g.registry.executor c.method = .provider

theorem Gate.Relays.congr (same : System.SameGrants s t) (h : s.gate.Relays o c sent) :
    t.gate.Relays o c sent := by
  refine ⟨h.toPermits.congr same, ?_⟩
  rw [same.registry]
  exact h.provider

/-- Nothing but the wallet makes an execution fail that was authorized. -/
theorem Executing.poll_error {x : Executing} (h : x.poll s = .done (.error e)) :
    ∃ err, e = .provider err := by
  rw [Executing.poll] at h
  split at h
  · cases h
  · have hresult : x.result s = .error e := Progress.done.inj h
    cases x with
    | accounts o p => cases hresult
    | call c p =>
      rw [Executing.result, Executing.rawResult] at hresult
      cases answer : s.world.wallet.answer c with
      | success value =>
        rw [answer] at hresult
        cases hresult
      | failure err =>
        rw [answer] at hresult
        cases hresult
        exact ⟨err, rfl⟩

namespace System

theorem execute_details {method : String} {params : Json} {fields : List (String × Json)}
    (h : s.execute o method params = (t, .done (.error e))) (details : e.Details fields) :
    ("origin", .str o.name) ∈ fields ∧ ("method", .str method) ∈ fields := by
  have hpolled : ∀ {x : Executing} {u : System},
      (u, x.poll u) = (t, .done (.error e)) → False := by
    intro x u hx
    obtain ⟨err, rfl⟩ := Executing.poll_error (congrArg Prod.snd hx)
    cases details
  rw [execute] at h
  split at h
  case h_1 refusal hauthorize =>
    cases h
    rw [Registry.authorize] at hauthorize
    split at hauthorize
    · split at hauthorize
      · cases hauthorize
        cases details
        simp
      · split at hauthorize
        · cases hauthorize
        · cases hauthorize
          cases details
          simp
    · cases hauthorize
  case h_2 =>
    split at h
    · exact (hpolled h).elim
    · exact (hpolled h).elim

/-- An error of the wallet ends an execution as it is, whatever the caveats are. -/
theorem poll_failure (free : s.world.wallet.busy = false)
    (answer : s.world.wallet.answer sent = .failure err) (p : Option Permission) :
    Executing.poll (.call sent p) s = .done (.error (.provider err)) := by
  rw [poll_free free, Executing.result, Executing.rawResult, answer]
  rfl

theorem handle_relays (h : s.gate.Relays caller.origin c sent) :
    ∃ p, s.handle caller c =
      (s.send sent, Handling.poll (.execution (.call sent p)) (s.send sent)) := by
  obtain ⟨p, params, hp, hparams, rfl, -⟩ := h.granted
  refine ⟨some p, ?_⟩
  have hauthorized : s.gate.registry.authorize s.gate.state caller.origin c.method c.params.json =
      .ok ⟨some p, params⟩ := by
    rw [Registry.authorize, if_pos h.restricted, hp]
    simp only [hparams]
  rw [handle, h.unserved]
  simp only [if_pos h.restricted, execute, hauthorized, h.provider]
  rfl

end System

/-! ## What waits for the wallet -/

/-- A call of a request that waits for the answer to what was sent, and is responded to with an
error of the wallet as it is. -/
structure Serving.Relays (x : Serving) (sent : Rpc.MethodCall) (id : Option Rpc.Id) : Prop where
  busy : ∀ u : System, u.world.wallet.busy = true → x.poll u = (u, .waiting x)
  failed : ∀ (u : System) (err : Rpc.Error), u.world.wallet.busy = false →
    u.world.wallet.answer sent = .failure err →
      x.poll u = (u, .done (Serving.respond id (.failure err)))

theorem Serving.relays_execution (id : Option Rpc.Id) (sent : Rpc.MethodCall)
    (p : Option Permission) :
    Serving.Relays ⟨id, .handling (.execution (.call sent p))⟩ sent id where
  busy u hu := by
    simp only [poll, Handling.poll, System.poll_busy hu]
    rfl
  failed u err free answer := by
    simp only [poll, Handling.poll, System.poll_failure free answer]
    rfl

theorem System.serveCall_relays {p : Option Permission} (hc : call.asMethodCall? = some c)
    (h : s.handle caller c =
      (s.send sent, Handling.poll (.execution (.call sent p)) (s.send sent))) :
    s.serveCall caller call =
      Serving.poll ⟨call.replyId?, .handling (.execution (.call sent p))⟩ (s.send sent) := by
  rw [serveCall_eq hc, beginCall, h]
  rfl

/-- An operation that waits for the answer to what was sent, and ends by an error of the wallet. -/
structure Waiter.Relays (w : Waiter) (sent : Rpc.MethodCall) (ended : Rpc.Error → Result) :
    Prop where
  busy : ∀ u : System, u.world.wallet.busy = true → w.poll u = (u, .waiting w)
  failed : ∀ (u : System) (err : Rpc.Error), u.world.wallet.busy = false →
    u.world.wallet.answer sent = .failure err → w.poll u = (u, .done (ended err))
  unbatched : ∀ slots, w ≠ .request (.batch slots)

/-- The operations of a caller that make a call, and how they end by an error. -/
inductive Operation.Calls (caller : Caller) (c : Rpc.MethodCall) :
    Operation → (Rpc.Error → Result) → Prop where
  | call : Calls caller c (.call caller c) fun err => .dispatch (.answered (.failure err))
  | request {call : Rpc.Call} (hc : call.asMethodCall? = some c) :
    Calls caller c (.request caller (.single call)) fun err =>
      .reply ((Serving.respond call.replyId? (.failure err)).map .single)

theorem Waiter.relays_call (sent : Rpc.MethodCall) (p : Option Permission) :
    Waiter.Relays (.call (.execution (.call sent p))) sent
      fun err => .dispatch (.answered (.failure err)) where
  busy u hu := by
    simp only [poll, Handling.poll, System.poll_busy hu]
    rfl
  failed u err free answer := by
    simp only [poll, Handling.poll, System.poll_failure free answer]
    rfl
  unbatched := nofun

theorem Waiter.relays_request {x : Serving} {id : Option Rpc.Id} (h : x.Relays sent id) :
    Waiter.Relays (.request (.single x)) sent
      fun err => .reply ((Serving.respond id (.failure err)).map .single) where
  busy u hu := by
    simp only [poll, Answering.poll, h.busy u hu]
    rfl
  failed u err free answer := by
    simp only [poll, Answering.poll, h.failed u err free answer]
    rfl
  unbatched := nofun

namespace Operation

variable {op : Operation} {ended : Rpc.Error → Result}

/-- A call that a permission lets through is sent, and its operation goes on as what waits with it
does. -/
theorem begin_relays (calls : op.Calls caller c ended) (h : s.gate.Relays caller.origin c sent) :
    ∃ w : Waiter, w.Relays sent ended ∧ op.begin s = w.poll (s.send sent) := by
  obtain ⟨p, hhandle⟩ := System.handle_relays h
  cases calls with
  | call =>
    refine ⟨_, Waiter.relays_call sent p, ?_⟩
    rw [begin, hhandle]
    rfl
  | @request call hc =>
    refine ⟨_, Waiter.relays_request (Serving.relays_execution call.replyId? sent p), ?_⟩
    rw [begin, System.answer, System.serveCall_relays hc hhandle]
    rfl

theorem begin_refused (calls : op.Calls caller c ended) (h : s.gate.Refuses caller.origin c e) :
    op.begin s = (s, .done (ended e.toRpc)) := by
  cases calls with
  | call =>
    rw [begin, System.handle_refused h]
    rfl
  | request hc =>
    rw [begin, System.answer, System.serveCall_answered hc (System.handle_refused h)]
    rfl

end Operation

/-! ## Batches -/

theorem System.Served.answering {may : Gate → Rpc.MethodCall → Prop} {as : List Awaiting}
    (h : Served o may s t as) :
    ∃ received, t.world.wallet = { s.world.wallet with received } := by
  cases h with
  | registered valid h =>
    obtain ⟨-, -, -, rfl⟩ := register_ok h
    exact ⟨s.world.wallet.received, rfl⟩
  | sent => exact ⟨_, rfl⟩
  | _ => exact ⟨s.world.wallet.received, rfl⟩

theorem System.ServedAll.answering {may : Gate → Rpc.MethodCall → Prop} {as : List Awaiting}
    (h : ServedAll o may s t as) :
    ∃ received, t.world.wallet = { s.world.wallet with received } := by
  induction h with
  | nil s => exact ⟨s.world.wallet.received, rfl⟩
  | cons first _ ih =>
    obtain ⟨received, hreceived⟩ := ih
    obtain ⟨earlier, hearlier⟩ := first.answering
    exact ⟨received, by rw [hreceived, hearlier]⟩

namespace Session

variable {s : Session} {calls before after : List Rpc.Call} {later : List Action} {a : Action}
  {n i : Nat}

theorem getElem?_courses_snoc (caller : Caller) (calls : List Rpc.Call) (later : List Action)
    (a : Action) (i : Nat) (s : Session) :
    (s.courses caller calls (later ++ [a]))[i]? =
      (s.courses caller calls later)[i]?.map fun slot : Slot =>
        if a.reaches (s.begun + 1) i then
          (slot.poll (s.run (.start (.request caller (.batch calls)) :: later)).system).2
        else slot := by
  rw [courses_snoc, Answering.taken, List.getElem?_mapIdx]

theorem courses_done {out : Option Rpc.Response}
    (h : (s.courses caller calls later)[i]? = some (.done out)) (rest : List Action) :
    (s.courses caller calls (later ++ rest))[i]? = some (.done out) := by
  induction rest using List.reverseRecOn with
  | nil => rwa [List.append_nil]
  | append_singleton earlier a ih =>
    rw [← List.append_assoc, getElem?_courses_snoc, ih, Option.map_some]
    split
    · rfl
    · rfl

theorem Collected.responds {r : Result} {outs : List (Option Rpc.Response)}
    {response : Rpc.Response} (h : s.Collected caller calls later r outs)
    (done : (s.courses caller calls later)[i]? = some (.done (some response))) :
    ∃ responses, r = .reply (some (.batch responses)) ∧ response ∈ responses := by
  rw [h.done, List.getElem?_map, Option.map_eq_some_iff] at done
  obtain ⟨out, hout, heq⟩ := done
  obtain rfl : out = some response := Progress.done.inj heq
  have hmem : response ∈ outs.filterMap id :=
    List.mem_filterMap.2 ⟨_, List.mem_of_getElem? hout, rfl⟩
  refine ⟨_, ?_, hmem⟩
  rw [h.reply, Answering.reply, if_neg]
  rw [List.isEmpty_iff]
  exact List.ne_nil_of_mem hmem

/-- A call of a batch that waits for its answer does so until it is done. -/
theorem courses_poll {x : Serving} {u : System}
    (begun : (s.courses caller calls [])[i]? = some (x.poll u).2) (later : List Action) :
    (s.courses caller calls later)[i]? = some (.waiting x) ∨
      ∃ out, (s.courses caller calls later)[i]? = some (.done out) := by
  have hpoll : ∀ u : System, some (x.poll u).2 = some (.waiting x) ∨
      ∃ out, some (x.poll u).2 = some (.done out) := by
    intro u
    rcases hslot : x.poll u with ⟨v, out | y⟩
    · exact .inr ⟨out, rfl⟩
    · rw [Serving.poll_waiting hslot]
      exact .inl rfl
  induction later using List.reverseRecOn with
  | nil =>
    rw [begun]
    exact hpoll u
  | append_singleton earlier a ih =>
    rcases ih with hwaits | ⟨out, hdone⟩
    · rw [getElem?_courses_snoc, hwaits, Option.map_some]
      split
      · exact hpoll _
      · exact .inl rfl
    · exact .inr ⟨out, courses_done hdone [a]⟩

theorem courses_begun {c : Rpc.MethodCall} (relays : s.gate.Relays caller.origin c sent)
    (before after : List Rpc.Call) :
    ∃ (x : Serving) (u : System), x.Relays sent (some c.id) ∧
      (∃ received, u.world.wallet = { s.world.wallet with received }) ∧
      (s.courses caller (before ++ .method c :: after) [])[before.length]? =
        some (x.poll u).2 := by
  have hserved := System.thread_serveCall caller before s.system
  obtain ⟨received, hwallet⟩ := hserved.answering
  obtain ⟨p, hhandle⟩ := System.handle_relays (relays.congr hserved.sameGrants)
  have hmethod : Rpc.Call.asMethodCall? (.method c) = some c := rfl
  have hcall := System.serveCall_relays hmethod hhandle
  generalize ht : (System.thread (System.serveCall caller) before s.system).1 = t at hwallet hcall
  refine ⟨_, t.send sent, Serving.relays_execution (some c.id) sent p,
    ⟨received ++ [sent], ?_⟩, ?_⟩
  · rw [System.send, hwallet]
    rfl
  · rw [courses_nil, System.thread_middle, ht, hcall]
    rfl

end Session

/-! ## Every run -/

namespace Session

variable {s : Session} {op : Operation} {ended : Rpc.Error → Result}

/-- How the calls of a caller end that the wallet fails, and those that the gate refuses. -/
structure PassesErrors (s : Session) : Prop where
  atOnce : ∀ {caller c sent op ended err}, Operation.Calls caller c op ended →
    s.gate.Relays caller.origin c sent → s.world.wallet.busy = false →
      s.world.wallet.answer sent = .failure err →
        s.answers (.start op) = .ended (s.begun + 1) (ended err)
  /-- For a busy wallet the caller waits. It sees the error that the wallet answers in the end, also
  if its permission is gone by then. -/
  later : ∀ {caller c sent op ended}, Operation.Calls caller c op ended →
    s.gate.Relays caller.origin c sent → s.world.wallet.busy = true →
      s.answers (.start op) = .waits (s.begun + 1) ∧
        ∀ later err, let t := s.run (.start op :: later)
          (t.suspended? (s.begun + 1)).isSome → t.world.wallet.busy = false →
            t.world.wallet.answer sent = .failure err →
              t.answers (.poll (s.begun + 1)) = .ended (s.begun + 1) (ended err)
  /-- In a batch the call has the same response, whenever the batch ends. -/
  batched : ∀ {caller c sent err}, s.gate.Relays caller.origin c sent →
    s.world.wallet.busy = false → s.world.wallet.answer sent = .failure err →
      ∀ {before after later r outs},
        s.Collected caller (before ++ .method c :: after) later r outs →
          ∃ responses, r = .reply (some (.batch responses)) ∧
            .create c.id (.failure err) ∈ responses
  /-- If it waits, it has this response when it is taken up and the wallet answers. -/
  batchedLater : ∀ {caller c sent}, s.gate.Relays caller.origin c sent →
    ∀ {before after early a x err}, let calls := before ++ .method c :: after
      let t := s.run (.start (.request caller (.batch calls)) :: early)
      (s.courses caller calls early)[before.length]? = some (.waiting x) →
        a.reaches (s.begun + 1) before.length = true → t.world.wallet.busy = false →
          t.world.wallet.answer sent = .failure err →
            ∀ {rest r outs}, s.Collected caller calls (early ++ a :: rest) r outs →
              ∃ responses, r = .reply (some (.batch responses)) ∧
                .create c.id (.failure err) ∈ responses
  /-- A call that the gate refuses ends at once; the data of its error names it. -/
  refused : ∀ {caller c e op ended}, Operation.Calls caller c op ended →
    s.gate.Refuses caller.origin c e →
      s.step (.start op) =
        ({ s with begun := s.begun + 1 }, .ended (s.begun + 1) (ended e.toRpc)) ∧
      ∃ fields, e.toRpc.data = some (.obj fields) ∧ e.Details fields ∧
        ("origin", .str caller.origin.name) ∈ fields ∧ ("method", .str c.method) ∈ fields
  /-- Also whoever executes a method is told which execution was refused. -/
  named : ∀ {o method params t e fields}, s.system.execute o method params = (t, .done (.error e)) →
    e.Details fields → ("origin", .str o.name) ∈ fields ∧ ("method", .str method) ∈ fields

/-- An operation that relays a call waits with the same until it ends. -/
theorem waits_relays (hs : s.Undivided) (hn : s.Numbered) {w : Waiter}
    (relays : w.Relays sent ended) (h : op.begin s.system = w.poll (s.system.send sent))
    (later : List Action) :
    (s.run (.start op :: later)).Waits (s.begun + 1) (· = w) := by
  refine waits_unbatched hs hn relays.unbatched (fun t v hbegin => ?_) later
  exact Waiter.poll_waiting relays.unbatched (h.symm.trans hbegin)

theorem passesErrors (hs : s.Undivided) (hn : s.Numbered) : s.PassesErrors := by
  refine ⟨?atOnce, ?later, ?batched, ?batchedLater, ?refused, System.execute_details⟩
  case atOnce =>
    intro caller c sent op ended err calls relays free answer
    obtain ⟨w, hw, hbegin⟩ := Operation.begin_relays (s := s.system) calls relays
    rw [answers_start, hbegin, hw.failed (s.system.send sent) err free answer]
  case later =>
    intro caller c sent op ended calls relays busy
    obtain ⟨w, hw, hbegin⟩ := Operation.begin_relays (s := s.system) calls relays
    refine ⟨?_, ?_⟩
    · rw [answers_start, hbegin, hw.busy (s.system.send sent) busy]
    · intro later err t hwaits free answer
      obtain ⟨v, hv⟩ := Option.isSome_iff_exists.1 hwaits
      obtain ⟨hmem, hnumber⟩ := mem_of_suspended? hv
      have hwaiter := (waits_relays hs hn hw hbegin later).2 v hmem hnumber
      rw [← hnumber]
      apply answers_done (undivided_run hs _) (numbered_run hs hn _) hmem
      rw [hwaiter, hw.failed t.system err free answer]
  case batched =>
    intro caller c sent err relays free answer before after later r outs collected
    obtain ⟨x, u, hx, ⟨received, hwallet⟩, hbegun⟩ := courses_begun relays before after
    have hfailed : x.poll u = (u, .done (some (.create c.id (.failure err)))) :=
      hx.failed u err (by rw [hwallet]; exact free) (by rw [hwallet]; exact answer)
    rw [hfailed] at hbegun
    exact collected.responds (courses_done hbegun later)
  case batchedLater =>
    intro caller c sent relays before after early a x err calls t waits reaches free answer rest r
      outs collected
    obtain ⟨y, u, hy, -, hbegun⟩ := courses_begun relays before after
    obtain rfl : y = x := by
      rcases courses_poll hbegun early with hwaits | ⟨out, hdone⟩
      · exact Progress.waiting.inj (Option.some.inj (hwaits.symm.trans waits))
      · cases hdone.symm.trans waits
    have hdone : (s.courses caller calls (early ++ [a]))[before.length]? =
        some (.done (some (.create c.id (.failure err)))) := by
      rw [getElem?_courses_snoc, waits, Option.map_some, if_pos reaches]
      exact congrArg (fun p => some p.2) (hy.failed t.system err free answer)
    rw [List.append_cons] at collected
    exact collected.responds (courses_done hdone rest)
  case refused =>
    intro caller c e op ended calls refuses
    refine ⟨step_unchanged (Operation.begin_refused calls refuses), ?_⟩
    have hexecute := System.execute_refused (s := s.system) refuses
    have hfields : ∃ fields, e.toRpc.data = some (.obj fields) ∧ e.Details fields := by
      cases refuses with
      | ungranted => exact ⟨_, rfl, .unauthorized _ _⟩
      | caveat => exact ⟨_, rfl, .caveatRejected _ _ _ _⟩
    obtain ⟨fields, hdata, details⟩ := hfields
    exact ⟨fields, hdata, details, System.execute_details hexecute details⟩

/-- Every error is told with its code and its text, and with data only if it refuses a call. After
every run of a new session, errors of the wallet reach their callers as they are, and callers that
are refused see which call was. -/
theorem failures_run {settings : Settings} {w : World} (created : create settings w = .ok s)
    (actions : List Action) :
    (∀ e : PermissionError, e.Told) ∧ (s.run actions).PassesErrors := by
  have hs := undivided_create created
  exact ⟨PermissionError.told,
    passesErrors (undivided_run hs actions) (numbered_run hs (numbered_create created) actions)⟩

/-- A call waits under a permission that limits results to one item. The permissions are cleared and
the wallet fails with two items as data, which stay. Another site is refused at once. -/
theorem failures_run_limited :
    ∃ s a c error, create .signing (.initial []) = .ok s ∧
      (s.run a).gate.Relays ⟨"site"⟩ c c ∧
      error.data = some (.arr [.null, .null]) ∧
      (s.run (a ++ [.start (.call ⟨⟨"site"⟩, none⟩ c), .command .clear,
        .event (.wallet [] (fun _ => .failure error) false)])).answers (.poll 3) =
          .ended 3 (.dispatch (.answered (.failure error))) ∧
      (s.run a).answers (.start (.call ⟨⟨"other"⟩, none⟩ c)) =
        .ended 3 (.dispatch (.answered (.failure
          (PermissionError.toRpc (.unauthorized ⟨"other"⟩ c.method))))) := by
  let s : Session :=
    ⟨.signing, .initial [], ⟨Settings.signing.registry, true, .empty, .empty⟩, 0, [], [], 0, []⟩
  let a : List Action := [.start (.requestPermissions ⟨"site"⟩ (.single "eth_sign")),
    .start (.approve ⟨⟨⟨0⟩⟩, SortedMap.empty.insert "eth_sign" ⟨[.limitLength 1]⟩⟩ []),
    .event (.wallet [] (fun _ => .failure .methodNotFound) true)]
  let c : Rpc.MethodCall := .create .null "eth_sign" .none
  let error : Rpc.Error := ⟨.serverError 1337, "gas", some (.arr [.null, .null])⟩
  have created : create .signing (.initial []) = .ok s := rfl
  have relays : (s.run a).gate.Relays ⟨"site"⟩ c c :=
    ⟨⟨by decide, by decide, _, _, rfl, rfl, rfl, fun _ => rfl⟩, by decide⟩
  have refuses : (s.run a).gate.Refuses ⟨"other"⟩ c (.unauthorized ⟨"other"⟩ c.method) :=
    .ungranted (by decide) (by decide) rfl
  obtain ⟨-, passes⟩ := failures_run created a
  obtain ⟨-, ends⟩ :=
    passes.later (.call : Operation.Calls ⟨⟨"site"⟩, none⟩ c (.call _ c) _) relays rfl
  obtain ⟨refused, -⟩ :=
    passes.refused (.call : Operation.Calls ⟨⟨"other"⟩, none⟩ c (.call _ c) _) refuses
  refine ⟨s, a, c, error, created, relays, rfl, ?_, congrArg Prod.snd refused⟩
  rw [run_append]
  exact ends [.command .clear, .event (.wallet [] (fun _ => .failure error) false)] error rfl rfl
    rfl

end Session

end OriginGate
