import OriginGate.Proofs.Calls
import OriginGate.Proofs.Decisions
import OriginGate.Proofs.Gating

/-!
# A call is replied to with its id

* `Slot.RespondsTo` : a call that waits, or its response, has an id to respond with, or none;
  `serveCall_responds`, `Serving.poll_responds` : serving a call does not change it;
* `Rpc.Call.RepliedBy` : what a request of one call may end with;
* `Session.Answered` : in a run such a request ends with nothing else, and an invalid call at once;
* `Session.replied_run` : what an object is read as, and what the request of that call ends with.
-/

namespace OriginGate

/-! ## The id of a call -/

/-- The response to a call has the id, or will have it; a call without one has no response. -/
def Slot.RespondsTo (id : Option Rpc.Id) (slot : Slot) : Prop :=
  match slot with
  | .done r => ∃ outcome, r = Serving.respond id outcome
  | .waiting c => c.id = id

namespace Serving

theorem awaitWallet_responds (id : Option Rpc.Id) (call : Rpc.MethodCall) (s : System) :
    Slot.RespondsTo id (awaitWallet id call s) := by
  unfold awaitWallet
  split
  · rfl
  · exact ⟨_, rfl⟩

theorem afterHandling_responds (id : Option Rpc.Id) (s : System)
    (p : Progress Handling Dispatch) : Slot.RespondsTo id (afterHandling id s p).2 := by
  cases p with
  | waiting h => rfl
  | done d =>
    cases d with
    | answered outcome => exact ⟨outcome, rfl⟩
    | passedOn call => exact awaitWallet_responds id call _

theorem poll_responds (c : Serving) (s : System) : Slot.RespondsTo c.id (c.poll s).2 := by
  unfold poll
  split
  · exact afterHandling_responds _ s _
  · exact awaitWallet_responds _ _ s

end Serving

theorem System.serveCall_responds (caller : Caller) (call : Rpc.Call) (s : System) :
    Slot.RespondsTo call.replyId? (s.serveCall caller call).2 := by
  cases call with
  | method c => exact Serving.afterHandling_responds _ _ _
  | notification n => exact Serving.afterHandling_responds _ _ _
  | invalid id => exact ⟨.failure .invalidRequest, rfl⟩

/-! ## Requests of one call -/

/-- The operation is the request of a call that is responded to with the id, or not at all. -/
def Waiter.RespondsTo (id : Option Rpc.Id) (w : Waiter) : Prop :=
  ∃ c, w = .request (.single c) ∧ c.id = id

/-- The reply to one call has the id; there is none to a call without one. -/
def Result.RespondsTo (id : Option Rpc.Id) (r : Result) : Prop :=
  ∃ outcome, r = .reply ((Serving.respond id outcome).map .single)

section

variable {id : Option Rpc.Id} {slot : Slot}

theorem Slot.RespondsTo.waiting (h : slot.RespondsTo id) {w : Waiter}
    (hw : ((Answering.ofSingle slot).map Result.reply).mapWaiting Waiter.request = .waiting w) :
    w.RespondsTo id := by
  cases slot with
  | done r => cases hw
  | waiting c => cases hw; exact ⟨c, rfl, h⟩

theorem Slot.RespondsTo.done (h : slot.RespondsTo id) {r : Result}
    (hr : ((Answering.ofSingle slot).map Result.reply).mapWaiting Waiter.request = .done r) :
    r.RespondsTo id := by
  cases slot with
  | done response =>
    obtain ⟨outcome, rfl⟩ := h
    cases hr
    exact ⟨outcome, rfl⟩
  | waiting c => cases hr

end

theorem Waiter.RespondsTo.takesUp {id : Option Rpc.Id} {w : Waiter} (h : w.RespondsTo id)
    {a : Action} {n : Nat} {s t : System} {p : Progress Waiter Result}
    (htakes : a.TakesUp n w s t p) :
    (∀ v, p = .waiting v → v.RespondsTo id) ∧ ∀ r, p = .done r → r.RespondsTo id := by
  obtain ⟨c, rfl, rfl⟩ := h
  rcases htakes with ⟨-, hpoll⟩ | ⟨i, -, hcall⟩
  · have hslot := c.poll_responds s
    have hp : ((Answering.ofSingle (c.poll s).2).map Result.reply).mapWaiting Waiter.request = p :=
      congrArg Prod.snd hpoll
    refine ⟨fun v hv => hslot.waiting (hp.trans hv), fun r hr => hslot.done (hp.trans hr)⟩
  · have hp : Progress.waiting (.request (.single c)) = p := congrArg Prod.snd hcall
    subst hp
    refine ⟨fun v hv => ?_, nofun⟩
    cases hv
    exact ⟨c, rfl, rfl⟩

namespace Session

variable {s : Session} {n : Nat} {id : Option Rpc.Id}

/-- The operation with a number, as long as it waits, is the request of a call with this id. -/
def Replying (n : Nat) (id : Option Rpc.Id) (s : Session) : Prop :=
  n ≤ s.begun ∧ ∀ w ∈ s.waiting, w.number = n → w.waiter.RespondsTo id

theorem Replying.run (h : s.Replying n id) (hs : s.Undivided) (actions : List Action) :
    (s.run actions).Replying n id :=
  Waits.run h hs (fun _ _ w _ _ hv htakes => (hv.takesUp htakes).1 w rfl) actions

theorem Replying.ended (h : s.Replying n id) (hs : s.Undivided) {a : Action} {r : Result}
    (hr : s.answers a = .ended n r) : r.RespondsTo id := by
  obtain ⟨v, t, hv, htakes⟩ := Waits.ended h hs hr
  exact (hv.takesUp htakes).2 r rfl

end Session

/-! ## What a call is replied to with -/

/-- What a request of one call may end with. -/
inductive Rpc.Call.RepliedBy : Rpc.Call → Result → Prop where
  | method {c : Rpc.MethodCall} {response : Rpc.Response} (id : response.id = some c.id) :
    RepliedBy (.method c) (.reply (some (.single response)))
  | notification {n : Rpc.Notification} : RepliedBy (.notification n) (.reply none)
  | invalid {i : Rpc.Id} {response : Rpc.Response} {error : Rpc.Error} (id : response.id = some i)
    (failure : response.outcome = .failure error) (code : error.code.code = -32600) :
    RepliedBy (.invalid i) (.reply (some (.single response)))

theorem Rpc.Call.repliedBy_invalidRequest (i : Rpc.Id) :
    (invalid i).RepliedBy (.reply (some (.single (.invalidRequest i)))) := .invalid rfl rfl rfl

/-- A method call or a notification is replied to by whatever has its id. -/
theorem Result.RespondsTo.repliedBy {call : Rpc.Call} {r : Result}
    (h : r.RespondsTo call.replyId?) (valid : ∀ i, call ≠ .invalid i) : call.RepliedBy r := by
  obtain ⟨outcome, rfl⟩ := h
  cases call with
  | method c => exact .method rfl
  | notification n => exact .notification
  | invalid i => exact absurd rfl (valid i)

namespace Session

variable {s : Session} {caller : Caller} {call : Rpc.Call}

/-- What becomes of the request of one call. -/
structure Answered (s : Session) (caller : Caller) (call : Rpc.Call) : Prop where
  atOnce : ∀ n r, s.answers (.start (.request caller (.single call))) = .ended n r →
    call.RepliedBy r
  /-- Whatever happens in between, it ends with nothing else later. -/
  later : ∀ actions a r,
    (s.run (.start (.request caller (.single call)) :: actions)).answers a =
      .ended (s.begun + 1) r → call.RepliedBy r
  /-- An invalid call ends at once, and only a number is used up. -/
  invalid : ∀ i, call = .invalid i →
    s.step (.start (.request caller (.single call))) =
      ({ s with begun := s.begun + 1 },
        .ended (s.begun + 1) (.reply (some (.single (.invalidRequest i)))))

/-- An invalid call reaches nothing: it is replied to as the system is. -/
theorem step_invalid (s : Session) (caller : Caller) (i : Rpc.Id) :
    s.step (.start (.request caller (.single (.invalid i)))) =
      ({ s with begun := s.begun + 1 },
        .ended (s.begun + 1) (.reply (some (.single (.invalidRequest i))))) := rfl

theorem replying_start (hs : s.Undivided) (hn : s.Numbered) (caller : Caller) (call : Rpc.Call) :
    (s.after (.start (.request caller (.single call)))).Replying (s.begun + 1) call.replyId? := by
  apply waits_start hs hn
  intro t w hbegin
  exact (System.serveCall_responds caller call s.system).waiting (congrArg Prod.snd hbegin)

theorem answered (hs : s.Undivided) (hn : s.Numbered) (caller : Caller) (call : Rpc.Call) :
    s.Answered caller call := by
  have hafter := undivided_after hs (.start (.request caller (.single call)))
  by_cases hinvalid : ∃ i, call = .invalid i
  · obtain ⟨i, rfl⟩ := hinvalid
    refine ⟨fun n r hr => ?_, fun actions a r hr => ?_, fun j hj => ?_⟩
    · rw [answers, step_invalid] at hr
      cases hr
      exact Rpc.Call.repliedBy_invalidRequest i
    · have hspent := spent_of_ended hs hn (congrArg Prod.snd (step_invalid s caller i))
      exact absurd hr (answers_spent (undivided_run hafter actions) (hspent.run hafter actions) a r)
    · cases hj
      exact step_invalid s caller i
  · have valid : ∀ i, call ≠ .invalid i := fun i hi => hinvalid ⟨i, hi⟩
    refine ⟨fun n r hr => ?_, fun actions a r hr => ?_, fun i hi => absurd hi (valid i)⟩
    · rw [answers_start] at hr
      split at hr
      · rename_i result hdone
        cases hr
        exact ((System.serveCall_responds caller call s.system).done hdone).repliedBy valid
      · cases hr
    · have hreplying := (replying_start hs hn caller call).run hafter actions
      exact (hreplying.ended (undivided_run hafter actions) hr).repliedBy valid

/-- In every run of a new session, an object is read as the kind of call that its members make it,
and the request of that call ends with nothing but the reply to it. -/
theorem replied_run {settings : Settings} {w : World} {s : Session}
    (created : create settings w = .ok s) (actions : List Action)
    {fields : List (String × Document)} (distinct : Document.Distinct fields) :
    Rpc.Call.Classified fields ∧
      ∀ call, Rpc.Call.ofDocument? (.obj fields) = some call →
        Rpc.Request.ofDocument? (.obj fields) = some (.single call) ∧
          ∀ caller, (s.run actions).Answered caller call := by
  have hu := undivided_create created
  have hn := numbered_create created
  refine ⟨Rpc.Call.classified distinct, fun call hcall => ⟨?_, fun caller => ?_⟩⟩
  · rw [Rpc.Request.ofDocument?, if_pos distinct.readable, hcall]
  · exact answered (undivided_run hu actions) (numbered_run hu hn actions) caller call

/-- An object with an id and without a version is an invalid call with that id. -/
theorem replied_run_invalid :
    ∃ s, create .signing (.initial []) = .ok s ∧
      Rpc.Call.ofDocument? (.obj [("method", .str "eth_sign"), ("id", .int 7)]) =
        some (.invalid (.number 7)) ∧
      s.Answered ⟨⟨"site"⟩, none⟩ (.invalid (.number 7)) := by
  have created : create .signing (.initial []) =
      .ok ⟨.signing, .initial [], ⟨Settings.signing.registry, true, .empty, .empty⟩, 0, [], [], 0,
        []⟩ := rfl
  have distinct : Document.Distinct [("method", .str "eth_sign"), ("id", .int 7)] :=
    ⟨rfl, by decide⟩
  have hcall : Rpc.Call.ofDocument? (.obj [("method", .str "eth_sign"), ("id", .int 7)]) =
      some (.invalid (.number 7)) := rfl
  exact ⟨_, created, hcall, ((replied_run created [] distinct).2 _ hcall).2 ⟨⟨"site"⟩, none⟩⟩

end Session

end OriginGate
