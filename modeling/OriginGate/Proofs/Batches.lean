import OriginGate.Proofs.Replies

/-!
# Batches

* `Action.reaches` : the actions that take up a call of a waiting batch; `Slot.course` : how a call
  stands after some actions; `Session.courses` : so all calls of a batch;
* `Session.waits_batch` : a batch waits with the courses of its calls;
* `Rpc.Call.Gives` : what a call contributes to the responses; `Session.Collected` : the reply to a
  batch whose calls are done;
* `Session.OneByOne` : calls that are made one after another, each of which ends at once;
* `Session.batched_run` : what a batch ends with, and that one whose calls end at once does the same
  as these one after another.

What the others do in between decides when a call of a batch is done, and never where its response
stands.
-/

namespace OriginGate

/-! ## The course of a call -/

/-- Whether an action takes up the call at a place of the batch with a number. -/
def Action.reaches (n i : Nat) : Action → Bool
  | .poll m => m = n
  | .pollCall m j => m = n && j = i
  | _ => false

theorem Action.reaches_eq_false {a : Action} {n : Nat} (notPolled : a ≠ .poll n)
    (notCalled : ∀ i, a ≠ .pollCall n i) (i : Nat) : a.reaches n i = false := by
  cases a with
  | poll m =>
    apply decide_eq_false
    rintro rfl
    exact notPolled rfl
  | pollCall m j =>
    have hm : m ≠ n := by
      rintro rfl
      exact notCalled j rfl
    simp [reaches, hm]
  | _ => rfl

namespace Slot

/-- How a call of a batch stands after some actions. -/
def course (n i : Nat) : List Action → Session → Slot → Slot
  | [], _, slot => slot
  | a :: later, s, slot =>
    course n i later (s.after a) (if a.reaches n i then (slot.poll s.system).2 else slot)

theorem course_snoc (n i : Nat) (later : List Action) (a : Action) (s : Session) (slot : Slot) :
    course n i (later ++ [a]) s slot =
      if a.reaches n i then ((course n i later s slot).poll (s.run later).system).2
      else course n i later s slot := by
  induction later generalizing s slot with
  | nil => rfl
  | cons b rest ih => exact ih _ _

/-- What every poll keeps holds of the whole course. -/
theorem course_induction {P : Slot → Prop} (kept : ∀ slot s, P slot → P (Slot.poll slot s).2)
    {n i : Nat} {later : List Action} {s : Session} {slot : Slot} (h : P slot) :
    P (course n i later s slot) := by
  induction later generalizing s slot with
  | nil => exact h
  | cons a rest ih =>
    apply ih
    split
    · exact kept slot _ h
    · exact h

theorem thread_poll_eq (slots : List Slot) (s : System) :
    System.thread Slot.poll slots s = (s, slots.map fun slot : Slot => (slot.poll s).2) := by
  induction slots with
  | nil => rfl
  | cons slot rest ih =>
    have hsystem := poll_system slot s
    simp only [System.thread, hsystem, ih, List.map_cons]

end Slot

namespace Answering

/-- The calls of a batch after an action. -/
def taken (n : Nat) (a : Action) (s : System) (slots : List Slot) : List Slot :=
  slots.mapIdx fun i slot => if a.reaches n i then (Slot.poll slot s).2 else slot

theorem taken_poll (n : Nat) (s : System) (slots : List Slot) :
    taken n (.poll n) s slots = slots.map fun slot : Slot => (slot.poll s).2 := by
  ext1 j
  rw [taken, List.getElem?_mapIdx, List.getElem?_map]
  simp only [Action.reaches, decide_true, if_true]

theorem taken_call {n i : Nat} {slots : List Slot} {slot : Slot} (h : slots[i]? = some slot)
    (s : System) : taken n (.pollCall n i) s slots = slots.set i (slot.poll s).2 := by
  obtain ⟨hi, rfl⟩ := List.getElem?_eq_some_iff.1 h
  ext1 j
  rw [taken, List.getElem?_mapIdx, List.getElem?_set]
  by_cases hj : i = j
  · subst hj
    simp [Action.reaches, hi]
  · simp [Action.reaches, hj]

theorem taken_unreached {n : Nat} {a : Action} {slots : List Slot}
    (h : ∀ i, i < slots.length → a.reaches n i = false) (s : System) :
    taken n a s slots = slots := by
  ext1 j
  rw [taken, List.getElem?_mapIdx]
  by_cases hj : j < slots.length
  · simp [h j hj]
  · rw [List.getElem?_eq_none (Nat.le_of_not_lt hj)]
    rfl

theorem ofSlots_cases (slots : List Slot) :
    (∃ outs : List (Option Rpc.Response), slots = outs.map .done ∧
        ofSlots slots = .done (reply (outs.filterMap id))) ∨
      ofSlots slots = .waiting (.batch slots) := by
  unfold ofSlots responses?
  cases h : slots.mapM (fun slot : Slot => slot.done?) with
  | none => exact .inr rfl
  | some outs => exact .inl ⟨outs, mapM_done?.1 h, rfl⟩

theorem ofSlots_done (outs : List (Option Rpc.Response)) :
    ofSlots (outs.map .done) = .done (reply (outs.filterMap id)) := by
  unfold ofSlots responses?
  rw [mapM_done?.2 rfl]
  rfl

end Answering

theorem Waiter.takesUp_batch {a : Action} {n : Nat} {slots : List Slot} {s t : System}
    {p : Progress Waiter Result} (h : a.TakesUp n (.request (.batch slots)) s t p) :
    p = ((Answering.ofSlots (Answering.taken n a s slots)).map Result.reply).mapWaiting .request ∨
      (Answering.taken n a s slots = slots ∧ p = .waiting (.request (.batch slots))) := by
  rcases h with ⟨rfl, hpoll⟩ | ⟨i, rfl, hcall⟩
  · have hp := congrArg Prod.snd hpoll
    rw [Waiter.poll, Answering.poll, Slot.thread_poll_eq] at hp
    rw [Answering.taken_poll]
    exact .inl hp.symm
  · have hp := congrArg Prod.snd hcall
    rw [Waiter.pollCall, Answering.pollCall] at hp
    -- A batch has no call at a place beyond its last one; taking that up changes nothing.
    rcases hslot : slots[i]? with _ | slot
    · rw [hslot] at hp
      have hbeyond : slots.length ≤ i := List.getElem?_eq_none_iff.1 hslot
      refine .inr ⟨Answering.taken_unreached (fun j hj => ?_) s, hp.symm⟩
      simp [Action.reaches]
      omega
    · rw [hslot] at hp
      rw [Answering.taken_call hslot]
      exact .inl hp.symm

/-- A batch waits with calls that are not all done. -/
structure Waiter.Collects (slots : List Slot) (w : Waiter) : Prop where
  eq : w = .request (.batch slots)
  undone : ∀ outs : List (Option Rpc.Response), slots ≠ outs.map .done

theorem Waiter.collects_of_waiting {slots : List Slot} {w : Waiter}
    (h : ((Answering.ofSlots slots).map Result.reply).mapWaiting Waiter.request = .waiting w) :
    w.Collects slots := by
  rcases Answering.ofSlots_cases slots with ⟨outs, -, hdone⟩ | hwaits
  · rw [hdone] at h
    cases h
  · have undone : ∀ outs : List (Option Rpc.Response), slots ≠ outs.map .done := by
      rintro outs rfl
      rw [Answering.ofSlots_done] at hwaits
      cases hwaits
    rw [hwaits] at h
    cases h
    exact ⟨rfl, undone⟩

/-! ## The calls of a batch -/

namespace Rpc.Call

/-- What a call of a batch contributes to the responses. -/
inductive Gives : Call → Option Response → Prop where
  | method {c : MethodCall} {response : Response} (id : response.id = some c.id) :
    Gives (.method c) (some response)
  | notification {n : Notification} : Gives (.notification n) none
  | invalid {i : Id} : Gives (.invalid i) (some (.invalidRequest i))

/-- How a call of a batch can stand: it has its id, and one that is invalid is done. -/
structure Owns (call : Call) (slot : Slot) : Prop where
  responds : slot.RespondsTo call.replyId?
  invalid : ∀ i, call = .invalid i → slot = .done (some (.invalidRequest i))

theorem owns_serveCall (caller : Caller) (call : Call) (s : System) :
    call.Owns (s.serveCall caller call).2 := by
  refine ⟨System.serveCall_responds caller call s, ?_⟩
  rintro i rfl
  rfl

theorem Owns.poll {call : Call} (slot : Slot) (s : System) (h : call.Owns slot) :
    call.Owns (slot.poll s).2 := by
  cases slot with
  | done out => exact h
  | waiting c =>
    refine ⟨?_, ?_⟩
    · have hresponds := c.poll_responds s
      rw [show c.id = call.replyId? from h.responds] at hresponds
      exact hresponds
    · intro i hi
      cases h.invalid i hi

theorem Owns.gives {call : Call} {out : Option Response} (h : call.Owns (.done out)) :
    call.Gives out := by
  obtain ⟨outcome, hout⟩ := h.responds
  cases call with
  | method c =>
    rw [hout]
    exact .method rfl
  | notification n =>
    rw [hout]
    exact .notification
  | invalid i =>
    cases h.invalid i rfl
    exact .invalid

end Rpc.Call

/-- Nothing is replied exactly to a batch of notifications. -/
theorem Answering.reply_eq_none {calls : List Rpc.Call} {outs : List (Option Rpc.Response)}
    (h : List.Forall₂ Rpc.Call.Gives calls outs) :
    reply (outs.filterMap id) = none ↔ ∀ call ∈ calls, ∃ n, call = .notification n := by
  have hempty : reply (outs.filterMap id) = none ↔ outs.filterMap id = [] := by
    unfold reply
    split
    · rename_i hnil
      exact iff_of_true rfl (List.isEmpty_iff.1 hnil)
    · rename_i hsome
      exact iff_of_false nofun fun hnil => hsome (List.isEmpty_iff.2 hnil)
  rw [hempty]
  clear hempty
  induction h with
  | nil => simp
  | cons first _ ih =>
    cases first with
    | method _ => simp
    | notification => simpa using ih
    | invalid => simp

namespace Session

variable {s t : Session} {caller : Caller} {calls : List Rpc.Call}

/-- How the calls of a batch stand that was begun, and after which some actions happened. Each call
is begun on the system that those before it leave. -/
def courses (caller : Caller) (calls : List Rpc.Call) (later : List Action) (s : Session) :
    List Slot :=
  (System.thread (System.serveCall caller) calls s.system).2.mapIdx fun i slot =>
    Slot.course (s.begun + 1) i later (s.after (.start (.request caller (.batch calls)))) slot

theorem courses_nil (caller : Caller) (calls : List Rpc.Call) (s : Session) :
    s.courses caller calls [] = (System.thread (System.serveCall caller) calls s.system).2 := by
  ext1 j
  rw [courses, List.getElem?_mapIdx]
  exact Option.map_id'

theorem courses_snoc (caller : Caller) (calls : List Rpc.Call) (later : List Action) (a : Action)
    (s : Session) :
    s.courses caller calls (later ++ [a]) = Answering.taken (s.begun + 1) a
      (s.run (.start (.request caller (.batch calls)) :: later)).system
      (s.courses caller calls later) := by
  rw [courses, courses, Answering.taken, List.mapIdx_mapIdx]
  congr 1
  funext i slot
  exact Slot.course_snoc _ _ _ _ _ _

theorem owns_thread (caller : Caller) (calls : List Rpc.Call) (s : System) :
    List.Forall₂ Rpc.Call.Owns calls (System.thread (System.serveCall caller) calls s).2 := by
  induction calls generalizing s with
  | nil => exact .nil
  | cons call rest ih => exact .cons (Rpc.Call.owns_serveCall caller call s) (ih _)

theorem forall₂_mapIdx {α β : Type} {R : α → β → Prop} {as : List α} {bs : List β}
    (h : List.Forall₂ R as bs) {f : Nat → β → β} (hf : ∀ a i b, R a b → R a (f i b)) :
    List.Forall₂ R as (bs.mapIdx f) := by
  induction h generalizing f with
  | nil => exact .nil
  | cons first _ ih =>
    rw [List.mapIdx_cons]
    exact .cons (hf _ _ _ first) (ih fun a i b => hf a (i + 1) b)

/-- Every call stands at its place, and has its id. -/
theorem owns_courses (caller : Caller) (calls : List Rpc.Call) (later : List Action) (s : Session) :
    List.Forall₂ Rpc.Call.Owns calls (s.courses caller calls later) := by
  apply forall₂_mapIdx (owns_thread caller calls s.system)
  intro call i slot h
  exact Slot.course_induction (fun slot s => Rpc.Call.Owns.poll slot s) h

/-- What a batch ends with, given what its calls gave. -/
structure Collected (s : Session) (caller : Caller) (calls : List Rpc.Call) (later : List Action)
    (r : Result) (outs : List (Option Rpc.Response)) : Prop where
  /-- Every call is done. -/
  done : s.courses caller calls later = outs.map .done
  gives : List.Forall₂ Rpc.Call.Gives calls outs
  /-- The responses stand in the order of the calls. -/
  reply : r = .reply (Answering.reply (outs.filterMap id))
  silent : r = .reply none ↔ ∀ call ∈ calls, ∃ n, call = .notification n

theorem collected {later : List Action} {r : Result}
    (h : ((Answering.ofSlots (s.courses caller calls later)).map Result.reply).mapWaiting
      Waiter.request = .done r) : ∃ outs, s.Collected caller calls later r outs := by
  rcases Answering.ofSlots_cases (s.courses caller calls later) with ⟨outs, hslots, hdone⟩ | hwaits
  · have gives : List.Forall₂ Rpc.Call.Gives calls outs := by
      have howns := owns_courses caller calls later s
      rw [hslots, List.forall₂_map_right_iff] at howns
      exact howns.imp fun _ _ => Rpc.Call.Owns.gives
    rw [hdone] at h
    cases h
    refine ⟨outs, hslots, gives, rfl, ?_⟩
    rw [Result.reply.injEq]
    exact Answering.reply_eq_none gives
  · rw [hwaits] at h
    cases h

/-- As long as a batch waits, it does so with the courses of its calls. -/
theorem waits_batch (hs : s.Undivided) (hn : s.Numbered) (caller : Caller) (calls : List Rpc.Call)
    (later : List Action) :
    (s.run (.start (.request caller (.batch calls)) :: later)).Waits (s.begun + 1)
      (Waiter.Collects (s.courses caller calls later)) := by
  -- From the end of the run: the courses before its last action are what that action takes up.
  induction later using List.reverseRecOn with
  | nil =>
    apply waits_start hs hn
    intro t w hbegin
    rw [courses_nil]
    exact Waiter.collects_of_waiting (congrArg Prod.snd hbegin)
  | append_singleton before a ih =>
    rw [← List.cons_append, run_snoc, courses_snoc]
    apply ih.after (undivided_run hs _)
    · intro notPolled notCalled w hw
      rw [Answering.taken_unreached fun i _ => Action.reaches_eq_false notPolled notCalled i]
      exact hw
    · intro v w t hv htakes
      rw [hv.eq] at htakes
      rcases Waiter.takesUp_batch htakes with hp | ⟨htaken, hp⟩
      · exact Waiter.collects_of_waiting hp.symm
      · rw [htaken]
        exact ⟨Progress.waiting.inj hp, hv.undone⟩

theorem collected_atOnce {n : Nat} {r : Result}
    (h : s.answers (.start (.request caller (.batch calls))) = .ended n r) :
    ∃ outs, s.Collected caller calls [] r outs := by
  rw [answers_start] at h
  split at h
  · rename_i result hdone
    cases h
    apply collected
    rw [courses_nil]
    exact hdone
  · cases h

theorem collected_later (hs : s.Undivided) (hn : s.Numbered) {later : List Action} {a : Action}
    {r : Result} (h : (s.run (.start (.request caller (.batch calls)) :: later)).answers a =
      .ended (s.begun + 1) r) : ∃ outs, s.Collected caller calls (later ++ [a]) r outs := by
  obtain ⟨v, t, hv, htakes⟩ := (waits_batch hs hn caller calls later).ended (undivided_run hs _) h
  rw [hv.eq] at htakes
  rcases Waiter.takesUp_batch htakes with hp | ⟨-, hp⟩
  · apply collected
    rw [courses_snoc]
    exact hp.symm
  · cases hp

/-! ## One call after another -/

/-- Calls are made one after another, each alone, and each ends at once with its reply. -/
inductive OneByOne (caller : Caller) :
    Session → List Rpc.Call → List Rpc.Response → Session → Prop where
  | nil {s : Session} : OneByOne caller s [] [] s
  | cons {s t : Session} {call : Rpc.Call} {calls : List Rpc.Call} {n : Nat}
    {response : Option Rpc.Response} {responses : List Rpc.Response}
    (first : s.answers (.start (.request caller (.single call))) =
      .ended n (.reply (response.map .single)))
    (next : OneByOne caller (s.after (.start (.request caller (.single call)))) calls responses t) :
    OneByOne caller s (call :: calls) (response.toList ++ responses) t

/-- A call that ends at once when made alone is done as soon as it is begun in a batch. -/
theorem serveCall_of_ended {call : Rpc.Call} {n : Nat} {response : Option Rpc.Response}
    (h : s.answers (.start (.request caller (.single call))) =
      .ended n (.reply (response.map .single))) :
    s.system.serveCall caller call =
      ((s.after (.start (.request caller (.single call)))).system, .done response) := by
  have hsystem : (s.after (.start (.request caller (.single call)))).system =
      (s.system.serveCall caller call).1 := start_system _ s
  rw [hsystem]
  rw [answers_start] at h
  have hbegin : ((Operation.request caller (.single call)).begin s.system).2 =
      ((Answering.ofSingle (s.system.serveCall caller call).2).map Result.reply).mapWaiting
        Waiter.request := rfl
  rw [hbegin] at h
  rcases hslot : (s.system.serveCall caller call).2 with out | c
  · rw [hslot] at h
    have hout : out.map Rpc.Reply.single = response.map .single := by
      injection h with _ hr
      injection hr
    have hinjective : Function.Injective Rpc.Reply.single := fun _ _ => Rpc.Reply.single.inj
    rw [← Option.map_injective hinjective hout, ← hslot]
  · rw [hslot] at h
    cases h

theorem OneByOne.thread {responses : List Rpc.Response} (h : OneByOne caller s calls responses t) :
    ∃ outs : List (Option Rpc.Response), responses = outs.filterMap id ∧
      System.thread (System.serveCall caller) calls s.system = (t.system, outs.map .done) := by
  induction h with
  | nil => exact ⟨[], rfl, rfl⟩
  | @cons s t call calls n response responses first next ih =>
    obtain ⟨outs, hresponses, hthread⟩ := ih
    refine ⟨response :: outs, ?_, ?_⟩
    · cases response <;> simp [hresponses]
    · rw [System.thread, serveCall_of_ended first]
      simp only [hthread, List.map_cons]

/-- A batch of calls that end at once one after another ends at once with their responses, and leaves
the system as they do. -/
theorem OneByOne.batch {responses : List Rpc.Response} (h : OneByOne caller s calls responses t) :
    s.answers (.start (.request caller (.batch calls))) =
        .ended (s.begun + 1) (.reply (Answering.reply responses)) ∧
      (s.after (.start (.request caller (.batch calls)))).system = t.system := by
  obtain ⟨outs, rfl, hthread⟩ := h.thread
  -- No call of the batch waits, so that beginning them is all there is to do.
  have hbegin : (Operation.request caller (.batch calls)).begin s.system =
      (t.system, .done (.reply (Answering.reply (outs.filterMap id)))) := by
    simp only [Operation.begin, System.answer, hthread, Answering.ofSlots_done]
    rfl
  rw [answers_start, start_system, hbegin]
  exact ⟨rfl, rfl⟩

/-! ## Every run -/

/-- What becomes of a batch. -/
structure Batched (s : Session) (caller : Caller) (calls : List Rpc.Call) : Prop where
  atOnce : ∀ n r, s.answers (.start (.request caller (.batch calls))) = .ended n r →
    ∃ outs, s.Collected caller calls [] r outs
  /-- Whatever happens in between, it ends with what its calls gave. -/
  later : ∀ later a r, (s.run (.start (.request caller (.batch calls)) :: later)).answers a =
    .ended (s.begun + 1) r → ∃ outs, s.Collected caller calls (later ++ [a]) r outs
  /-- It waits no longer than its calls. -/
  waits : ∀ later, ((s.run (.start (.request caller (.batch calls)) :: later)).suspended?
    (s.begun + 1)).isSome → ∀ outs : List (Option Rpc.Response),
      s.courses caller calls later ≠ outs.map .done
  /-- If its calls can be made one after another without waiting, it ends at once with their
  responses, and leaves the gate and the world as they do. -/
  oneByOne : ∀ responses t, OneByOne caller s calls responses t →
    s.answers (.start (.request caller (.batch calls))) =
        .ended (s.begun + 1) (.reply (Answering.reply responses)) ∧
      (s.after (.start (.request caller (.batch calls)))).system = t.system

/-- In every run of a new session, a batch ends with the responses of its calls in their order, at
once or after whatever happens, and does what its calls do one after another if none of them has to
wait. -/
theorem batched_run {settings : Settings} {w : World} (created : create settings w = .ok s)
    (actions : List Action) (caller : Caller) (calls : List Rpc.Call) :
    (s.run actions).Batched caller calls := by
  have hs := undivided_run (undivided_create created) actions
  have hn := numbered_run (undivided_create created) (numbered_create created) actions
  refine ⟨?atOnce, ?later, ?waits, ?oneByOne⟩
  case atOnce => exact fun _ _ h => collected_atOnce h
  case later => exact fun later a r h => collected_later hs hn h
  case waits =>
    intro later h
    obtain ⟨w, hw⟩ := Option.isSome_iff_exists.1 h
    obtain ⟨hmem, hnumber⟩ := mem_of_suspended? hw
    exact ((waits_batch hs hn caller calls later).2 w hmem hnumber).undone
  case oneByOne => exact fun _ _ h => h.batch

/-- A call that waits for the user, a notification and an invalid call: the batch waits until the
user rejects. Of the last two alone it would have ended at once. -/
theorem batched_run_rejected :
    ∃ s calls, create .signing (.initial []) = .ok s ∧
      calls = [.method (.create (.number 1) "eth_requestAccounts" .none),
        .notification ⟨none, "eth_accounts", .none⟩, .invalid (.number 2)] ∧
      (s.run [.start (.request ⟨⟨"site"⟩, none⟩ (.batch calls)),
          .command (.reject ⟨⟨0⟩⟩ none)]).answers (.poll 1) =
        .ended 1 (.reply (some (.batch
          [.create (.number 1) (.failure (PermissionError.toRpc .rejected)),
            .invalidRequest (.number 2)]))) ∧
      s.Batched ⟨⟨"site"⟩, none⟩ calls ∧
      OneByOne ⟨⟨"site"⟩, none⟩ s (calls.drop 1) [.invalidRequest (.number 2)]
        { s with begun := 2 } ∧
      s.Batched ⟨⟨"site"⟩, none⟩ (calls.drop 1) := by
  let s : Session :=
    ⟨.signing, .initial [], ⟨Settings.signing.registry, true, .empty, .empty⟩, 0, [], [], 0, []⟩
  have created : create .signing (.initial []) = .ok s := rfl
  have notified : s.answers (.start (.request ⟨⟨"site"⟩, none⟩
      (.single (.notification ⟨none, "eth_accounts", .none⟩)))) =
        .ended 1 (.reply (Option.map .single none)) := rfl
  have invalid : ({ s with begun := 1 } : Session).answers (.start (.request ⟨⟨"site"⟩, none⟩
      (.single (.invalid (.number 2))))) =
        .ended 2 (.reply (Option.map .single (some (.invalidRequest (.number 2))))) := rfl
  exact ⟨s, _, created, rfl, rfl, batched_run created [] _ _, .cons notified (.cons invalid .nil),
    batched_run created [] _ _⟩

end Session

end OriginGate
