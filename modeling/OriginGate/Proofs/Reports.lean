import OriginGate.Proofs.Decisions
import OriginGate.Proofs.Gating
import OriginGate.Proofs.Grants
import OriginGate.Proofs.Mapping
import OriginGate.Proofs.Wire

/-!
# What sites report about themselves

What is recorded about a site is its last report that names it, whatever else its calls contain.

* `Json.NamesSite` : the two forms in which a value names a site (`SiteReport.name_iff`);
* `Rpc.MethodCall.Reports` : a call reports what is to be recorded, by its method and its payload;
* `System.Acknowledges` : what such a call answers and changes, also when it reports nothing
  (`acknowledges`);
* `Operation.calls`, `Action.calls` : the calls that are begun, in order;
* `Recorded` : what some calls leave recorded about an origin: the last report, or what was recorded
  before;
* `Session.reported_run` : that is what the store holds after any run on a writable backend.
-/

namespace OriginGate

/-! ## Payloads -/

/-- A value names a site: an object by its one field `name`, or an array by its only item. -/
inductive Json.NamesSite (name : String) : Json → Prop where
  | field {fields : List (String × Json)}
    (once : fields.filter (·.1 = "name") = [("name", .str name)]) : NamesSite name (.obj fields)
  | item : NamesSite name (.arr [.str name])

theorem Json.document_eq_str {j : Json} {name : String} :
    j.document = .str name ↔ j = .str name := by
  cases j <;> simp [document]

namespace SiteReport

theorem name_ofDocument? {d : Document} {name : String} :
    (ofDocument? d).bind (·.name) = some name ↔
      ∃ r, shape.read? d = some r ∧ r.get? "name" = some (.str name) := by
  unfold ofDocument?
  rcases shape.read? d with _ | r
  · simp
  · simp only [Option.bind_eq_bind, Option.bind_some, Option.some.injEq, exists_eq_left',
      Record.optional?]
    rcases r.get? "name" with _ | d
    · simp
    · cases d <;> simp [Document.text?]

theorem read_fields (fields : List (String × Json)) :
    shape.read? (Json.obj fields).document =
      if ((fields.filter (·.1 = "name")).map (·.1)).Nodup then
        some ((fields.filter (·.1 = "name")).map fun f => (f.1, f.2.document))
      else none := by
  have hfilter : (Json.documentFields fields).filter (·.1 ∈ shape.names) =
      (fields.filter (·.1 = "name")).map fun f => (f.1, f.2.document) := by
    rw [Json.documentFields_eq, List.filter_map]
    congr 2
    funext f
    simp [shape]
  rw [Json.document, Shape.read?, Shape.readFields?, hfilter, List.map_map]
  simp [shape, Function.comp_def]

theorem name_fields {fields : List (String × Json)} {name : String} :
    (∃ r, shape.read? (Json.obj fields).document = some r ∧ r.get? "name" = some (.str name)) ↔
      fields.filter (·.1 = "name") = [("name", .str name)] := by
  rw [read_fields]
  constructor
  · rintro ⟨r, hread, hname⟩
    split at hread
    case isFalse => cases hread
    case isTrue hnodup =>
      cases hread
      have hkeys : ∀ f ∈ fields.filter (·.1 = "name"), f.1 = "name" :=
        fun f hf => of_decide_eq_true (List.mem_filter.1 hf).2
      generalize fields.filter (·.1 = "name") = named at hnodup hname hkeys
      rcases named with _ | ⟨⟨key, value⟩, _ | ⟨g, rest⟩⟩
      · cases hname
      · obtain rfl : key = "name" := hkeys _ List.mem_cons_self
        have hvalue : value.document = .str name := by simpa [Record.get?] using hname
        rw [Json.document_eq_str.1 hvalue]
      · have hkey : key = "name" := hkeys _ List.mem_cons_self
        have hg : g.1 = "name" := hkeys g (List.mem_cons_of_mem _ List.mem_cons_self)
        simp [hkey, hg] at hnodup
  · intro once
    rw [once]
    exact ⟨[("name", .str name)], rfl, rfl⟩

theorem name_items {items : List Json} {name : String} :
    (∃ r, shape.read? (Json.arr items).document = some r ∧ r.get? "name" = some (.str name)) ↔
      items = [.str name] := by
  constructor
  · rintro ⟨r, hread, hname⟩
    rcases items with _ | ⟨i, _ | ⟨j, rest⟩⟩
    · cases hread
      cases hname
    · cases hread
      have hvalue : i.document = .str name := by
        simpa [Record.get?, shape, Json.documentItems] using hname
      rw [Json.document_eq_str.1 hvalue]
    · simp [Json.document, Json.documentItems, Shape.read?, shape] at hread
  · rintro rfl
    exact ⟨[("name", .str name)], rfl, rfl⟩

/-- A report gives a name if and only if its value names a site. -/
theorem name_iff {j : Json} {name : String} :
    (ofDocument? j.document).bind (·.name) = some name ↔ j.NamesSite name := by
  rw [name_ofDocument?]
  cases j with
  | obj fields =>
    rw [name_fields]
    refine ⟨.field, ?_⟩
    rintro ⟨once⟩
    exact once
  | arr items =>
    rw [name_items]
    constructor
    · rintro rfl
      exact .item
    · rintro ⟨⟩
      rfl
  | _ =>
    refine iff_of_false ?_ nofun
    rintro ⟨r, hread, -⟩
    cases hread

end SiteReport

/-- The value among some parameters in which a site reports about itself. -/
def Rpc.Params.payload? : Params → Option Json
  | none => .none
  | object fields => some (.obj fields)
  | array items => items.head?

theorem Rpc.Params.siteReport?_eq (params : Params) :
    params.siteReport? = params.payload?.bind fun j => SiteReport.ofDocument? j.document := by
  cases params <;> rfl

/-- A call of a caller reports what is to be recorded about its origin. -/
structure Rpc.MethodCall.Reports (caller : Caller) (c : MethodCall) (m : SiteMetadata) : Prop where
  named : c.method = "wallet_sendDomainMetadata"
  payload : ∃ j, c.params.payload? = some j ∧ j.NamesSite m.name
  nonempty : m.name ≠ ""
  extensionId : m.extensionId = caller.extensionId

variable {caller : Caller} {call : Rpc.Call} {c : Rpc.MethodCall} {m : SiteMetadata} {s t : System}
  {o : Origin}

theorem Rpc.MethodCall.reported_name (named : c.method = "wallet_sendDomainMetadata")
    {name : String} :
    (c.params.siteReport?.bind (·.name)).filter (· ≠ "") = some name ↔
      c.Reports caller ⟨name, caller.extensionId⟩ := by
  rw [Option.filter_eq_some_iff, Rpc.Params.siteReport?_eq, Option.bind_assoc,
    Option.bind_eq_some_iff]
  simp only [SiteReport.name_iff, decide_eq_true_eq]
  exact ⟨fun h => ⟨named, h.1, h.2, rfl⟩, fun h => ⟨h.payload, h.nonempty⟩⟩

theorem Rpc.MethodCall.Reports.unique {n : SiteMetadata} (hm : c.Reports caller m)
    (hn : c.Reports caller n) : m = n := by
  obtain ⟨name, id⟩ := m
  obtain ⟨other, id'⟩ := n
  obtain rfl : id = caller.extensionId := hm.extensionId
  obtain rfl : id' = caller.extensionId := hn.extensionId
  have hname := (reported_name hm.named).2 hm
  rw [(reported_name hn.named).2 hn] at hname
  rw [Option.some.inj hname]

namespace System

/-! ## One call -/

theorem handle_report (named : c.method = "wallet_sendDomainMetadata") (caller : Caller)
    (s : System) :
    s.handle caller c =
      ((s.recordMetadata caller.origin c.params.siteReport? caller.extensionId).1,
        .done (.acknowledged
          (s.recordMetadata caller.origin c.params.siteReport? caller.extensionId).2)) := by
  have hmethod : WalletMethod.ofName? c.method = some .sendSiteMetadata := by
    rw [named]
    rfl
  rw [handle, hmethod]
  rfl

/-- A report without a name is acknowledged and does nothing, on any backend. -/
theorem handle_ignored (named : c.method = "wallet_sendDomainMetadata")
    (none : ∀ m, ¬ c.Reports caller m) :
    s.handle caller c = (s, .done (.answered (.success (.bool true)))) := by
  have hname : (c.params.siteReport?.bind (·.name)).filter (· ≠ "") = .none := by
    by_contra hsome
    obtain ⟨name, hname⟩ := Option.ne_none_iff_exists'.1 hsome
    exact none _ ((Rpc.MethodCall.reported_name named).1 hname)
  rw [handle_report named, recordMetadata, hname]
  rfl

theorem handle_reports (h : c.Reports caller m) :
    s.handle caller c = ((s.update (·.setMetadata caller.origin m)).1,
      .done (.acknowledged ((s.update (·.setMetadata caller.origin m)).2.mapError .store))) := by
  obtain ⟨name, id⟩ := m
  obtain rfl : id = caller.extensionId := h.extensionId
  have hname := (Rpc.MethodCall.reported_name h.named).2 h
  rw [handle_report h.named, recordMetadata, hname]

end System

namespace Store

theorem put_writable {s : Store} (writable : s.backend.refusal? = none) (next : State) :
    (s.put next).2 = .ok () := by
  obtain ⟨b, -, hpersist⟩ := s.backend.persist_eq next
  rw [writable] at hpersist
  unfold put
  rw [hpersist]
  split <;> rfl

/-- A report is recorded unless it is recorded already; then nothing is written. -/
theorem setMetadata_writable {s : Store} (writable : s.backend.refusal? = none) (o : Origin)
    (m : SiteMetadata) :
    ∃ t, s.setMetadata o m = (t, .ok ()) ∧ t.state.siteMetadata? o = some m ∧
      (s.state.siteMetadata? o = some m → t = s) := by
  have hok : (s.setMetadata o m).2 = .ok () := put_writable writable _
  have hshown := State.setMetadata_beq o m s.state
  refine ⟨(s.setMetadata o m).1, Prod.ext rfl hok, ?_, fun hsame => ?_⟩
  · have htaken := taken_put (s.state.setMetadata o m) s
    change Taken _ s (s.setMetadata o m).1 (s.setMetadata o m).2 at htaken
    rw [hok] at htaken
    rcases htaken.state_of_ok with hstate | ⟨hsame, hstate⟩
    · rw [hstate, State.siteMetadata?, State.setMetadata, SortedMap.find?_insert, if_pos rfl]
    · rw [hstate]
      rw [hshown, Option.any_eq_true] at hsame
      obtain ⟨n, hn, hmn⟩ := hsame
      rw [hn, eq_of_beq hmn]
  · rw [hsame, Option.any_some, beq_self_eq_true] at hshown
    rw [setMetadata, put, if_pos hshown]

end Store

namespace System

/-- What becomes of a call to report, on a backend that can be written. -/
structure Acknowledges (s : System) (caller : Caller) (c : Rpc.MethodCall) (t : System) : Prop where
  handled : s.handle caller c = (t, .done (.answered (.success (.bool true))))
  /-- Nothing but the store changes: no request, no ticket, nothing at the wallet. -/
  store : t = s.withStore t.store
  domains : t.gate.state.domains = s.gate.state.domains
  others : ∀ o, o ≠ caller.origin → t.gate.state.siteMetadata? o = s.gate.state.siteMetadata? o
  recorded : ∀ m, c.Reports caller m → t.gate.state.siteMetadata? caller.origin = some m
  /-- The backend is left alone as well when nothing is reported, or nothing new. -/
  ignored : (∀ m, ¬ c.Reports caller m) → t = s
  repeated : ∀ m, c.Reports caller m → s.gate.state.siteMetadata? caller.origin = some m → t = s
  writable : t.world.backend.refusal? = none

theorem acknowledges (named : c.method = "wallet_sendDomainMetadata")
    (writable : s.world.backend.refusal? = none) (caller : Caller) :
    ∃ t, s.Acknowledges caller c t := by
  by_cases hnone : ∀ m, ¬ c.Reports caller m
  · exact ⟨s, {
      handled := handle_ignored named hnone
      store := rfl
      domains := rfl
      others := fun _ _ => rfl
      recorded := fun m hm => absurd hm (hnone m)
      ignored := fun _ => rfl
      repeated := fun _ _ _ => rfl
      writable := writable }⟩
  · push Not at hnone
    obtain ⟨m, hm⟩ := hnone
    obtain ⟨store, hstore, hrecorded, hrepeated⟩ :=
      Store.setMetadata_writable (s := s.store) writable caller.origin m
    have hupdate : s.update (·.setMetadata caller.origin m) = (s.withStore store, .ok ()) := by
      rw [update, hstore]
    have hserved : Served caller.origin (fun _ _ => True) s (s.withStore store) [] := by
      have hrecord : Served caller.origin (fun _ _ => True) s
          (s.update (·.setMetadata caller.origin m)).1 [] := .recorded m
      rwa [hupdate] at hrecord
    exact ⟨s.withStore store, {
      handled := by
        rw [handle_reports hm, hupdate]
        rfl
      store := rfl
      domains := hserved.sameGrants.domains
      others := fun o hne => (hserved.state_spared hne).1
      recorded := fun n hn => by
        rw [hn.unique hm]
        exact hrecorded
      ignored := fun hnone => absurd hm (hnone m)
      repeated := fun n hn hsame => by
        rw [hn.unique hm] at hsame
        rw [hrepeated hsame]
        rfl
      writable := by
        have hrefusal := Store.refusal_put (s.gate.state.setMetadata caller.origin m) s.store
        change (s.store.setMetadata caller.origin m).1.backend.refusal? = _ at hrefusal
        rw [hstore] at hrefusal
        exact hrefusal.trans writable }⟩

/-! ## Other calls -/

theorem requestPermissions_store (o : Origin) (requested : RequestedPermissions) (s : System) :
    (s.requestPermissions o requested).1.store = s.store := by
  unfold requestPermissions
  split
  · rfl
  · rcases register_cases o requested (s.gate.state.siteMetadata? o) s with
      ⟨e, h⟩ | ⟨t, id, ticket, h⟩
    · rw [h]
    · rw [h]
      obtain ⟨-, -, -, rfl⟩ := register_ok h
      rfl

theorem requestAccounts_store (o : Origin) (s : System) :
    (s.requestAccounts o).1.store = s.store := by
  unfold requestAccounts
  split
  · exact requestPermissions_store o _ s
  · rfl

theorem execute_store (o : Origin) (method : String) (params : Json) (s : System) :
    (s.execute o method params).1.store = s.store := by
  unfold execute
  split
  · rfl
  · split <;> rfl

theorem handle_store (other : c.method ≠ "wallet_sendDomainMetadata") (caller : Caller)
    (s : System) : (s.handle caller c).1.store = s.store := by
  unfold handle
  split
  · rename_i method hmethod
    have hname : method.name = c.method := by
      rw [WalletMethod.ofName?] at hmethod
      simpa using List.find?_some hmethod
    cases method with
    | requestPermissions =>
      rcases h : c.params.first? RequestedPermissions.ofDocument? with e | requested
      · simp only [serve, h]
      · simp only [serve, h]
        exact requestPermissions_store _ _ s
    | requestAccounts => exact requestAccounts_store _ s
    | sendSiteMetadata => exact absurd hname.symm other
    | logUsage =>
      rcases h : c.params.first? UsageEvent.ofDocument? with e | event
      · simp only [serve, h]
      · simp only [serve, h]
        rfl
    | _ => rfl
  · split
    · exact execute_store _ _ _ s
    · rfl

theorem afterHandling_store (id : Option Rpc.Id) (s : System) (p : Progress Handling Dispatch) :
    (Serving.afterHandling id s p).1.store = s.store := by
  cases p with
  | waiting h => rfl
  | done d => cases d <;> rfl

theorem serveCall_store (hc : call.asMethodCall? = some c) (caller : Caller) (s : System) :
    (s.serveCall caller call).1.store = (s.handle caller c).1.store := by
  cases call with
  | method m =>
    cases hc
    exact afterHandling_store _ _ _
  | notification n =>
    cases hc
    exact afterHandling_store _ _ _
  | invalid id => cases hc

end System

/-! ## What several calls leave -/

/-- The calls and notifications that an operation begins, with their caller. -/
def Operation.calls : Operation → List (Caller × Rpc.MethodCall)
  | .call caller c => [(caller, c)]
  | .request caller r => r.calls.filterMap fun call => call.asMethodCall?.map (caller, ·)
  | _ => []

/-- The calls that an action begins. -/
def Action.calls : Action → List (Caller × Rpc.MethodCall)
  | .start op => op.calls
  | _ => []

/-- What some calls leave recorded about an origin: their last report, or what was recorded. -/
inductive Recorded (o : Origin) (initial : Option SiteMetadata) :
    List (Caller × Rpc.MethodCall) → Option SiteMetadata → Prop where
  | never {calls : List (Caller × Rpc.MethodCall)}
    (none : ∀ x ∈ calls, x.1.origin = o → ∀ m, ¬ x.2.Reports x.1 m) : Recorded o initial calls initial
  | last {before later : List (Caller × Rpc.MethodCall)} {caller : Caller} {c : Rpc.MethodCall}
    {m : SiteMetadata} (origin : caller.origin = o) (reports : c.Reports caller m)
    (none : ∀ x ∈ later, x.1.origin = o → ∀ n, ¬ x.2.Reports x.1 n) :
    Recorded o initial (before ++ (caller, c) :: later) (some m)

namespace Recorded

variable {initial : Option SiteMetadata} {calls : List (Caller × Rpc.MethodCall)}
  {recorded : Option SiteMetadata}

theorem nil (o : Origin) (initial : Option SiteMetadata) : Recorded o initial [] initial :=
  .never fun _ hx => absurd hx List.not_mem_nil

/-- A call that reports nothing about the origin leaves what was recorded. -/
theorem snoc (h : Recorded o initial calls recorded)
    (none : caller.origin = o → ∀ m, ¬ c.Reports caller m) :
    Recorded o initial (calls ++ [(caller, c)]) recorded := by
  have hsnoc : ∀ {l : List (Caller × Rpc.MethodCall)},
      (∀ x ∈ l, x.1.origin = o → ∀ m, ¬ x.2.Reports x.1 m) →
      ∀ x ∈ l ++ [(caller, c)], x.1.origin = o → ∀ m, ¬ x.2.Reports x.1 m := by
    intro l hl x hx
    rcases List.mem_append.1 hx with hx | hx
    · exact hl x hx
    · rw [List.mem_singleton.1 hx]
      exact none
  cases h with
  | never h => exact .never (hsnoc h)
  | last origin reports h =>
    rw [List.append_assoc, List.cons_append]
    exact .last origin reports (hsnoc h)

theorem handle (h : Recorded o initial calls (s.gate.state.siteMetadata? o))
    (writable : s.world.backend.refusal? = none) (caller : Caller) (c : Rpc.MethodCall) :
    Recorded o initial (calls ++ [(caller, c)])
        ((s.handle caller c).1.gate.state.siteMetadata? o) ∧
      (s.handle caller c).1.world.backend.refusal? = none := by
  by_cases named : c.method = "wallet_sendDomainMetadata"
  · obtain ⟨t, ht⟩ := System.acknowledges named writable caller
    rw [ht.handled]
    refine ⟨?_, ht.writable⟩
    by_cases horigin : caller.origin = o
    · by_cases hnone : ∀ m, ¬ c.Reports caller m
      · rw [ht.ignored hnone]
        exact h.snoc fun _ => hnone
      · push Not at hnone
        obtain ⟨m, hm⟩ := hnone
        have hrecorded := ht.recorded m hm
        rw [horigin] at hrecorded
        rw [hrecorded]
        exact .last horigin hm fun _ hx => absurd hx List.not_mem_nil
    · rw [ht.others o (Ne.symm horigin)]
      exact h.snoc fun heq => absurd heq horigin
  · have hstore := System.handle_store named caller s
    have hstate : (s.handle caller c).1.gate.state = s.gate.state := congrArg Store.state hstore
    have hbackend : (s.handle caller c).1.world.backend = s.world.backend :=
      congrArg Store.backend hstore
    rw [hstate, hbackend]
    exact ⟨h.snoc fun _ m hm => named hm.named, writable⟩

theorem serveCall (h : Recorded o initial calls (s.gate.state.siteMetadata? o))
    (writable : s.world.backend.refusal? = none) (caller : Caller) (call : Rpc.Call) :
    Recorded o initial (calls ++ (call.asMethodCall?.map (caller, ·)).toList)
        ((s.serveCall caller call).1.gate.state.siteMetadata? o) ∧
      (s.serveCall caller call).1.world.backend.refusal? = none := by
  rcases hc : call.asMethodCall? with _ | c
  · cases call with
    | invalid id =>
      rw [Option.map_none, Option.toList_none, List.append_nil]
      exact ⟨h, writable⟩
    | _ => cases hc
  · have hstore := System.serveCall_store hc caller s
    have hstate : (s.serveCall caller call).1.gate.state = (s.handle caller c).1.gate.state :=
      congrArg Store.state hstore
    have hbackend : (s.serveCall caller call).1.world.backend =
        (s.handle caller c).1.world.backend := congrArg Store.backend hstore
    rw [hstate, hbackend]
    exact h.handle writable caller c

theorem thread (caller : Caller) (batch : List Rpc.Call)
    (h : Recorded o initial calls (s.gate.state.siteMetadata? o))
    (writable : s.world.backend.refusal? = none) :
    Recorded o initial
        (calls ++ batch.filterMap fun call => call.asMethodCall?.map (caller, ·))
        ((System.thread (System.serveCall caller) batch s).1.gate.state.siteMetadata? o) ∧
      (System.thread (System.serveCall caller) batch s).1.world.backend.refusal? = none := by
  induction batch generalizing s calls with
  | nil =>
    rw [List.filterMap_nil, List.append_nil]
    exact ⟨h, writable⟩
  | cons call rest ih =>
    obtain ⟨hcall, hwritable⟩ := h.serveCall writable caller call
    have hrest := ih hcall hwritable
    rw [List.append_assoc] at hrest
    have hcons : (call.asMethodCall?.map (caller, ·)).toList ++
        rest.filterMap (fun call => call.asMethodCall?.map (caller, ·)) =
          (call :: rest).filterMap fun call => call.asMethodCall?.map (caller, ·) := by
      rw [List.filterMap_cons]
      cases call.asMethodCall? <;> rfl
    rw [hcons] at hrest
    exact hrest

theorem begin {op : Operation} {q : Origin} (site : op.site? = some q)
    (h : Recorded o initial calls (s.gate.state.siteMetadata? o))
    (writable : s.world.backend.refusal? = none) :
    Recorded o initial (calls ++ op.calls) ((op.begin s).1.gate.state.siteMetadata? o) := by
  have hkept : ∀ t : System, t.store = s.store →
      Recorded o initial (calls ++ []) (t.gate.state.siteMetadata? o) := by
    intro t ht
    rw [List.append_nil, show t.gate.state = s.gate.state from congrArg Store.state ht]
    exact h
  cases op with
  | call caller c => exact (h.handle writable caller c).1
  | request caller r =>
    cases r with
    | single call => exact (thread caller [call] h writable).1
    | batch calls => exact (thread caller calls h writable).1
  | requestAccounts o => exact hkept _ (System.requestAccounts_store o s)
  | requestPermissions o requested => exact hkept _ (System.requestPermissions_store o requested s)
  | approve approved accounts => cases site
  | execute o method params => exact hkept _ (System.execute_store o method params s)

end Recorded

/-! ## Runs -/

theorem Command.metadata_carryOut {cmd : Command}
    (silent : ∀ report extensionId, cmd ≠ .recordMetadata o report extensionId) (s : System) :
    (cmd.carryOut s).1.gate.state.siteMetadata? o = s.gate.state.siteMetadata? o := by
  have hput : ∀ next : State, next.siteMetadata? o = s.gate.state.siteMetadata? o →
      (s.store.put next).1.state.siteMetadata? o = s.gate.state.siteMetadata? o := by
    intro next hnext
    rcases Store.put_state next s.store with h | h
    · rw [h, hnext]
    · rw [h]
      rfl
  cases cmd with
  | reject id reason => exact congrArg (State.siteMetadata? o) (Session.resolve_state id _ s)
  | rejectOrigin q =>
    rcases System.rejectOrigin_fst q none s with h | ⟨id, -, h⟩
    · rw [carryOut, h]
    · rw [carryOut, h]
      exact congrArg (State.siteMetadata? o) (Session.resolve_state id _ s)
  | recordMetadata q report extensionId =>
    have hne : o ≠ q := by
      rintro rfl
      exact silent report extensionId rfl
    simp only [carryOut, System.recordMetadata]
    split
    · rfl
    · exact hput _ (State.siteMetadata?_setMetadata _ hne _)
  | revoke q methods => exact hput (s.gate.state.revoke q methods) rfl
  | clear => exact hput s.gate.state.clear rfl
  | logUsage q e => rfl

namespace Session

variable {s : Session} {a : Action}

/-- Whatever begins no operation for an origin leaves what is recorded. -/
theorem metadata_after (hu : s.Undivided)
    (outside : ∀ op q, a = .start op → op.site? ≠ some q)
    (silent : ∀ report extensionId, a ≠ .command (.recordMetadata o report extensionId)) :
    (s.after a).gate.state.siteMetadata? o = s.gate.state.siteMetadata? o := by
  have hchanged := changed_step hu a
  change (s.after a).system.gate.state.siteMetadata? o = _
  generalize (s.after a).system = t at hchanged
  cases hchanged with
  | same => rfl
  | served begun site _ => exact absurd site (outside _ _ begun)
  | approved _ _ h =>
    rcases h.state with hstate | ⟨e, granted, -, -, -, hstate, -⟩
    · rw [hstate]
      rfl
    · rw [hstate]
      rfl
  | abandoned _ _ => rfl
  | @commanded c given _ =>
    subst given
    exact Command.metadata_carryOut (fun report id hc => silent report id (congrArg _ hc)) s.system
  | happened _ => rfl

theorem recorded_after {initial : Option SiteMetadata} {calls : List (Caller × Rpc.MethodCall)}
    (hu : s.Undivided) (writable : s.world.backend.refusal? = none)
    (silent : ∀ report extensionId, a ≠ .command (.recordMetadata o report extensionId))
    (h : Recorded o initial calls (s.gate.state.siteMetadata? o)) :
    Recorded o initial (calls ++ a.calls) ((s.after a).gate.state.siteMetadata? o) := by
  by_cases hserves : ∃ op q, a = .start op ∧ op.site? = some q
  · obtain ⟨op, q, rfl, site⟩ := hserves
    have hsystem := congrArg (·.gate.state.siteMetadata? o) (start_system op s)
    rw [show (s.after (.start op)).gate.state.siteMetadata? o = _ from hsystem]
    exact Recorded.begin site h writable
  · have hnone : ∀ op q, a = .start op → op.site? ≠ some q :=
      fun op q ha hsite => hserves ⟨op, q, ha, hsite⟩
    have hcalls : a.calls = [] := by
      cases a with
      | start op =>
        cases op with
        | approve approved accounts => rfl
        | _ => exact absurd rfl (hnone _ _ rfl)
      | _ => rfl
    rw [metadata_after hu hnone silent, hcalls, List.append_nil]
    exact h

/-- What becomes of a call to report, in every way in which it can be made. -/
structure Acknowledges (s : Session) (caller : Caller) (c : Rpc.MethodCall) : Prop where
  alone : ∃ t, s.system.Acknowledges caller c t ∧ (s.after (.start (.call caller c))).system = t ∧
    s.answers (.start (.call caller c)) =
      .ended (s.begun + 1) (.dispatch (.answered (.success (.bool true))))
  requested : ∀ call, call.asMethodCall? = some c → ∃ t, s.system.Acknowledges caller c t ∧
    (s.after (.start (.request caller (.single call)))).system = t ∧
    s.answers (.start (.request caller (.single call))) = .ended (s.begun + 1)
      (.reply ((Serving.respond call.replyId? (.success (.bool true))).map .single))
  /-- Its slot in a batch is filled at once, after whatever calls. -/
  batched : ∀ before call, call.asMethodCall? = some c → ∃ t,
    (System.thread (System.serveCall caller) before s.system).1.Acknowledges caller c t ∧
    (System.thread (System.serveCall caller) before s.system).1.serveCall caller call =
      (t, .done (Serving.respond call.replyId? (.success (.bool true))))

theorem acknowledges (named : c.method = "wallet_sendDomainMetadata")
    (writable : s.world.backend.refusal? = none) (caller : Caller) : s.Acknowledges caller c where
  alone := by
    obtain ⟨t, ht⟩ := System.acknowledges (s := s.system) named writable caller
    have hbegin : (Operation.call caller c).begin s.system =
        (t, .done (.dispatch (.answered (.success (.bool true))))) := by
      rw [Operation.begin, ht.handled]
      rfl
    refine ⟨t, ht, ?_, ?_⟩
    · rw [start_system, hbegin]
    · rw [answers_start, hbegin]
  requested := by
    intro call hc
    obtain ⟨t, ht⟩ := System.acknowledges (s := s.system) named writable caller
    have hbegin : (Operation.request caller (.single call)).begin s.system =
        (t, .done (.reply ((Serving.respond call.replyId? (.success (.bool true))).map
          .single))) := by
      rw [Operation.begin, System.answer, System.serveCall_answered hc ht.handled]
      rfl
    refine ⟨t, ht, ?_, ?_⟩
    · rw [start_system, hbegin]
    · rw [answers_start, hbegin]
  batched := by
    intro before call hc
    have hwritable :=
      (Recorded.thread (s := s.system) caller before (.nil caller.origin _) writable).2
    obtain ⟨t, ht⟩ := System.acknowledges named hwritable caller
    exact ⟨t, ht, System.serveCall_answered hc ht.handled⟩

/-- As long as the backend can be written and the owner of the gate records nothing about an origin,
the origin's last report with a name is recorded, with the extension that made it, or what was
recorded before. Every call to report answers `true`, and changes nothing else. -/
theorem reported_run {settings : Settings} {w : World} (created : create settings w = .ok s)
    {actions : List Action}
    (writable : ∀ before, before <+: actions → (s.run before).world.backend.refusal? = none)
    {o : Origin}
    (silent : ∀ report extensionId, .command (.recordMetadata o report extensionId) ∉ actions) :
    Recorded o (s.gate.state.siteMetadata? o) (actions.flatMap Action.calls)
        ((s.run actions).gate.state.siteMetadata? o) ∧
      ∀ caller c, c.method = "wallet_sendDomainMetadata" →
        (s.run actions).Acknowledges caller c := by
  refine ⟨?_, fun caller c named => acknowledges named (writable actions List.prefix_rfl) caller⟩
  induction actions using List.reverseRecOn with
  | nil => exact .nil o _
  | append_singleton before a ih =>
    have hbefore := List.prefix_append before [a]
    have hrun := ih (fun early hearly => writable early (hearly.trans hbefore))
      fun report id hmem => silent report id (List.mem_append_left _ hmem)
    rw [run_snoc, List.flatMap_append, List.flatMap_singleton]
    refine recorded_after (undivided_run (undivided_create created) before)
      (writable before hbefore) (fun report id ha => ?_) hrun
    exact silent report id (ha ▸ List.mem_append_right _ (List.mem_singleton_self _))

/-- A site reports its name through an extension, and then no name. -/
def naming : List Action :=
  [.start (.call ⟨⟨"site"⟩, some "x"⟩
      (.create .null "wallet_sendDomainMetadata" (.array [.arr [.str "Site"]]))),
    .start (.call ⟨⟨"site"⟩, none⟩
      (.create .null "wallet_sendDomainMetadata" (.object [("name", .null)])))]

/-- The name stays recorded, with the extension. -/
theorem reported_run_naming :
    ∃ s, create .signing (.initial []) = .ok s ∧
      (∀ before, before <+: naming → (s.run before).world.backend.refusal? = none) ∧
      Recorded ⟨"site"⟩ none (naming.flatMap Action.calls) (some ⟨"Site", some "x"⟩) := by
  have created : create .signing (.initial []) =
      .ok ⟨.signing, .initial [], ⟨Settings.signing.registry, true, .empty, .empty⟩, 0, [], [],
        0, []⟩ := rfl
  have writable : ∀ before, before <+: naming →
      ((Session.mk .signing (.initial []) ⟨Settings.signing.registry, true, .empty, .empty⟩ 0 [] []
        0 []).run before).world.backend.refusal? = none := by
    intro before h
    rcases List.prefix_cons_iff.1 h with rfl | ⟨rest, rfl, hrest⟩
    · rfl
    rcases List.prefix_cons_iff.1 hrest with rfl | ⟨rest, rfl, hnil⟩
    · rfl
    · rw [List.prefix_nil.1 hnil]
      rfl
  exact ⟨_, created, writable, (reported_run created writable fun _ _ => by simp [naming]).1⟩

end Session

end OriginGate
