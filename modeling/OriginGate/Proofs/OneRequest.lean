import OriginGate.Proofs.Requests
import OriginGate.SortedMap.Lookup

/-!
# One request for an origin

The requests that await a decision are held twice: the entries by id, and the id of each origin.

* `Pending.Listed` : every entry has an id of its own and is listed for its origin;
* `Pending.Paired` : moreover every id that is listed is that of an entry, so that the two maps are
  inverse to each other (`Paired.idFor?_eq_some_iff`);
* `Dealing` : what can be done to the requests of a gate directly; `System.Dealt` : all that this
  changes; `System.deal` : one after the other;
* `System.OnePerOrigin` : what the registry tells and does when the maps are paired;
* `System.onePerOrigin_deal` : that is so after any dealings with an empty registry.

Entries stay listed whatever ids are drawn. That nothing else is listed needs ids that are not given
twice: a request under the id of another one takes its place, and the origin of that one stays listed.
-/

namespace OriginGate

/-! ## The two maps -/

namespace Pending

/-- Every entry has an id of its own, and is listed for its origin. -/
structure Listed (p : Pending) : Prop where
  ids : p.ids.Nodup
  listed : ∀ e ∈ p.entries, p.idFor? e.origin = some e.id

/-- The entries are listed, and nothing else is. -/
structure Paired (p : Pending) : Prop extends Listed p where
  entry : ∀ o id, p.idFor? o = some id → ∃ e ∈ p.entries, e.id = id ∧ e.origin = o

variable {p : Pending} {e f : PendingRequest}

theorem mem_without : f ∈ (p.without e).entries ↔ f ∈ p.entries ∧ f.id ≠ e.id := by
  rw [without, List.mem_filter, decide_eq_true_iff]

theorem idFor?_without (e : PendingRequest) (o : Origin) (p : Pending) :
    (p.without e).idFor? o = if o = e.origin then none else p.idFor? o :=
  SortedMap.find?_erase _ _ _

theorem mem_add : f ∈ (p.add e).entries ↔ (f ∈ p.entries ∧ f.id ≠ e.id) ∨ f = e := by
  rw [add, List.mem_append, List.mem_filter, decide_eq_true_iff, List.mem_singleton]

theorem idFor?_add (e : PendingRequest) (o : Origin) (p : Pending) :
    (p.add e).idFor? o = if o = e.origin then some e.id else p.idFor? o :=
  SortedMap.find?_insert _ _ _ _

/-- A request that was added is found under its id, whatever was registered under it before. -/
theorem find?_add_self (e : PendingRequest) (p : Pending) :
    (p.add e).find? e.id = some e.request := by
  have hothers : (p.entries.filter (·.id ≠ e.id)).find? (·.id = e.id) = none := by
    rw [List.find?_eq_none]
    intro f hf
    simpa using (List.mem_filter.1 hf).2
  rw [find?, lookUp?, add, List.find?_append, hothers]
  simp

theorem requests_without (e : PendingRequest) (p : Pending) :
    (p.without e).requests = p.requests.filter (·.id ≠ e.id) := by
  rw [requests, requests, List.filter_map]
  rfl

namespace Listed

theorem empty : Listed .empty := ⟨List.nodup_nil, fun _ he => absurd he List.not_mem_nil⟩

theorem lookUp? (h : p.Listed) (he : e ∈ p.entries) : p.lookUp? e.id = some e := by
  rcases hf : p.lookUp? e.id with _ | f
  · exact absurd (List.mem_map_of_mem he) (lookUp?_eq_none.1 hf)
  · obtain ⟨hmem, hid⟩ := lookUp?_spec hf
    rw [List.inj_on_of_nodup_map h.ids hmem he hid]

theorem eq_of_origin (h : p.Listed) (he : e ∈ p.entries) (hf : f ∈ p.entries)
    (horigin : f.origin = e.origin) : f = e := by
  have hlisted := h.listed f hf
  rw [horigin, h.listed e he] at hlisted
  exact List.inj_on_of_nodup_map h.ids hf he (Option.some.inj hlisted).symm

theorem without (h : p.Listed) (he : e ∈ p.entries) : (p.without e).Listed := by
  refine ⟨(List.filter_sublist.map _).nodup h.ids, fun f hf => ?_⟩
  obtain ⟨hmem, hid⟩ := mem_without.1 hf
  have horigin : f.origin ≠ e.origin := fun heq =>
    hid (congrArg PendingRequest.id (h.eq_of_origin he hmem heq))
  rw [idFor?_without, if_neg horigin]
  exact h.listed f hmem

theorem add (h : p.Listed) (free : p.idFor? e.origin = none) : (p.add e).Listed := by
  constructor
  · rw [Pending.ids, Pending.add, List.map_append, List.map_singleton]
    refine List.nodup_append.2 ⟨(List.filter_sublist.map _).nodup h.ids, by simp, ?_⟩
    intro i hi j hj
    obtain ⟨f, hf, rfl⟩ := List.mem_map.1 hi
    rw [List.mem_singleton.1 hj]
    exact of_decide_eq_true (List.mem_filter.1 hf).2
  · intro f hf
    rcases mem_add.1 hf with ⟨hmem, -⟩ | rfl
    · have horigin : f.origin ≠ e.origin := by
        intro heq
        cases (heq ▸ h.listed f hmem).symm.trans free
      rw [idFor?_add, if_neg horigin]
      exact h.listed f hmem
    · rw [idFor?_add, if_pos rfl]

end Listed

namespace Paired

theorem empty : Paired .empty := ⟨.empty, fun _ _ h => by cases h⟩

theorem without (h : p.Paired) (he : e ∈ p.entries) : (p.without e).Paired := by
  refine ⟨h.toListed.without he, fun o id hid => ?_⟩
  rw [idFor?_without] at hid
  split at hid
  · cases hid
  · rename_i horigin
    obtain ⟨f, hf, rfl, rfl⟩ := h.entry o id hid
    refine ⟨f, mem_without.2 ⟨hf, fun heq => horigin ?_⟩, rfl, rfl⟩
    rw [List.inj_on_of_nodup_map h.ids hf he heq]

theorem add (h : p.Paired) (free : p.idFor? e.origin = none) (new : e.id ∉ p.ids) :
    (p.add e).Paired := by
  refine ⟨h.toListed.add free, fun o id hid => ?_⟩
  rw [idFor?_add] at hid
  split at hid
  · rename_i horigin
    cases hid
    exact ⟨e, mem_add.2 (.inr rfl), rfl, horigin.symm⟩
  · obtain ⟨f, hf, rfl, rfl⟩ := h.entry o id hid
    refine ⟨f, mem_add.2 (.inl ⟨hf, fun heq => new ?_⟩), rfl, rfl⟩
    rw [← heq]
    exact List.mem_map_of_mem hf

/-- The two maps are inverse to each other. -/
theorem idFor?_eq_some_iff (h : p.Paired) {o : Origin} {id : RequestId} :
    p.idFor? o = some id ↔ ∃ r, p.find? id = some r ∧ r.id = id ∧ r.origin = o := by
  constructor
  · intro hid
    obtain ⟨e, he, rfl, rfl⟩ := h.entry o id hid
    exact ⟨e.request, by rw [find?, h.lookUp? he]; rfl, rfl, rfl⟩
  · rintro ⟨r, hr, rfl, rfl⟩
    obtain ⟨e, he, rfl⟩ := Option.map_eq_some_iff.1 hr
    exact h.listed e (lookUp?_spec he).1

/-- An origin has no entry if and only if it is not listed. -/
theorem idFor?_eq_none_iff (h : p.Paired) {o : Origin} :
    p.idFor? o = none ↔ ∀ r ∈ p.requests, r.origin ≠ o := by
  constructor
  · rintro hnone r hr rfl
    obtain ⟨e, he, rfl⟩ := List.mem_map.1 hr
    cases (h.listed e he).symm.trans hnone
  · intro hall
    by_contra hsome
    obtain ⟨id, hid⟩ := Option.ne_none_iff_exists'.1 hsome
    obtain ⟨e, he, -, horigin⟩ := h.entry o id hid
    exact hall e.request (List.mem_map_of_mem he) horigin

end Paired

end Pending

/-! ## Registering and rejecting -/

namespace System

theorem register_listed {o : Origin} {id : RequestId} {s : System}
    (h : s.gate.pending.idFor? o = some id) (permissions : RequestedPermissions)
    (metadata : Option SiteMetadata) :
    s.register o permissions metadata = (s, .error (.requestAlreadyPending o)) := by
  simp [register, h]

theorem register_free {o : Origin} {s : System} (h : s.gate.pending.idFor? o = none)
    (permissions : RequestedPermissions) (metadata : Option SiteMetadata) :
    ∃ t id ticket, s.register o permissions metadata = (t, .ok (id, ticket)) := by
  simp [register, h]

theorem rejectOrigin_free {o : Origin} {s : System} (h : s.gate.pending.idFor? o = none)
    (reason : Option PermissionError) : s.rejectOrigin o reason = (s, none) := by
  simp [rejectOrigin, h]

theorem rejectOrigin_found {s : System} {e : PendingRequest}
    (listed : s.gate.pending.idFor? e.origin = some e.id)
    (found : s.gate.pending.lookUp? e.id = some e) (reason : Option PermissionError) :
    s.rejectOrigin e.origin reason =
      ((s.withdraw e).deliver e (.error (reason.getD .rejected)), some e.id) := by
  simp [rejectOrigin, listed, reject, resolve_found _ found]

end System

/-! ## Dealings with requests -/

/-- What can be done to the requests of a gate directly. -/
inductive Dealing where
  | create (o : Origin) (permissions : RequestedPermissions) (metadata : Option SiteMetadata)
  | take (id : RequestId)
  | approve (id : RequestId) (granted : List Permission)
  | reject (id : RequestId) (reason : Option PermissionError)
  | rejectOrigin (o : Origin) (reason : Option PermissionError)

/-- The system after a dealing. -/
def Dealing.carryOut (d : Dealing) (s : System) : System :=
  match d with
  | create o permissions metadata => (s.register o permissions metadata).1
  | take id => (s.take id).1
  | approve id granted => (s.resolve id (.ok granted)).1
  | reject id reason => (s.reject id reason).1
  | rejectOrigin o reason => (s.rejectOrigin o reason).1

namespace System

/-- The system after some dealings. -/
def deal (ds : List Dealing) (s : System) : System := ds.foldl (fun s d => d.carryOut s) s

theorem deal_snoc (before : List Dealing) (d : Dealing) (s : System) :
    s.deal (before ++ [d]) = d.carryOut (s.deal before) :=
  List.foldl_append

/-- A dealing changes nothing, registers a request, or removes one. -/
inductive Dealt (s : System) : System → Prop where
  | nothing : Dealt s s
  | created {o : Origin} {permissions : RequestedPermissions} {metadata : Option SiteMetadata}
    {t : System} {id : RequestId} {ticket : Ticket}
    (h : s.register o permissions metadata = (t, .ok (id, ticket))) : Dealt s t
  | removed {e : PendingRequest} {t : System} (found : s.gate.pending.lookUp? e.id = some e)
    (pending : t.gate.pending = s.gate.pending.without e)
    (announcements : t.world.announcements = s.world.announcements) : Dealt s t

theorem dealt_resolve (id : RequestId) (d : Decision) (s : System) :
    Dealt s (s.resolve id d).1 := by
  rcases h : s.gate.pending.lookUp? id with _ | e
  · rw [resolve_absent d h]
    exact .nothing
  · rw [resolve_found d h]
    rw [← (Pending.lookUp?_spec h).2] at h
    exact .removed h rfl rfl

theorem dealt_carryOut (d : Dealing) (s : System) : Dealt s (d.carryOut s) := by
  cases d with
  | create o permissions metadata =>
    rcases register_cases o permissions metadata s with ⟨e, h⟩ | ⟨t, id, ticket, h⟩
    · simp only [Dealing.carryOut, h]
      exact .nothing
    · simp only [Dealing.carryOut, h]
      exact .created h
  | take id =>
    rcases h : s.gate.pending.lookUp? id with _ | e
    · rw [Dealing.carryOut, take_absent h]
      exact .nothing
    · rw [Dealing.carryOut, take_found h]
      rw [← (Pending.lookUp?_spec h).2] at h
      exact .removed h rfl rfl
  | approve id granted => exact dealt_resolve id _ s
  | reject id reason => exact dealt_resolve id _ s
  | rejectOrigin o reason =>
    rcases rejectOrigin_fst o reason s with h | ⟨id, -, h⟩
    · rw [Dealing.carryOut, h]
      exact .nothing
    · rw [Dealing.carryOut, h]
      exact dealt_resolve id _ s

theorem Dealt.announced_prefix {s t : System} (h : Dealt s t) :
    s.world.announcements.announced <+: t.world.announcements.announced := by
  cases h with
  | nothing => exact List.prefix_rfl
  | created h =>
    obtain ⟨-, -, -, rfl⟩ := register_ok h
    exact List.prefix_append _ _
  | removed _ _ announcements => exact announcements ▸ List.prefix_rfl

/-- A request that is registered under a fresh id is announced under an id that is not registered. -/
theorem register_new {o : Origin} {permissions : RequestedPermissions}
    {metadata : Option SiteMetadata} {s t : System} {id : RequestId} {ticket : Ticket}
    (h : s.register o permissions metadata = (t, .ok (id, ticket))) (fresh : t.world.Fresh)
    (announced : ∀ r ∈ s.gate.pending.requests, r ∈ s.world.announcements.announced) :
    id ∉ s.gate.pending.ids := by
  obtain ⟨-, -, -, rfl⟩ := register_ok h
  intro hid
  obtain ⟨e, he, rfl⟩ := List.mem_map.1 hid
  unfold World.Fresh at fresh
  change ((s.world.announcements.announced ++ [_]).map _).Nodup at fresh
  rw [List.map_append] at fresh
  have hmem := announced e.request (List.mem_map_of_mem he)
  exact List.disjoint_of_nodup_append fresh (List.mem_map_of_mem hmem) (List.mem_singleton_self _)

/-- A dealing keeps the maps paired, as long as no id is given twice. -/
theorem Dealt.paired {s t : System} (h : Dealt s t) (fresh : t.world.Fresh)
    (announced : ∀ r ∈ s.gate.pending.requests, r ∈ s.world.announcements.announced)
    (paired : s.gate.pending.Paired) :
    t.gate.pending.Paired ∧ ∀ r ∈ t.gate.pending.requests, r ∈ t.world.announcements.announced := by
  cases h with
  | nothing => exact ⟨paired, announced⟩
  | @created o permissions metadata _ id ticket h =>
    have hnew := register_new h fresh announced
    obtain ⟨hfree, -, -, rfl⟩ := register_ok h
    refine ⟨paired.add hfree hnew, fun r hr => ?_⟩
    change r ∈ s.world.announcements.announced ++ [_]
    obtain ⟨e, he, rfl⟩ := List.mem_map.1 hr
    rcases Pending.mem_add.1 he with ⟨hmem, -⟩ | rfl
    · exact List.mem_append_left _ (announced _ (List.mem_map_of_mem hmem))
    · exact List.mem_append_right _ (List.mem_singleton_self _)
  | @removed e _ found pending announcements =>
    rw [pending, announcements, Pending.requests_without]
    exact ⟨paired.without (Pending.lookUp?_spec found).1,
      fun r hr => announced r (List.mem_filter.1 hr).1⟩

theorem paired_deal {s : System} (none : s.gate.pending = .empty) (ds : List Dealing)
    (fresh : (s.deal ds).world.Fresh) :
    (s.deal ds).gate.pending.Paired ∧
      ∀ r ∈ (s.deal ds).gate.pending.requests, r ∈ (s.deal ds).world.announcements.announced := by
  induction ds using List.reverseRecOn with
  | nil =>
    change s.gate.pending.Paired ∧ ∀ r ∈ s.gate.pending.requests, _
    rw [none]
    exact ⟨.empty, fun r hr => absurd hr List.not_mem_nil⟩
  | append_singleton before d ih =>
    rw [deal_snoc] at fresh ⊢
    have hdealt := dealt_carryOut d (s.deal before)
    obtain ⟨hpaired, hannounced⟩ := ih (fresh.of_prefix hdealt.announced_prefix)
    exact hdealt.paired fresh hannounced hpaired

/-! ## What the registry tells and does -/

/-- Every origin has one request at most, by whatever query, and may ask again without one. -/
structure OnePerOrigin (s : System) : Prop where
  /-- The id of an origin is that of a request of this origin, and the other way round. -/
  inverse : ∀ o id, s.gate.pending.idFor? o = some id ↔
    ∃ r, s.gate.pending.find? id = some r ∧ r.id = id ∧ r.origin = o
  /-- All queries tell of the same requests. -/
  found : ∀ r, r ∈ s.gate.pending.requests ↔ s.gate.pending.find? r.id = some r
  ids : s.gate.pending.ids = s.gate.pending.requests.map (·.id) ∧ s.gate.pending.ids.Nodup
  size : s.gate.pending.size = s.gate.pending.ids.length
  origins : (s.gate.pending.requests.map (·.origin)).Nodup
  /-- A request is registered if and only if its origin has none. -/
  creates : ∀ o permissions metadata,
    (∃ t id ticket, s.register o permissions metadata = (t, .ok (id, ticket))) ↔
      ∀ r ∈ s.gate.pending.requests, r.origin ≠ o
  /-- Any other is refused, which changes nothing. -/
  refuses : ∀ r ∈ s.gate.pending.requests, ∀ permissions metadata,
    s.register r.origin permissions metadata = (s, .error (.requestAlreadyPending r.origin))
  /-- The rejection of the request of an origin tells its id, and there is nothing to tell and to
  change if the origin has none. -/
  rejects : ∀ o reason id, (s.rejectOrigin o reason).2 = some id ↔
    ∃ r ∈ s.gate.pending.requests, r.origin = o ∧ r.id = id
  rejectsNone : ∀ o reason, (∀ r ∈ s.gate.pending.requests, r.origin ≠ o) →
    s.rejectOrigin o reason = (s, none)
  /-- It removes this request and keeps all others. -/
  removes : ∀ r ∈ s.gate.pending.requests, ∀ reason,
    (s.rejectOrigin r.origin reason).1.gate.pending.requests =
        s.gate.pending.requests.filter (·.id ≠ r.id) ∧
      ∀ o, (s.rejectOrigin r.origin reason).1.gate.pending.idFor? o =
        if o = r.origin then none else s.gate.pending.idFor? o
  /-- Whatever removes a request, its origin can ask again at once. -/
  again : ∀ d : Dealing, (d.carryOut s).world.Fresh → ∀ r ∈ s.gate.pending.requests,
    r ∉ (d.carryOut s).gate.pending.requests → ∀ permissions metadata, ∃ t id ticket,
      (d.carryOut s).register r.origin permissions metadata = (t, .ok (id, ticket))

theorem Dealt.idFor?_removed {s t : System} (h : Dealt s t) (fresh : t.world.Fresh)
    (announced : ∀ r ∈ s.gate.pending.requests, r ∈ s.world.announcements.announced)
    (paired : s.gate.pending.Paired) {r : PermissionsRequest}
    (registered : r ∈ s.gate.pending.requests) (gone : r ∉ t.gate.pending.requests) :
    t.gate.pending.idFor? r.origin = none := by
  obtain ⟨f, hf, rfl⟩ := List.mem_map.1 registered
  cases h with
  | nothing => exact absurd registered gone
  | @created o permissions metadata _ id ticket h =>
    -- The new request takes nobody's place, because its id is new.
    have hnew := register_new h fresh announced
    have hid : f.id ≠ id := fun heq => hnew (heq ▸ List.mem_map_of_mem hf)
    obtain ⟨-, -, -, rfl⟩ := register_ok h
    have hkept : f ∈ (s.gate.pending.add ⟨⟨id, o, permissions, metadata⟩, ticket⟩).entries :=
      Pending.mem_add.2 (.inl ⟨hf, hid⟩)
    exact absurd (List.mem_map_of_mem hkept) gone
  | @removed e _ found pending _ =>
    have hid : f.id = e.id := by
      by_contra hne
      rw [pending] at gone
      exact gone (List.mem_map_of_mem (Pending.mem_without.2 ⟨hf, hne⟩))
    have hmem := (Pending.lookUp?_spec found).1
    rw [List.inj_on_of_nodup_map paired.ids hf hmem hid, pending, Pending.idFor?_without]
    exact if_pos rfl

theorem onePerOrigin_of_paired {s : System} (paired : s.gate.pending.Paired)
    (announced : ∀ r ∈ s.gate.pending.requests, r ∈ s.world.announcements.announced) :
    s.OnePerOrigin where
  inverse o id := paired.idFor?_eq_some_iff
  found r := by
    constructor
    · intro hr
      obtain ⟨e, he, rfl⟩ := List.mem_map.1 hr
      rw [Pending.find?, show e.request.id = e.id from rfl, paired.lookUp? he]
      rfl
    · intro hr
      obtain ⟨e, he, rfl⟩ := Option.map_eq_some_iff.1 hr
      exact List.mem_map_of_mem (Pending.lookUp?_spec he).1
  ids := by
    refine ⟨?_, paired.ids⟩
    rw [Pending.requests, List.map_map]
    rfl
  size := by rw [Pending.size, Pending.ids, List.length_map]
  origins := by
    rw [Pending.requests, List.map_map]
    refine List.Nodup.map_on ?_ (List.Nodup.of_map _ paired.ids)
    intro e he f hf horigin
    exact (paired.eq_of_origin he hf horigin.symm).symm
  creates o permissions metadata := by
    rw [← paired.idFor?_eq_none_iff]
    constructor
    · rintro ⟨t, id, ticket, h⟩
      exact (register_ok h).1
    · intro hfree
      exact register_free hfree permissions metadata
  refuses r hr permissions metadata := by
    obtain ⟨e, he, rfl⟩ := List.mem_map.1 hr
    exact register_listed (paired.listed e he) permissions metadata
  rejects o reason id := by
    constructor
    · intro h
      rcases hid : s.gate.pending.idFor? o with _ | listed
      · rw [rejectOrigin_free hid] at h
        cases h
      · obtain ⟨e, he, rfl, rfl⟩ := paired.entry o listed hid
        rw [rejectOrigin_found hid (paired.lookUp? he)] at h
        cases h
        exact ⟨e.request, List.mem_map_of_mem he, rfl, rfl⟩
    · rintro ⟨r, hr, rfl, rfl⟩
      obtain ⟨e, he, rfl⟩ := List.mem_map.1 hr
      exact congrArg Prod.snd (rejectOrigin_found (paired.listed e he) (paired.lookUp? he) reason)
  rejectsNone o reason hnone := rejectOrigin_free (paired.idFor?_eq_none_iff.2 hnone) reason
  removes r hr reason := by
    obtain ⟨e, he, rfl⟩ := List.mem_map.1 hr
    rw [show e.request.origin = e.origin from rfl,
      rejectOrigin_found (paired.listed e he) (paired.lookUp? he)]
    exact ⟨Pending.requests_without e _, fun o => Pending.idFor?_without e o _⟩
  again d fresh r registered gone permissions metadata :=
    register_free ((dealt_carryOut d s).idFor?_removed fresh announced paired registered gone)
      permissions metadata

/-- After any dealings with an empty registry that give no id twice, every origin has one request at
most, the same by whatever query, and can ask again as soon as it has none. -/
theorem onePerOrigin_deal {s : System} (none : s.gate.pending = .empty) (ds : List Dealing)
    (fresh : (s.deal ds).world.Fresh) : (s.deal ds).OnePerOrigin := by
  obtain ⟨hpaired, hannounced⟩ := paired_deal none ds fresh
  exact onePerOrigin_of_paired hpaired hannounced

/-- Two sites ask, one of them twice; its first request is rejected, and it asks again. -/
theorem onePerOrigin_deal_again :
    ∃ s : System, s.gate.pending = .empty ∧
      (s.deal [.create ⟨"site"⟩ (.single "eth_sign") none, .create ⟨"site"⟩ .empty none,
        .create ⟨"shop"⟩ .empty none, .rejectOrigin ⟨"site"⟩ none,
        .create ⟨"site"⟩ .empty none]).gate.pending.ids = [⟨⟨1⟩⟩, ⟨⟨2⟩⟩] ∧
      (s.deal [.create ⟨"site"⟩ (.single "eth_sign") none, .create ⟨"site"⟩ .empty none,
        .create ⟨"shop"⟩ .empty none, .rejectOrigin ⟨"site"⟩ none,
        .create ⟨"site"⟩ .empty none]).OnePerOrigin := by
  refine ⟨⟨⟨Settings.signing.registry, true, .empty, .empty⟩, .initial []⟩, rfl, ?_, ?_⟩
  · decide
  · exact onePerOrigin_deal rfl _ (by unfold World.Fresh; decide)

end System

end OriginGate
