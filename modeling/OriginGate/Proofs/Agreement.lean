import OriginGate.Proofs.Equality
import OriginGate.Proofs.Ownership

/-!
# Systems that agree on one origin

* `Store.Agrees`, `Pending.Agrees` : what is granted to an origin and recorded about it, its request,
  and whether the backend refuses writes;
* `System.Agrees` : also the settings, what the wallet answers, and the ids and times to come;
* `Store.Agrees.put` : whether a state is written does not depend on the other origins;
* `System.Agrees.carryOut` : a command on behalf of the origin answers the same, and the systems agree
  afterwards; `Approving.poll_agrees` : so does an approval of its request.
-/

namespace OriginGate

/-! ## Stores -/

/-- What a backend refuses a write with, if it does. -/
def Backend.refusal? : Backend → Option StoreError
  | memory b => if b.readOnly then some .readOnly else none
  | file b =>
    match b.entry with
    | .directory => some (.io "is a directory")
    | _ => none

/-- Whether a backend refuses a write depends neither on the state nor on earlier writes. -/
theorem Backend.persist_eq (next : State) (b : Backend) :
    ∃ c, c.refusal? = b.refusal? ∧ b.persist next = (c, b.refusal?.elim (.ok ()) .error) := by
  cases b with
  | memory b =>
    rcases h : b.readOnly with _ | _
    · exact ⟨.memory ⟨some next, b.writes + 1, false⟩, by simp [refusal?, h],
        by simp [persist, MemoryBackend.persist, refusal?, h]⟩
    · exact ⟨.memory b, rfl, by simp [persist, MemoryBackend.persist, refusal?, h]⟩
  | file b =>
    rcases h : b.entry with _ | content | _
    · exact ⟨.file ⟨.text (FileBackend.format next), false⟩, by simp [refusal?, h],
        by simp [persist, FileBackend.persist, refusal?, h]⟩
    · exact ⟨.file ⟨.text (FileBackend.format next), false⟩, by simp [refusal?, h],
        by simp [persist, FileBackend.persist, refusal?, h]⟩
    · exact ⟨.file { b with staged := true }, by simp [refusal?, h],
        by simp [persist, FileBackend.persist, refusal?, h]⟩

namespace State

variable {o : Origin}

theorem permissions_congr {s t : State} (h : t.domains.find? o = s.domains.find? o) :
    t.permissions o = s.permissions o := by
  rw [permissions, permissions, h]

/-! What a change makes of a state equals it according to the entry of the origin alone. -/

theorem setPermissions_beq (o : Origin) (ps : List Permission) (s : State) :
    (s.setPermissions o ps == s) =
      if ps.isEmpty then (s.domains.find? o).isNone
      else (s.domains.find? o).any (Domain.mk ps == ·) := by
  rw [beq_eq]
  unfold setPermissions
  split
  · simp [SortedMap.erase_beq]
  · simp [SortedMap.insert_beq]

theorem grant_beq (o : Origin) (ps : List Permission) (s : State) :
    (s.grant o ps == s) = (s.domains.find? o).any
      (Domain.mk ((s.permissions o).filter (!regranted ps ·) ++ ps) == ·) := by
  rw [beq_eq]
  simp [grant, SortedMap.insert_beq]

theorem setMetadata_beq (o : Origin) (m : SiteMetadata) (s : State) :
    (s.setMetadata o m == s) = (s.siteMetadata? o).any (m == ·) := by
  rw [beq_eq, siteMetadata?]
  simp [setMetadata, SortedMap.insert_beq]

end State

namespace Store

/-- Two stores hold the same for an origin, and their backends refuse writes alike. -/
structure Agrees (o : Origin) (s t : Store) : Prop where
  domain : t.state.domains.find? o = s.state.domains.find? o
  metadata : t.state.siteMetadata? o = s.state.siteMetadata? o
  refusal : t.backend.refusal? = s.backend.refusal?

namespace Agrees

variable {o : Origin} {s t : Store}

/-- States that hold the same for the origin are put alike, if both are shown already or neither. -/
theorem put (h : s.Agrees o t) {next other : State}
    (shown : (other == t.state) = (next == s.state))
    (domain : other.domains.find? o = next.domains.find? o)
    (metadata : other.siteMetadata? o = next.siteMetadata? o) :
    (s.put next).1.Agrees o (t.put other).1 ∧ (t.put other).2 = (s.put next).2 := by
  obtain ⟨b, hb, hpersist⟩ := s.backend.persist_eq next
  obtain ⟨c, hc, hpersist'⟩ := t.backend.persist_eq other
  have hrefusal : c.refusal? = b.refusal? := hc.trans (h.refusal.trans hb.symm)
  unfold Store.put
  rw [shown, hpersist, hpersist', h.refusal]
  split
  · exact ⟨h, rfl⟩
  · cases s.backend.refusal? with
    | none => exact ⟨⟨domain, metadata, hrefusal⟩, rfl⟩
    | some e => exact ⟨⟨h.domain, h.metadata, hrefusal⟩, rfl⟩

theorem grant (h : s.Agrees o t) (ps : List Permission) :
    (s.grant o ps).1.Agrees o (t.grant o ps).1 ∧ (t.grant o ps).2 = (s.grant o ps).2 := by
  have hpermissions := State.permissions_congr h.domain
  refine h.put ?_ ?_ h.metadata
  · rw [State.grant_beq, State.grant_beq, h.domain, hpermissions]
  · rw [State.grant, State.grant, SortedMap.find?_insert, SortedMap.find?_insert, hpermissions,
      if_pos rfl, if_pos rfl]

theorem setPermissions (h : s.Agrees o t) (ps : List Permission) :
    (s.setPermissions o ps).1.Agrees o (t.setPermissions o ps).1 ∧
      (t.setPermissions o ps).2 = (s.setPermissions o ps).2 := by
  refine h.put ?_ ?_ h.metadata
  · rw [State.setPermissions_beq, State.setPermissions_beq, h.domain]
  · unfold State.setPermissions
    split
    · rw [SortedMap.find?_erase, SortedMap.find?_erase, if_pos rfl, if_pos rfl]
    · rw [SortedMap.find?_insert, SortedMap.find?_insert, if_pos rfl, if_pos rfl]

theorem revoke (h : s.Agrees o t) (methods : List String) :
    (s.revoke o methods).1.Agrees o (t.revoke o methods).1 ∧
      (t.revoke o methods).2 = (s.revoke o methods).2 := by
  have hpermissions := State.permissions_congr h.domain
  obtain ⟨hstores, hresult⟩ :=
    h.setPermissions ((s.state.permissions o).filter (·.capability ∉ methods))
  simp only [Store.setPermissions] at hstores hresult
  simp only [Store.revoke, State.revoke, State.revoked, hpermissions]
  exact ⟨hstores, by rw [hresult]⟩

theorem setMetadata (h : s.Agrees o t) (m : SiteMetadata) :
    (s.setMetadata o m).1.Agrees o (t.setMetadata o m).1 ∧
      (t.setMetadata o m).2 = (s.setMetadata o m).2 := by
  refine h.put ?_ h.domain ?_
  · rw [State.setMetadata_beq, State.setMetadata_beq, h.metadata]
  · simp only [State.siteMetadata?, State.setMetadata, SortedMap.find?_insert, if_true]

end Agrees

end Store

/-! ## Requests -/

namespace Pending

/-- The origin has the same request in both, or none. -/
structure Agrees (o : Origin) (p q : Pending) : Prop where
  idFor : q.idFor? o = p.idFor? o
  request : ∀ id, p.idFor? o = some id → q.find? id = p.find? id

variable {o : Origin} {p q : Pending} {id : RequestId} {e f : PendingRequest}

/-- The request of an origin is listed for it. -/
theorem Listed.idFor?_of_find? (h : p.Listed) {r : PermissionsRequest} (hr : p.find? id = some r) :
    p.idFor? r.origin = some id := by
  obtain ⟨e, he, rfl⟩ := Option.map_eq_some_iff.1 hr
  obtain ⟨hmem, rfl⟩ := lookUp?_spec he
  exact h.listed e hmem

namespace Agrees

theorem add (he : e.origin = o) (hf : f.request = e.request) : (p.add e).Agrees o (q.add f) := by
  have hid : f.id = e.id := congrArg PermissionsRequest.id hf
  have horigin : f.origin = o := (congrArg PermissionsRequest.origin hf).trans he
  constructor
  · rw [idFor?_add, idFor?_add, if_pos horigin.symm, if_pos he.symm, hid]
  · intro id hlisted
    rw [idFor?_add, if_pos he.symm] at hlisted
    cases hlisted
    have hfind := find?_add_self f q
    rw [hid] at hfind
    rw [hfind, find?_add_self, hf]

theorem without (he : e.origin = o) (hf : f.origin = o) : (p.without e).Agrees o (q.without f) := by
  constructor
  · rw [idFor?_without, idFor?_without, if_pos hf.symm, if_pos he.symm]
  · intro id hlisted
    rw [idFor?_without, if_pos he.symm] at hlisted
    cases hlisted

/-- A request of the origin in one of the two is one in the other. -/
theorem find?_eq (h : p.Agrees o q) (listed : p.Listed) {r : PermissionsRequest}
    (hr : p.find? id = some r) (horigin : r.origin = o) : q.find? id = some r := by
  have hid := listed.idFor?_of_find? hr
  rw [horigin] at hid
  rw [h.request id hid, hr]

/-- The same is found in both under an id that nobody uses but the origin. -/
theorem find?_congr (h : p.Agrees o q) (hp : p.Listed) (hq : q.Listed)
    (ofP : ∀ r, p.find? id = some r → r.origin = o)
    (ofQ : ∀ r, q.find? id = some r → r.origin = o) : q.find? id = p.find? id := by
  rcases hfind : p.find? id with _ | r
  · rcases hother : q.find? id with _ | r
    · rfl
    · have hid := hq.idFor?_of_find? hother
      rw [ofQ r hother, h.idFor] at hid
      rw [h.request id hid, hfind] at hother
      cases hother
  · exact h.find?_eq hp hfind (ofP r hfind)

end Agrees

end Pending

/-! ## What is drawn, and what the wallet answers -/

/-- The same ids and times are still to come. -/
structure Supply.Agrees (s t : Supply) : Prop where
  id : ∀ k, t.id (t.drawn + k) = s.id (s.drawn + k)
  time : ∀ k, t.time (t.drawn + k) = s.time (s.drawn + k)

namespace Supply.Agrees

variable {s t : Supply}

/-- The same are still to come after one draw. -/
theorem next (h : s.Agrees t) :
    Agrees { s with drawn := s.drawn + 1 } { t with drawn := t.drawn + 1 } where
  id k := by simpa only [Nat.add_assoc] using h.id (1 + k)
  time k := by simpa only [Nat.add_assoc] using h.time (1 + k)

theorem drawRequestId (h : s.Agrees t) :
    s.drawRequestId.2.Agrees t.drawRequestId.2 ∧ t.drawRequestId.1 = s.drawRequestId.1 :=
  ⟨h.next, congrArg RequestId.mk (h.id 0)⟩

theorem drawPermissions (h : s.Agrees t) (o : Origin) (grants : List (String × List Caveat)) :
    (s.drawPermissions o grants).2.Agrees (t.drawPermissions o grants).2 ∧
      (t.drawPermissions o grants).1 = (s.drawPermissions o grants).1 := by
  induction grants generalizing s t with
  | nil => exact ⟨h, rfl⟩
  | cons g rest ih =>
    obtain ⟨hrest, heq⟩ := ih h.next
    refine ⟨hrest, ?_⟩
    have hid : t.id t.drawn = s.id s.drawn := h.id 0
    have htime : t.time t.drawn = s.time s.drawn := h.time 0
    simp only [Supply.drawPermissions, drawPermission, heq, hid, htime]

end Supply.Agrees

/-- Two wallets have the same accounts and answers, and both are busy or neither. -/
structure Wallet.Agrees (v w : Wallet) : Prop where
  accounts : w.accounts = v.accounts
  answer : w.answer = v.answer
  busy : w.busy = v.busy

/-! ## Systems -/

namespace System

/-- Two systems have the same settings and surroundings, and hold the same for an origin. They may
differ in all that they hold for others. -/
structure Agrees (o : Origin) (s t : System) : Prop where
  registry : t.gate.registry = s.gate.registry
  validateAccounts : t.gate.validateAccounts = s.gate.validateAccounts
  store : s.store.Agrees o t.store
  pending : s.gate.pending.Agrees o t.gate.pending
  wallet : s.world.wallet.Agrees t.world.wallet
  supply : s.world.supply.Agrees t.world.supply

namespace Agrees

variable {o : Origin} {s t : System}

/-! ### What is read -/

theorem siteMetadata? (h : s.Agrees o t) :
    t.gate.state.siteMetadata? o = s.gate.state.siteMetadata? o := h.store.metadata

theorem permissions (h : s.Agrees o t) :
    t.gate.state.permissions o = s.gate.state.permissions o :=
  State.permissions_congr h.store.domain

theorem permission? (h : s.Agrees o t) (method : String) :
    t.gate.state.permission? o method = s.gate.state.permission? o method := by
  rw [State.permission?, State.permission?, h.permissions]

theorem accounts (h : s.Agrees o t) : t.accounts o = s.accounts o := by
  simp only [System.accounts, Gate.accounts, h.permission?]

theorem validate (h : s.Agrees o t) (requested : RequestedPermissions) :
    t.gate.validate requested = s.gate.validate requested := by
  simp only [Gate.validate, h.registry]

theorem authorize (h : s.Agrees o t) (method : String) (params : Json) :
    t.gate.registry.authorize t.gate.state o method params =
      s.gate.registry.authorize s.gate.state o method params := by
  rw [h.registry]
  simp only [Registry.authorize, h.permission?]

/-! ### What is changed -/

theorem update {α : Type} (h : s.Agrees o t) {change other : Store → Store × Except StoreError α}
    (stores : (change s.store).1.Agrees o (other t.store).1 ∧
      (other t.store).2 = (change s.store).2) :
    (s.update change).1.Agrees o (t.update other).1 ∧
      (t.update other).2 = (s.update change).2 :=
  ⟨⟨h.registry, h.validateAccounts, stores.1, h.pending, h.wallet, h.supply⟩, stores.2⟩

theorem revoke (h : s.Agrees o t) (methods : List String) :
    (s.revoke o methods).1.Agrees o (t.revoke o methods).1 ∧
      (t.revoke o methods).2 = (s.revoke o methods).2 := by
  obtain ⟨hsystems, hresult⟩ := h.update (h.store.revoke methods)
  exact ⟨hsystems, congrArg (Except.mapError PermissionError.store) hresult⟩

theorem recordMetadata (h : s.Agrees o t) (report : Option SiteReport)
    (extensionId : Option String) :
    (s.recordMetadata o report extensionId).1.Agrees o (t.recordMetadata o report extensionId).1 ∧
      (t.recordMetadata o report extensionId).2 = (s.recordMetadata o report extensionId).2 := by
  unfold System.recordMetadata
  split
  · exact ⟨h, rfl⟩
  · rename_i name _
    obtain ⟨hsystems, hresult⟩ := h.update (h.store.setMetadata ⟨name, extensionId⟩)
    exact ⟨hsystems, congrArg (Except.mapError PermissionError.store) hresult⟩

theorem logUsage (h : s.Agrees o t) (e : UsageEvent) :
    (s.logUsage o e).Agrees o (t.logUsage o e) :=
  ⟨h.registry, h.validateAccounts, h.store, h.pending, h.wallet, h.supply⟩

theorem deliver (h : s.Agrees o t) (e f : PendingRequest) (d : Decision) :
    (s.deliver e d).Agrees o (t.deliver f d) :=
  ⟨h.registry, h.validateAccounts, h.store, h.pending, h.wallet, h.supply⟩

theorem withdraw (h : s.Agrees o t) {e f : PendingRequest} (he : e.origin = o)
    (hf : f.origin = o) : (s.withdraw e).Agrees o (t.withdraw f) :=
  ⟨h.registry, h.validateAccounts, h.store, .without he hf, h.wallet, h.supply⟩

end Agrees

/-- A request of an origin is found under an id in both, or none is. -/
inductive Finds (o : Origin) (id : RequestId) (s t : System) : Prop where
  | absent (hs : s.gate.pending.lookUp? id = none) (ht : t.gate.pending.lookUp? id = none)
  | found {e f : PendingRequest} (he : s.gate.pending.lookUp? id = some e)
    (hf : t.gate.pending.lookUp? id = some f) (ofE : e.origin = o) (ofF : f.origin = o)

theorem finds_of_find? {o : Origin} {id : RequestId} {s t : System}
    (same : t.gate.pending.find? id = s.gate.pending.find? id)
    (own : ∀ r, s.gate.pending.find? id = some r → r.origin = o) : Finds o id s t := by
  rcases h : s.gate.pending.lookUp? id with _ | e
  · rw [Pending.find?, Pending.find?, h, Option.map_none, Option.map_eq_none_iff] at same
    exact .absent h same
  · rw [Pending.find?, Pending.find?, h] at same
    obtain ⟨f, hf, hrequest⟩ := Option.map_eq_some_iff.1 same
    have horigin : e.origin = o := own e.request (by rw [Pending.find?, h]; rfl)
    exact .found h hf horigin ((congrArg PermissionsRequest.origin hrequest).trans horigin)

namespace Agrees

variable {o : Origin} {s t : System}

/-- A request of the origin in one system is found in both. -/
theorem finds (h : s.Agrees o t) (listed : s.gate.pending.Listed) {id : RequestId}
    {r : PermissionsRequest} (hr : s.gate.pending.find? id = some r) (horigin : r.origin = o) :
    Finds o id s t := by
  refine finds_of_find? ?_ fun q hq => ?_
  · rw [hr, h.pending.find?_eq listed hr horigin]
  · cases hr.symm.trans hq
    exact horigin

theorem resolve (h : s.Agrees o t) {id : RequestId} (finds : Finds o id s t) (d : Decision) :
    (s.resolve id d).1.Agrees o (t.resolve id d).1 ∧
      (t.resolve id d).2 = (s.resolve id d).2 := by
  cases finds with
  | absent hs ht =>
    rw [resolve_absent d hs, resolve_absent d ht]
    exact ⟨h, rfl⟩
  | @found e f hs ht he hf =>
    rw [resolve_found d hs, resolve_found d ht]
    exact ⟨(h.withdraw he hf).deliver e f d, rfl⟩

/-- A command on behalf of the origin answers the same in both. -/
theorem carryOut (h : s.Agrees o t) (paired : s.gate.pending.Paired) {c : Command}
    (behalf : c.behalf? s = some o) :
    (c.carryOut s).1.Agrees o (c.carryOut t).1 ∧ (c.carryOut t).2 = (c.carryOut s).2 := by
  cases c with
  | reject id reason =>
    obtain ⟨r, hr, horigin⟩ := Option.map_eq_some_iff.1 behalf
    have hfinds := h.finds paired.toListed hr horigin
    obtain ⟨hsystems, hresult⟩ := h.resolve hfinds (.error (reason.getD .rejected))
    exact ⟨hsystems, congrArg Answer.done hresult⟩
  | rejectOrigin q =>
    cases behalf
    simp only [Command.carryOut, rejectOrigin, h.pending.idFor]
    rcases hid : s.gate.pending.idFor? o with _ | id
    · simpa using h
    · obtain ⟨r, hr, -, horigin⟩ := paired.idFor?_eq_some_iff.1 hid
      have hfinds := h.finds paired.toListed hr horigin
      obtain ⟨hsystems, hresult⟩ := h.resolve hfinds (.error .rejected)
      simp only [reject, Option.getD_none]
      rcases hs : s.resolve id (.error .rejected) with ⟨s', e | u⟩ <;>
        rcases ht : t.resolve id (.error .rejected) with ⟨t', e' | u'⟩ <;>
        rw [hs, ht] at hsystems hresult
      · exact ⟨hsystems, rfl⟩
      · cases hresult
      · cases hresult
      · exact ⟨hsystems, rfl⟩
  | recordMetadata q report extensionId =>
    cases behalf
    obtain ⟨hsystems, hresult⟩ := h.recordMetadata report extensionId
    exact ⟨hsystems, congrArg Answer.done hresult⟩
  | revoke q methods =>
    cases behalf
    obtain ⟨hsystems, hresult⟩ := h.revoke methods
    exact ⟨hsystems, congrArg Answer.revoked hresult⟩
  | clear => cases behalf
  | logUsage q e =>
    cases behalf
    exact ⟨h.logUsage e, rfl⟩

end Agrees

end System

/-! ## Approvals -/

namespace Approving

variable {o : Origin} {s t : System} {a : Approving}

theorem check_agrees (h : s.Agrees o t) (a : Approving) : a.check t = a.check s := by
  simp only [check, h.validate, h.validateAccounts, h.wallet.busy, h.wallet.accounts]

theorem finalize_agrees (h : s.Agrees o t) (checked : Except PermissionError Unit) :
    (a.finalize checked s).1.Agrees o (a.finalize checked t).1 ∧
      (a.finalize checked t).2 = (a.finalize checked s).2 := by
  cases checked with
  | error e => exact ⟨h, rfl⟩
  | ok u =>
    obtain ⟨hsupply, hdrawn⟩ := h.supply.drawPermissions a.origin a.grants
    exact ⟨⟨h.registry, h.validateAccounts, h.store, h.pending, h.wallet, hsupply⟩,
      congrArg Except.ok hdrawn⟩

theorem commit_agrees (h : s.Agrees o t) (ha : a.origin = o) (finalized : Decision) :
    (a.commit finalized s).1.Agrees o (a.commit finalized t).1 ∧
      (a.commit finalized t).2 = (a.commit finalized s).2 := by
  cases finalized with
  | error e => exact ⟨h, rfl⟩
  | ok permissions =>
    subst ha
    obtain ⟨hsystems, hresult⟩ := h.update (h.store.grant permissions)
    simp only [commit]
    rcases hs : s.update (·.grant a.origin permissions) with ⟨s', e | u⟩ <;>
      rcases ht : t.update (·.grant a.origin permissions) with ⟨t', e' | u'⟩ <;>
      rw [hs, ht] at hsystems hresult <;> cases hresult
    · exact ⟨hsystems, rfl⟩
    · exact ⟨hsystems, rfl⟩

/-- Drawing permissions leaves the requests. -/
theorem finalize_pending (checked : Except PermissionError Unit) (a : Approving) (s : System) :
    (a.finalize checked s).1.gate.pending = s.gate.pending := by
  cases checked <;> rfl

theorem finish_agrees (h : s.Agrees o t) (ha : a.origin = o) (finds : System.Finds o a.approved.id s t)
    (checked : Except PermissionError Unit) :
    (a.finish checked s).1.Agrees o (a.finish checked t).1 ∧
      (a.finish checked t).2 = (a.finish checked s).2 := by
  obtain ⟨hfinalized, hdecision⟩ := finalize_agrees (a := a) h checked
  have hs := finalize_pending checked a s
  have ht := finalize_pending checked a t
  simp only [finish, hdecision]
  generalize a.finalize checked s = r at hfinalized hs
  generalize (a.finalize checked t).1 = t' at hfinalized ht
  obtain ⟨s', finalized⟩ := r
  cases finds with
  | absent hnone hnone' =>
    rw [System.take_absent (hs ▸ hnone), System.take_absent (ht ▸ hnone')]
    exact ⟨hfinalized, rfl⟩
  | @found e f he hf ofE ofF =>
    rw [System.take_found (hs ▸ he), System.take_found (ht ▸ hf)]
    obtain ⟨hcommitted, hresult⟩ := commit_agrees (hfinalized.withdraw ofE ofF) ha finalized
    simp only [hresult, and_true]
    exact hcommitted.deliver e f _

/-- An approval of a request of the origin ends alike in both, or waits in both. -/
theorem poll_agrees (h : s.Agrees o t) (ha : a.origin = o) (finds : System.Finds o a.approved.id s t) :
    (a.poll s).1.Agrees o (a.poll t).1 ∧ (a.poll t).2 = (a.poll s).2 := by
  unfold poll
  rw [check_agrees h]
  split
  · exact ⟨h, rfl⟩
  · rename_i checked _
    obtain ⟨hsystems, hdecision⟩ := finish_agrees h ha finds checked
    exact ⟨hsystems, congrArg Progress.done hdecision⟩

end Approving

end OriginGate
