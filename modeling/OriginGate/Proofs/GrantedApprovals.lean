import OriginGate.Proofs.ByteOrder
import OriginGate.Proofs.FailedApprovals
import OriginGate.Proofs.Mapping
import OriginGate.Proofs.Shape

/-!
# Approvals that grant

* `Gate.accounts_congr` : gates with equal states show an origin the same accounts;
* `Approving.Yields` : what an approval grants: one permission for each approved method, with its
  caveats (`yields_drawn`);
* `Approving.Yields.regranted`, `Approving.Yields.accounts_grant` : which permissions it replaces,
  and the accounts of the origin after it;
* `Session.GrantedApproval` : what an approval leaves that grants something;
  `Session.grantedApprovals_run` : so it is after any run.
-/

namespace OriginGate

/-! ## Equal states -/

theorem Gate.accounts_congr {g h : Gate} (same : g.state == h.state) (o : Origin) :
    g.accounts o = h.accounts o := by
  have hkind : ∀ c d : Caveat, (c == d) = true →
      decide (c.kind = .accounts) = decide (d.kind = .accounts) := by
    intro c d hcd
    rw [Caveat.kind_of_beq hcd]
  unfold accounts
  rcases some_of_beq (State.permission?_beq same o accountsMethod) with
    ⟨hp, hq⟩ | ⟨p, q, hp, hq, hpq⟩
  · rw [hp, hq]
  · rw [hp, hq, Option.bind_some, Option.bind_some, Permission.caveat?, Permission.caveat?]
    rcases some_of_beq (beq_find? (Permission.sameFields_of_beq hpq).caveats hkind) with
      ⟨hc, hd⟩ | ⟨c, d, hc, hd, hcd⟩
    · rw [hc, hd]
    · rw [hc, hd]
      cases c with
      | accounts as =>
        cases d with
        | accounts bs => exact eq_of_beq (show (as == bs) = true from hcd)
        | _ => cases hcd
      | _ =>
        cases d with
        | accounts bs => cases hcd
        | _ => rfl

/-! ## What is granted -/

namespace Approving

/-- What an approval grants: in order of the methods, one permission for each that was approved. -/
structure Yields (a : Approving) (granted : List Permission) : Prop where
  methods : granted.map (·.capability) = a.approved.permissions.keys
  ascending : granted.Pairwise fun p q => bytes p.capability < bytes q.capability
  invoker : ∀ p ∈ granted, p.invoker = a.origin
  /-- The accounts of the approval come first, in place of those among the approved caveats. -/
  accounts : ∀ p ∈ granted, p.capability = accountsMethod →
    ∃ approved, a.approved.permissions.find? accountsMethod = some approved ∧
      p.caveats = .accounts a.accounts :: approved.caveats.filter (·.kind ≠ .accounts)
  others : ∀ p ∈ granted, p.capability ≠ accountsMethod →
    ∃ approved, a.approved.permissions.find? p.capability = some approved ∧
      p.caveats = approved.caveats

theorem yields_drawn (a : Approving) (supply : Supply) :
    a.Yields (supply.drawPermissions a.origin a.grants).1 := by
  have hinvoker := (Supply.drawPermissions_map a.origin a.grants supply).2
  have happroved : ∀ p ∈ (supply.drawPermissions a.origin a.grants).1, ∃ approved,
      a.approved.permissions.find? p.capability = some approved ∧
        p.caveats = a.caveats p.capability approved := by
    intro p hp
    obtain ⟨e, he, hcapability, hcaveats⟩ := mem_drawn hp
    rw [hcapability]
    exact ⟨e.2, SortedMap.find?_eq_some_iff.2 he, hcaveats⟩
  refine ⟨a.methods_drawn supply, ?ascending, hinvoker, ?accounts, ?others⟩
  case ascending =>
    have hkeys := a.approved.permissions.keys_ascend_bytes
    rw [← a.methods_drawn supply, List.pairwise_map] at hkeys
    exact hkeys
  case accounts =>
    intro p hp haccounts
    obtain ⟨approved, hfind, hcaveats⟩ := happroved p hp
    rw [haccounts] at hfind hcaveats
    exact ⟨approved, hfind, hcaveats⟩
  case others =>
    intro p hp hother
    obtain ⟨approved, hfind, hcaveats⟩ := happroved p hp
    rw [Approving.caveats, if_neg hother] at hcaveats
    exact ⟨approved, hfind, hcaveats⟩

variable {a : Approving} {granted : List Permission}

theorem Yields.regranted (h : a.Yields granted) (ps : List Permission) :
    ps.filter (!State.regranted granted ·) =
      ps.filter (·.capability ∉ a.approved.permissions.keys) := by
  rw [State.filter_regranted, h.methods]

/-- The accounts that an origin may see after a grant: those of the approval if it was for the
accounts, otherwise those from before. -/
theorem Yields.accounts_grant (h : a.Yields granted) {g next : Gate}
    (state : next.state = g.state.grant a.origin granted) :
    next.accounts a.origin =
      if a.approved.permissions.contains accountsMethod then a.accounts
      else g.accounts a.origin := by
  rw [Gate.accounts, state, State.permission?_grant]
  by_cases happroved : a.approved.permissions.contains accountsMethod = true
  · rw [if_pos happroved]
    have hsome : (granted.find? (·.capability = accountsMethod)).isSome := by
      obtain ⟨q, hq, hcapability⟩ := List.mem_map.1 (h.methods ▸ SortedMap.mem_keys_iff.2 happroved)
      exact List.find?_isSome.2 ⟨q, hq, decide_eq_true hcapability⟩
    obtain ⟨p, hp⟩ := Option.isSome_iff_exists.1 hsome
    obtain ⟨approved, -, hcaveats⟩ :=
      h.accounts p (List.mem_of_find?_eq_some hp) (by simpa using List.find?_some hp)
    rw [hp, Option.some_or, Option.bind_some, Permission.caveat?, hcaveats]
    rfl
  · have hnone : granted.find? (·.capability = accountsMethod) = none := by
      refine List.find?_eq_none.2 fun p hp hcapability => happroved ?_
      rw [← SortedMap.mem_keys_iff, ← h.methods, ← of_decide_eq_true hcapability]
      exact List.mem_map_of_mem hp
    rw [if_neg happroved, hnone, Option.none_or]
    rfl

end Approving

/-! ## Every run -/

namespace Session

variable {s : Session} {a : Action}

/-- What an approval leaves that ends with a grant. -/
structure GrantedApproval (s : Session) (a : Action) (approving : Approving) (e : PendingRequest)
    (granted : List Permission) : Prop where
  yields : approving.Yields granted
  /-- The origin holds what it held for other methods, and after that what is granted. The store
  does not write what equals the visible state; with new ids nothing does. -/
  held : (s.gate.state.permissions approving.origin).filter
      (·.capability ∉ approving.approved.permissions.keys) ++ granted ==
    (s.after a).gate.state.permissions approving.origin
  heldNew : (∀ p ∈ granted, ∀ q ∈ s.gate.state.permissions approving.origin, q.id ≠ p.id) →
    (s.after a).gate.state.permissions approving.origin =
      (s.gate.state.permissions approving.origin).filter
        (·.capability ∉ approving.approved.permissions.keys) ++ granted
  origins : ∀ o, o ≠ approving.origin →
    (s.after a).gate.state.domains.find? o = s.gate.state.domains.find? o
  metadata : (s.after a).gate.state.metadata = s.gate.state.metadata
  /-- The request is registered no longer, and all others are as before. -/
  freed : s.system.Freed (s.after a).system e
  accounts : (s.after a).system.accounts approving.origin =
    if approving.approved.permissions.contains accountsMethod then approving.accounts
    else s.system.accounts approving.origin
  /-- Whoever awaits the decision waits on, and is told what was granted whenever the operation is
  taken up. -/
  waiting : ∀ v ∈ s.waiting, ∀ c ∈ v.waiter.awaiting, c.ticket = e.ticket →
    v ∈ (s.after a).waiting
  told : ∀ later, ∀ v ∈ ((s.after a).run later).waiting, ∀ c ∈ v.waiter.awaiting,
    c.ticket = e.ticket →
      c.poll ((s.after a).run later).system = .done (.ok granted) ∧
        (v.waiter = .requestPermissions c →
          ((s.after a).run later).answers (.poll v.number) =
            .ended v.number (.decision (.ok granted)))

theorem Approves.ended {id : RequestId} {d : Decision} (h : s.Approves a id d) {n : Nat}
    {approving : Approving} (under : s.approving? a = some (n, approving)) :
    s.answers a = .ended n (.decision d) := by
  cases h with
  | @atOnce approved accounts m _ h =>
    obtain ⟨r, -, hpair⟩ := Option.map_eq_some_iff.1 under
    cases hpair
    have hended := h
    rw [answers_start] at h
    split at h
    · rw [hended, ← (Answer.ended.inj h).1]
    · cases h
  | later hw h =>
    rw [approving?, hw] at under
    cases under
    exact h

theorem grantedApproval_step (hu : s.Undivided) (hn : s.Numbered) (tended : s.system.Tended)
    (attentive : ∀ actions, (s.run actions).Attentive) {approving : Approving} {e : PendingRequest}
    {granted : List Permission} (h : s.Approves a approving.approved.id (.ok granted))
    (finished : approving.Finished s.system (s.after a).system (.ok granted))
    (decides : s.system.Decides e (.ok granted) (s.after a).system) :
    s.GrantedApproval a approving e granted := by
  have hafter := undivided_after hu a
  obtain ⟨-, hdrawn⟩ := finished.valid
  have hyields : approving.Yields granted := hdrawn ▸ approving.yields_drawn _
  obtain ⟨htaken, hnew⟩ := finished.stored
  have hgranted : (s.gate.state.grant approving.origin granted).permissions approving.origin =
      (s.gate.state.permissions approving.origin).filter
        (·.capability ∉ approving.approved.permissions.keys) ++ granted := by
    rw [State.permissions_grant, if_pos rfl, hyields.regranted]
  have hstate : (s.after a).gate.state = s.gate.state.grant approving.origin granted ∨
      (s.gate.state.grant approving.origin granted == s.gate.state) = true ∧
        (s.after a).gate.state = s.gate.state := htaken.state_of_ok
  have hsame : s.gate.state.grant approving.origin granted == (s.after a).gate.state :=
    htaken.beq
  refine ⟨hyields, ?held, ?heldNew, ?origins, ?metadata, decides.freed tended, ?accounts, ?waiting,
    ?told⟩
  case held =>
    rw [← hgranted]
    exact State.permissions_beq hsame _
  case heldNew =>
    intro new
    rw [← hgranted]
    exact congrArg (State.permissions approving.origin) (hnew new).1
  case origins =>
    intro o ho
    rcases hstate with h | ⟨-, h⟩
    · rw [h]
      exact (SortedMap.find?_insert _ _ _ _).trans (if_neg ho)
    · rw [h]
  case metadata =>
    rcases hstate with h | ⟨-, h⟩
    · rw [h]
      rfl
    · rw [h]
  case accounts =>
    let next : Gate := { s.gate with state := s.gate.state.grant approving.origin granted }
    have hnext : next.accounts approving.origin = (s.after a).gate.accounts approving.origin :=
      Gate.accounts_congr hsame _
    exact hnext.symm.trans (hyields.accounts_grant rfl)
  case waiting =>
    intro v hv c hc _
    refine h.keeps_waiting hu hn hv fun b hb => ?_
    rw [hb] at hc
    exact absurd hc List.not_mem_nil
  case told =>
    intro later v hv c hc hticket
    have hpoll := told_run hafter decides tended (attentive (a :: later)) hv hc hticket
    refine ⟨hpoll, fun hrequest => ?_⟩
    have hnumbered := numbered_run hafter (numbered_after hu hn a) later
    exact answers_poll (undivided_run hafter later) hnumbered hv hrequest hpoll

/-- After any run of a new session, an approval that succeeds grants what was approved to the origin
whose request it found when it began, in place of what the origin held for the same methods, and
tells it to whoever awaits the decision. -/
theorem grantedApprovals_run {settings : Settings} {w : World} (created : create settings w = .ok s)
    {before : List Action} {id : RequestId} {granted : List Permission}
    (h : (s.run before).Approves a id (.ok granted)) :
    ∃ n approving e, approving.approved.id = id ∧ s.Began (before ++ [a]) n approving ∧
      (s.run before).answers a = .ended n (.decision (.ok granted)) ∧ e.id = id ∧
      ((s.run before).world.Fresh → e.origin = approving.origin) ∧
      (s.run before).GrantedApproval a approving e granted := by
  have hs := undivided_create created
  have hu := undivided_run hs before
  have hwaiting := waiting_create created
  rcases h.ends hu with ⟨-, hd, -⟩ | ⟨n, approving, rfl, under, finished⟩
  · cases hd
  rcases finished.decides with ⟨-, hd, -⟩ | ⟨e, he, hdecides⟩
  · cases hd
  have hfound := hdecides.found
  rw [he] at hfound
  obtain ⟨-, -, r, -, -, -, horigin, hsame⟩ :=
    approving_request hs (orderly_create created) hwaiting under hfound
  refine ⟨n, approving, e, rfl, began_approving hs hwaiting under, h.ended under, he,
    fun fresh => (congrArg _ (hsame fresh)).trans horigin, ?_⟩
  refine grantedApproval_step hu (numbered_run hs (numbered_create created) before)
    (tended_run created before) (fun actions => ?_) h finished hdecides
  rw [← run_append]
  exact attentive_run created (before ++ actions)

/-- A site that may sign asks for the accounts. Both are approved, one account twice, beside an
account caveat that goes. -/
theorem grantedApprovals_run_again :
    ∃ s before a granted, create .signing (.initial [⟨1⟩, ⟨2⟩]) = .ok s ∧
      (s.run before).gate.state.permissions ⟨"site"⟩ = [⟨⟨1⟩, "eth_sign", ⟨"site"⟩, [], 1⟩] ∧
      granted = [⟨⟨3⟩, accountsMethod, ⟨"site"⟩, [.accounts [⟨2⟩, ⟨1⟩, ⟨2⟩], .limitLength 1], 3⟩,
        ⟨⟨4⟩, "eth_sign", ⟨"site"⟩, [], 4⟩] ∧
      (s.run before).Approves a ⟨⟨2⟩⟩ (.ok granted) ∧
      ((s.run before).after a).system.accounts ⟨"site"⟩ = [⟨2⟩, ⟨1⟩, ⟨2⟩] ∧
      ∃ approving e, (s.run before).GrantedApproval a approving e granted := by
  have created : create .signing (.initial [⟨1⟩, ⟨2⟩]) =
      .ok ⟨.signing, .initial [⟨1⟩, ⟨2⟩], ⟨Settings.signing.registry, true, .empty, .empty⟩, 0, [],
        [], 0, []⟩ := rfl
  have happroves : (run [.start (.requestPermissions ⟨"site"⟩ (.single "eth_sign")),
      .start (.approve ⟨⟨⟨0⟩⟩, .single "eth_sign"⟩ []),
      .start (.requestPermissions ⟨"site"⟩ (.single accountsMethod))]
      ⟨.signing, .initial [⟨1⟩, ⟨2⟩], ⟨Settings.signing.registry, true, .empty, .empty⟩, 0, [], [],
        0, []⟩).Approves
      (.start (.approve ⟨⟨⟨2⟩⟩, (RequestedPermissions.single "eth_sign").insert accountsMethod
        ⟨[.accounts [⟨7⟩], .limitLength 1]⟩⟩ [⟨2⟩, ⟨1⟩, ⟨2⟩])) ⟨⟨2⟩⟩
      (.ok [⟨⟨3⟩, accountsMethod, ⟨"site"⟩, [.accounts [⟨2⟩, ⟨1⟩, ⟨2⟩], .limitLength 1], 3⟩,
        ⟨⟨4⟩, "eth_sign", ⟨"site"⟩, [], 4⟩]) := .atOnce (n := 4) rfl
  obtain ⟨n, approving, e, -, -, -, -, -, hgranted⟩ := grantedApprovals_run created happroves
  exact ⟨_, _, _, _, created, rfl, rfl, happroves, rfl, approving, e, hgranted⟩

end Session

end OriginGate
