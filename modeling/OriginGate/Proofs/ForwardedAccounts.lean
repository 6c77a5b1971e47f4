import OriginGate.Proofs.Served

/-!
# Accounts in calls that are forwarded

* `Caveats.effective` : the parameters that caveats leave, if none refuses
  (`effective_of_onParams`);
* `Caveats.Unforced`, `Caveats.Final` : a restriction of accounts, or any caveat, after which no
  parameters are forced (`onParams_final`);
* `Caveat.namedAccounts_ofJson` : a value that is sent names the accounts that it named before, and
  itself if it is the text of one;
* `System.Forwards` : a call of a restricted method reaches the wallet;
* `System.forwarded_accounts` : which restrictions hold of the accounts that it names there.

The restriction is checked on the value, where only lists name accounts. A text becomes a list of
one when it is sent, so that a text which is an account passes unchecked. The parameters of a site
are never a text by themselves (`System.site_accounts`).
-/

namespace OriginGate

/-! ## Caveats that let a call through -/

namespace Caveats

/-- The parameters after all caveats, if none refuses: those forced last, or the given ones. -/
def effective (params : Json) (cs : List Caveat) : Json :=
  cs.foldl (fun params c => match c with
    | .forceParams forced => forced
    | _ => params) params

/-- A caveat restricts the accounts to these, and no caveat after it forces parameters. -/
def Unforced (allowed : List Account) (cs : List Caveat) : Prop :=
  ∃ early late, cs = early ++ .accounts allowed :: late ∧
    ∀ forced, Caveat.forceParams forced ∉ late

theorem effective_singleton {params out : Json} {c : Caveat} (h : c.onParams params = .ok out) :
    out = effective params [c] := by
  cases c with
  | accounts allowed =>
    simp only [Caveat.onParams] at h
    split at h
    · cases h
    · cases h
      rfl
  | forceParams forced =>
    cases h
    rfl
  | requireSubset allowed =>
    simp only [Caveat.onParams] at h
    split at h
    · cases h
    · split at h
      · cases h
      · cases h
        rfl
  | limitLength limit =>
    cases h
    rfl

theorem effective_of_onParams {params out : Json} {cs : List Caveat}
    (h : onParams params cs = .ok out) : out = effective params cs := by
  induction cs generalizing params with
  | nil =>
    cases h
    rfl
  | cons c rest ih =>
    rw [onParams] at h
    split at h
    · rename_i next hnext
      rw [ih h, effective_singleton hnext]
      rfl
    · cases h

theorem effective_unforced (params : Json) {cs : List Caveat}
    (h : ∀ forced, Caveat.forceParams forced ∉ cs) : effective params cs = params := by
  induction cs generalizing params with
  | nil => rfl
  | cons c rest ih =>
    have hrest := ih params fun forced hmem => h forced (List.mem_cons_of_mem _ hmem)
    cases c with
    | forceParams forced => exact absurd List.mem_cons_self (h forced)
    | accounts allowed => exact hrest
    | requireSubset allowed => exact hrest
    | limitLength limit => exact hrest

theorem onParams_append {params out : Json} {early late : List Caveat}
    (h : onParams params (early ++ late) = .ok out) :
    ∃ between, onParams params early = .ok between ∧ onParams between late = .ok out := by
  induction early generalizing params with
  | nil => exact ⟨params, rfl, h⟩
  | cons c rest ih =>
    rw [List.cons_append, onParams] at h
    split at h
    · rename_i next hnext
      obtain ⟨between, hearly, hlate⟩ := ih h
      refine ⟨between, ?_, hlate⟩
      rw [onParams, hnext]
      exact hearly
    · cases h

theorem mem_of_accounts {params out : Json} {allowed : List Account}
    (h : (Caveat.accounts allowed).onParams params = .ok out) :
    out = params ∧ ∀ a ∈ Caveat.namedAccounts params, a ∈ allowed := by
  rw [Caveat.onParams] at h
  split at h
  · cases h
  · rename_i hnone
    cases h
    refine ⟨rfl, fun a ha => ?_⟩
    have hallowed := List.find?_eq_none.1 hnone a ha
    simpa only [decide_eq_true_eq, not_not] using hallowed

/-- Among some caveats one stands after which none forces parameters. -/
def Final (c : Caveat) (cs : List Caveat) : Prop :=
  ∃ early late, cs = early ++ c :: late ∧ ∀ forced, Caveat.forceParams forced ∉ late

theorem onParams_final {params out : Json} {c : Caveat} {cs : List Caveat}
    (h : onParams params cs = .ok out) (final : Final c cs) :
    ∃ between, c.onParams between = .ok out := by
  obtain ⟨early, late, rfl, hlate⟩ := final
  obtain ⟨between, -, h⟩ := onParams_append h
  rw [onParams] at h
  split at h
  · rename_i next hnext
    rw [effective_of_onParams h, effective_unforced next hlate]
    exact ⟨between, hnext⟩
  · cases h

/-- The value that all caveats leave names only accounts of a restriction after which nothing is
forced. -/
theorem mem_of_unforced {params out : Json} {allowed : List Account} {cs : List Caveat}
    (h : onParams params cs = .ok out) (unforced : Unforced allowed cs) :
    ∀ a ∈ Caveat.namedAccounts out, a ∈ allowed := by
  obtain ⟨between, hchecked⟩ := onParams_final h unforced
  obtain ⟨rfl, hmem⟩ := mem_of_accounts hchecked
  exact hmem

end Caveats

/-! ## What is sent -/

theorem Caveat.namedAccounts_ofJson (j : Json) :
    namedAccounts (Rpc.Params.ofJson j).json = namedAccounts j ++ (Account.prefixed? j).toList := by
  cases j with
  | str text =>
    change List.filterMap namedAccount? [Json.str text] = _
    rw [List.filterMap_cons]
    have hname : namedAccount? (.str text) = Account.prefixed? (.str text) := rfl
    rw [hname]
    cases Account.prefixed? (.str text) with
    | none => rfl
    | some a => rfl
  | arr items =>
    change _ = List.filterMap namedAccount? items ++ []
    rw [List.append_nil]
    rfl
  | _ => rfl

namespace System

/-- A call of a method begins, with some parameters: the owner of the gate executes it, or it comes
from a site. -/
inductive Begins (s : System) : Origin → String → Json → System → Prop where
  | executed {o : Origin} {method : String} {params : Json} :
    Begins s o method params (s.execute o method params).1
  | handled {caller : Caller} {call : Rpc.MethodCall}
    (unserved : WalletMethod.ofName? call.method = none) :
    Begins s caller.origin call.method call.params.json (s.handle caller call).1

/-- By the permission of an origin for a restricted method that the wallet answers, a call to it is
sent. -/
structure Forwards (s : System) (o : Origin) (method : String) (params : Json) (p : Permission)
    (c : Rpc.MethodCall) : Prop where
  restricted : s.gate.registry.isRestricted method = true
  provider : s.gate.registry.executor method = .provider
  granted : s.gate.state.permission? o method = some p
  sent : ∃ t, s.Begins o method params t ∧
    t.world.wallet.received = s.world.wallet.received ++ [c]

variable {s t : System} {o : Origin} {method : String} {params : Json} {p : Permission}
  {c : Rpc.MethodCall}

theorem Begins.system (restricted : s.gate.registry.isRestricted method = true)
    (h : s.Begins o method params t) : t = (s.execute o method params).1 := by
  cases h with
  | executed => rfl
  | handled unserved =>
    unfold handle
    rw [unserved]
    simp only [if_pos restricted]

theorem Forwards.onParams (h : s.Forwards o method params p c) :
    ∃ out, Caveats.onParams params p.caveats = .ok out ∧
      c = .create .null method (.ofJson out) := by
  obtain ⟨t, hbegins, hreceived⟩ := h.sent
  rw [hbegins.system h.restricted] at hreceived
  rcases hout : Caveats.onParams params p.caveats with ⟨kind, reason⟩ | out
  · have hrefused : s.gate.registry.authorize s.gate.state o method params =
        .error (.caveatRejected o method kind reason) := by
      rw [Registry.authorize, if_pos h.restricted, h.granted]
      simp only [hout]
    rw [execute, hrefused] at hreceived
    have hnil : [] = [c] := List.append_cancel_left ((List.append_nil _).trans hreceived)
    cases hnil
  · have hauthorized : s.gate.registry.authorize s.gate.state o method params =
        .ok ⟨some p, out⟩ := by
      rw [Registry.authorize, if_pos h.restricted, h.granted]
      simp only [hout]
    rw [execute, hauthorized] at hreceived
    simp only [h.provider] at hreceived
    have hcall : [Rpc.MethodCall.create .null method (.ofJson out)] = [c] :=
      List.append_cancel_left hreceived
    exact ⟨out, rfl, (List.singleton_inj.1 hcall).symm⟩

/-- A restriction of accounts after which nothing is forced holds of all accounts that a forwarded
call names if and only if it holds of the parameters themselves, in case that these are the text of
an account. -/
theorem forwarded_accounts (h : s.Forwards o method params p c) {allowed : List Account}
    (unforced : Caveats.Unforced allowed p.caveats) :
    (∀ a ∈ Caveat.namedAccounts c.params.json, a ∈ allowed) ↔
      ∀ a, Account.prefixed? (Caveats.effective params p.caveats) = some a → a ∈ allowed := by
  obtain ⟨out, hout, rfl⟩ := h.onParams
  have hnamed :
      Caveat.namedAccounts (Rpc.MethodCall.create .null method (.ofJson out)).params.json =
        Caveat.namedAccounts out ++ (Account.prefixed? out).toList :=
    Caveat.namedAccounts_ofJson out
  rw [hnamed, ← Caveats.effective_of_onParams hout]
  constructor
  · intro hall a ha
    refine hall a (List.mem_append_right _ ?_)
    rw [ha]
    exact List.mem_singleton_self a
  · intro htext a ha
    rcases List.mem_append.1 ha with ha | ha
    · exact Caveats.mem_of_unforced hout unforced a ha
    · exact htext a (Option.mem_toList.1 ha)

/-- A system in which a site may sign with one account. -/
def signing (o : Origin) (a : Account) : System :=
  ⟨⟨Settings.signing.registry, true,
    State.empty.setPermissions o [⟨⟨0⟩, "eth_sign", o, [.accounts [a]], 0⟩], .empty⟩, .initial [a]⟩

/-- A permission for one account forwards the text of another. -/
theorem forwarded_accounts_text :
    ∃ (p : Permission) (c : Rpc.MethodCall),
      (signing ⟨"site"⟩ ⟨0xf39fd6e51aad88f6f4ce6ab8827279cfffb92266#160⟩).Forwards ⟨"site"⟩
        "eth_sign" (.str "0x70997970c51812dc3a010c7d01b50e0d17dc79c8") p c ∧
      p.caveats = [.accounts [⟨0xf39fd6e51aad88f6f4ce6ab8827279cfffb92266#160⟩]] ∧
      ¬ ∀ a ∈ Caveat.namedAccounts c.params.json,
        a ∈ [(⟨0xf39fd6e51aad88f6f4ce6ab8827279cfffb92266#160⟩ : Account)] := by
  have hforwards : (signing ⟨"site"⟩ ⟨0xf39fd6e51aad88f6f4ce6ab8827279cfffb92266#160⟩).Forwards
      ⟨"site"⟩ "eth_sign" (.str "0x70997970c51812dc3a010c7d01b50e0d17dc79c8")
      ⟨⟨0⟩, "eth_sign", ⟨"site"⟩,
        [.accounts [⟨0xf39fd6e51aad88f6f4ce6ab8827279cfffb92266#160⟩]], 0⟩
      (.create .null "eth_sign"
        (.ofJson (.str "0x70997970c51812dc3a010c7d01b50e0d17dc79c8"))) :=
    ⟨by decide, by decide, rfl, _, .executed, rfl⟩
  refine ⟨_, _, hforwards, rfl, fun hall => ?_⟩
  have hallowed := (forwarded_accounts hforwards ⟨[], [], rfl, fun _ => List.not_mem_nil⟩).1 hall
    ⟨0x70997970c51812dc3a010c7d01b50e0d17dc79c8#160⟩ (by decide)
  exact absurd hallowed (by decide)

/-- A restriction holds of all accounts that a forwarded call of a site names, if the permission
forces no parameters. -/
theorem site_accounts {caller : Caller} {call : Rpc.MethodCall}
    (h : s.Forwards caller.origin call.method call.params.json p c)
    (unforced : ∀ forced, Caveat.forceParams forced ∉ p.caveats) {allowed : List Account}
    (restricts : Caveat.accounts allowed ∈ p.caveats) :
    ∀ a ∈ Caveat.namedAccounts c.params.json, a ∈ allowed := by
  obtain ⟨out, hout, rfl⟩ := h.onParams
  have hparams : out = call.params.json := by
    rw [Caveats.effective_of_onParams hout, Caveats.effective_unforced _ unforced]
  obtain ⟨early, late, hsplit⟩ := List.append_of_mem restricts
  have hlast : Caveats.Unforced allowed p.caveats := by
    refine ⟨early, late, hsplit, fun forced hforced => unforced forced ?_⟩
    rw [hsplit]
    exact List.mem_append_right _ (List.mem_cons_of_mem _ hforced)
  subst hparams
  intro a ha
  rw [show (Rpc.MethodCall.create .null call.method (.ofJson call.params.json)).params.json =
    (Rpc.Params.ofJson call.params.json).json from rfl, call.params.ofJson_json] at ha
  exact Caveats.mem_of_unforced hout hlast a ha

end System

end OriginGate
