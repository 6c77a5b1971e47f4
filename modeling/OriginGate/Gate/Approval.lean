import OriginGate.Gate.Requests

/-!
# Approving a request

* `Approving` : an approval, with the origin that its request had when it began;
* `Approving.check` : whether the approval is valid, or needs the accounts of the wallet first;
* `Approving.finish` : takes the request, stores what is granted and tells its caller, in one step;
* `System.approve` : begins an approval; `Approving.poll` : takes it up again.

The request stays registered while the approval waits for the wallet, so it may be decided
otherwise in between. The approval then fails and grants nothing.
-/

namespace OriginGate

/-- An approval under way. -/
structure Approving where
  approved : ApprovedRequest
  /-- Who asked. -/
  origin : Origin
  /-- The accounts to which an approved `eth_accounts` is restricted. -/
  accounts : List Account

namespace Approving

/-- The first account that the wallet does not know makes the approval invalid. -/
def checkAccounts (known : List Account) (a : Approving) : Except PermissionError Unit :=
  match a.accounts.find? (· ∉ known) with
  | some account => .error (.invalidAccounts ("unknown account " ++ account.checksummed))
  | none => .ok ()

/-- Whether the approval is valid; it waits if the accounts have to be checked by a busy wallet. -/
def check (a : Approving) (s : System) : Progress Approving (Except PermissionError Unit) :=
  match s.gate.validate a.approved.permissions with
  | .error e => .done (.error e)
  | .ok () =>
    if a.approved.permissions.contains accountsMethod then
      if a.accounts.isEmpty then
        .done (.error (.invalidAccounts "must provide a non-empty list of accounts"))
      else if s.gate.validateAccounts then
        if s.world.wallet.busy then .waiting a
        else .done (a.checkAccounts s.world.wallet.accounts)
      else .done (.ok ())
    else .done (.ok ())

/-- The caveats of what is granted for a method: those of the approval, but its accounts. -/
def caveats (a : Approving) (method : String) (approved : RequestedPermission) : List Caveat :=
  if method = accountsMethod then
    .accounts a.accounts :: approved.caveats.filter (·.kind ≠ .accounts)
  else approved.caveats

/-- What is granted, in order of the methods. -/
def grants (a : Approving) : List (String × List Caveat) :=
  a.approved.permissions.entries.map fun e => (e.1, a.caveats e.1 e.2)

/-- The permissions of a valid approval, drawn from the supply. -/
def finalize (a : Approving) (checked : Except PermissionError Unit) (s : System) :
    System × Decision :=
  match checked with
  | .error e => (s, .error e)
  | .ok () =>
    let (permissions, supply) := s.world.supply.drawPermissions a.origin a.grants
    ({ s with world := { s.world with supply := supply } }, .ok permissions)

/-- Stores what is granted. -/
def commit (a : Approving) (finalized : Decision) (s : System) : System × Decision :=
  match finalized with
  | .error e => (s, .error e)
  | .ok permissions =>
    match s.update (·.grant a.origin permissions) with
    | (s, .ok ()) => (s, .ok permissions)
    | (s, .error e) => (s, .error (.store e))

/-- Takes the request, stores what is granted, and tells its caller the same as the approver. -/
def finish (a : Approving) (checked : Except PermissionError Unit) (s : System) :
    System × Decision :=
  let (s, finalized) := a.finalize checked s
  match s.take a.approved.id with
  | (s, .error e) => (s, .error e)
  | (s, .ok entry) =>
    let (s, decision) := a.commit finalized s
    (s.deliver entry decision, decision)

/-- Goes on with an approval as far as the wallet allows. -/
def poll (a : Approving) (s : System) : System × Progress Approving Decision :=
  match a.check s with
  | .waiting a => (s, .waiting a)
  | .done checked =>
    let (s, decision) := a.finish checked s
    (s, .done decision)

end Approving

/-- Begins to approve a request. -/
def System.approve (approved : ApprovedRequest) (accounts : List Account) (s : System) :
    System × Progress Approving Decision :=
  match s.gate.pending.find? approved.id with
  | none => (s, .done (.error (.noSuchPendingApproval approved.id)))
  | some request => Approving.poll ⟨approved, request.origin, accounts⟩ s

end OriginGate
