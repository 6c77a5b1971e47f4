import OriginGate.Gate.Basic

/-!
# Calls to restricted methods

* `Executing` : an authorized call that waits for the wallet;
* `System.execute` : authorizes a call and begins it; `Executing.poll` : takes it up again.

The permission is looked up when the call begins. Accounts are those that the origin may see and
the wallet knows when the call ends.
-/

namespace OriginGate

/-- An authorized call that waits for the wallet, with the permission that allowed it. -/
inductive Executing where
  /-- The accounts of an origin. -/
  | accounts (origin : Origin) (permission : Option Permission)
  /-- A call that reached the wallet. -/
  | call (call : Rpc.MethodCall) (permission : Option Permission)

namespace Executing

/-- The permission that allowed the call. -/
def permission : Executing → Option Permission
  | accounts _ p => p
  | call _ p => p

/-- What the wallet and the state give for the call, before the caveats. -/
def rawResult (s : System) : Executing → Except PermissionError Json
  | accounts o _ =>
    .ok (.arr (((s.accounts o).filter (· ∈ s.world.wallet.accounts)).map Account.json))
  | call c _ =>
    match s.world.wallet.answer c with
    | .success value => .ok value
    | .failure error => .error (.provider error)

/-- The result after the caveats of the permission. -/
def result (s : System) (e : Executing) : Except PermissionError Json :=
  (e.rawResult s).map fun value =>
    match e.permission with
    | some p => Caveats.onResult value p.caveats
    | none => value

/-- The result, once the wallet is not busy. -/
def poll (e : Executing) (s : System) : Progress Executing (Except PermissionError Json) :=
  if s.world.wallet.busy then .waiting e else .done (e.result s)

end Executing

namespace System

/-- A call reaches the wallet. -/
def send (call : Rpc.MethodCall) (s : System) : System :=
  { s with world := { s.world with wallet := s.world.wallet.receive call } }

/-- Authorizes a call and begins it. -/
def execute (o : Origin) (method : String) (params : Json) (s : System) :
    System × Progress Executing (Except PermissionError Json) :=
  match s.gate.registry.authorize s.gate.state o method params with
  | .error e => (s, .done (.error e))
  | .ok ⟨permission, params⟩ =>
    match s.gate.registry.executor method with
    | .accounts => (s, Executing.poll (.accounts o permission) s)
    | .provider =>
      let call := Rpc.MethodCall.create .null method (.ofJson params)
      let s := s.send call
      (s, Executing.poll (.call call permission) s)

end System

end OriginGate
