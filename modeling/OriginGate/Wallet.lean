import OriginGate.Rpc.Response
import OriginGate.Account

/-!
# The wallet

* `Wallet` : the accounts and the answers behind the gate, and the calls that came through;
* `Wallet.receive` : a call reaches the wallet;
* `Script`, `Script.answer` : answers by the name of the method.

A busy wallet has received what was sent to it and answers nothing yet. When it answers, it does so
with its accounts and answers of that moment.
-/

namespace OriginGate

/-- The accounts and answers behind the gate. -/
structure Wallet where
  /-- The accounts that the wallet exposes, in the order in which it shows them. -/
  accounts : List Account
  answer : Rpc.MethodCall → Rpc.Outcome
  /-- Whether answers wait. -/
  busy : Bool
  /-- The calls that reached the wallet, in order. -/
  received : List Rpc.MethodCall

namespace Wallet

def receive (call : Rpc.MethodCall) (w : Wallet) : Wallet :=
  { w with received := w.received ++ [call] }

end Wallet

/-- An answer that is laid down for a method. -/
inductive ScriptedAnswer where
  | outcome (o : Rpc.Outcome)
  /-- The parameters of the call. -/
  | echo

/-- Answers by the name of the method. -/
abbrev Script := SortedMap String ScriptedAnswer

/-- What a script answers to a call; it knows no other methods. -/
def Script.answer (script : Script) (call : Rpc.MethodCall) : Rpc.Outcome :=
  match script.find? call.method with
  | some (.outcome o) => o
  | some .echo => .success call.params.json
  | none => .failure .methodNotFound

end OriginGate
