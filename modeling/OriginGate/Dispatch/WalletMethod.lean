/-!
# Methods that the gate serves itself

* `WalletMethod` : the methods that are answered without asking the wallet;
* `WalletMethod.name`, `WalletMethod.ofName?`.
-/

namespace OriginGate

/-- A method that the gate answers itself, restricted or not. -/
inductive WalletMethod where
  | requestPermissions
  | getPermissions
  | requestAccounts
  | accounts
  | sendSiteMetadata
  | logUsage
deriving DecidableEq

namespace WalletMethod

def all : List WalletMethod :=
  [requestPermissions, getPermissions, requestAccounts, accounts, sendSiteMetadata, logUsage]

def name : WalletMethod → String
  | requestPermissions => "wallet_requestPermissions"
  | getPermissions => "wallet_getPermissions"
  | requestAccounts => "eth_requestAccounts"
  | accounts => "eth_accounts"
  | sendSiteMetadata => "wallet_sendDomainMetadata"
  | logUsage => "metamask_logInjectedWeb3Usage"

/-- The method with a name. -/
def ofName? (name : String) : Option WalletMethod := all.find? (·.name = name)

end WalletMethod

end OriginGate
