import GumServer.Json
import GumServer.KeyMap

/-!
# Supported chains and tokens

`chain/mod.rs`. A chain resolves by id or by name whether or not it is offered; only the
enabled ones are listed for new deposits.
-/

namespace GumServer

/-- A `u8`. -/
abbrev U8 : Type := Fin (2 ^ 8)

instance U8.instNeZero : NeZero (2 ^ 8) := ⟨by decide⟩

/-- `TokenSpec`. -/
structure TokenSpec where
  symbol : String
  address : Address
  decimals : U8
deriving DecidableEq

/-- `ChainSpec`. -/
structure ChainSpec where
  name : String
  chainId : U64
  /-- offered for new deposits -/
  enabled : Bool
  tokens : List TokenSpec
deriving DecidableEq

/-- `ChainSpec::token`: by contract address, or by symbol in any case. -/
def ChainSpec.token (lib : Crates) (chain : ChainSpec) (raw : String) : Option TokenSpec :=
  match lib.parseAddress (trim raw) with
  | some address => chain.tokens.find? fun t => t.address == address
  | none => chain.tokens.find? fun t => eqIgnoreAsciiCase t.symbol (trim raw)

/-- `Registry`. -/
structure Registry where
  byId : KeyMap U64 ChainSpec
  byName : KeyMap String ChainSpec

namespace Registry

/-- A chain as configured, in the form the registry keeps. -/
def specOf (name : String) (chain : ChainSpec) : ChainSpec where
  name := name
  chainId := chain.chainId
  enabled := chain.enabled
  tokens := chain.tokens.map fun t => { t with symbol := toAsciiUppercase t.symbol }

/-- `Registry::from_config`, over the configured chains in the order of their names. -/
def fromConfig (chains : List (String × ChainSpec)) : Registry :=
  chains.foldl
    (fun registry c => {
      byId := registry.byId.put c.2.chainId (specOf c.1 c.2)
      byName := registry.byName.put (toAsciiLowercase c.1) (specOf c.1 c.2) })
    ⟨KeyMap.empty, KeyMap.empty⟩

variable (registry : Registry)

/-- `Registry::chain`: by id or name, enabled or not. -/
def chain (raw : String) : Option ChainSpec :=
  match parseU64 (trim raw) with
  | some id => registry.byId.get? id
  | none => registry.byName.get? (toAsciiLowercase (trim raw))

/-- `Registry::chains`: the chains offered for new deposits, by id. -/
def chains : List ChainSpec :=
  ((registry.byId.entries.mergeSort fun a b => decide (a.1 ≤ b.1)).map Prod.snd).filter (·.enabled)

end Registry

end GumServer
