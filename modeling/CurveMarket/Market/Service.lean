import CurveMarket.Market.Directory
import CurveMarket.Market.Routing

/-!
# Serving requests

A request is served on the object it names. The effects of mutating calls are carried out by an
executor, and the requests that a request carries are handed to `call`.
-/

namespace CurveMarket.Market

/-- What serving a request gives: a reply, and the object it is about if there is one. -/
structure Served where
  reply : Reply
  object : Option Object := none

instance : Coe Reply Served := ⟨fun r => { reply := r }⟩

def misdirected {α : Type} (target : Text) : Action Market α := throw (.noObject target)

def inspectLedger (kind : String) (name : Text) (supply : Int) : Text :=
  Text.ofString kind ++ "(" ++ name.quoted ++ ", supply=" ++ Text.ofInt supply ++ ")"

def serveAsset (run : Executor) : AssetCall → Action Market Reply
  | .transfer sender recipient amount => do
    run (.transfer sender recipient amount)
    return .nothing
  | .credit account amount => do
    let symbol := (← get).symbol
    Action.focus Market.table (fun m t => { m with table := t }) (creditUnits symbol account amount)
    return .nothing
  | .balanceOf account => do
    let m ← get
    return .int (m.table.held m.symbol account)
  | .totalSupply => do
    let m ← get
    return .int (m.table.total m.symbol)
  | .symbol => do
    let m ← get
    return .text m.symbol

def onSideAsset (i : Nat) (a : Text → Action BalanceTable Unit) : Action Market Reply := do
  let symbol := ((← get).sideAsset i).symbol
  Action.focus (fun m => (Market.sideAsset m i).table)
    (fun m t => { m with sideAssets := m.sideAssets.modify i fun s => { s with table := t } })
    (a symbol)
  return .nothing

def serveSideAsset (i : Nat) : AssetCall → Action Market Reply
  | .transfer sender recipient amount =>
    onSideAsset i fun symbol => transferUnits symbol sender recipient amount
  | .credit account amount => onSideAsset i fun symbol => creditUnits symbol account amount
  | .balanceOf account => do
    let s := (← get).sideAsset i
    return .int (s.table.held s.symbol account)
  | .totalSupply => do
    let s := (← get).sideAsset i
    return .int (s.table.total s.symbol)
  | .symbol => do
    let s := (← get).sideAsset i
    return .text s.symbol

def serveToken (target : Text) (i : Nat) : AssetCall → Action Market Reply
  | .transfer sender recipient amount => do
    let name := ((← get).token i).name
    Action.focus (·.tokenLedger i) (putTokenLedger i)
      (TokenLedger.onTable (transferUnits name sender recipient amount))
    return .nothing
  | .balanceOf account => do
    let l := (← get).tokenLedger i
    return .int (l.table.held l.token.name account)
  | .totalSupply => do
    let m ← get
    return .int (m.token i).supply
  | _ => misdirected target

def serveCapabilityBalance (target : Text) (c : Nat) : AssetCall → Action Market Reply
  | .balanceOf account => do
    let m ← get
    return .int (m.tokenBalance c account)
  | .totalSupply => do
    let m ← get
    return .int (m.supplyOf c)
  | _ => misdirected target

def onTable (a : Action BalanceTable Unit) : Action Market Reply := do
  Action.focus Market.table (fun m t => { m with table := t }) a
  return .nothing

def serveTable : TableCall → Action Market Reply
  | .get account asset => do
    let m ← get
    return .int (m.table.get ⟨account, asset⟩)
  | .set account asset amount => onTable (BalanceTable.set ⟨account, asset⟩ amount)
  | .add account asset change => onTable (BalanceTable.add ⟨account, asset⟩ change)
  | .subtract account asset amount => onTable (BalanceTable.subtract ⟨account, asset⟩ amount)
  | .move asset sender recipient amount => onTable (BalanceTable.move asset sender recipient amount)
  | .total asset => do
    let m ← get
    return .int (m.table.total asset)
  | .allBalances => do
    let m ← get
    return .rows m.table.sortedRows
  | .balancesOf asset => do
    let m ← get
    return .balances (m.table.balancesOf asset)

def serveTokenRights (target : Text) (i : Nat) : CapabilityCall → Action Market Reply
  | .revoke capability => do
    let c ← resolveCapability capability
    let number := ((← get).capability c).number
    modify fun m => { m with tokens := m.tokens.modify i fun e =>
      { e with token := { e.token with live := e.token.live.filter (· ≠ number) } } }
    return .nothing
  | .isAuthorized capability => do
    let c ← resolveCapability capability
    let m ← get
    return .bool (m.isAuthorized i c)
  | _ => misdirected target

def serveCapability (run : Executor) (target : Text) (c : Nat) :
    CapabilityCall → Action Market Reply
  | .mint account amount => do
    run (.mint c account amount)
    return .nothing
  | .burn account amount => do
    run (.burn c account amount)
    return .nothing
  | .isRevoked => do
    let m ← get
    return .bool !(m.isAuthorized (m.capability c).token c)
  | _ => misdirected target

def servePool (run : Executor) (i : Nat) (call : PoolCall) : Action Market Reply := do
  let m ← get
  let p := m.pool i
  match call with
  | .buy amount minimum recipient deadline sender =>
    .int <$> buy run i amount minimum recipient deadline sender
  | .sell tokens minimum recipient deadline sender =>
    .int <$> sell run i tokens minimum recipient deadline sender
  | .depositFees amount sender => do depositFees run i amount sender; return .nothing
  | .setParameters ratio fee => do setParameters run i ratio fee; return .nothing
  | .setTradeCap cap => do setTradeCap run i cap; return .nothing
  | .pause => do pausePool run i; return .nothing
  | .unpause => do unpausePool run i; return .nothing
  | .withdrawTreasury amount => do withdrawTreasury run i amount; return .nothing
  | .state => return .state p.state
  | .terms => return .terms p.state.terms
  | .reserve => return .int p.state.reserve
  | .events => return .events p.events
  | .supply => return .int p.supply
  | .spotPrice => do return .int (← p.spotPrice)
  | .buyQuote amount => do return .int (← p.buyQuote amount)
  | .sellQuote tokens => do return .int (← p.sellQuote tokens)
  | .sellsEnabled => return .bool (p.sellsEnabled m.now)
  | .phase => return .phase p.state.phase
  | .phaseInfo => return .phaseInfo p.state.phaseInfo
  | .stats => do return .stats (← p.stats)
  | .tradeInfo => return .tradeInfo (p.tradeInfo m.now)
  | .buyImpact amount => do return .impact (← p.buyImpact amount)
  | .sellImpact tokens => do return .impact (← p.sellImpact tokens)
  | .surplus => return .int (m.surplus i)
  | .model => return .text p.model
  | .treasury => return .text p.treasury
  | .account => return .text p.account

def servedPool (i : Nat) : Action Market Served := do
  return { reply := .pool ((← get).pool i).model, object := some (.pool i) }

def serveDirectory (i : Nat) : DirectoryCall → Action Market Served
  | .createPool request => do
    let c ← resolveCapability request.capability
    servedPool (← createPool i request.model c request.terms request.state)
  | .hasPool model => do
    let m ← get
    return Reply.bool (m.hasPool i model)
  | .lookUp model => do servedPool (← lookUpPool i model)
  | .models => do
    let m ← get
    return Reply.texts (m.models i)
  | .size => do
    let m ← get
    return Reply.int (m.directory i).pools.length

def onGovernance (i : Nat) (a : Action Governance Unit) : Action Market Reply := do
  Action.focus (·.governance i) (fun m g => { m with governances := m.governances.set i g }) a
  return .nothing

def serveGovernance (i : Nat) : GovernanceCall → Action Market Reply
  | .rate model => do
    let m ← get
    return .int ((m.governance i).rate? model)
  | .defaultRate => do
    let m ← get
    return .int (m.governance i).defaultRate
  | .setDefault rate => onGovernance i (Governance.setDefault rate)
  | .setRate model rate => onGovernance i (Governance.setRate model rate)
  | .clearOverride model => onGovernance i (Governance.clearOverride model)

def serveReserve (run : Executor) (i : Nat) (call : ReserveCall) : Action Market Reply := do
  let m ← get
  let r := m.reserve i
  match call with
  | .deposit model amount sender => do deposit run i model amount sender; return .nothing
  | .batchDeposit models amounts sender => .int <$> batchDeposit run i models amounts sender
  | .revertDeposit model amount recipient => do
    revertDeposit run i model amount recipient
    return .nothing
  | .pay payment => .payment <$> pay run i payment
  | .batchPay payments => .int <$> batchPay run i payments
  | .setProvider model provider => do setProvider run i model provider; return .nothing
  | .setTreasury treasury => do setTreasury run i treasury; return .nothing
  | .emergencyWithdraw amount => do emergencyWithdraw run i amount; return .nothing
  | .pause => do pauseReserve run i; return .nothing
  | .unpause => do unpauseReserve run i; return .nothing
  | .isPaused => return .bool r.paused
  | .accrued model => return .int (r.accrued.get? model)
  | .paid model => return .int (r.paid.get? model)
  | .provider model => return .optionalText (r.provider model)
  | .runway model dailyBurn => do return .optionalInt (← r.runway model dailyBurn)
  | .accounting model => return .accounting (r.accounting model)
  | .balance => return .int (m.held r.account)
  | .totalAccrued => return .int r.totalAccrued
  | .totalPaid => return .int r.totalPaid
  | .treasury => return .text r.treasury
  | .account => return .text r.account

def serveSplitter (run : Executor) (i : Nat) (call : SplitterCall) : Action Market Reply := do
  let m ← get
  match call with
  | .depositFee model amount sender => .split <$> depositFee run i model amount sender
  | .batchDepositFees models amounts sender =>
    .batch <$> batchDepositFees run i models amounts sender
  | .feeSplit model amount => do return .split (← m.feeSplit i model amount)
  | .modelFees model => return .int ((m.splitter i).fees.get? model)
  | .totalFees => return .int (m.splitter i).total

def sharedPoolCall : SharedCall → Option PoolCall
  | .pause => some .pause
  | .unpause => some .unpause
  | .treasury => some .treasury
  | .account => some .account
  | .inspect => none

def sharedReserveCall : SharedCall → Option ReserveCall
  | .pause => some .pause
  | .unpause => some .unpause
  | .treasury => some .treasury
  | .account => some .account
  | .inspect => none

def inspect (m : Market) : Object → Option Text
  | .asset => some (inspectLedger "LedgerAsset" m.symbol (m.table.total m.symbol))
  | .sideAsset i =>
    let s := m.sideAsset i
    some (inspectLedger "LedgerAsset" s.symbol (s.table.total s.symbol))
  | .table =>
    some ("BalanceTable(" ++ Text.ofNat m.table.rows.length ++ " entries)")
  | .token i => some (inspectLedger "LedgerToken" (m.token i).name (m.token i).supply)
  | .capability i =>
    let c := m.capability i
    some ("MintCapability(" ++ (m.token c.token).name.quoted ++ ", id=" ++ Text.ofNat c.number ++
      ", holder=" ++ c.holder.inspect ++ ")")
  | .pool i => some (m.pool i).inspect
  | _ => none

def serveShared (run : Executor) (target : Text) (o : Object) (call : SharedCall) :
    Action Market Reply :=
  match o, sharedPoolCall call, sharedReserveCall call with
  | .pool i, some c, _ => servePool run i c
  | .reserve i, _, some c => serveReserve run i c
  | _, _, _ => do
    match call, (← get).inspect o with
    | .inspect, some t => return .text t
    | _, _ => misdirected target

/-- Serves a call on an object; an object does not understand the calls of other kinds. -/
def serveObject (run : Executor) (target : Text) (o : Object) (op : Operation) :
    Action Market Served :=
  let plain (a : Action Market Reply) : Action Market Served := do return ← a
  match o, op with
  | o, .shared call => plain (serveShared run target o call)
  | .asset, .asset call => plain (serveAsset run call)
  | .sideAsset i, .asset call => plain (serveSideAsset i call)
  | .token i, .asset call => plain (serveToken target i call)
  | .capability i, .asset call => plain (serveCapabilityBalance target i call)
  | .table, .table call => plain (serveTable call)
  | .token i, .capability call => plain (serveTokenRights target i call)
  | .capability i, .capability call => plain (serveCapability run target i call)
  | .pool i, .pool call => plain (servePool run i call)
  | .directory i, .directory call => serveDirectory i call
  | .governance i, .governance call => plain (serveGovernance i call)
  | .reserve i, .reserve call => plain (serveReserve run i call)
  | .splitter i, .splitter call => plain (serveSplitter run i call)
  | _, _ => misdirected target

end CurveMarket.Market
