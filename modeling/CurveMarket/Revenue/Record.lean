import CurveMarket.Curve.Fee
import CurveMarket.Ledger.Tally

/-!
# Records of revenue

The infrastructure reserve keeps what each model has accrued for infrastructure and what was paid
out of it. The splitter keeps what each model has earned.
-/

namespace CurveMarket

/-- One deposit of revenue, parted between infrastructure and the pool. -/
structure FeeSplit where
  model : Text
  amount : Int
  infra : Int
  profit : Int
deriving DecidableEq

/-- A split from its parts, which have to add up. -/
def FeeSplit.make (model : Text) (amount infra profit : Int) : Except Error FeeSplit :=
  if infra + profit = amount then .ok ⟨model, amount, infra, profit⟩ else .error .splitMismatch

structure BatchDeposit where
  splits : List FeeSplit
  totalAmount : Int
  totalInfra : Int
  totalProfit : Int
deriving DecidableEq

def BatchDeposit.ofSplits (splits : List FeeSplit) : BatchDeposit where
  splits := splits
  totalAmount := (splits.map FeeSplit.amount).foldr (· + ·) 0
  totalInfra := (splits.map FeeSplit.infra).foldr (· + ·) 0
  totalProfit := (splits.map FeeSplit.profit).foldr (· + ·) 0

/-- An invoice as it is handed in. -/
structure Payment where
  model : Option Text
  payee : Option Text
  amount : Option Int
  invoice : Value
  memo : Value

structure Accounting where
  accrued : Int
  paid : Int
  provider : Option Text
deriving DecidableEq

structure InfraReserve where
  account : Text
  treasury : Text
  /-- Index of the directory that tells which models have a pool. -/
  directory : Nat
  paused : Bool := false
  accrued : Tally := .empty
  paid : Tally := .empty
  providers : List (Text × Text) := []
  totalAccrued : Int := 0
  totalPaid : Int := 0
deriving DecidableEq

namespace InfraReserve

instance : Inhabited InfraReserve := ⟨{ account := default, treasury := default, directory := 0 }⟩

def ownerName : Text := "infra reserve"

def provider (r : InfraReserve) : Option Text → Option Text
  | some model => r.providers.lookup model
  | none => none

def putProvider (model provider : Text) : List (Text × Text) → List (Text × Text)
  | [] => [(model, provider)]
  | p :: rest =>
    if p.1 = model then (model, provider) :: rest else p :: putProvider model provider rest

def credit (r : InfraReserve) (model : Text) (amount : Int) : InfraReserve :=
  { r with accrued := r.accrued.add model amount, totalAccrued := r.totalAccrued + amount }

def debit (r : InfraReserve) (model : Text) (amount : Int) : InfraReserve :=
  { r with accrued := r.accrued.add model (-amount), totalAccrued := r.totalAccrued - amount }

def recordPaid (r : InfraReserve) (model : Text) (amount : Int) : InfraReserve :=
  { r with paid := r.paid.add model amount, totalPaid := r.totalPaid + amount }

/-- The accounts of another moment put back. -/
def restoreAccounts (r old : InfraReserve) : InfraReserve :=
  { r with
    accrued := old.accrued, paid := old.paid, totalAccrued := old.totalAccrued
    totalPaid := old.totalPaid }

/-- Whole days that a model's accrual lasts at a daily cost; without a cost it lasts for ever. -/
def runway (r : InfraReserve) (model : Option Text) (dailyBurn : Int) :
    Except Error (Option Int) :=
  if dailyBurn < 0 then .error (.negative "daily_burn" dailyBurn)
  else if dailyBurn = 0 then .ok none
  else .ok (some (r.accrued.get? model / dailyBurn))

def accounting (r : InfraReserve) (model : Option Text) : Accounting :=
  ⟨r.accrued.get? model, r.paid.get? model, r.provider model⟩

end InfraReserve

structure Splitter where
  directory : Nat
  reserve : Nat
  governance : Nat
  fees : Tally := .empty
  total : Int := 0
deriving DecidableEq

namespace Splitter

instance : Inhabited Splitter := ⟨{ directory := 0, reserve := 0, governance := 0 }⟩

def ownerName : Text := "revenue splitter"

def record (s : Splitter) (split : FeeSplit) : Splitter :=
  { s with fees := s.fees.add split.model split.amount, total := s.total + split.amount }

end Splitter

end CurveMarket
