import CurveMarket.Calculator.Options
import CurveMarket.Calculator.Report
import CurveMarket.Settings

/-!
# Runs of the calculator

A run reads its options, takes the ratio and the fee from a document where the options leave them
out, and prints a report.
-/

namespace CurveMarket.Calculator

inductive ExitStatus where
  | code (n : Nat)
  /-- A failure that is told in words. -/
  | reason (t : Text)
deriving DecidableEq

structure Outcome where
  exit : ExitStatus
  output : Text := Text.empty
deriving DecidableEq

def usageFailure : Outcome := { exit := .code 2 }

def ratioMissing : Outcome := { exit := .reason "--crr-ppm or --config is required" }

def helpText : Text :=
  "usage: curve-quote [-h] --supply SUPPLY --reserve RESERVE [--crr-ppm CRR_PPM]\n" ++
  ("                   [--fee-bps FEE_BPS] [--config CONFIG] [--buy BUY] [--sell SELL] [-v]\n" :
    Text)

def Options.request (o : Options) (ratio : Int) (settings : Option Settings) : ReportRequest where
  supply := o.supply
  reserve := o.reserve
  ratio := some ratio
  fee := .int ((o.fee.or (settings.map fun s => (s.terms.tradeFee : Int))).getD 0)
  buy := (o.buy.map Value.int).getD .null
  sell := (o.sell.map Value.int).getD .null

/-- Prints the report on options. An error of the market is a failed run; a report with a figure too
long to be written is an error of the run. -/
def printReport (o : Options) (settings : Option Settings) : Except Error Outcome :=
  match o.ratio.or (settings.map fun s => (s.terms.ratio : Int)) with
  | none => .ok ratioMissing
  | some ratio =>
    match (o.request ratio settings).report with
    | .ok r =>
      if r.figures.all Text.isWritable then .ok { exit := .code 0, output := r.render }
      else .error .figureTooLong
    | .error e => if e.kind.isOwn then .ok usageFailure else .error e

/-- Runs the calculator, where `load` finds the settings under a path. Settings that cannot be
loaded are an error of the run. -/
def run (load : Text → Except Error Settings) (arguments : List Text) : Except Error Outcome :=
  match Options.ofArguments arguments with
  | .error .usage => .ok usageFailure
  | .error .help => .ok { exit := .code 0, output := helpText }
  | .ok o => do
    let settings ← if o.config.isEmpty then pure none else some <$> load o.config
    printReport o settings

end CurveMarket.Calculator
