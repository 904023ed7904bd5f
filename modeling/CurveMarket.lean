import CurveMarket.Error.Description
import CurveMarket.Main
import CurveMarket.Market.Callback
import CurveMarket.Snapshot.Layout
import CurveMarket.Proofs.Action
import CurveMarket.Proofs.Ledger.Balance
import CurveMarket.Proofs.Check
import CurveMarket.Proofs.Market.View
import CurveMarket.Proofs.Market.Effect
import CurveMarket.Proofs.Market.Rollback
import CurveMarket.Proofs.Pool.Call
import CurveMarket.Proofs.Market.Held
import CurveMarket.Proofs.Pool.Quote
import CurveMarket.Proofs.Pool.Decision
import CurveMarket.Proofs.Pool.Safety
import CurveMarket.Proofs.Revenue.Reserve
import CurveMarket.Proofs.Revenue.Routing
import CurveMarket.Proofs.Revenue.Batch
import CurveMarket.Proofs.Market.Atomicity
import CurveMarket.Proofs.Fixed.Series
import CurveMarket.Proofs.Fixed.Power
import CurveMarket.Proofs.Curve.Trade
import CurveMarket.Proofs.Pool.Extraction
import CurveMarket.Proofs.Market.Supply
import CurveMarket.Proofs.Pool.Issuance
import CurveMarket.Proofs.Curve.Price
import CurveMarket.Proofs.Pool.Price
import CurveMarket.Proofs.Pool.Acceptance
import CurveMarket.Proofs.Pool.Outcome
import CurveMarket.Proofs.Pool.Preview
import CurveMarket.Proofs.Market.Movement
import CurveMarket.Proofs.Pool.Value
import CurveMarket.Proofs.Alike
import CurveMarket.Proofs.Market.Shelter
import CurveMarket.Proofs.Market.Nesting
import CurveMarket.Proofs.Market.Instance
import CurveMarket.Proofs.Market.Partners
import CurveMarket.Proofs.Market.Serving
import CurveMarket.Proofs.Market.Entry
import CurveMarket.Proofs.Pool.Visibility
import CurveMarket.Proofs.Revenue.Accounting
import CurveMarket.Proofs.Revenue.Backing
import CurveMarket.Proofs.Revenue.Sequence
import CurveMarket.Proofs.Revenue.Singles
import CurveMarket.Proofs.Market.Progress
import CurveMarket.Proofs.Market.Conduct
import CurveMarket.Proofs.Market.Conservation
import CurveMarket.Proofs.Market.Money
import CurveMarket.Proofs.Revenue.Books
import CurveMarket.Proofs.Revenue.Conservation
import CurveMarket.Proofs.Pool.Depletion
import CurveMarket.Proofs.Snapshot.Root
import CurveMarket.Proofs.Fixed.Shortfall
import CurveMarket.Proofs.Curve.Fill
import CurveMarket.Proofs.Calculator.Report
import CurveMarket.Proofs.Settings
import CurveMarket.Proofs.Fixed.Order
import CurveMarket.Proofs.Curve.Execution
import CurveMarket.Proofs.Curve.Order
import CurveMarket.Proofs.Fixed.Loss
import CurveMarket.Proofs.Curve.Dust
import CurveMarket.Proofs.Pool.Order
import CurveMarket.Proofs.Fixed.Bracket
import CurveMarket.Proofs.Fixed.Loops
import CurveMarket.Proofs.Fixed.Inverse
import CurveMarket.Proofs.Ledger.Rows
import CurveMarket.Proofs.Market.Journal
