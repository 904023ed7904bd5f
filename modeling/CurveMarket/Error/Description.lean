import CurveMarket.Error.Basic

/-!
# Descriptions of errors

What an error of a given kind tells when it is raised with given arguments: its message, the
figures it carries and its families.
-/

namespace CurveMarket

structure ErrorDescription where
  message : Text
  details : List (String × Value)
  lineage : List ErrorKind

namespace ErrorKind

/-- The message of a kind that words nothing itself: its argument, or all of them as a tuple. -/
def plainMessage : List Value → Text
  | [] => Text.empty
  | [v] => v.display
  | vs => (Value.tuple vs).inspect

/-- The items of a sequence as texts; those of a text are its code points. -/
def textItems : Value → List Text
  | .list items | .tuple items => items.map Value.display
  | .text t => t.points.map fun p => ⟨[p]⟩
  | _ => []

def describe (k : ErrorKind) (arguments : List Value) : Option ErrorDescription :=
  let described (message : Text) (details : List (String × Value)) : Option ErrorDescription :=
    some ⟨message, details, k.lineage⟩
  match k, arguments with
  | feeTooHigh, fee :: limit :: rest =>
    let reason := match rest with
      | v :: _ => if v.isOn then some v.display else none
      | [] => none
    described (Error.feeTooHighMessage fee.display limit.display reason)
      [("fee_bps", fee), ("max_bps", limit)]
  | slippageExceeded, [actual, minimum] =>
    described (Error.slippage 0 0).message [("actual", actual), ("minimum", minimum)]
  | tradeSizeExceeded, [amount, limit] =>
    described (Error.tradeTooLarge 0 0).message [("amount", amount), ("limit", limit)]
  | expired, [deadline, now] =>
    described (Error.expired 0 0).message [("deadline", deadline), ("now", now)]
  | sellsDisabled, [opening] =>
    described (Error.sellsDisabled 0).message [("buy_only_until", opening)]
  | reserveDepletion, [out, balance] =>
    described (Error.reserveDepleted 0 0).message
      [("reserve_out", out), ("reserve_balance", balance)]
  | paused, [] | alreadyPaused, [] => described Error.paused.message []
  | notPaused, [] => described Error.notPaused.message []
  | invariantViolation, [rules] =>
    described (Error.violatedMessage (textItems rules)) [("violations", rules)]
  | feeTooHigh, _ | slippageExceeded, _ | tradeSizeExceeded, _ | expired, _ | sellsDisabled, _
  | reserveDepletion, _ | paused, _ | alreadyPaused, _ | notPaused, _ | invariantViolation, _ =>
    none
  | _, vs => described (plainMessage vs) []

end ErrorKind

end CurveMarket
