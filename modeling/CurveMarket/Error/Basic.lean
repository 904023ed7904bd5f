import CurveMarket.Error.Kind
import CurveMarket.Text.Number
import CurveMarket.Value.Display

/-!
# Errors

One constructor per cause, with the wording of every message in `Error.message`. A kind may have
several causes; some causes carry figures that callers can read without taking the message apart.
-/

namespace CurveMarket

/-- A rule of a pool that a state or a transition may break. -/
inductive Violation where
  | reserveNonNegative
  | flatBelowThreshold
  | paramsInBounds
  | graduationMonotonic
  | reservePositiveOnceSeeded
  | reserveBacked
  | reserveDelta
deriving DecidableEq

def Violation.label : Violation → String
  | reserveNonNegative => "reserve_non_negative"
  | flatBelowThreshold => "flat_below_threshold"
  | paramsInBounds => "params_in_bounds"
  | graduationMonotonic => "graduation_monotonic"
  | reservePositiveOnceSeeded => "reserve_positive_once_seeded"
  | reserveBacked => "reserve_backed"
  | reserveDelta => "reserve_delta"

inductive Error where
  -- amounts
  | notAnInteger (what : Text)
  | negative (what : Text) (value : Int)
  | notPositive (what : Text) (value : Int)
  | amountRefused (reason : Text)
  | negativeBalance (value : Int)
  | negativeFeePart (what : Text) (value : Int)
  | splitMismatch
  -- arithmetic
  | divisionByZero
  | roundingUpDomain
  | powerDomain (base exponent : Int)
  | lnUndefined (x : Int)
  -- identifiers
  | accountMissing (reason : Text)
  | emptyIdentifier
  | modelMissing
  | symbolMissing
  | tokenNameMissing
  -- parameters
  | ratioOutsideUnit (value : Int)
  | ratioOutOfBounds
  | tradeFeeNegative
  | tradeCapNotPositive
  | tradeCapTooHigh
  | accrualOutOfBounds
  | feeTooHigh (fee limit : Int) (reason : Option Text)
  | notParameters
  | oneOfParametersOrState
  -- rules of a pool
  | slippage (actual minimum : Int)
  | tradeTooLarge (amount limit : Int)
  | expired (deadline now : Int)
  | sellsDisabled (opening : Int)
  | reserveDepleted (out balance : Int)
  | violated (rules : List Violation)
  -- balances
  | overdrawn (balance change : Int)
  | shortOf (what : Text) (balance amount : Int)
  | exceedsAccrued
  | exceedsHeld
  -- look-up
  | poolNotFound (reason : Text)
  | poolExists (model : Text)
  -- circuit breaker and capabilities
  | paused
  | alreadyPaused
  | notPaused
  | reentrant (action : Text) (owner : Text)
  | unauthorized (act : Text)
  -- snapshots and their encoding
  | unsupportedVersion (version : Value)
  | missingKey (key : Text)
  | notIndexed (v : Value)
  | fieldNotInteger (name : Text) (kind : Text)
  | fieldNotSwitch (name : Text) (kind : Text)
  | keyNotText (path : Text) (key : Value)
  | notEncodable (path : Text) (kind : Text)
  | loneSurrogate (path : Text)
  | labelMissing
  | labelNotPlain (label : Text)
  | versionNotPositive
  -- configuration
  | notMapping (name : Text)
  | entryNotInteger (name : Text)
  | entryMissing (name : Text)
  | unknownKeys (name : Text) (keys : List Value)
  | keysUnordered (kind other : Text)
  | malformedDocument
  -- numbers as text
  | numberTooLong (digits : Nat)
  | figureTooLong
  -- scenarios
  | noObject (name : Text)

namespace Error

def kind : Error → ErrorKind
  | notAnInteger _ | notParameters | notIndexed _ | fieldNotInteger _ _ | fieldNotSwitch _ _
  | keyNotText _ _ | notEncodable _ _ | loneSurrogate _ | labelMissing | keysUnordered _ _ =>
    .wrongType
  | negative _ _ | notPositive _ _ | amountRefused _ | negativeBalance _ => .invalidAmount
  | negativeFeePart _ _ | splitMismatch | modelMissing | symbolMissing | tokenNameMissing
  | oneOfParametersOrState | unsupportedVersion _ | labelNotPlain _ | versionNotPositive
  | numberTooLong _ | figureTooLong => .wrongValue
  | divisionByZero | roundingUpDomain | powerDomain _ _ => .domain
  | lnUndefined _ => .lnUndefined
  | accountMissing _ => .zeroAddress
  | emptyIdentifier => .emptyIdentifier
  | ratioOutsideUnit _ | ratioOutOfBounds | tradeFeeNegative | tradeCapNotPositive
  | tradeCapTooHigh | accrualOutOfBounds => .parameterOutOfBounds
  | feeTooHigh _ _ _ => .feeTooHigh
  | slippage _ _ => .slippageExceeded
  | tradeTooLarge _ _ => .tradeSizeExceeded
  | expired _ _ => .expired
  | sellsDisabled _ => .sellsDisabled
  | reserveDepleted _ _ => .reserveDepletion
  | violated _ => .invariantViolation
  | overdrawn _ _ | shortOf _ _ _ | exceedsAccrued | exceedsHeld => .insufficientBalance
  | poolNotFound _ => .poolNotFound
  | poolExists _ => .poolExists
  | paused => .paused
  | alreadyPaused => .alreadyPaused
  | notPaused => .notPaused
  | reentrant _ _ => .reentrantCall
  | unauthorized _ => .unauthorized
  | missingKey _ => .missingKey
  | notMapping _ | entryNotInteger _ | entryMissing _ | unknownKeys _ _ | malformedDocument =>
    .config
  | noObject _ => .noObject

def feeTooHighMessage (fee limit : Text) (reason : Option Text) : Text :=
  match reason with
  | some r => if r.isEmpty then "Fee too high: " ++ fee ++ " > " ++ limit else r
  | none => "Fee too high: " ++ fee ++ " > " ++ limit

/-- The wording of a number with more digits than are read or written. -/
def digitLimitMessage (detail : Text) : Text :=
  "Exceeds the limit (" ++ Text.ofNat Text.maxDigits ++
    " digits) for integer string conversion" ++ detail ++
    "; use sys.set_int_max_str_digits() to increase the limit"

def notIndexedMessage : Value → Text
  | .text _ => "string indices must be integers, not 'str'"
  | .bytes _ => "byte indices must be integers or slices, not str"
  | .list _ => "list indices must be integers or slices, not str"
  | .tuple _ => "tuple indices must be integers or slices, not str"
  | v => "'" ++ Text.ofString v.kindName ++ "' object is not subscriptable"

def violatedMessage (rules : List Text) : Text :=
  "invariant violations: " ++ Text.join ", " rules

def message : Error → Text
  | notAnInteger what => what ++ " must be an int"
  | negative what v => what ++ " must be non-negative: " ++ Text.ofInt v
  | notPositive what v => what ++ " must be > 0: " ++ Text.ofInt v
  | amountRefused reason => reason
  | negativeBalance v => "Balance cannot be negative: " ++ Text.ofInt v
  | negativeFeePart what v => what ++ " must be non-negative: " ++ Text.ofInt v
  | splitMismatch => "split must sum to the deposited amount"
  | divisionByZero => "division by zero"
  | roundingUpDomain => "div_up requires a >= 0 and b > 0"
  | powerDomain b e =>
    "pow requires non-negative operands: (" ++ Text.ofInt b ++ ", " ++ Text.ofInt e ++ ")"
  | lnUndefined x => "ln undefined for " ++ Text.ofInt x
  | accountMissing reason => reason
  | emptyIdentifier => "Empty model ID"
  | modelMissing => "model_id must be a non-empty str"
  | symbolMissing => "symbol must be non-empty"
  | tokenNameMissing => "token_id must be non-empty"
  | ratioOutsideUnit v => "crr_ppm must be in (0, 1000000]: " ++ Text.ofInt v
  | ratioOutOfBounds => "CRR out of bounds"
  | tradeFeeNegative => "Trade fee must be non-negative"
  | tradeCapNotPositive => "Max trade bps must be > 0"
  | tradeCapTooHigh => "Max trade bps too high"
  | accrualOutOfBounds => "Infra accrual bps out of bounds"
  | feeTooHigh fee limit reason =>
    feeTooHighMessage (Text.ofInt fee) (Text.ofInt limit) reason
  | notParameters => "params must be CurveParameters"
  | oneOfParametersOrState => "exactly one of params or state is required"
  | slippage _ _ => "Slippage exceeded"
  | tradeTooLarge _ _ => "Trade exceeds max size limit"
  | expired _ _ => "Transaction expired"
  | sellsDisabled _ => "Sells not enabled during IBR"
  | reserveDepleted _ _ => "Sell would deplete reserve"
  | violated rules => violatedMessage (rules.map fun r => Text.ofString r.label)
  | overdrawn balance change =>
    "Insufficient balance: " ++ Text.ofInt balance ++ " + " ++ Text.ofInt change ++ " = " ++
      Text.ofInt (balance + change) ++ " < 0"
  | shortOf what balance amount =>
    "Insufficient " ++ what ++ ": " ++ Text.ofInt balance ++ " < " ++ Text.ofInt amount
  | exceedsAccrued => "Exceeds accrued balance"
  | exceedsHeld => "Insufficient balance"
  | poolNotFound reason => reason
  | poolExists model => "Pool already exists: " ++ model
  | paused => "Pausable: paused"
  | alreadyPaused => "Pausable: paused"
  | notPaused => "Pausable: not paused"
  | reentrant action owner => "reentrant call to " ++ action ++ " on " ++ owner
  | unauthorized act => "Caller is not authorized to " ++ act
  | unsupportedVersion v => "unsupported pool snapshot version: " ++ v.inspect
  | missingKey key => key.quoted
  | notIndexed v => notIndexedMessage v
  | fieldNotInteger name kind => name.quoted ++ " must be int, got " ++ kind
  | fieldNotSwitch name kind => name.quoted ++ " must be bool, got " ++ kind
  | keyNotText path key => path ++ ": key " ++ key.inspect ++ " is not a str"
  | notEncodable path kind => path ++ ": " ++ kind ++ " is not encodable"
  | loneSurrogate path => path ++ ": lone surrogate in string"
  | labelMissing => "label must be a non-empty str"
  | labelNotPlain label => "label must be ASCII without ':' or NUL: " ++ label.quoted
  | versionNotPositive => "version must be a positive int"
  | notMapping name => name ++ " must be a mapping"
  | entryNotInteger name => name ++ " must be an integer"
  | entryMissing name => name ++ " is required"
  | unknownKeys name keys => name ++ ": unknown keys " ++ (Value.list keys).inspect
  | keysUnordered kind other =>
    "'<' not supported between instances of '" ++ kind ++ "' and '" ++ other ++ "'"
  | malformedDocument => "invalid YAML"
  | numberTooLong digits => digitLimitMessage (": value has " ++ Text.ofNat digits ++ " digits")
  | figureTooLong => digitLimitMessage Text.empty
  | noObject name => name

/-- The figures that a cause carries, by name. -/
def details : Error → List (String × Value)
  | feeTooHigh fee limit _ => [("fee_bps", .int fee), ("max_bps", .int limit)]
  | slippage actual minimum => [("actual", .int actual), ("minimum", .int minimum)]
  | tradeTooLarge amount limit => [("amount", .int amount), ("limit", .int limit)]
  | expired deadline now => [("deadline", .int deadline), ("now", .int now)]
  | sellsDisabled opening => [("buy_only_until", .int opening)]
  | reserveDepleted out balance => [("reserve_out", .int out), ("reserve_balance", .int balance)]
  | violated rules => [("violations", .list (rules.map fun r => .text (Text.ofString r.label)))]
  | _ => []

/-- An error that shows a value, where the value can be shown. -/
def showing (v : Value) (e : Error) : Error := if v.isWritable then e else figureTooLong

end Error

end CurveMarket
