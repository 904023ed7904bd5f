import CurveMarket.Text.Basic

/-!
# Kinds of errors

Errors fall into families: input outside an operation's domain, requests that a rule of the market
refuses, the circuit breaker, and failures of structure. Callers may catch a family or one kind.
-/

namespace CurveMarket

inductive ErrorKind where
  | amm
  | domain
  | invalidAmount
  | zeroAddress
  | emptyIdentifier
  | parameterOutOfBounds
  | feeTooHigh
  | lnUndefined
  | businessRule
  | slippageExceeded
  | tradeSizeExceeded
  | expired
  | sellsDisabled
  | reserveDepletion
  | insufficientBalance
  | poolNotFound
  | poolExists
  | paused
  | alreadyPaused
  | notPaused
  | reentrantCall
  | unauthorized
  | invariantViolation
  | config
  | wrongType
  | wrongValue
  | missingKey
  | noObject
deriving DecidableEq

namespace ErrorKind

/-- The families of a kind, nearest first. Domain errors are also errors of value. -/
def families : ErrorKind → List ErrorKind
  | amm => []
  | domain => [amm, wrongValue]
  | invalidAmount | zeroAddress | emptyIdentifier | parameterOutOfBounds | lnUndefined =>
    [domain, amm, wrongValue]
  | feeTooHigh => [parameterOutOfBounds, domain, amm, wrongValue]
  | businessRule => [amm]
  | slippageExceeded | tradeSizeExceeded | expired | sellsDisabled | reserveDepletion
  | insufficientBalance | poolNotFound | poolExists => [businessRule, amm]
  | paused => [amm]
  | alreadyPaused => [paused, amm]
  | notPaused | reentrantCall | unauthorized | invariantViolation => [amm]
  | config => [amm, wrongValue]
  | wrongType | wrongValue | missingKey | noObject => []

def lineage (k : ErrorKind) : List ErrorKind := k :: k.families

def isOwn (k : ErrorKind) : Bool := k.lineage.contains amm

def core : List ErrorKind := [
  amm, domain, invalidAmount, zeroAddress, emptyIdentifier, parameterOutOfBounds, feeTooHigh,
  lnUndefined, businessRule, slippageExceeded, tradeSizeExceeded, expired, sellsDisabled,
  reserveDepletion, insufficientBalance, poolNotFound, poolExists, paused, alreadyPaused,
  notPaused, reentrantCall, unauthorized, invariantViolation, config]

end ErrorKind

end CurveMarket
