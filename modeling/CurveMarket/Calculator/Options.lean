import CurveMarket.Text.Number

/-!
# Options of the calculator

An option may be shortened to any beginning of its long name that no other option shares. A value
follows as the next word or after an equals sign. A word that begins with a dash is no value unless
it is a negative number or holds a space.
-/

namespace CurveMarket.Calculator

inductive OptionName where
  | help
  | verbose
  | supply
  | reserve
  | ratio
  | fee
  | config
  | buy
  | sell
deriving DecidableEq

namespace OptionName

def spellings : List (Text × OptionName) := [
  ("-h", help), ("--help", help), ("--supply", supply), ("--reserve", reserve),
  ("--crr-ppm", ratio), ("--fee-bps", fee), ("--config", config), ("--buy", buy),
  ("--sell", sell), ("-v", verbose), ("--verbose", verbose)]

def takesValue : OptionName → Bool
  | help | verbose => false
  | _ => true

end OptionName

structure Options where
  supply : Option Int := none
  reserve : Option Int := none
  ratio : Option Int := none
  fee : Option Int := none
  config : Text := Text.empty
  buy : Option Int := none
  sell : Option Int := none
deriving DecidableEq

inductive Word where
  | value (t : Text)
  | separator
  /-- Looks like an option and is none. -/
  | unknown
  /-- An option, with the value that was written after an equals sign. -/
  | option (name : OptionName) (inline : Option Text)
  /-- Options of one letter behind a single dash. -/
  | letters (names : List OptionName)
  /-- Letters behind a single dash of which the first is an option and a later one is none. -/
  | badLetters

/-- What an attempt to read a command line ends with, when it is not options. -/
inductive Refusal where
  | usage
  | help
deriving DecidableEq

def dash : CodePoint := CodePoint.ofChar '-'

def point : CodePoint := CodePoint.ofChar '.'

/-- A word without the line feed that may end it. -/
def dropLineEnd (ps : List CodePoint) : List CodePoint :=
  if ps.getLast? = some (CodePoint.ofChar '\n') then ps.dropLast else ps

/-- A dash, then digits with a point before the last of them at most. A line feed may follow. -/
def isNegativeNumber (ps : List CodePoint) : Bool :=
  match dropLineEnd ps with
  | [] => false
  | p :: rest =>
    let fraction := (rest.dropWhile Text.isDigit).drop 1
    p = dash && match rest.dropWhile Text.isDigit with
      | [] => !rest.isEmpty
      | q :: _ => q = point && !fraction.isEmpty && fraction.all Text.isDigit

def beginningWith (t : Text) : List OptionName :=
  (OptionName.spellings.filter fun s => t.points.isPrefixOf s.1.points).map (·.2)

def splitEquals (t : Text) : Text × Option Text :=
  let isSign (p : CodePoint) : Bool := p = CodePoint.ofChar '='
  let name : Text := ⟨t.points.takeWhile (!isSign ·)⟩
  match t.points.dropWhile (!isSign ·) with
  | [] => (name, none)
  | _ :: value => (name, some ⟨value⟩)

def letterOption? (p : CodePoint) : Option OptionName := OptionName.spellings.lookup ⟨[dash, p]⟩

/-- The letters behind a dash. An equals sign after the first of several does not count. -/
def lettersOf : List CodePoint → List CodePoint
  | p :: q :: r :: rest =>
    if q = CodePoint.ofChar '=' then p :: r :: rest else p :: q :: r :: rest
  | letters => letters

def shortWord (t : Text) (first : CodePoint) (rest : List CodePoint) : Word :=
  if (letterOption? first).isSome then
    match (lettersOf (first :: rest)).mapM letterOption? with
    | some names => .letters names
    | none => .badLetters
  else if isNegativeNumber t.points || t.points.contains (CodePoint.ofChar ' ') then .value t
  else .unknown

def longWord (t : Text) : Except Refusal Word :=
  let (name, inline) := splitEquals t
  match OptionName.spellings.lookup name with
  | some n => .ok (.option n inline)
  | none =>
    match beginningWith name with
    | [n] => .ok (.option n inline)
    | [] => if t.points.contains (CodePoint.ofChar ' ') then .ok (.value t) else .ok .unknown
    | _ => .error .usage

def Word.ofText (t : Text) : Except Refusal Word :=
  match t.points with
  | p :: q :: rest =>
    if p ≠ dash then .ok (.value t)
    else if q ≠ dash then .ok (shortWord t q rest)
    else if rest.isEmpty then .ok .separator
    else longWord t
  | _ => .ok (.value t)

/-- The words of a command line; behind a separator all are values. -/
def wordsOf : List Text → Except Refusal (List Word)
  | [] => .ok []
  | t :: rest => do
    match ← Word.ofText t with
    | .separator => return .separator :: rest.map .value
    | w => return w :: (← wordsOf rest)

namespace Options

def put (o : Options) (name : OptionName) (value : Text) : Except Refusal Options :=
  let number : Except Refusal (Option Int) :=
    match value.toInt? with
    | some n => .ok (some n)
    | none => .error .usage
  match name with
  | .supply => do return { o with supply := ← number }
  | .reserve => do return { o with reserve := ← number }
  | .ratio => do return { o with ratio := ← number }
  | .fee => do return { o with fee := ← number }
  | .buy => do return { o with buy := ← number }
  | .sell => do return { o with sell := ← number }
  | .config => .ok { o with config := value }
  | .help => .error .help
  | .verbose => .ok o

/-- Reads words in order; one that belongs to no option is refused when all have been read. -/
def ofWords (o : Options) (surplus : Bool) : List Word → Except Refusal Options
  | [] => if surplus || o.supply.isNone || o.reserve.isNone then .error .usage else .ok o
  | .option name (some value) :: rest => do
    if name.takesValue then ofWords (← o.put name value) surplus rest else throw .usage
  | .option name none :: .value value :: rest => do
    if name.takesValue then ofWords (← o.put name value) surplus rest
    else ofWords (← o.put name value) true rest
  | .option name none :: rest => do
    if name.takesValue then throw .usage else ofWords (← o.put name Text.empty) surplus rest
  | .letters names :: rest =>
    if names.contains .help then .error .help else ofWords o surplus rest
  | .badLetters :: _ => .error .usage
  | _ :: rest => ofWords o true rest

def ofArguments (arguments : List Text) : Except Refusal Options := do
  ofWords {} false (← wordsOf arguments)

end Options

end CurveMarket.Calculator
