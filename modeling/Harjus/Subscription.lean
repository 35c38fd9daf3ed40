import Harjus.Application
import Harjus.Main

/-!
# `Harjus.Subscription`: the market data sessions and their symbols

The constructor of `Application` (`src/HarjusApplication.cpp`) divides the symbols of the trading
paths between the market data sessions, and each session subscribes to its share on logon.

* `SessionSettings::getSessions` is a set. It is the list of its elements in their order.
* A checked access throws `std::out_of_range`. A division by zero is no exception in C++: its
  behaviour is undefined, and the outcome `divisionByZero` stands for it.
-/

set_option autoImplicit false

namespace Harjus

/-! ### Sessions -/

namespace FIX

/-- `FIX::SessionID`. -/
structure SessionID where
  beginString : String
  senderCompID : String
  targetCompID : String
  sessionQualifier : String
  deriving DecidableEq, Repr

/-- `FIX::SessionSettings`, as far as the constructor reads it. -/
structure SessionSettings where
  getSessions : List SessionID

end FIX

/-- The outcomes of the constructor and of `onLogon` that are no return. -/
inductive SubscriptionError where
  | runtimeError (what : String)
  | outOfRange
  | divisionByZero
  deriving DecidableEq, Repr

/-- The outcome is an exception. -/
def SubscriptionError.Thrown : SubscriptionError → Prop
  | runtimeError _ | outOfRange => True
  | divisionByZero => False

namespace Application

/-- `getSessionQualifier().starts_with("MARKETDATA")`. -/
def isMarketData (sessionID : FIX.SessionID) : Bool :=
  "MARKETDATA".toList.isPrefixOf sessionID.sessionQualifier.toList

/-- `sessions` in the constructor, after `std::erase_if`. -/
def marketDataSessions (settings : FIX.SessionSettings) : List FIX.SessionID :=
  settings.getSessions.filter isMarketData

/-! ### `divideSymbolsEvenly` -/

/-- The body of the inner loop, on `dividedSymbols` and `symbolIndex`. -/
def pushSymbol (symbols : List String) (i : ℕ) (state : List (List String) × ℕ) :
    Except SubscriptionError (List (List String) × ℕ) :=
  match symbols[state.2]?, state.1[i]? with
  | some symbol, some session => .ok (state.1.set i (session ++ [symbol]), state.2 + 1)
  | _, _ => .error .outOfRange

/-- The body of the outer loop. -/
def fillSession (symbols : List String) (symbolsPerSession remainder : ℕ)
    (state : List (List String) × ℕ) (i : ℕ) :
    Except SubscriptionError (List (List String) × ℕ) :=
  let numSymbolsForThisSession := symbolsPerSession + if i < remainder then 1 else 0
  (List.range numSymbolsForThisSession).foldlM (fun state _ => pushSymbol symbols i state)
    (state.1 ++ [[]], state.2)

/-- `Application::divideSymbolsEvenly`. -/
def divideSymbolsEvenly (symbols : List String) (numSessions : ℕ) :
    Except SubscriptionError (List (List String)) :=
  if numSessions = 0 then .error .divisionByZero
  else do
    let symbolsPerSession := symbols.length / numSessions
    let remainder := symbols.length % numSessions
    let state ← (List.range numSessions).foldlM (fillSession symbols symbolsPerSession remainder)
      ([], 0)
    return state.1

/-! ### The constructor and `onLogon` -/

/-- `marketSessionQualifierToSymbolsMap`. -/
abbrev SymbolsMap := Finmap fun _ : String => List String

/-- The body of the loop of the constructor over the sessions, on the map and `index`. -/
def assignSymbols (dividedSymbols : List (List String)) (state : SymbolsMap × ℕ)
    (sessionID : FIX.SessionID) : SymbolsMap × ℕ :=
  (state.1.insert sessionID.sessionQualifier (dividedSymbols.getD state.2 []), state.2 + 1)

/-- `Application::Application`, with the map that it fills. -/
def new (settings : FIX.SessionSettings) (symbols : List String) :
    Except SubscriptionError SymbolsMap :=
  let sessions := marketDataSessions settings
  -- ensure at least one market data session for every 1000 symbols
  if sessions.length < symbols.length / 1000 then
    .error (.runtimeError "Not enough market data sessions available for subscription")
  else do
    let dividedSymbols ← divideSymbolsEvenly symbols sessions.length
    return (sessions.foldl (assignSymbols dividedSymbols) (∅, 0)).1

/-- `Application::onLogon`: the symbols that the session subscribes to. -/
def onLogon (symbolsMap : SymbolsMap) (sessionID : FIX.SessionID) :
    Except SubscriptionError (List String) :=
  if isMarketData sessionID then
    match symbolsMap.lookup sessionID.sessionQualifier with
    | none => .error .outOfRange
    | some symbols => .ok symbols
  else .ok []

end Application

/-- `getUniqueSymbolsForTradingPaths` (`src/Main.cpp`). -/
def getUniqueSymbolsForTradingPaths (setOrder : SetOrder) (tradingPaths : List (List Trade)) :
    List String :=
  setOrder.arrange (tradingPaths.flatMap fun path => path.map fun trade => trade.symbol.symbol)

end Harjus
