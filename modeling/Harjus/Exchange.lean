import Harjus.Lib.Amounts
import Harjus.Trade

/-!
# `Harjus.Exchange`: the symbol map and the relative values

`getRelativeValues` (`src/Exchange.cpp`) asks the exchange for the last price of every symbol
and turns the prices into the value of each asset in `BTC`.

* A `SymbolMap` is a hash map from names to symbols. Its entries are a list in the order in
  which the container iterates, which is any order.
* The reply is a `Response`. The JSON parser and the string constructor of `PreciseNumber` run
  through third parties and are the parameters of `Exchange`.
* An object without a member has `null` there, as `operator[]` of the library inserts it.
-/

set_option autoImplicit false

namespace Harjus

/-- `std::unordered_map<std::string, Symbol>`, in the order of its iteration. -/
structure SymbolMap where
  entries : List (String × Symbol)
  nodup : (entries.map Prod.fst).Nodup

/-! ### The reply of the exchange -/

/-- What the parser reads of a JSON value. -/
inductive Json where
  | string (s : String)
  | array (items : List Json)
  | object (members : List (String × Json))
  | other

/-- The exceptions of `getRelativeValues`: `std::runtime_error`, a JSON value of another kind
than the one asked for, and a text that is not a number. -/
inductive ExchangeError where
  | runtimeError (what : String)
  | notArray
  | notObject
  | notString
  | notANumber (amount : String)
  deriving DecidableEq, Repr

namespace Json

/-- `as_array`. -/
def asArray : Json → Except ExchangeError (List Json)
  | .array items => .ok items
  | _ => .error .notArray

/-- `as_object`. -/
def asObject : Json → Except ExchangeError (List (String × Json))
  | .object members => .ok members
  | _ => .error .notObject

/-- `as_string`. -/
def asString : Json → Except ExchangeError String
  | .string s => .ok s
  | _ => .error .notString

/-- `operator[]` of an object. -/
def member (members : List (String × Json)) (key : String) : Json :=
  (members.lookup key).getD .other

end Json

/-- `cpr::Response`. -/
structure Response where
  status_code : ℤ
  errorMessage : String
  text : String

/-- The third parties: `boost::json::parse`, with the message of its error code, and the string
constructor of `PreciseNumber`, `none` where it throws. -/
structure Exchange where
  parseJson : String → Except String Json
  preciseNumber : String → Option PreciseNumber

/-- `std::unordered_map<std::string, PreciseNumber>`: the last price of every symbol, and the
value of every asset. -/
abbrev Prices := Finmap fun _ : String => PreciseNumber

namespace Exchange

variable (exchange : Exchange)

/-- `std::string{text.c_str()}`: the text up to its first null character. -/
def cStr (text : String) : String := String.ofList (text.toList.takeWhile (· ≠ '\x00'))

/-- `PreciseNumber{text}`. -/
def number (text : String) : Except ExchangeError PreciseNumber :=
  match exchange.preciseNumber text with
  | none => .error (.notANumber text)
  | some amount => .ok amount

/-- One element of the reply. -/
def readPrice (symbolPrices : Prices) (item : Json) : Except ExchangeError Prices := do
  let priceObj ← item.asObject
  let symbol ← (Json.member priceObj "symbol").asString
  let text ← (Json.member priceObj "price").asString
  let price ← exchange.number (cStr text)
  return symbolPrices.insert (cStr symbol) price

/-- `getRelativeValues` up to the prices of the symbols. -/
def symbolPrices (r : Response) : Except ExchangeError Prices :=
  if r.status_code = 0 then
    .error (.runtimeError ("CPR Error fetching prices: (" ++ r.errorMessage ++ ")"))
  else if r.status_code ≠ 200 then
    .error (.runtimeError
      ("Error fetching symbol prices: (" ++ toString r.status_code ++ "), " ++ r.text))
  else
    match exchange.parseJson r.text with
    | .error message => .error (.runtimeError ("Failed to parse JSON response: " ++ message))
    | .ok json => do
      let items ← json.asArray
      items.foldlM exchange.readPrice ∅

end Exchange

/-! ### The values -/

/-- `std::numeric_limits<PreciseNumber>::max()`. There is no specialisation for the class, and
the general template gives `PreciseNumber()`. -/
def numericLimitsMax : PreciseNumber := 0

/-- The variables of the first loop of `getRelativeValues`. -/
structure RelativeValuesLoop where
  relativeValues : Prices
  lowestValue : PreciseNumber

/-- The body of the first loop. A symbol without a price has price zero. -/
def rateAgainstBitcoin (symbolPrices : Prices) (loop : RelativeValuesLoop)
    (entry : String × Symbol) : RelativeValuesLoop :=
  let price := symbolPrices.amount entry.1
  if entry.2.quoteAsset = "BTC" then
    -- price already in BTC (shorting gets btc)
    { relativeValues := loop.relativeValues.insert entry.2.baseAsset price
      lowestValue := PreciseNumber.min loop.lowestValue price }
  else if entry.2.baseAsset = "BTC" then
    -- price in 1 / BTC (longing gets btc)
    let value := PreciseNumber.one / price
    { relativeValues := loop.relativeValues.insert entry.2.quoteAsset value
      lowestValue := PreciseNumber.min loop.lowestValue value }
  else loop

/-- `if (relativeValues.find(asset) == relativeValues.end()) relativeValues[asset] = value`. -/
def assignMissing (value : PreciseNumber) (relativeValues : Prices) (asset : String) : Prices :=
  if asset ∈ relativeValues then relativeValues else relativeValues.insert asset value

/-- The body of the second loop. -/
def assignLowest (lowestValue : PreciseNumber) (relativeValues : Prices)
    (entry : String × Symbol) : Prices :=
  assignMissing lowestValue (assignMissing lowestValue relativeValues entry.2.baseAsset)
    entry.2.quoteAsset

/-- `getRelativeValues` from the prices on. -/
def relativeValues (symbols : SymbolMap) (symbolPrices : Prices) : Prices :=
  let loop := symbols.entries.foldl (rateAgainstBitcoin symbolPrices) ⟨∅, numericLimitsMax⟩
  let values := symbols.entries.foldl (assignLowest loop.lowestValue) loop.relativeValues
  values.insert "BTC" PreciseNumber.one

/-- `getRelativeValues`, with the reply of the exchange to the request for the prices. -/
def Exchange.getRelativeValues (exchange : Exchange) (r : Response) (symbols : SymbolMap) :
    Except ExchangeError Prices := do
  let prices ← exchange.symbolPrices r
  return Harjus.relativeValues symbols prices

end Harjus
