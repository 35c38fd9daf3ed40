import Harjus.Outbound
import Harjus.Session

/-!
# `Harjus.Callbacks`: what the sessions call of the application

`Application` (`src/HarjusApplication.cpp`) as the `Application` of its FIX sessions: it signs a
logon, subscribes to market data when a session is logged on, lets no message out for a second
time, and gives the application messages to `onMessage`.

* The content of an application message is one of the messages that `Application` builds or
  handles (`Content`).
* `FixConfig` (`src/FixConfig.cpp`) has the settings of the sessions. `fixConfig` is what
  `SessionFactory::create` makes of them.
* `Ed25519::sign`, the text of a time, the identifier of a market data request and the flag
  `isShuttingDown` are parameters. The last two may change during a run.
-/

set_option autoImplicit false

namespace Harjus.FIX

def SubscriptionRequestType_SNAPSHOT_AND_UPDATES : Char := '1'

/-- `FIX44::MarketDataRequest`. -/
structure MarketDataRequest where
  mdReqID : String
  subscriptionRequestType : Char
  marketDepth : ℕ
  mdEntryTypes : List Char
  symbols : List String
  deriving DecidableEq, Repr

end Harjus.FIX

namespace Harjus.Session

/-- The content of an application message: one that `onMessage` is overloaded for, one that the
program sends, or any other. -/
inductive Content where
  | inbound (message : FIX.Message)
  | newOrderSingle (order : FIX.NewOrderSingle)
  | marketDataRequest (request : FIX.MarketDataRequest)
  | other

/-- `Application`, as far as its session callbacks read it. -/
structure Client where
  application : Harjus.Application
  username : String
  symbolsMap : Harjus.Application.SymbolsMap
  sign : String → String
  timeText : UtcTimeStamp → String
  reqId : List (Output Content) → String
  isShuttingDown : List (Output Content) → Bool

namespace Client

variable (client : Client)

/-- The text that the password of a logon signs: the fields `MsgType`, `SenderCompID`,
`TargetCompID`, `MsgSeqNum` and `SendingTime`, with SOH between them. -/
def payload (message : Message Content) : String :=
  String.intercalate "\x01" [message.body.msgType,
    message.header.senderCompID.getD "", message.header.targetCompID.getD "",
    (message.header.msgSeqNum.map toString).getD "",
    (message.header.sendingTime.map client.timeText).getD ""]

/-- `toAdmin`: the fields `MessageHandling`, `Username`, `RawData` and `RawDataLength` of a
logon. -/
def toAdmin (message : Message Content) : List (ℕ × String) :=
  if message.body.isLogon then
    let password := client.sign (client.payload message)
    [(25035, "2"), (553, client.username), (96, password), (95, toString password.length)]
  else []

/-- `toApp`, which throws `DoNotSend` for a possible duplicate. -/
def toApp (message : Message Content) : Bool := !message.possDup

/-- `fromAdmin`. -/
def fromAdmin (message : Message Content) : Except Exception Unit :=
  if message.body.isReject then .error .exception else .ok ()

/-- The exceptions of the parsers, as `Session` tells them apart. -/
def exceptionOf : ApplicationError → Exception
  | .fieldNotFound field => .fieldNotFound field
  | .outOfRange | .notANumber _ | .runtimeError _ => .exception

/-- `crack`: what `onMessage` pushes for a message. The overloads of `MessageCracker` do nothing
for the messages of the session layer, and throw for other application messages. -/
def crack : Body Content → Except Exception (List Worker.Event)
  | .app _ (.inbound message) =>
    match client.application.onMessage message with
    | .ok events => .ok events
    | .error e => .error (exceptionOf e)
  | .app _ _ => .error .unsupportedMessageType
  | _ => .ok []

/-- `fromApp`. -/
def fromApp (message : Message Content) : Except Exception Unit :=
  (client.crack message.body).map fun _ => ()

/-- The message of `subscribeMarketSessionToSymbols`. -/
def marketDataRequest (reqId : String) (symbols : List String) : Message Content :=
  .new (.app "V" (.marketDataRequest {
    mdReqID := reqId
    subscriptionRequestType := FIX.SubscriptionRequestType_SNAPSHOT_AND_UPDATES
    marketDepth := 1
    mdEntryTypes := [FIX.MDEntryType_BID, FIX.MDEntryType_OFFER]
    symbols := symbols }))

/-- `onLogon`, with `subscribeMarketSessionToSymbols`. -/
def onLogon (sessionID : FIX.SessionID) (history : List (Output Content)) :
    Except Exception (List (Message Content)) :=
  match Harjus.Application.onLogon client.symbolsMap sessionID with
  | .error _ => .error .exception
  | .ok symbols =>
    .ok (if symbols = [] then [] else [marketDataRequest (client.reqId history) symbols])

/-- `onLogout`. -/
def onLogout (history : List (Output Content)) : Except Exception Unit :=
  if client.isShuttingDown history then .ok () else .error .exception

/-- The message of `submitOrder`. -/
def newOrderSingle (order : FIX.NewOrderSingle) : Message Content :=
  .new (.app "D" (.newOrderSingle order))

/-- A session of the program. -/
def engine (settings : Settings) (validate : Message Content → Except Exception Unit) :
    Engine Content where
  settings := settings
  application :=
    { toAdmin := fun _ => client.toAdmin
      toApp := fun _ => toApp
      fromAdmin := fun _ => fromAdmin
      fromApp := fun _ => client.fromApp
      onLogon := client.onLogon settings.sessionID
      onLogout := client.onLogout }
  validate := validate

end Client

/-! ### The sessions of `FixConfig` -/

/-- The session of `FixConfig` with a `SenderCompID` and a `SessionQualifier`, as
`SessionFactory::create` makes it: the settings of the section `[DEFAULT]`, and otherwise the
defaults of `Session` and `SessionState`. Without `StartTime` and `EndTime` a logon is possible at
any time. -/
def fixConfig (senderCompID sessionQualifier : String)
    (isInSameRange : UtcTimeStamp → UtcTimeStamp → Bool) (timedOut : ℤ → ℤ → Bool)
    (needTestRequest : ℤ → ℕ → ℤ → Bool) : Settings where
  sessionID := ⟨"FIX.4.4", senderCompID, "SPOT", sessionQualifier⟩
  initiate := true
  sendRedundantResendRequests := false
  checkCompId := true
  checkLatency := true
  maxLatency := 120
  logonTimeout := 10
  logoutTimeout := 2
  resetOnLogon := false
  resetOnLogout := true
  resetOnDisconnect := true
  persistMessages := true
  sendNextExpectedMsgSeqNum := false
  isNonStopSession := true
  isInSameRange := isInSameRange
  isLogonTime := fun _ => true
  timedOut := timedOut
  needTestRequest := needTestRequest

end Harjus.Session
