import Harjus.Trade

/-!
# `Harjus.Configuration`: the settings of the trading paths

`Configuration` (`src/Configuration.cpp`) reads environment variables. `IConfiguration` has the
two settings that the search for trading paths asks for. A path may also be written out in
`STATIC_TRADINGPATHS`: trades `SYMBOL:LONG` or `SYMBOL:SHORT` joined by `,` and paths by `;`.

An unset variable is an empty text, as `dotenv::getenv` returns it.
-/

set_option autoImplicit false

namespace Harjus

/-- `std::runtime_error`. -/
structure RuntimeError where
  what : String
  deriving DecidableEq, Repr

/-- `IConfiguration`, as far as `getTradingPaths` reads it. -/
structure IConfiguration where
  getMaxTradingPathLength : Int32
  getAssets : List String

/-- `Configuration`, with the text of `STATIC_TRADINGPATHS`. -/
structure Configuration extends IConfiguration where
  staticPathsEnv : String

/-- The tokens that `std::getline` takes from a stream until it fails. It fails at the end of
the stream, so there is no token after a last delimiter. -/
def getlines (delimiter : Char) : List Char → List (List Char)
  | [] => []
  | c :: cs =>
    if c = delimiter then [] :: getlines delimiter cs
    else
      match getlines delimiter cs with
      | [] => [[c]]
      | token :: tokens => (c :: token) :: tokens

/-- `split`. -/
def split (s : String) (delimiter : Char) : List String :=
  (getlines delimiter s.toList).map String.ofList

namespace Configuration

/-- The inner loop body of `getStaticTradingPaths`. -/
def staticTrade (tradeString : String) : Except RuntimeError (String × Position) :=
  match split tradeString ':' with
  | [symbol, positionStr] =>
    if positionStr = "LONG" then .ok (symbol, .LONG)
    else if positionStr = "SHORT" then .ok (symbol, .SHORT)
    else .error ⟨"Invalid position in static trading path: " ++ positionStr⟩
  | _ => .error ⟨"Invalid static trading path format: " ++ tradeString⟩

/-- `Configuration::getStaticTradingPaths`. -/
def getStaticTradingPaths (config : Configuration) :
    Except RuntimeError (List (List (String × Position))) :=
  if config.staticPathsEnv = "" then .ok []
  else
    (split config.staticPathsEnv ';').mapM fun pathString =>
      (split pathString ',').mapM staticTrade

end Configuration

/-! ### Loops that throw -/

/-- A loop that may throw returns exactly when each of its steps does. -/
theorem mapM_eq_ok_iff {α β ε : Type} {f : α → Except ε β} {l : List α} {r : List β} :
    l.mapM f = .ok r ↔ List.Forall₂ (fun a b => f a = .ok b) l r := by
  induction l generalizing r with
  | nil =>
    rw [List.mapM_nil, List.forall₂_nil_left_iff]
    exact ⟨fun h => (Except.ok.inj h).symm, fun h => congrArg Except.ok h.symm⟩
  | cons a l ih =>
    rw [List.mapM_cons, List.forall₂_cons_left_iff]
    constructor
    · intro h
      cases hstep : f a with
      | error e =>
        rw [hstep] at h
        cases h
      | ok b =>
        cases hloop : l.mapM f with
        | error e =>
          rw [hstep, hloop] at h
          cases h
        | ok bs =>
          rw [hstep, hloop] at h
          cases h
          exact ⟨b, bs, rfl, ih.mp hloop, rfl⟩
    · rintro ⟨b, bs, hstep, hloop, rfl⟩
      rw [hstep, ih.mpr hloop]
      rfl

/-- What one loop relates to its result and the next one to its own, both relate. -/
theorem forall₂_trans {α β γ : Type} {R : α → β → Prop} {S : β → γ → Prop} {T : α → γ → Prop}
    {l : List α} {m : List β} {r : List γ} (hR : List.Forall₂ R l m) (hS : List.Forall₂ S m r)
    (h : ∀ a b c, R a b → S b c → T a c) : List.Forall₂ T l r := by
  induction hR generalizing r with
  | nil =>
    cases hS
    exact .nil
  | cons hab _ ih =>
    cases hS with
    | cons hbc hS => exact .cons (h _ _ _ hab hbc) (ih hS)

/-! ### Tokens -/

/-- Only an empty text has no lines. -/
theorem getlines_eq_nil_iff {delimiter : Char} {cs : List Char} :
    getlines delimiter cs = [] ↔ cs = [] := by
  cases cs with
  | nil => exact ⟨fun _ => rfl, fun _ => rfl⟩
  | cons c cs =>
    unfold getlines
    split
    · simp
    · split <;> simp

/-- Only an empty text has no token. -/
theorem split_eq_nil_iff {s : String} {delimiter : Char} : split s delimiter = [] ↔ s = "" := by
  rw [split, List.map_eq_nil_iff, getlines_eq_nil_iff, String.toList_eq_nil_iff]

example : split "BTCUSDT:LONG;" ';' = ["BTCUSDT:LONG"] := by decide

example : split ";" ';' = [""] := by decide

end Harjus
