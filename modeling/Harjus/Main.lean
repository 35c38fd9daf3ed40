import Harjus.Arbmapper

/-!
# `Harjus.Main`: the trading paths of a run

`main` (`src/Main.cpp`) takes the trading paths from the configuration when it has some, and
looks for them in the symbol map otherwise.
-/

set_option autoImplicit false

namespace Harjus

/-- `symbolMap.find(name)` and `symbolMap.at(name)`. -/
def SymbolMap.find (symbolMap : SymbolMap) (name : String) : Option Symbol :=
  symbolMap.entries.lookup name

/-- The inner loop body of `main` over a configured path. -/
def makeTrade (book : Book) (symbolMap : SymbolMap) (staticTrade : String × Position) :
    Except RuntimeError Trade :=
  match symbolMap.find staticTrade.1 with
  | none => .error ⟨"Symbol not found in symbol map: " ++ staticTrade.1⟩
  | some symbol => .ok (.new book symbol staticTrade.2)

/-- `tradingPaths` in `main`. -/
def tradingPaths (boost : Boost) (setOrder : SetOrder) (book : Book) (symbolMap : SymbolMap)
    (config : Configuration) : Except RuntimeError (List (List Trade)) := do
  let staticPaths ← config.getStaticTradingPaths
  if staticPaths ≠ [] then
    staticPaths.mapM fun path => path.mapM (makeTrade book symbolMap)
  else
    return getTradingPaths boost setOrder book symbolMap config.toIConfiguration

end Harjus
