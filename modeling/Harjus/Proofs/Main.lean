import Harjus.Main
import Harjus.Proofs.Arbmapper

/-!
# `Harjus.Proofs.Main`: configured paths against the shape of discovered ones

The Worker compares what the last trade of a path receives with what the first one uses, so
a path has to be a closed chain of at least one trade. `getTradingPaths` finds nothing else.
A configured path is whatever the text says.

* `assets_of_item`: the trade made from an item of the text exchanges the assets that the item
  names.
* `tradingPaths_closed_iff`: the paths are closed chains exactly when those of the text are.
-/

set_option autoImplicit false

namespace Harjus

open Harjus.Lib

variable {boost : Boost} {setOrder : SetOrder} {book : Book} {symbolMap : SymbolMap}
variable {config : Configuration}

/-! ### What the text says -/

/-- The asset that an item `SYMBOL:LONG` or `SYMBOL:SHORT` uses. -/
def itemUsed (symbolMap : SymbolMap) (item : String) : Option String :=
  match split item ':' with
  | [name, "LONG"] => (symbolMap.find name).map Symbol.quoteAsset
  | [name, "SHORT"] => (symbolMap.find name).map Symbol.baseAsset
  | _ => none

/-- The asset that an item `SYMBOL:LONG` or `SYMBOL:SHORT` receives. -/
def itemRecv (symbolMap : SymbolMap) (item : String) : Option String :=
  match split item ':' with
  | [name, "LONG"] => (symbolMap.find name).map Symbol.baseAsset
  | [name, "SHORT"] => (symbolMap.find name).map Symbol.quoteAsset
  | _ => none

/-- A path of the text has an item, and its items are a closed chain. -/
def ClosedSegment (symbolMap : SymbolMap) (segment : String) : Prop :=
  segment ≠ "" ∧ ClosedWalk (itemUsed symbolMap) (itemRecv symbolMap) (split segment ',')

/-- A trade made from an item exchanges the assets that the item names. -/
theorem assets_of_item {item : String} {staticTrade : String × Position} {t : Trade}
    (hitem : Configuration.staticTrade item = .ok staticTrade)
    (htrade : makeTrade book symbolMap staticTrade = .ok t) :
    itemUsed symbolMap item = some t.usedCurrency ∧
      itemRecv symbolMap item = some t.recvCurrency := by
  unfold Configuration.staticTrade at hitem
  unfold makeTrade at htrade
  split at htrade
  · cases htrade
  · rename_i symbol hfind
    cases htrade
    split at hitem
    · rename_i name positionStr hsplit
      split at hitem
      · rename_i hlong
        cases hitem
        simp [itemUsed, itemRecv, hsplit, hlong, hfind, Trade.usedCurrency, Trade.recvCurrency,
          Trade.new, Trade.resetOrderQty]
      · split at hitem
        · rename_i hshort
          cases hitem
          simp [itemUsed, itemRecv, hsplit, hshort, hfind, Trade.usedCurrency,
            Trade.recvCurrency, Trade.new, Trade.resetOrderQty]
        · cases hitem
    · cases hitem

/-- A configured path is a closed chain when the path of the text is one. -/
theorem closed_iff_closedSegment {segment : String} {staticPath : List (String × Position)}
    {path : List Trade}
    (hsegment : (split segment ',').mapM Configuration.staticTrade = .ok staticPath)
    (hpath : staticPath.mapM (makeTrade book symbolMap) = .ok path) :
    (path ≠ [] ∧ ClosedWalk Trade.usedCurrency Trade.recvCurrency path)
      ↔ ClosedSegment symbolMap segment := by
  have hitems : List.Forall₂ (fun item t => itemUsed symbolMap item = some t.usedCurrency ∧
      itemRecv symbolMap item = some t.recvCurrency) (split segment ',') path :=
    forall₂_trans (mapM_eq_ok_iff.mp hsegment) (mapM_eq_ok_iff.mp hpath)
      fun _ _ _ hitem htrade => assets_of_item hitem htrade
  have hused : (split segment ',').map (itemUsed symbolMap)
      = path.map fun t => some t.usedCurrency := by
    rw [← List.forall₂_eq_eq_eq, List.forall₂_map_left_iff, List.forall₂_map_right_iff]
    exact hitems.imp fun _ _ h => h.1
  have hrecv : (split segment ',').map (itemRecv symbolMap)
      = path.map fun t => some t.recvCurrency := by
    rw [← List.forall₂_eq_eq_eq, List.forall₂_map_left_iff, List.forall₂_map_right_iff]
    exact hitems.imp fun _ _ h => h.2
  have hne : path ≠ [] ↔ segment ≠ "" := by
    rw [← List.length_pos_iff, ← hitems.length_eq, List.length_pos_iff]
    exact not_congr split_eq_nil_iff
  have hclosed : (path.map fun t => some t.recvCurrency)
        = (path.map fun t => some t.usedCurrency).rotate 1 ↔
      path.map Trade.recvCurrency = (path.map Trade.usedCurrency).rotate 1 := by
    have hsome := List.map_injective_iff.mpr (Option.some_injective String)
    rw [← hsome.eq_iff, List.map_rotate, List.map_map, List.map_map]
    rfl
  rw [ClosedSegment, hne, closedWalk_iff, closedWalk_iff, hused, hrecv, hclosed]

/-- Two lists whose elements correspond have corresponding properties. -/
theorem forall_iff_of_forall₂ {α β : Type} {P : β → Prop} {Q : α → Prop} {l : List α}
    {r : List β} (h : List.Forall₂ (fun a b => P b ↔ Q a) l r) :
    (∀ b ∈ r, P b) ↔ ∀ a ∈ l, Q a := by
  induction h with
  | nil => simp
  | cons hhead _ ih => rw [List.forall_mem_cons, List.forall_mem_cons, hhead, ih]

/-- The paths that the Worker gets are closed chains of at least one trade exactly when every
path of the text has an item and its items are a closed chain. -/
theorem tradingPaths_closed_iff
    (hboost : boost.Documented (buildGraph setOrder book symbolMap)) {paths : List (List Trade)}
    (h : tradingPaths boost setOrder book symbolMap config = .ok paths) :
    (∀ path ∈ paths, path ≠ [] ∧ ClosedWalk Trade.usedCurrency Trade.recvCurrency path) ↔
      ∀ segment ∈ split config.staticPathsEnv ';', ClosedSegment symbolMap segment := by
  unfold tradingPaths Configuration.getStaticTradingPaths at h
  by_cases hempty : config.staticPathsEnv = ""
  · -- Without a text the paths are found in the symbol map.
    rw [if_pos hempty] at h
    cases h
    rw [split_eq_nil_iff.mpr hempty]
    exact ⟨fun _ _ hmem => (nomatch hmem),
      fun _ path hpath => closed_of_mem_getTradingPaths hboost hpath⟩
  · rw [if_neg hempty] at h
    cases hstatic : (split config.staticPathsEnv ';').mapM fun pathString =>
        (split pathString ',').mapM Configuration.staticTrade with
    | error e =>
      rw [hstatic] at h
      cases h
    | ok staticPaths =>
      rw [hstatic] at h
      -- The paths of the Worker stand one by one for the segments of the text.
      have hsegments := mapM_eq_ok_iff.mp hstatic
      have hne : staticPaths ≠ [] := by
        rw [← List.length_pos_iff, ← hsegments.length_eq, List.length_pos_iff]
        exact fun hnil => hempty (split_eq_nil_iff.mp hnil)
      have hpaths : staticPaths.mapM (fun path => path.mapM (makeTrade book symbolMap))
          = .ok paths := by
        rw [← h]
        exact (if_pos hne).symm
      exact forall_iff_of_forall₂
        (forall₂_trans hsegments (mapM_eq_ok_iff.mp hpaths)
          fun _ _ _ hsegment hpath => closed_iff_closedSegment hsegment hpath)

/-- One path over the triangle. -/
def sampleText : String := "BTCUSDT:LONG,ETHBTC:LONG,ETHUSDT:SHORT"

/-- The sample text is one path of three trades. -/
private theorem split_sampleText : split sampleText ';' = [sampleText] ∧
    split sampleText ',' = ["BTCUSDT:LONG", "ETHBTC:LONG", "ETHUSDT:SHORT"] := by
  constructor <;> simp [sampleText, split, getlines]

/-- The path of the sample configuration is a closed chain. -/
theorem tradingPaths_closed_iff_sample :
    tradingPaths searchBoost sampleSetOrder .empty sampleTriangle ⟨⟨3, []⟩, sampleText⟩
        = .ok [sampleCycle] ∧
      ∀ path ∈ [sampleCycle],
        path ≠ [] ∧ ClosedWalk Trade.usedCurrency Trade.recvCurrency path := by
  have hpaths : tradingPaths searchBoost sampleSetOrder .empty sampleTriangle
      ⟨⟨3, []⟩, sampleText⟩ = .ok [sampleCycle] := by
    rw [tradingPaths, Configuration.getStaticTradingPaths, if_neg (by decide)]
    simp only [split_sampleText, List.mapM_cons, List.mapM_nil]
    rfl
  refine ⟨hpaths, (tradingPaths_closed_iff (documented_searchBoost _) hpaths).mpr ?_⟩
  simp only [split_sampleText, List.forall_mem_singleton, ClosedSegment, closedWalk_iff]
  refine ⟨by decide, ?_⟩
  simp [itemUsed, itemRecv, split, getlines, SymbolMap.find, sampleTriangle, List.lookup_cons]

/-- A path of one trade does not come back, and a path of none has no first trade. -/
theorem tradingPaths_not_closed :
    tradingPaths searchBoost sampleSetOrder .empty sampleTriangle ⟨⟨3, []⟩, "BTCUSDT:LONG;;"⟩
      = .ok [[⟨⟨"BTCUSDT", "BTC", "USDT", 0, 0⟩, .LONG, 0⟩], []] ∧
    ¬ ClosedWalk Trade.usedCurrency Trade.recvCurrency
      [(⟨⟨"BTCUSDT", "BTC", "USDT", 0, 0⟩, .LONG, 0⟩ : Trade)] := by
  refine ⟨rfl, fun hclosed => ?_⟩
  exact absurd (closedWalk_iff.mp hclosed) (by decide)

end Harjus
