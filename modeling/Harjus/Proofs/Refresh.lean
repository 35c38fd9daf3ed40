import Harjus.Proofs.Multiprecision
import Harjus.Refresh
import Harjus.Proofs.Worker.Bookkeeping

/-!
# `Harjus.Proofs.Refresh`: parsing an incremental refresh and processing its updates

* `parse_eq`: the parser makes one update for each symbol, in the order in which the symbols
  first appear. A side of the update is the last level that the message sets there, and zero
  if it sets none.
* `run_priceUpdates`: the Worker writes both sides of each update over its book.
* `refresh_overwrites_iff`: so the book is the one that the message asks for exactly when
  every side that the message leaves out, of a symbol it is about, was zero before.

The induction over the entries carries `Represents`: the vector of updates and the map of
positions are `Slots` of the levels set so far.
-/

set_option autoImplicit false

namespace Harjus.Refresh

open Harjus.Lib

variable {app : Application}

/-! ### The update of a symbol -/

/-- The update of a symbol with the given levels on its two sides. -/
def updateOf (levels : Cell → Option Level) (symbol : String) : PriceUpdate where
  symbol := symbol
  bidPrice := ((levels (symbol, .bid)).getD 0).price
  askPrice := ((levels (symbol, .offer)).getD 0).price
  bidQty := ((levels (symbol, .bid)).getD 0).qty
  askQty := ((levels (symbol, .offer)).getD 0).qty

/-- The assignments of the parser to one side of an update. -/
def setSide (level : Level) : BookSide → PriceUpdate → PriceUpdate
  | .bid, u => { u with bidPrice := level.price, bidQty := level.qty }
  | .offer, u => { u with askPrice := level.price, askQty := level.qty }

/-- A new level in a cell is a new side of the update of its symbol. -/
private theorem updateOf_update (levels : Cell → Option Level) (symbol : String)
    (side : BookSide) (level : Level) :
    updateOf (Function.update levels (symbol, side) (some level))
      = Function.update (updateOf levels) symbol
          (setSide level side (updateOf levels symbol)) := by
  funext s
  by_cases hs : s = symbol
  · subst hs
    cases side <;> simp [updateOf, setSide]
  · simp [updateOf, hs]

/-- The update of a symbol without levels is a new one. -/
private theorem updateOf_fresh {writes : List (Cell × Level)} {symbol : String}
    (h : ∀ w ∈ writes, w.1.1 ≠ symbol) :
    updateOf (lastWrite writes) symbol = ⟨symbol, 0, 0, 0, 0⟩ := by
  have hnone : ∀ side, lastWrite writes (symbol, side) = none := by
    intro side
    refine lastWrite_eq_none_iff.mpr fun hmem => ?_
    obtain ⟨w, hw, hcell⟩ := List.mem_map.mp hmem
    exact h w hw (congrArg Prod.fst hcell)
  rw [updateOf, hnone, hnone]
  rfl

/-! ### The loop over the entries -/

/-- The variables of the loop after entries about the symbols that set the levels. -/
structure Represents (loop : Application.RefreshLoop) (symbols : List String)
    (writes : List (Cell × Level)) : Prop where
  slots : Slots loop.priceUpdates loop.updates symbols.eraseDups
    (updateOf (lastWrite writes))
  named : ∀ w ∈ writes, w.1.1 ∈ symbols

namespace Represents

variable {loop : Application.RefreshLoop} {symbols : List String}
variable {writes : List (Cell × Level)} {symbol : String}

/-- Nothing has been read of a message with no entries yet. -/
theorem start (symbol : String) : Represents ⟨[], ∅, symbol⟩ [] [] :=
  ⟨Slots.empty _, fun _ h => absurd h List.not_mem_nil⟩

/-- Looking up the update of a known symbol, or making it. -/
theorem findOrCreate (h : Represents loop symbols writes) (hknown : symbol ∈ app.symbolMap) :
    ∃ loop', loop.findOrCreate app symbol = .ok loop' ∧
      Represents loop' (symbols ++ [symbol]) writes ∧ loop'.symbol = loop.symbol := by
  have hnamed : ∀ w ∈ writes, w.1.1 ∈ symbols ++ [symbol] :=
    fun w hw => List.mem_append_left _ (h.named w hw)
  by_cases hmem : symbol ∈ symbols
  · -- A known symbol keeps its position, and its first occurrence stays the first.
    have hindex : symbol ∈ loop.updates := h.slots.mem_index.mpr (List.mem_eraseDups.mpr hmem)
    have hkeys : (symbols ++ [symbol]).eraseDups = symbols.eraseDups := by
      rw [eraseDups_concat, if_pos hmem]
    exact ⟨loop, if_pos hindex, ⟨hkeys ▸ h.slots, hnamed⟩, rfl⟩
  · -- A new symbol takes the next position. No write is about it, so its update is blank.
    have hkey : symbol ∉ symbols.eraseDups := fun hkey => hmem (List.mem_eraseDups.mp hkey)
    have hindex : symbol ∉ loop.updates := fun hin => hkey (h.slots.mem_index.mp hin)
    have hkeys : (symbols ++ [symbol]).eraseDups = symbols.eraseDups ++ [symbol] := by
      rw [eraseDups_concat, if_neg hmem]
    have hslots := h.slots.create hkey
    have hother : ∀ w ∈ writes, w.1.1 ≠ symbol := fun w hw hw' => hmem (hw' ▸ h.named w hw)
    rw [updateOf_fresh hother, ← hkeys] at hslots
    refine ⟨⟨_, _, loop.symbol⟩, ?_, ⟨hslots, hnamed⟩, rfl⟩
    rw [Application.RefreshLoop.findOrCreate, if_neg hindex, Application.symbolAt,
      if_pos hknown]
    rfl

/-- Assigning the two fields of a side sets its level. -/
theorem assign (h : Represents loop symbols writes) (hmem : symbol ∈ symbols)
    (side : BookSide) (level : Level) :
    Represents (loop.assign symbol (setSide level side)) symbols
      (writes ++ [((symbol, side), level)]) where
  slots := by
    rw [lastWrite_concat, updateOf_update]
    exact h.slots.modify (List.mem_eraseDups.mpr hmem) _
  named := by
    intro w hw
    rcases List.mem_append.mp hw with hw | hw
    · exact h.named w hw
    · rw [List.mem_singleton.mp hw]
      exact hmem

end Represents

/-- The changes of some lines and of one more. -/
private theorem changes_concat (lines : List Line) (line : Line) :
    changes (lines ++ [line]) = changes lines ++ changes [line] := List.filterMap_append

/-- An entry with a level sets the level. -/
private theorem assignEntry_level {entry : FIX.NoMDEntries} {side : BookSide}
    {price size : String} {level : Level} (loop : Application.RefreshLoop) (symbol : String)
    (hPrice : entry.mdEntryPx = some price)
    (hPriceNumber : app.preciseNumber price = some level.price)
    (hSize : entry.mdEntrySize = some size)
    (hSizeNumber : app.preciseNumber size = some level.qty) :
    app.assignEntry loop symbol side.entryType entry
      = .ok (loop.assign symbol (setSide level side)) := by
  rw [Application.assignEntry, hPrice, hSize]
  simp only [Application.getField, Application.number, hPriceNumber, hSizeNumber, bind,
    Except.bind]
  cases side with
  | bid => exact if_pos rfl
  | offer => exact (if_neg (by decide)).trans (if_pos rfl)

/-- An entry that says no level leaves the updates alone. -/
private theorem assignEntry_none {entry : FIX.NoMDEntries} {entryType : Char} {price : String}
    (loop : Application.RefreshLoop) (symbol : String) (hPrice : entry.mdEntryPx = some price)
    (hnone : entry.mdEntrySize = none ∨ ∀ side : BookSide, entryType ≠ side.entryType) :
    app.assignEntry loop symbol entryType entry = .ok loop := by
  rw [Application.assignEntry, hPrice]
  rcases hnone with hSize | hType
  · rw [hSize]
    rfl
  · cases entry.mdEntrySize with
    | none => rfl
    | some size =>
      exact (if_neg (hType .bid)).trans (if_neg (hType .offer))

/-- What the entry says, after its symbol was looked up. -/
private theorem parseRefreshEntry_says {loop found : Application.RefreshLoop}
    {entry : FIX.NoMDEntries} {symbol : String} {change : Option (BookSide × Level)}
    (hsymbol : entry.symbol.getD loop.symbol = symbol) (hmeans : Says app entry change)
    (hfound : Application.RefreshLoop.findOrCreate app { loop with symbol := symbol } symbol
      = .ok found) :
    app.parseRefreshEntry loop entry
      = .ok (change.elim found fun c => found.assign symbol (setSide c.2 c.1)) := by
  have hentry : ∀ entryType action, entry.mdEntryType = some entryType →
      entry.mdUpdateAction = some action → app.parseRefreshEntry loop entry
        = if Sets action then app.assignEntry found symbol entryType entry else .ok found := by
    intro entryType action hType hAction
    rw [Application.parseRefreshEntry, hType, hAction]
    simp only [Application.getField, bind, Except.bind, hsymbol, hfound]
    rfl
  -- Only a level reaches the assignments; the three other kinds of entry set nothing.
  cases hmeans with
  | level hType hAction hSets hPrice hPriceNumber hSize hSizeNumber =>
    rw [hentry _ _ hType hAction, if_pos hSets,
      assignEntry_level found symbol hPrice hPriceNumber hSize hSizeNumber]
    rfl
  | otherAction hType hAction hOther =>
    rw [hentry _ _ hType hAction, if_neg hOther]
    rfl
  | noSize hType hAction hPrice hSize =>
    rw [hentry _ _ hType hAction, assignEntry_none found symbol hPrice (.inl hSize), ite_self]
    rfl
  | otherType hType hOther hAction hPrice =>
    rw [hentry _ _ hType hAction, assignEntry_none found symbol hPrice (.inr hOther), ite_self]
    rfl

/-- One entry adds its line. The entry after it, if it has no symbol, takes the one left in
the loop. -/
theorem parseRefreshEntry_spec {loop : Application.RefreshLoop} {lines : List Line}
    {entry : FIX.NoMDEntries} (line : Line)
    (h : Represents loop (lines.map Line.symbol) (changes lines))
    (hsymbol : entry.symbol.getD loop.symbol = line.symbol)
    (hknown : line.symbol ∈ app.symbolMap) (hmeans : Says app entry line.change) :
    ∃ loop', app.parseRefreshEntry loop entry = .ok loop' ∧ loop'.symbol = line.symbol ∧
      Represents loop' ((lines ++ [line]).map Line.symbol) (changes (lines ++ [line])) := by
  have hset : Represents { loop with symbol := line.symbol } (lines.map Line.symbol)
      (changes lines) := ⟨h.slots, h.named⟩
  obtain ⟨found, hfound, hrep, hname⟩ := hset.findOrCreate hknown
  refine ⟨_, parseRefreshEntry_says hsymbol hmeans hfound, ?_⟩
  rw [changes_concat, List.map_append, List.map_singleton]
  have hmem : line.symbol ∈ lines.map Line.symbol ++ [line.symbol] :=
    List.mem_append_right _ (List.mem_singleton_self _)
  obtain ⟨symbol, change⟩ := line
  cases change with
  | none => exact ⟨hname, (List.append_nil (changes lines)).symm ▸ hrep⟩
  | some c => exact ⟨hname, hrep.assign hmem c.1 c.2⟩

/-- The whole loop. -/
theorem foldlM_parseRefreshEntry {entries : List FIX.NoMDEntries} {lines : List Line}
    {previous : Option String} (hreads : Reads app previous entries lines) :
    ∀ (loop : Application.RefreshLoop) (done : List Line),
      Represents loop (done.map Line.symbol) (changes done) →
      (∀ symbol, previous = some symbol → loop.symbol = symbol) →
      ∃ loop', entries.foldlM app.parseRefreshEntry loop = .ok loop' ∧
        Represents loop' ((done ++ lines).map Line.symbol) (changes (done ++ lines)) := by
  induction hreads with
  | nil =>
    intro loop done h _
    exact ⟨loop, rfl, by rwa [List.append_nil]⟩
  | @cons previous symbol entry change entries lines hSymbol hKnown hSays _ ih =>
    intro loop done h hprevious
    -- The loop variable holds the symbol of the entry before, which this one may inherit.
    have hsymbol : entry.symbol.getD loop.symbol = symbol := by
      cases hown : entry.symbol with
      | none =>
        rw [hown, Option.none_or] at hSymbol
        exact hprevious symbol hSymbol
      | some own =>
        rw [hown] at hSymbol
        exact Option.some.inj hSymbol
    obtain ⟨next, hnext, hname, hrep⟩ :=
      parseRefreshEntry_spec ⟨symbol, change⟩ h hsymbol hKnown hSays
    obtain ⟨last, hlast, hrep⟩ :=
      ih next _ hrep fun s hs => hname.trans (Option.some.inj hs)
    refine ⟨last, ?_, by rwa [List.append_assoc] at hrep⟩
    rw [List.foldlM_cons, hnext]
    exact hlast

/-- The parser makes one update for each symbol, with the last levels that the lines set. -/
theorem parse_eq {entries : List FIX.NoMDEntries} {lines : List Line}
    (hreads : Reads app none entries lines) :
    app.parsePriceUpdateFromMarketDataIncrementalRefresh ⟨some entries⟩
      = .ok ((lines.map Line.symbol).eraseDups.map (updateOf (lastWrite (changes lines)))) := by
  obtain ⟨loop, hloop, hrep⟩ := foldlM_parseRefreshEntry hreads ⟨[], ∅, ""⟩ []
    (Represents.start "") nofun
  rw [List.nil_append] at hrep
  rw [← hrep.slots.items_eq, Application.parsePriceUpdateFromMarketDataIncrementalRefresh]
  simp only [Application.getField, bind, Except.bind, hloop]
  rfl

/-! ### The Worker and the updates -/

variable {n : ℕ}

/-- A price update overwrites the quote of its symbol, whether it starts an execution or
not. -/
theorem book_processPriceUpdate (w : Worker n) (update : PriceUpdate) :
    (w.processPriceUpdate update).1.book = w.book.apply update := by
  unfold Worker.processPriceUpdate
  dsimp only
  split <;> rfl

/-- A list of price updates overwrites the quotes one after the other. -/
theorem run_priceUpdates (w : Worker n) (updates : List PriceUpdate) :
    ∃ w' orders, (Worker.machine n).run w (updates.map .priceUpdate) = .ok (w', orders) ∧
      w'.book = updates.foldl Book.apply w.book := by
  induction updates generalizing w with
  | nil => exact ⟨w, [], rfl, rfl⟩
  | cons update updates ih =>
    obtain ⟨w', orders, hrun, hbook⟩ := ih (w.processPriceUpdate update).1
    refine ⟨w', _, (Machine.run_cons _).mpr ⟨_, _, orders, rfl, hrun, rfl⟩, ?_⟩
    rw [hbook, book_processPriceUpdate]
    rfl

/-- An update sets both levels of its symbol, and no others. -/
private theorem level_apply_updateOf (book : Book) (levels : Cell → Option Level)
    (symbol : String) (cell : Cell) :
    (book.apply (updateOf levels symbol)).level cell
      = if cell.1 = symbol then (levels cell).getD 0 else book.level cell := by
  obtain ⟨s, side⟩ := cell
  by_cases hs : s = symbol
  · subst hs
    rw [if_pos rfl]
    cases side <;> simp [Book.level, Book.apply, updateOf]
  · rw [if_neg hs]
    cases side <;> simp [Book.level, Book.apply, updateOf, Function.update_of_ne hs]

/-- Both sides of every symbol with an update are overwritten, and no others. -/
private theorem level_foldl_apply (book : Book) (writes : List (Cell × Level))
    (symbols : List String) :
    ((symbols.map (updateOf (lastWrite writes))).foldl Book.apply book).level
      = rebuild Prod.fst 0 book.level symbols writes := by
  induction symbols generalizing book with
  | nil => rfl
  | cons symbol symbols ih =>
    rw [List.map_cons, List.foldl_cons, ih]
    funext cell
    rw [rebuild, rebuild, level_apply_updateOf]
    -- A later update of the symbol decides; the updates of one message agree on it anyway.
    by_cases hin : cell.1 ∈ symbols
    · rw [if_pos hin, if_pos (List.mem_cons_of_mem _ hin)]
    · rw [if_neg hin]
      by_cases hs : cell.1 = symbol
      · rw [if_pos hs, if_pos (hs ▸ List.mem_cons_self)]
      · rw [if_neg hs, if_neg (by simp [hs, hin])]

/-- Only cells of the symbols of the lines are written. -/
private theorem symbol_of_mem_changes {lines : List Line} {w : Cell × Level}
    (h : w ∈ changes lines) : w.1.1 ∈ lines.map Line.symbol := by
  obtain ⟨line, hline, hchange⟩ := List.mem_filterMap.mp h
  obtain ⟨⟨side, level⟩, -, rfl⟩ := Option.map_eq_some_iff.mp hchange
  exact List.mem_map_of_mem hline

/-- Parsing an incremental refresh and processing its updates leaves the book that the message
asks for if and only if each side that the message leaves out, of a symbol it is about, had
price and quantity zero. -/
theorem refresh_overwrites_iff (w : Worker n) {entries : List FIX.NoMDEntries}
    {lines : List Line} (hreads : Reads app none entries lines) :
    ∃ updates w' orders,
      app.parsePriceUpdateFromMarketDataIncrementalRefresh ⟨some entries⟩ = .ok updates ∧
      (Worker.machine n).run w (updates.map .priceUpdate) = .ok (w', orders) ∧
      (w'.book.level = overwrite w.book.level (changes lines) ↔
        ∀ cell : Cell, cell.1 ∈ lines.map Line.symbol →
          cell ∉ (changes lines).map Prod.fst → w.book.level cell = 0) := by
  obtain ⟨w', orders, hrun, hbook⟩ := run_priceUpdates w
    ((lines.map Line.symbol).eraseDups.map (updateOf (lastWrite (changes lines))))
  refine ⟨_, w', orders, parse_eq hreads, hrun, ?_⟩
  have htouched : ∀ c ∈ changes lines, c.1.1 ∈ (lines.map Line.symbol).eraseDups :=
    fun c hc => List.mem_eraseDups.mpr (symbol_of_mem_changes hc)
  rw [hbook, level_foldl_apply, rebuild_eq_overwrite_iff htouched]
  simp only [List.mem_eraseDups]

/-! ### Samples: a message about one side, and one about both -/

/-- An application that knows the symbols of the sample book, with exact numbers. -/
def sampleApplication : Application :=
  .ofBoost PreciseNumber.exactBoost {"BTCUSDT", "ETHBTC", "ETHUSDT"}

/-- A bid of 98 for 7, as the symbol's own entry. -/
def sampleBid : FIX.NoMDEntries :=
  ⟨some FIX.MDUpdateAction_CHANGE, some FIX.MDEntryType_BID, some "98", some "7", some "BTCUSDT"⟩

/-- An offer of 101 for 3, without a symbol. -/
def sampleOffer : FIX.NoMDEntries :=
  ⟨some FIX.MDUpdateAction_NEW, some FIX.MDEntryType_OFFER, some "101", some "3", none⟩

/-- What the sample bid says. -/
def sampleBidLine : Line := ⟨"BTCUSDT", some (.bid, ⟨.ofCount 98, .ofCount 7⟩)⟩

/-- What the sample offer says. -/
def sampleOfferLine : Line := ⟨"BTCUSDT", some (.offer, ⟨.ofCount 101, .ofCount 3⟩)⟩

/-- The sample bid sets a bid. -/
private theorem says_sampleBid : Says sampleApplication sampleBid sampleBidLine.change :=
  .level rfl rfl (.inr rfl) rfl (by decide +kernel) rfl (by decide +kernel)

/-- The sample offer sets an offer. -/
private theorem says_sampleOffer : Says sampleApplication sampleOffer sampleOfferLine.change :=
  .level rfl rfl (.inl rfl) rfl (by decide +kernel) rfl (by decide +kernel)

/-- A message with the bid alone can be read. -/
theorem reads_sampleBid : Reads sampleApplication none [sampleBid] [sampleBidLine] :=
  .cons rfl (by decide +kernel) says_sampleBid .nil

/-- A message with the bid and the offer can be read. -/
theorem reads_sampleBoth :
    Reads sampleApplication none [sampleBid, sampleOffer] [sampleBidLine, sampleOfferLine] :=
  .cons rfl (by decide +kernel) says_sampleBid
    (.cons rfl (by decide +kernel) says_sampleOffer .nil)

/-- A message about both sides of its symbol leaves the book that it asks for. -/
theorem refresh_overwrites_iff_both :
    ∃ updates w' orders,
      sampleApplication.parsePriceUpdateFromMarketDataIncrementalRefresh
        ⟨some [sampleBid, sampleOffer]⟩ = .ok updates ∧
      (Worker.machine 1).run (Worker.new Worker.sampleConfig) (updates.map .priceUpdate)
        = .ok (w', orders) ∧
      w'.book.level = overwrite (Worker.new Worker.sampleConfig).book.level
        (changes [sampleBidLine, sampleOfferLine]) := by
  obtain ⟨updates, w', orders, hparse, hrun, hiff⟩ :=
    refresh_overwrites_iff (Worker.new Worker.sampleConfig) reads_sampleBoth
  refine ⟨updates, w', orders, hparse, hrun, hiff.mpr ?_⟩
  rintro ⟨symbol, side⟩ hsymbol hcell
  have hs : symbol = "BTCUSDT" := by simpa [sampleBidLine, sampleOfferLine] using hsymbol
  refine absurd ?_ hcell
  subst hs
  cases side <;> decide

/-- A message about the bid alone wipes out the offer, which nothing is said about. -/
theorem refresh_overwrites_counterexample :
    Reads sampleApplication none [sampleBid] [sampleBidLine] ∧
    ∃ updates w' orders,
      sampleApplication.parsePriceUpdateFromMarketDataIncrementalRefresh ⟨some [sampleBid]⟩
        = .ok updates ∧
      (Worker.machine 1).run (Worker.new Worker.sampleConfig) (updates.map .priceUpdate)
        = .ok (w', orders) ∧
      (Worker.new Worker.sampleConfig).book.level ("BTCUSDT", .offer)
        = ⟨.ofCount 100, .ofCount 10⟩ ∧
      w'.book.level ("BTCUSDT", .offer) = 0 ∧
      w'.book.level ≠ overwrite (Worker.new Worker.sampleConfig).book.level
        (changes [sampleBidLine]) := by
  obtain ⟨w', orders, hrun, hbook⟩ := run_priceUpdates (Worker.new Worker.sampleConfig)
    (([sampleBidLine].map Line.symbol).eraseDups.map
      (updateOf (lastWrite (changes [sampleBidLine]))))
  have hafter : w'.book.level ("BTCUSDT", .offer) = 0 := by
    rw [hbook, level_foldl_apply]
    decide
  refine ⟨reads_sampleBid, _, w', orders, parse_eq reads_sampleBid, hrun, rfl, hafter, ?_⟩
  intro h
  have hoffer := congrFun h ("BTCUSDT", .offer)
  rw [hafter] at hoffer
  exact absurd hoffer (by decide)

end Harjus.Refresh
