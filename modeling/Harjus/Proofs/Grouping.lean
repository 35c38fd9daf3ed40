import Harjus.Proofs.Refresh

/-!
# `Harjus.Proofs.Grouping`: the updates of an incremental refresh, symbol by symbol

The entries of a message are about several symbols in any order, and an entry without a symbol
is about the one of the entry before it. The parser collects them into one update for each symbol.

* `reads_resolve`: a message with the fields that `FixMdSchema` requires reads as its resolved
  entries.
* `lastWrite_changes`: the last level that they set on a side is the one of the last entry that
  sets it.
* `parse_groups`: one update for each symbol, with the last level of either side.
-/

set_option autoImplicit false

namespace Harjus.Refresh

open Harjus.Lib

variable {app : Application}

/-! ### The reference -/

/-- Each entry with the symbol that it is about: its own, or else the nearest one before. -/
def resolve : String → List FIX.NoMDEntries → List (String × FIX.NoMDEntries)
  | _, [] => []
  | previous, entry :: entries =>
    let symbol := entry.symbol.getD previous
    (symbol, entry) :: resolve symbol entries

/-- The entry is of the type of the side, NEW or CHANGE, and has a size. -/
def SetsSide (side : BookSide) (entry : FIX.NoMDEntries) : Prop :=
  entry.mdEntryType = some side.entryType ∧
    (entry.mdUpdateAction = some FIX.MDUpdateAction_NEW ∨
      entry.mdUpdateAction = some FIX.MDUpdateAction_CHANGE) ∧
    entry.mdEntrySize.isSome

instance (side : BookSide) (entry : FIX.NoMDEntries) : Decidable (SetsSide side entry) :=
  inferInstanceAs (Decidable (_ ∧ _ ∧ _))

/-- The last entry about the symbol that sets the side. -/
def lastEntry (entries : List (String × FIX.NoMDEntries)) (symbol : String) (side : BookSide) :
    Option FIX.NoMDEntries :=
  ((entries.filter fun e => e.1 = symbol ∧ SetsSide side e.2).map Prod.snd).getLast?

/-- The level is the one of the entry, or zero without an entry. -/
def HasLevel (app : Application) (level : Level) : Option FIX.NoMDEntries → Prop
  | none => level = 0
  | some entry => entry.mdEntryPx.bind app.preciseNumber = some level.price ∧
      entry.mdEntrySize.bind app.preciseNumber = some level.qty

/-- The fields that `FixMdSchema` requires of an entry. -/
structure HasRequired (entry : FIX.NoMDEntries) : Prop where
  mdUpdateAction : entry.mdUpdateAction.isSome
  mdEntryPx : entry.mdEntryPx.isSome
  mdEntryType : entry.mdEntryType.isSome

/-- `PreciseNumber` takes the texts of the price and the size of an entry. -/
structure ReadableEntry (app : Application) (entry : FIX.NoMDEntries) : Prop where
  mdEntryPx : (entry.mdEntryPx.bind app.preciseNumber).isSome
  mdEntrySize : (entry.mdEntrySize.bind app.preciseNumber).isSome

/-! ### The lines of a message -/

/-- The level of an entry. -/
def levelOf (app : Application) (entry : FIX.NoMDEntries) : Level where
  price := (entry.mdEntryPx.bind app.preciseNumber).getD 0
  qty := (entry.mdEntrySize.bind app.preciseNumber).getD 0

/-- What a complete entry says. -/
def changeOf (app : Application) (entry : FIX.NoMDEntries) : Option (BookSide × Level) :=
  if SetsSide .bid entry then some (.bid, levelOf app entry)
  else if SetsSide .offer entry then some (.offer, levelOf app entry)
  else none

/-- The line of a resolved entry. -/
def lineOf (app : Application) (e : String × FIX.NoMDEntries) : Line :=
  ⟨e.1, changeOf app e.2⟩

/-- An entry has one type, so it sets one side at most. -/
theorem SetsSide.unique {side side' : BookSide} {entry : FIX.NoMDEntries}
    (h : SetsSide side entry) (h' : SetsSide side' entry) : side = side' := by
  have htype : side.entryType = side'.entryType := Option.some.inj (h.1.symm.trans h'.1)
  cases side <;> cases side' <;> first | rfl | exact absurd htype (by decide)

/-- An entry that sets a side changes it. -/
theorem changeOf_of_sets {side : BookSide} {entry : FIX.NoMDEntries} (h : SetsSide side entry) :
    changeOf app entry = some (side, levelOf app entry) := by
  cases side with
  | bid => exact if_pos h
  | offer =>
    have hbid : ¬ SetsSide .bid entry := fun hbid => nomatch h.unique hbid
    exact (if_neg hbid).trans (if_pos h)

/-- An entry that sets no side changes nothing. -/
theorem changeOf_of_not_sets {entry : FIX.NoMDEntries} (h : ∀ side, ¬ SetsSide side entry) :
    changeOf app entry = none :=
  (if_neg (h .bid)).trans (if_neg (h .offer))

/-- A complete entry says the level that it sets, or none. -/
theorem says_changeOf {entry : FIX.NoMDEntries} (hrequired : HasRequired entry)
    (hread : ∀ side, SetsSide side entry → ReadableEntry app entry) :
    Says app entry (changeOf app entry) := by
  obtain ⟨action, haction⟩ := Option.isSome_iff_exists.mp hrequired.mdUpdateAction
  obtain ⟨price, hprice⟩ := Option.isSome_iff_exists.mp hrequired.mdEntryPx
  obtain ⟨type, htype⟩ := Option.isSome_iff_exists.mp hrequired.mdEntryType
  by_cases hsets : ∃ side, SetsSide side entry
  · obtain ⟨side, hside⟩ := hsets
    have hamounts := hread side hside
    obtain ⟨hentryType, hentryAction, hentrySize⟩ := hside
    obtain ⟨size, hsize⟩ := Option.isSome_iff_exists.mp hentrySize
    obtain ⟨amount, hamount⟩ := Option.isSome_iff_exists.mp hamounts.mdEntryPx
    obtain ⟨qty, hqty⟩ := Option.isSome_iff_exists.mp hamounts.mdEntrySize
    rw [changeOf_of_sets ⟨hentryType, hentryAction, hentrySize⟩, levelOf, hamount, hqty]
    rw [hprice, Option.bind_some] at hamount
    rw [hsize, Option.bind_some] at hqty
    have hsetsAction : Sets action := by
      rw [haction, Option.some.injEq, Option.some.injEq] at hentryAction
      exact hentryAction
    exact .level hentryType haction hsetsAction hprice hamount hsize hqty
  · rw [changeOf_of_not_sets fun side hside => hsets ⟨side, hside⟩]
    by_cases haction' : Sets action
    · cases hsize : entry.mdEntrySize with
      | none => exact .noSize htype haction hprice hsize
      | some size =>
        -- A NEW or CHANGE entry with a size sets a side unless it is of another type.
        refine .otherType htype (fun side hside => hsets ⟨side, ?_, ?_, ?_⟩) haction hprice
        · rw [htype, hside]
        · rw [haction, Option.some.injEq, Option.some.injEq]
          exact haction'
        · rw [hsize]
          rfl
    · exact .otherAction htype haction haction'

/-- A complete message reads as its resolved entries. -/
theorem reads_resolve {entries : List FIX.NoMDEntries}
    (hknown : ∀ entry ∈ entries, ∀ symbol, entry.symbol = some symbol → symbol ∈ app.symbolMap)
    (hrequired : ∀ entry ∈ entries, HasRequired entry)
    (hread : ∀ entry ∈ entries, ∀ side, SetsSide side entry → ReadableEntry app entry)
    (previous : Option String) (hprevious : ∀ symbol, previous = some symbol →
      symbol ∈ app.symbolMap)
    (hfirst : ∀ entry, entries.head? = some entry → (entry.symbol.or previous).isSome) :
    Reads app previous entries ((resolve (previous.getD "") entries).map (lineOf app)) := by
  induction entries generalizing previous with
  | nil => exact .nil
  | cons entry entries ih =>
    obtain ⟨symbol, hsymbol⟩ := Option.isSome_iff_exists.mp (hfirst entry rfl)
    have hresolved : entry.symbol.getD (previous.getD "") = symbol := by
      rw [← Option.getD_or, hsymbol, Option.getD_some]
    have hsymbolKnown : symbol ∈ app.symbolMap := by
      cases hown : entry.symbol with
      | none =>
        rw [hown, Option.none_or] at hsymbol
        exact hprevious symbol hsymbol
      | some own =>
        rw [hown, Option.some_or] at hsymbol
        exact hknown entry List.mem_cons_self symbol (hown.trans hsymbol)
    have hrest := ih (fun e he => hknown e (List.mem_cons_of_mem _ he))
      (fun e he => hrequired e (List.mem_cons_of_mem _ he))
      (fun e he => hread e (List.mem_cons_of_mem _ he)) (some symbol)
      (fun s hs => Option.some.inj hs ▸ hsymbolKnown)
      (fun e _ => by cases e.symbol <;> rfl)
    rw [resolve, hresolved]
    exact .cons hsymbol hsymbolKnown
      (says_changeOf (hrequired entry List.mem_cons_self) (hread entry List.mem_cons_self)) hrest

/-- The last entry about a side is among the later ones, if there is one. -/
theorem lastEntry_cons (e : String × FIX.NoMDEntries) (entries : List (String × FIX.NoMDEntries))
    (symbol : String) (side : BookSide) :
    lastEntry (e :: entries) symbol side = (lastEntry entries symbol side).or
      (if e.1 = symbol ∧ SetsSide side e.2 then some e.2 else none) := by
  unfold lastEntry
  rw [List.filter_cons]
  by_cases h : e.1 = symbol ∧ SetsSide side e.2
  · rw [if_pos (decide_eq_true h), if_pos h, List.map_cons, List.getLast?_cons]
    cases ((entries.filter fun e => e.1 = symbol ∧ SetsSide side e.2).map Prod.snd).getLast? <;> rfl
  · rw [if_neg (by simpa using h), if_neg h, Option.or_none]

/-- The level that a resolved entry sets in a cell. -/
theorem lastWrite_lineOf (e : String × FIX.NoMDEntries) (symbol : String) (side : BookSide) :
    lastWrite (changes [lineOf app e]) (symbol, side)
      = if e.1 = symbol ∧ SetsSide side e.2 then some (levelOf app e.2) else none := by
  by_cases hsets : ∃ side', SetsSide side' e.2
  · obtain ⟨side', hside'⟩ := hsets
    have hchanges : changes [lineOf app e] = [((e.1, side'), levelOf app e.2)] := by
      simp [changes, lineOf, changeOf_of_sets hside']
    have hcell : (e.1, side') = (symbol, side) ↔ e.1 = symbol ∧ SetsSide side e.2 := by
      rw [Prod.mk.injEq]
      exact and_congr_right fun _ => ⟨fun h => h ▸ hside', fun h => hside'.unique h⟩
    rw [hchanges, lastWrite_cons, lastWrite_nil, Option.none_or]
    simp only [hcell]
  · have hchanges : changes [lineOf app e] = [] := by
      simp [changes, lineOf, changeOf_of_not_sets fun side hside => hsets ⟨side, hside⟩]
    rw [hchanges, lastWrite_nil, if_neg fun h => hsets ⟨side, h.2⟩]

/-- The last level of a side is the one of the last entry that sets it. -/
theorem lastWrite_changes (entries : List (String × FIX.NoMDEntries)) (symbol : String)
    (side : BookSide) :
    lastWrite (changes (entries.map (lineOf app))) (symbol, side)
      = (lastEntry entries symbol side).map (levelOf app) := by
  induction entries with
  | nil => rfl
  | cons e entries ih =>
    have hchanges : changes ((e :: entries).map (lineOf app))
        = changes [lineOf app e] ++ changes (entries.map (lineOf app)) := by
      rw [List.map_cons, ← List.singleton_append]
      exact List.filterMap_append
    rw [hchanges, lastWrite_append, ih, lastWrite_lineOf, lastEntry_cons, Option.map_or]
    split <;> rfl

/-- An entry of the resolved message is one of the message. -/
theorem mem_of_mem_resolve {symbol : String} {entries : List FIX.NoMDEntries}
    {e : String × FIX.NoMDEntries} (h : e ∈ resolve symbol entries) : e.2 ∈ entries := by
  induction entries generalizing symbol with
  | nil => cases h
  | cons entry entries ih =>
    rcases List.mem_cons.mp h with rfl | h
    · exact List.mem_cons_self
    · exact List.mem_cons_of_mem _ (ih h)

/-- The last entry that sets a side is an entry of the message that sets it. -/
theorem sets_of_lastEntry {entries : List FIX.NoMDEntries} {previous symbol : String}
    {side : BookSide} {entry : FIX.NoMDEntries}
    (h : lastEntry (resolve previous entries) symbol side = some entry) :
    entry ∈ entries ∧ SetsSide side entry := by
  obtain ⟨e, he, rfl⟩ := List.mem_map.mp (List.mem_of_getLast? h)
  obtain ⟨hmem, hkeep⟩ := List.mem_filter.mp he
  exact ⟨mem_of_mem_resolve hmem, (of_decide_eq_true hkeep).2⟩

/-! ### The updates of a message -/

/-- The parser gives a message whose first entry names a symbol, and that names known symbols
only, one update for each symbol that the entries are about, in the order in which the symbols
first appear. Each side of an update is the level of the last entry of the symbol that sets it,
and zero without one. -/
theorem parse_groups {entries : List FIX.NoMDEntries}
    (hfirst : ∀ entry, entries.head? = some entry → entry.symbol.isSome)
    (hknown : ∀ entry ∈ entries, ∀ symbol, entry.symbol = some symbol → symbol ∈ app.symbolMap)
    (hrequired : ∀ entry ∈ entries, HasRequired entry)
    (hread : ∀ entry ∈ entries, ∀ side, SetsSide side entry → ReadableEntry app entry) :
    ∃ updates,
      app.parsePriceUpdateFromMarketDataIncrementalRefresh ⟨some entries⟩ = .ok updates ∧
      updates.map PriceUpdate.symbol = ((resolve "" entries).map Prod.fst).eraseDups ∧
      ∀ update ∈ updates,
        HasLevel app ⟨update.bidPrice, update.bidQty⟩
          (lastEntry (resolve "" entries) update.symbol .bid) ∧
        HasLevel app ⟨update.askPrice, update.askQty⟩
          (lastEntry (resolve "" entries) update.symbol .offer) := by
  have hreads := reads_resolve hknown hrequired hread none nofun fun entry hentry => by
    rw [Option.or_none]
    exact hfirst entry hentry
  refine ⟨_, parse_eq hreads, ?_, fun update hupdate => ?_⟩
  · rw [List.map_map, List.map_map]
    exact List.map_id _
  · obtain ⟨symbol, -, rfl⟩ := List.mem_map.mp hupdate
    have hlevel (side : BookSide) : HasLevel app
        ((lastWrite (changes ((resolve "" entries).map (lineOf app))) (symbol, side)).getD 0)
        (lastEntry (resolve "" entries) symbol side) := by
      rw [lastWrite_changes]
      -- The last write of a side comes from the last entry that sets it.
      cases hlast : lastEntry (resolve "" entries) symbol side with
      | none => rfl
      | some entry =>
        obtain ⟨hmem, hsets⟩ := sets_of_lastEntry hlast
        have hamounts := hread entry hmem side hsets
        obtain ⟨price, hprice⟩ := Option.isSome_iff_exists.mp hamounts.mdEntryPx
        obtain ⟨qty, hqty⟩ := Option.isSome_iff_exists.mp hamounts.mdEntrySize
        rw [Option.map_some, Option.getD_some, levelOf, hprice, hqty]
        exact ⟨hprice, hqty⟩
    exact ⟨hlevel .bid, hlevel .offer⟩

/-- An offer of 102 for 4 of another symbol, as the symbol's own entry. -/
def sampleOther : FIX.NoMDEntries :=
  ⟨some FIX.MDUpdateAction_NEW, some FIX.MDEntryType_OFFER, some "102", some "4", some "ETHUSDT"⟩

/-- A bid, an offer without a symbol, and an offer of another symbol. -/
def sampleEntries : List FIX.NoMDEntries := [sampleBid, sampleOffer, sampleOther]

/-- The level of an entry that can be read. -/
private theorem HasLevel.eq {level level' : Level} {entry : FIX.NoMDEntries}
    (h : HasLevel app level (some entry))
    (hprice : entry.mdEntryPx.bind app.preciseNumber = some level'.price)
    (hqty : entry.mdEntrySize.bind app.preciseNumber = some level'.qty) : level = level' := by
  obtain ⟨price, qty⟩ := level
  obtain ⟨price', qty'⟩ := level'
  have heq : price = price' := Option.some.inj (h.1.symm.trans hprice)
  have heq' : qty = qty' := Option.some.inj (h.2.symm.trans hqty)
  rw [heq, heq']

/-- The offer without a symbol belongs to the bid before it, and the other symbol has no bid. -/
theorem parse_groups_interleaved :
    ∃ updates u v,
      sampleApplication.parsePriceUpdateFromMarketDataIncrementalRefresh ⟨some sampleEntries⟩
        = .ok updates ∧
      updates = [u, v] ∧ u.symbol = "BTCUSDT" ∧ v.symbol = "ETHUSDT" ∧
      (⟨u.bidPrice, u.bidQty⟩ : Level) = ⟨.ofCount 98, .ofCount 7⟩ ∧
      (⟨u.askPrice, u.askQty⟩ : Level) = ⟨.ofCount 101, .ofCount 3⟩ ∧
      (⟨v.bidPrice, v.bidQty⟩ : Level) = 0 ∧
      (⟨v.askPrice, v.askQty⟩ : Level) = ⟨.ofCount 102, .ofCount 4⟩ := by
  have hfirst : ∀ entry, sampleEntries.head? = some entry → entry.symbol.isSome := by
    rintro entry ⟨⟩
    rfl
  have hknown : ∀ entry ∈ sampleEntries, ∀ symbol ∈ entry.symbol,
      symbol ∈ sampleApplication.symbolMap := by decide +kernel
  have hrequired : ∀ entry ∈ sampleEntries, entry.mdUpdateAction.isSome ∧
      entry.mdEntryPx.isSome ∧ entry.mdEntryType.isSome := by decide +kernel
  have hread : ∀ entry ∈ sampleEntries,
      (entry.mdEntryPx.bind sampleApplication.preciseNumber).isSome ∧
      (entry.mdEntrySize.bind sampleApplication.preciseNumber).isSome := by decide +kernel
  obtain ⟨updates, hparse, hsymbols, hlevels⟩ := parse_groups hfirst hknown
    (fun entry hentry =>
      ⟨(hrequired entry hentry).1, (hrequired entry hentry).2.1, (hrequired entry hentry).2.2⟩)
    (fun entry hentry _ _ => ⟨(hread entry hentry).1, (hread entry hentry).2⟩)
  have htwo : updates.map PriceUpdate.symbol = ["BTCUSDT", "ETHUSDT"] :=
    hsymbols.trans (by decide)
  obtain ⟨u, rest, rfl, hu, hrest⟩ := List.map_eq_cons_iff.mp htwo
  obtain ⟨v, rest, rfl, hv, hrest⟩ := List.map_eq_cons_iff.mp hrest
  cases List.map_eq_nil_iff.mp hrest
  obtain ⟨hbid, hask⟩ := hlevels u List.mem_cons_self
  obtain ⟨hbid', hask'⟩ := hlevels v (List.mem_cons_of_mem _ List.mem_cons_self)
  rw [hu] at hbid hask
  rw [hv] at hbid' hask'
  refine ⟨_, u, v, hparse, rfl, hu, hv, ?_, ?_, hbid', ?_⟩
  · exact HasLevel.eq hbid (by decide +kernel) (by decide +kernel)
  · exact HasLevel.eq hask (by decide +kernel) (by decide +kernel)
  · exact HasLevel.eq hask' (by decide +kernel) (by decide +kernel)

end Harjus.Refresh
