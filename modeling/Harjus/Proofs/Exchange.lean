import Harjus.Exchange
import Harjus.Lib.Writes
import Mathlib.Order.Bounds.Basic

/-!
# `Harjus.Proofs.Exchange`: the relative values against their reference

The documentation of `getRelativeValues` wants the value of every asset in `BTC`, and for an
asset without a market against `BTC` the lowest value of the others. The running minimum
starts at zero, so such an asset gets zero.

* `lookup_relativeValues`: what is held under each asset. The first loop is a list of writes,
  one for each market against `BTC`, and the second one fills in what is missing.
* `lowestValue_eq`: the running minimum is zero.
* `getRelativeValues_iff`: the reference is met exactly when every asset has a market against
  `BTC`, or one of the values is zero itself.
-/

set_option autoImplicit false

namespace Harjus

open Harjus.Lib

variable {symbols : SymbolMap} {prices : Prices}

/-! ### The reference -/

/-- The symbol is a market between the asset and `BTC`. -/
def BtcMarket (s : Symbol) (asset : String) : Prop :=
  s.quoteAsset = "BTC" ∧ s.baseAsset = asset ∨ s.baseAsset = "BTC" ∧ s.quoteAsset = asset

/-- The asset is on some symbol of the map. -/
def SymbolMap.HasAsset (symbols : SymbolMap) (asset : String) : Prop :=
  ∃ entry ∈ symbols.entries, asset = entry.2.baseAsset ∨ asset = entry.2.quoteAsset

instance (s : Symbol) (asset : String) : Decidable (BtcMarket s asset) :=
  inferInstanceAs (Decidable (_ ∨ _))

instance (symbols : SymbolMap) (asset : String) : Decidable (symbols.HasAsset asset) :=
  inferInstanceAs
    (Decidable (∃ entry ∈ symbols.entries,
      asset = entry.2.baseAsset ∨ asset = entry.2.quoteAsset))

/-- The asset has a market against `BTC`. -/
def SymbolMap.HasBtcMarket (symbols : SymbolMap) (asset : String) : Prop :=
  ∃ entry ∈ symbols.entries, BtcMarket entry.2 asset

instance (symbols : SymbolMap) (asset : String) : Decidable (symbols.HasBtcMarket asset) :=
  inferInstanceAs (Decidable (∃ entry ∈ symbols.entries, BtcMarket entry.2 asset))

/-- The value that a market against `BTC` gives, and the asset it is for. -/
def derived (prices : Prices) (entry : String × Symbol) : Option (String × PreciseNumber) :=
  if entry.2.quoteAsset = "BTC" then some (entry.2.baseAsset, prices.amount entry.1)
  else if entry.2.baseAsset = "BTC" then
    some (entry.2.quoteAsset, PreciseNumber.one / prices.amount entry.1)
  else none

/-- The values that the markets against `BTC` give. -/
def derivedValues (symbols : SymbolMap) (prices : Prices) : Set PreciseNumber :=
  {v | ∃ entry ∈ symbols.entries, ∃ asset, derived prices entry = some (asset, v)}

/-- The values of the assets as they are meant. -/
structure RelativeValues (symbols : SymbolMap) (prices values : Prices) : Prop where
  entry : ∀ asset, symbols.HasAsset asset → asset ∈ values
  bitcoin : values.lookup "BTC" = some PreciseNumber.one
  quoted : ∀ entry ∈ symbols.entries, entry.2.quoteAsset = "BTC" →
    entry.2.baseAsset ≠ "BTC" →
    values.lookup entry.2.baseAsset = some (prices.amount entry.1)
  quoting : ∀ entry ∈ symbols.entries, entry.2.baseAsset = "BTC" →
    entry.2.quoteAsset ≠ "BTC" →
    values.lookup entry.2.quoteAsset = some (PreciseNumber.one / prices.amount entry.1)
  fallback : ∀ asset, symbols.HasAsset asset → asset ≠ "BTC" → ¬ symbols.HasBtcMarket asset →
    ∃ v, values.lookup asset = some v ∧ IsLeast (derivedValues symbols prices) v
  positive : (∀ v ∈ derivedValues symbols prices, 0 < v) →
    ∀ asset v, values.lookup asset = some v → 0 < v

/-- The prices are positive, there is a market against `BTC`, and no asset has two. -/
structure Ticker (symbols : SymbolMap) (prices : Prices) : Prop where
  price : ∀ entry ∈ symbols.entries, 0 < prices.amount entry.1
  some : ∃ asset, symbols.HasBtcMarket asset
  unique : ∀ entry ∈ symbols.entries, ∀ entry' ∈ symbols.entries, ∀ asset,
    BtcMarket entry.2 asset → BtcMarket entry'.2 asset → entry = entry'

/-! ### The two loops -/

/-- The writes of the first loop. -/
def writes (symbols : SymbolMap) (prices : Prices) : List (String × PreciseNumber) :=
  symbols.entries.filterMap (derived prices)

/-- One symbol writes its derived value, if it has one. -/
theorem rateAgainstBitcoin_eq (loop : RelativeValuesLoop) (entry : String × Symbol) :
    rateAgainstBitcoin prices loop entry
      = (derived prices entry).elim loop fun w =>
          ⟨loop.relativeValues.insert w.1 w.2, min loop.lowestValue w.2⟩ := by
  unfold rateAgainstBitcoin derived
  dsimp only
  split
  · rfl
  · split <;> rfl

/-- An insertion is a write. -/
theorem lookup_insert_eq (values : Prices) (asset asset' : String) (v : PreciseNumber) :
    (values.insert asset v).lookup asset'
      = (if asset = asset' then some v else none).or (values.lookup asset') := by
  by_cases h : asset = asset'
  · rw [if_pos h, ← h, Finmap.lookup_insert, Option.some_or]
  · rw [if_neg h, Finmap.lookup_insert_of_ne _ (Ne.symm h), Option.none_or]

/-- The first loop writes the derived values, and takes their minimum. -/
theorem foldl_rateAgainstBitcoin (entries : List (String × Symbol)) (loop : RelativeValuesLoop) :
    (∀ asset, (entries.foldl (rateAgainstBitcoin prices) loop).relativeValues.lookup asset
      = (lastWrite (entries.filterMap (derived prices)) asset).or
          (loop.relativeValues.lookup asset)) ∧
    (entries.foldl (rateAgainstBitcoin prices) loop).lowestValue
      = (entries.filterMap (derived prices)).foldl (fun low w => min low w.2)
          loop.lowestValue := by
  induction entries generalizing loop with
  | nil => exact ⟨fun _ => rfl, rfl⟩
  | cons entry entries ih =>
    obtain ⟨hvalues, hlowest⟩ := ih (rateAgainstBitcoin prices loop entry)
    rw [List.foldl_cons]
    rw [rateAgainstBitcoin_eq] at hvalues hlowest ⊢
    cases hderived : derived prices entry with
    | none =>
      rw [List.filterMap_cons_none hderived]
      rw [hderived] at hvalues hlowest
      exact ⟨hvalues, hlowest⟩
    | some w =>
      rw [List.filterMap_cons_some hderived]
      rw [hderived] at hvalues hlowest
      refine ⟨fun asset => ?_, hlowest⟩
      rw [lastWrite_cons, Option.or_assoc, ← lookup_insert_eq]
      exact hvalues asset

/-- One assignment fills in its own asset if that is missing. -/
theorem lookup_assignMissing (value : PreciseNumber) (values : Prices) (asset asset' : String) :
    (assignMissing value values asset).lookup asset'
      = (values.lookup asset').or (if asset' = asset then some value else none) := by
  unfold assignMissing
  split
  · rename_i hmem
    obtain ⟨v, hv⟩ := Finmap.mem_iff.mp hmem
    by_cases heq : asset' = asset
    · rw [heq, hv, Option.some_or]
    · rw [if_neg heq, Option.or_none]
  · rename_i hmem
    by_cases heq : asset' = asset
    · rw [heq, Finmap.lookup_insert, Finmap.lookup_eq_none.mpr hmem, if_pos rfl, Option.none_or]
    · rw [Finmap.lookup_insert_of_ne _ heq, if_neg heq, Option.or_none]

/-- The second loop fills in the assets of the symbols that are missing. -/
theorem foldl_assignLowest (value : PreciseNumber) (entries : List (String × Symbol))
    (values : Prices) (asset : String) :
    (entries.foldl (assignLowest value) values).lookup asset
      = (values.lookup asset).or
          (if ∃ entry ∈ entries, asset = entry.2.baseAsset ∨ asset = entry.2.quoteAsset then
            some value else none) := by
  induction entries generalizing values with
  | nil => simp
  | cons entry entries ih =>
    rw [List.foldl_cons, ih, assignLowest, lookup_assignMissing, lookup_assignMissing,
      Option.or_assoc, Option.or_assoc]
    congr 1
    simp only [List.exists_mem_cons_iff]
    by_cases hbase : asset = entry.2.baseAsset
    · rw [if_pos hbase, Option.some_or, if_pos (Or.inl (Or.inl hbase))]
    · rw [if_neg hbase, Option.none_or]
      by_cases hquote : asset = entry.2.quoteAsset
      · rw [if_pos hquote, Option.some_or, if_pos (Or.inl (Or.inr hquote))]
      · rw [if_neg hquote, Option.none_or]
        exact if_congr (by simp [hbase, hquote]) rfl rfl

/-! ### The values that come out -/

/-- A value is derived from the price of a symbol quoted in `BTC`, or from one over the price
of a symbol that quotes `BTC`. -/
theorem derived_eq_some_iff {entry : String × Symbol} {asset : String} {v : PreciseNumber} :
    derived prices entry = some (asset, v) ↔
      (entry.2.quoteAsset = "BTC" ∧ entry.2.baseAsset = asset ∧ prices.amount entry.1 = v) ∨
      (entry.2.quoteAsset ≠ "BTC" ∧ entry.2.baseAsset = "BTC" ∧ entry.2.quoteAsset = asset ∧
        PreciseNumber.one / prices.amount entry.1 = v) := by
  unfold derived
  by_cases hquote : entry.2.quoteAsset = "BTC"
  · simp [hquote]
  · by_cases hbase : entry.2.baseAsset = "BTC" <;> simp [hquote, hbase]

/-- A derived value is for an asset with a market against `BTC`. -/
theorem btcMarket_of_derived {entry : String × Symbol} {asset : String} {v : PreciseNumber}
    (h : derived prices entry = some (asset, v)) : BtcMarket entry.2 asset := by
  obtain ⟨hquote, hbase, -⟩ | ⟨-, hbase, hquote, -⟩ := derived_eq_some_iff.mp h
  · exact Or.inl ⟨hquote, hbase⟩
  · exact Or.inr ⟨hbase, hquote⟩

/-- A market against `BTC` gives the asset a value. -/
theorem derived_of_btcMarket (prices : Prices) {entry : String × Symbol} {asset : String}
    (h : BtcMarket entry.2 asset) (hasset : asset ≠ "BTC") :
    ∃ v, derived prices entry = some (asset, v) := by
  obtain ⟨hquote, hbase⟩ | ⟨hbase, hquote⟩ := h
  · exact ⟨_, derived_eq_some_iff.mpr (Or.inl ⟨hquote, hbase, rfl⟩)⟩
  · exact ⟨_, derived_eq_some_iff.mpr (Or.inr ⟨hquote ▸ hasset, hbase, hquote, rfl⟩)⟩

/-- Positive prices give no negative value. -/
theorem derived_nonneg (hprice : ∀ entry ∈ symbols.entries, 0 < prices.amount entry.1)
    {v : PreciseNumber} (hv : v ∈ derivedValues symbols prices) : 0 ≤ v := by
  obtain ⟨entry, hentry, asset, h⟩ := hv
  have hpos := hprice entry hentry
  obtain ⟨-, -, rfl⟩ | ⟨-, -, -, rfl⟩ := derived_eq_some_iff.mp h
  · exact hpos.le
  · exact PreciseNumber.div_nonneg (by decide) hpos.le

/-- The running minimum starts at zero and stays there. -/
theorem lowestValue_eq (hprice : ∀ entry ∈ symbols.entries, 0 < prices.amount entry.1) :
    (symbols.entries.foldl (rateAgainstBitcoin prices) ⟨∅, numericLimitsMax⟩).lowestValue = 0 := by
  rw [(foldl_rateAgainstBitcoin symbols.entries ⟨∅, numericLimitsMax⟩).2]
  have hnonneg : ∀ w ∈ symbols.entries.filterMap (derived prices), 0 ≤ w.2 := by
    intro w hw
    obtain ⟨entry, hentry, h⟩ := List.mem_filterMap.mp hw
    exact derived_nonneg hprice ⟨entry, hentry, w.1, h⟩
  generalize symbols.entries.filterMap (derived prices) = values at hnonneg
  induction values with
  | nil => rfl
  | cons w values ih =>
    rw [List.foldl_cons]
    have hmin : min numericLimitsMax w.2 = numericLimitsMax :=
      min_eq_left (hnonneg w List.mem_cons_self)
    rw [hmin]
    exact ih fun w' hw' => hnonneg w' (List.mem_cons_of_mem _ hw')

/-- What is held under an asset other than `BTC`: the value of its market, or zero. -/
theorem lookup_relativeValues (hprice : ∀ entry ∈ symbols.entries, 0 < prices.amount entry.1)
    {asset : String} (hasset : asset ≠ "BTC") :
    (relativeValues symbols prices).lookup asset
      = (lastWrite (writes symbols prices) asset).or
          (if symbols.HasAsset asset then some 0 else none) := by
  rw [relativeValues, Finmap.lookup_insert_of_ne _ hasset, foldl_assignLowest,
    (foldl_rateAgainstBitcoin symbols.entries ⟨∅, numericLimitsMax⟩).1, lowestValue_eq hprice,
    Finmap.lookup_empty, Option.or_none]
  rfl

/-- Without a market against `BTC` the value is zero. -/
theorem lookup_of_not_hasBtcMarket
    (hprice : ∀ entry ∈ symbols.entries, 0 < prices.amount entry.1) {asset : String}
    (hasset : asset ≠ "BTC") (hmem : symbols.HasAsset asset)
    (hnone : ¬ symbols.HasBtcMarket asset) :
    (relativeValues symbols prices).lookup asset = some 0 := by
  have hwrite : lastWrite (writes symbols prices) asset = none := by
    rw [lastWrite_eq_none_iff]
    intro hkey
    obtain ⟨⟨a, v⟩, hw, rfl⟩ := List.mem_map.mp hkey
    obtain ⟨entry, hentry, h⟩ := List.mem_filterMap.mp hw
    exact hnone ⟨entry, hentry, btcMarket_of_derived h⟩
  rw [lookup_relativeValues hprice hasset, hwrite, if_pos hmem, Option.none_or]

/-- With one market against `BTC` the value is the one that it gives. -/
theorem lookup_of_derived (h : Ticker symbols prices) {entry : String × Symbol}
    (hentry : entry ∈ symbols.entries) {asset : String} (hasset : asset ≠ "BTC")
    {v : PreciseNumber} (hv : derived prices entry = some (asset, v)) :
    (relativeValues symbols prices).lookup asset = some v := by
  have hwrite : lastWrite (writes symbols prices) asset = some v := by
    cases hlast : lastWrite (writes symbols prices) asset with
    | none =>
      rw [lastWrite_eq_none_iff] at hlast
      exact absurd (List.mem_map_of_mem (List.mem_filterMap.mpr ⟨entry, hentry, hv⟩)) hlast
    | some v' =>
      -- The last write is for the asset too, and the asset has one market only.
      obtain ⟨entry', hentry', hv'⟩ := List.mem_filterMap.mp (mem_of_lastWrite hlast)
      have heq := h.unique entry hentry entry' hentry' asset (btcMarket_of_derived hv)
        (btcMarket_of_derived hv')
      rw [heq, hv'] at hv
      cases hv
      rfl
  rw [lookup_relativeValues h.price hasset, hwrite, Option.some_or]

/-- What is held under an asset is one, zero or a derived value. -/
theorem value_cases (hprice : ∀ entry ∈ symbols.entries, 0 < prices.amount entry.1)
    {asset : String} {v : PreciseNumber}
    (hv : (relativeValues symbols prices).lookup asset = some v) :
    v = PreciseNumber.one ∨ v ∈ derivedValues symbols prices ∨
      asset ≠ "BTC" ∧ symbols.HasAsset asset ∧ ¬ symbols.HasBtcMarket asset := by
  by_cases hasset : asset = "BTC"
  · rw [hasset, relativeValues, Finmap.lookup_insert] at hv
    cases hv
    exact Or.inl rfl
  rw [lookup_relativeValues hprice hasset] at hv
  cases hlast : lastWrite (writes symbols prices) asset with
  | some v' =>
    rw [hlast] at hv
    cases hv
    obtain ⟨entry, hentry, h⟩ := List.mem_filterMap.mp (mem_of_lastWrite hlast)
    exact Or.inr (Or.inl ⟨entry, hentry, asset, h⟩)
  | none =>
    rw [hlast, Option.none_or] at hv
    split at hv
    · rename_i hmem
      refine Or.inr (Or.inr ⟨hasset, hmem, ?_⟩)
      rintro ⟨entry, hentry, hmarket⟩
      obtain ⟨v', h⟩ := derived_of_btcMarket prices hmarket hasset
      rw [lastWrite_eq_none_iff] at hlast
      exact hlast (List.mem_map_of_mem (List.mem_filterMap.mpr ⟨entry, hentry, h⟩))
    · cases hv

/-- One over a price is zero for a price above `PreciseNumber{"10000000000"}` only. -/
theorem one_div_eq_zero_iff {price : PreciseNumber} (h : 0 < price) :
    PreciseNumber.one / price = 0 ↔ PreciseNumber.ofCount 10000000000 < price := by
  have hnonneg : 0 ≤ PreciseNumber.one / price := PreciseNumber.div_nonneg (by decide) h.le
  have hle : 1 ≤ (PreciseNumber.one / price).smallestUnit ↔
      1 * price.smallestUnit ≤ PreciseNumber.kPrecision * PreciseNumber.kPrecision :=
    FixedPoint.le_div_iff PreciseNumber.kPrecision_pos (by decide) h
  rw [PreciseNumber.lt_def, PreciseNumber.units_ofCount]
  constructor
  · intro hzero
    rw [hzero, PreciseNumber.units_zero] at hle
    simp only [PreciseNumber.kPrecision] at hle ⊢
    omega
  · intro hlt
    refine PreciseNumber.ext ?_
    rw [PreciseNumber.le_def, PreciseNumber.units_zero] at hnonneg
    rw [PreciseNumber.units_zero]
    simp only [PreciseNumber.kPrecision] at hle hlt
    omega

/-- A derived value is zero when it is one over a price above that bound. -/
theorem zero_mem_derivedValues_iff
    (hprice : ∀ entry ∈ symbols.entries, 0 < prices.amount entry.1) :
    0 ∈ derivedValues symbols prices ↔
      ∃ entry ∈ symbols.entries, entry.2.quoteAsset ≠ "BTC" ∧ entry.2.baseAsset = "BTC" ∧
        PreciseNumber.ofCount 10000000000 < prices.amount entry.1 := by
  constructor
  · rintro ⟨entry, hentry, asset, h⟩
    obtain ⟨-, -, hzero⟩ | ⟨hquote, hbase, -, hzero⟩ := derived_eq_some_iff.mp h
    · exact absurd hzero (hprice entry hentry).ne'
    · exact ⟨entry, hentry, hquote, hbase,
        (one_div_eq_zero_iff (hprice entry hentry)).mp hzero⟩
  · rintro ⟨entry, hentry, hquote, hbase, hlt⟩
    have hzero := (one_div_eq_zero_iff (hprice entry hentry)).mpr hlt
    exact ⟨entry, hentry, entry.2.quoteAsset,
      derived_eq_some_iff.mpr (Or.inr ⟨hquote, hbase, rfl, hzero⟩)⟩

/-! ### The reference is met, and when -/

/-- What the two loops leave is as meant when no asset falls back, or the fallback is right. -/
theorem relativeValues_of_least (h : Ticker symbols prices)
    (hleast : ∀ asset, symbols.HasAsset asset → asset ≠ "BTC" →
      ¬ symbols.HasBtcMarket asset → 0 ∈ derivedValues symbols prices) :
    RelativeValues symbols prices (relativeValues symbols prices) where
  entry asset hasset := by
    by_cases hbtc : asset = "BTC"
    · rw [hbtc, relativeValues]
      exact Finmap.mem_insert.mpr (Or.inl rfl)
    · rw [← Finmap.lookup_isSome, lookup_relativeValues h.price hbtc, if_pos hasset]
      cases lastWrite (writes symbols prices) asset <;> rfl
  bitcoin := Finmap.lookup_insert _
  quoted entry hentry hquote hbase :=
    lookup_of_derived h hentry hbase (if_pos hquote)
  quoting entry hentry hbase hquote :=
    lookup_of_derived h hentry hquote ((if_neg hquote).trans (if_pos hbase))
  fallback asset hasset hbtc hnone :=
    ⟨0, lookup_of_not_hasBtcMarket h.price hbtc hasset hnone, hleast asset hasset hbtc hnone,
      fun _ hv => derived_nonneg h.price hv⟩
  positive hpos asset v hv := by
    obtain rfl | hderived | ⟨hbtc, hasset, hnone⟩ := value_cases h.price hv
    · exact by decide
    · exact hpos v hderived
    · exact absurd (hpos 0 (hleast asset hasset hbtc hnone)) (lt_irrefl 0)

/-- The values of the assets are as meant exactly when every asset has a market against `BTC`,
or `BTC` has a price so high that one over it is zero. -/
theorem getRelativeValues_iff {exchange : Exchange} {r : Response}
    (hprices : exchange.symbolPrices r = .ok prices) (h : Ticker symbols prices) :
    (∃ values, exchange.getRelativeValues r symbols = .ok values ∧
        RelativeValues symbols prices values) ↔
      (∀ asset, symbols.HasAsset asset → asset = "BTC" ∨ symbols.HasBtcMarket asset) ∨
      ∃ entry ∈ symbols.entries, entry.2.quoteAsset ≠ "BTC" ∧ entry.2.baseAsset = "BTC" ∧
        PreciseNumber.ofCount 10000000000 < prices.amount entry.1 := by
  have hresult : exchange.getRelativeValues r symbols
      = .ok (relativeValues symbols prices) := by
    rw [Exchange.getRelativeValues, hprices]
    rfl
  rw [← zero_mem_derivedValues_iff h.price]
  constructor
  · rintro ⟨values, hvalues, hmeant⟩
    rw [hresult] at hvalues
    cases hvalues
    by_cases hall : ∀ asset, symbols.HasAsset asset → asset = "BTC" ∨ symbols.HasBtcMarket asset
    · exact Or.inl hall
    · -- An asset without a market has value zero, which must be the least derived value.
      push Not at hall
      obtain ⟨asset, hasset, hbtc, hnone⟩ := hall
      obtain ⟨v, hv, hleast⟩ := hmeant.fallback asset hasset hbtc hnone
      rw [lookup_of_not_hasBtcMarket h.price hbtc hasset hnone] at hv
      cases hv
      exact Or.inr hleast.1
  · intro hcond
    refine ⟨_, hresult, relativeValues_of_least h ?_⟩
    intro asset hasset hbtc hnone
    obtain hall | hzero := hcond
    · obtain heq | hmarket := hall asset hasset
      · exact absurd heq hbtc
      · exact absurd hmarket hnone
    · exact hzero

/-- A reader of one reply and of the prices on it. -/
def sampleExchange (text : String) (items : List Json) : Exchange where
  parseJson text' := if text' = text then .ok (.array items) else .error "incomplete JSON"
  preciseNumber amount :=
    [("0.05", ⟨500000000⟩), ("1", .one), ("20000000000", .ofCount 20000000000)].lookup amount

/-- `ETHBTC` at 0.05, `BTCIDR` at 20000000000 and `ADAETH` at 1. -/
def sampleReply : String :=
  "[\x7b\"symbol\":\"ETHBTC\",\"price\":\"0.05\"\x7d," ++
    "\x7b\"symbol\":\"BTCIDR\",\"price\":\"20000000000\"\x7d," ++
    "\x7b\"symbol\":\"ADAETH\",\"price\":\"1\"\x7d]"

/-- `ETHBTC` at 0.05 and `ADAUSDT` at 1. -/
def sampleReplyBoth : String :=
  "[\x7b\"symbol\":\"ETHBTC\",\"price\":\"0.05\"\x7d," ++
    "\x7b\"symbol\":\"ADAUSDT\",\"price\":\"1\"\x7d]"

/-- `ETHBTC` at 0.05. -/
def sampleEthBtc : Json := .object [("symbol", .string "ETHBTC"), ("price", .string "0.05")]

/-- `ADAUSDT` at 1. -/
def sampleAdaUsdt : Json := .object [("symbol", .string "ADAUSDT"), ("price", .string "1")]

/-- A market that is quoted the other way round. -/
def sampleBtcIdr : Json :=
  .object [("symbol", .string "BTCIDR"), ("price", .string "20000000000")]

/-- `ADAETH` at 1. -/
def sampleAdaEth : Json := .object [("symbol", .string "ADAETH"), ("price", .string "1")]

/-- `IDR` has an inverse market against `BTC`, and `ADA` has none. -/
def sampleSymbols : SymbolMap where
  entries := [("ETHBTC", ⟨"ETHBTC", "ETH", "BTC", 0, 0⟩),
    ("BTCIDR", ⟨"BTCIDR", "BTC", "IDR", 0, 0⟩), ("ADAETH", ⟨"ADAETH", "ADA", "ETH", 0, 0⟩)]
  nodup := by decide

/-- `ETHBTC` and `ADAUSDT`. -/
def sampleSymbolsBoth : SymbolMap where
  entries := [("ETHBTC", ⟨"ETHBTC", "ETH", "BTC", 0, 0⟩),
    ("ADAUSDT", ⟨"ADAUSDT", "ADA", "USDT", 0, 0⟩)]
  nodup := by decide

/-- The prices in the sample reply. -/
def samplePrices : Prices :=
  (((∅ : Prices).insert "ETHBTC" ⟨500000000⟩).insert "BTCIDR" (.ofCount 20000000000)).insert
    "ADAETH" .one

/-- The prices of the two symbols. -/
def samplePricesBoth : Prices := ((∅ : Prices).insert "ETHBTC" ⟨500000000⟩).insert "ADAUSDT" .one

/-- The sample reply has the sample prices. -/
private theorem ticker_sample : Ticker sampleSymbols samplePrices where
  price := by decide +kernel
  some := ⟨"ETH", by decide +kernel⟩
  unique := by
    -- `ETHBTC` is the market of `ETH`, and `BTCIDR` that of `IDR`.
    have hmarket : ∀ entry ∈ sampleSymbols.entries, ∀ asset, BtcMarket entry.2 asset →
        asset = "ETH" ∧ entry = ("ETHBTC", ⟨"ETHBTC", "ETH", "BTC", 0, 0⟩) ∨
          asset = "IDR" ∧ entry = ("BTCIDR", ⟨"BTCIDR", "BTC", "IDR", 0, 0⟩) := by
      simp [sampleSymbols, BtcMarket, eq_comm]
    intro entry hentry entry' hentry' asset h h'
    rcases hmarket entry hentry asset h with ⟨hasset, heq⟩ | ⟨hasset, heq⟩ <;>
      rcases hmarket entry' hentry' asset h' with ⟨hasset', heq'⟩ | ⟨hasset', heq'⟩
    · rw [heq, heq']
    · exact absurd (hasset.symm.trans hasset') (by decide)
    · exact absurd (hasset.symm.trans hasset') (by decide)
    · rw [heq, heq']

/-- The reply about the two symbols has their prices. -/
private theorem ticker_sampleBoth : Ticker sampleSymbolsBoth samplePricesBoth where
  price := by decide +kernel
  some := ⟨"ETH", by decide +kernel⟩
  unique := by
    -- Only `ETHBTC` is a market against `BTC`.
    have honly : ∀ entry ∈ sampleSymbolsBoth.entries, ∀ asset, BtcMarket entry.2 asset →
        entry = ("ETHBTC", ⟨"ETHBTC", "ETH", "BTC", 0, 0⟩) := by
      simp [sampleSymbolsBoth, BtcMarket]
    intro entry hentry entry' hentry' asset hmarket hmarket'
    rw [honly entry hentry asset hmarket, honly entry' hentry' asset hmarket']

/-- One over the price of `BTCIDR` is zero, so zero is what `ADA` should get. -/
theorem getRelativeValues_iff_ethBtc :
    ∃ values,
      (sampleExchange sampleReply [sampleEthBtc, sampleBtcIdr, sampleAdaEth]).getRelativeValues
        ⟨200, "", sampleReply⟩ sampleSymbols = .ok values ∧
      RelativeValues sampleSymbols samplePrices values ∧
      values.lookup "ETH" = some ⟨500000000⟩ ∧ values.lookup "IDR" = some 0 ∧
      ∃ v, values.lookup "ADA" = some v ∧ IsLeast (derivedValues sampleSymbols samplePrices) v := by
  have hprices :
      (sampleExchange sampleReply [sampleEthBtc, sampleBtcIdr, sampleAdaEth]).symbolPrices
        ⟨200, "", sampleReply⟩ = .ok samplePrices := rfl
  obtain ⟨values, hvalues, hmeant⟩ := (getRelativeValues_iff hprices ticker_sample).mpr
    (Or.inr ⟨("BTCIDR", ⟨"BTCIDR", "BTC", "IDR", 0, 0⟩), by simp [sampleSymbols], by decide,
      rfl, by decide +kernel⟩)
  refine ⟨values, hvalues, hmeant, ?_, ?_, ?_⟩
  · exact (hmeant.quoted _ List.mem_cons_self rfl (by decide)).trans (by decide +kernel)
  · exact (hmeant.quoting _ (List.mem_cons_of_mem _ List.mem_cons_self) rfl (by decide)).trans
      (by decide +kernel)
  · exact hmeant.fallback "ADA" (by decide +kernel) (by decide) (by decide +kernel)

/-- Two assets without a market against `BTC` get value zero instead of 0.05. -/
theorem getRelativeValues_counterexample :
    (sampleExchange sampleReplyBoth [sampleEthBtc, sampleAdaUsdt]).symbolPrices
        ⟨200, "", sampleReplyBoth⟩ = .ok samplePricesBoth ∧
    Ticker sampleSymbolsBoth samplePricesBoth ∧
    ¬ ∃ values, (sampleExchange sampleReplyBoth [sampleEthBtc, sampleAdaUsdt]).getRelativeValues
        ⟨200, "", sampleReplyBoth⟩ sampleSymbolsBoth = .ok values ∧
      RelativeValues sampleSymbolsBoth samplePricesBoth values := by
  refine ⟨rfl, ticker_sampleBoth, ?_⟩
  rintro ⟨values, hvalues, hmeant⟩
  have hresult : (sampleExchange sampleReplyBoth [sampleEthBtc, sampleAdaUsdt]).getRelativeValues
      ⟨200, "", sampleReplyBoth⟩ sampleSymbolsBoth
        = .ok (relativeValues sampleSymbolsBoth samplePricesBoth) := rfl
  rw [hresult] at hvalues
  cases hvalues
  obtain ⟨v, hv, hleast⟩ := hmeant.fallback "ADA" (by decide +kernel) (by decide)
    (by simp [SymbolMap.HasBtcMarket, BtcMarket, sampleSymbolsBoth])
  have hzero : (relativeValues sampleSymbolsBoth samplePricesBoth).lookup "ADA" = some 0 := by
    decide +kernel
  rw [hzero] at hv
  cases hv
  -- The one derived value is the price of `ETHBTC`, which is not zero.
  obtain ⟨entry, hentry, asset, hderived⟩ := hleast.1
  have hnone : ∀ entry ∈ sampleSymbolsBoth.entries,
      (derived samplePricesBoth entry).map Prod.snd ≠ some 0 := by decide +kernel
  refine hnone entry hentry ?_
  rw [hderived]
  rfl

end Harjus
