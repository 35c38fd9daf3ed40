import Harjus.Subscription
import Harjus.Proofs.Arbmapper
import Harjus.Lib.EvenSplit
import Harjus.Lib.Writes

/-!
# `Harjus.Proofs.Subscription`: the shares of the market data sessions

* `divideSymbolsEvenly_eq`: the two loops cut the list of symbols evenly, and no checked access
  throws.
* `lookup_new`: a session is given the part at the last position of its qualifier.
* `capacity_iff`: no session is given more than 1000 symbols, and nothing is divided by zero,
  exactly when there are too few sessions even for the rounded down count, or enough for all
  symbols.
* `symbols_subscribed_once`: sessions with qualifiers of their own share the symbols of the
  trading paths without a gap or an overlap.
-/

set_option autoImplicit false

namespace Harjus.Application

open Harjus.Lib

variable {symbols : List String} {settings : FIX.SessionSettings}

/-! ### The division -/

/-- The inner loop moves the next symbols into the last part. -/
theorem foldlM_pushSymbol (done : List (List String)) (k count : ℕ)
    (h : k + count ≤ symbols.length) :
    (List.range count).foldlM (fun state _ => pushSymbol symbols done.length state)
        (done ++ [[]], k)
      = .ok (done ++ [(symbols.drop k).take count], k + count) := by
  induction count with
  | zero => rfl
  | succ count ih =>
    have hlt : k + count < symbols.length := by omega
    have hsymbol : (symbols.drop k)[count]? = some symbols[k + count] := by
      rw [List.getElem?_drop, List.getElem?_eq_getElem hlt]
    have hlast : (done ++ [(symbols.drop k).take count])[done.length]?
        = some ((symbols.drop k).take count) := by
      rw [List.getElem?_append_right le_rfl, Nat.sub_self]
      rfl
    rw [List.range_succ, List.foldlM_append, ih (by omega)]
    show pushSymbol symbols done.length (_, k + count) >>= pure = _
    rw [pushSymbol, List.getElem?_eq_getElem hlt, hlast]
    show Except.ok (_, _) = _
    rw [List.set_append_right _ _ le_rfl, Nat.sub_self, List.set_cons_zero, List.take_add_one,
      hsymbol]
    rfl

/-- The lengths of the first parts, as the outer loop computes them. -/
private def lengths (n s count : ℕ) : List ℕ :=
  (List.range count).map fun i => n / s + if i < n % s then 1 else 0

/-- The length of the next part. -/
private theorem lengths_succ (n s count : ℕ) :
    lengths n s (count + 1)
      = lengths n s count ++ [n / s + if count < n % s then 1 else 0] := by
  rw [lengths, List.range_succ, List.map_append]
  rfl

/-- The outer loop cuts off one part after the other. -/
theorem foldlM_fillSession (s count : ℕ)
    (h : (lengths symbols.length s count).sum ≤ symbols.length) :
    (List.range count).foldlM
        (fillSession symbols (symbols.length / s) (symbols.length % s)) ([], 0)
      = .ok ((lengths symbols.length s count).splitLengths symbols,
          (lengths symbols.length s count).sum) := by
  induction count with
  | zero => rfl
  | succ count ih =>
    rw [lengths_succ, List.sum_append, List.sum_singleton] at h
    have hcount : ((lengths symbols.length s count).splitLengths symbols).length = count := by
      rw [List.length_splitLengths, lengths, List.length_map, List.length_range]
    have hfill := foldlM_pushSymbol ((lengths symbols.length s count).splitLengths symbols)
      (lengths symbols.length s count).sum
      (symbols.length / s + if count < symbols.length % s then 1 else 0) h
    rw [hcount] at hfill
    rw [List.range_succ, List.foldlM_append, ih ((Nat.le_add_right _ _).trans h)]
    show fillSession symbols _ _ (_, _) count >>= pure = _
    rw [fillSession, hfill, lengths_succ, splitLengths_concat, List.sum_append, List.sum_singleton]
    rfl

/-- The symbols are cut evenly, and no checked access throws. -/
theorem divideSymbolsEvenly_eq (symbols : List String) {s : ℕ} (hs : 0 < s) :
    divideSymbolsEvenly symbols s = .ok (splitEvenly symbols s) := by
  have hlengths : lengths symbols.length s s = evenLengths symbols.length s :=
    (evenLengths_eq_map_range hs).symm
  have hloop := @foldlM_fillSession symbols s s (by rw [hlengths, sum_evenLengths hs])
  rw [hlengths] at hloop
  rw [divideSymbolsEvenly, if_neg hs.ne']
  simp only [hloop]
  rfl

/-! ### The map of the constructor -/

/-- The qualifiers of the market data sessions. -/
def qualifiers (settings : FIX.SessionSettings) : List String :=
  (marketDataSessions settings).map FIX.SessionID.sessionQualifier

/-- There is one qualifier for each session. -/
theorem length_qualifiers :
    (qualifiers settings).length = (marketDataSessions settings).length :=
  List.length_map _

/-- The loop over the sessions inserts the part of each under its qualifier. -/
theorem foldl_assignSymbols (sessions : List FIX.SessionID) (parts done : List (List String))
    (symbolsMap : SymbolsMap) (h : parts.length = sessions.length) :
    (sessions.foldl (assignSymbols (done ++ parts)) (symbolsMap, done.length)).1
      = ((sessions.map FIX.SessionID.sessionQualifier).zip parts).foldl
          (fun m w => m.insert w.1 w.2) symbolsMap := by
  induction sessions generalizing parts done symbolsMap with
  | nil => rfl
  | cons sessionID sessions ih =>
    cases parts with
    | nil => cases h
    | cons part parts =>
      have hpart : (done ++ part :: parts).getD done.length [] = part := by
        rw [List.getD_eq_getElem?_getD, List.getElem?_append_right le_rfl, Nat.sub_self]
        rfl
      have hrest := ih parts (done ++ [part]) (symbolsMap.insert sessionID.sessionQualifier part)
        (Nat.succ.inj h)
      rw [List.append_assoc, List.singleton_append, List.length_append,
        List.length_singleton] at hrest
      rw [List.foldl_cons, assignSymbols, hpart, hrest]
      rfl

/-- The constructor returns when it has a session and does not find the sessions too few, and a
session is given the last part under its qualifier. -/
theorem lookup_new (hsessions : marketDataSessions settings ≠ [])
    (hguard : symbols.length / 1000 ≤ (marketDataSessions settings).length) :
    ∃ symbolsMap, new settings symbols = .ok symbolsMap ∧ ∀ qualifier,
      symbolsMap.lookup qualifier = lastWrite ((qualifiers settings).zip
        (splitEvenly symbols (marketDataSessions settings).length)) qualifier := by
  have hpos : 0 < (marketDataSessions settings).length := List.length_pos_iff.mpr hsessions
  have hfold := foldl_assignSymbols (marketDataSessions settings)
    (splitEvenly symbols (marketDataSessions settings).length) [] ∅ (length_splitEvenly hpos)
  rw [List.nil_append, List.length_nil] at hfold
  refine ⟨((marketDataSessions settings).foldl
    (assignSymbols (splitEvenly symbols (marketDataSessions settings).length)) (∅, 0)).1,
    ?_, fun qualifier => ?_⟩
  · rw [new]
    simp only [if_neg (Nat.not_lt.mpr hguard), divideSymbolsEvenly_eq symbols hpos]
    rfl
  · rw [hfold, lookup_foldl_insert, Finmap.lookup_empty, Option.or_none]
    rfl

/-- A market data session subscribes to what is under its qualifier. -/
theorem onLogon_eq_ok_iff {symbolsMap : SymbolsMap} {sessionID : FIX.SessionID}
    (h : sessionID ∈ marketDataSessions settings) {share : List String} :
    onLogon symbolsMap sessionID = .ok share
      ↔ symbolsMap.lookup sessionID.sessionQualifier = some share := by
  rw [onLogon, if_pos (List.mem_filter.mp h).2]
  cases symbolsMap.lookup sessionID.sessionQualifier with
  | none => exact ⟨fun h => (nomatch h), fun h => (nomatch h)⟩
  | some symbols => rw [Except.ok.injEq, Option.some.injEq]

/-! ### The capacity of a session -/

/-- The constructor throws, or gives each market data session at most 1000 symbols. -/
def WithinCapacity (settings : FIX.SessionSettings) (symbols : List String) : Prop :=
  match new settings symbols with
  | .error e => e.Thrown
  | .ok symbolsMap => ∀ session ∈ marketDataSessions settings,
      ∃ share, onLogon symbolsMap session = .ok share ∧ share.length ≤ 1000

/-- There are fewer sessions than full thousands of symbols; or there is a session, and there are
at most 1000 symbols for each of them. Where sessions share a qualifier and the parts have 1000
or 1001 symbols, it is enough that the qualifiers of the large parts come up again among the
small ones. -/
def Fits (qualifiers : List String) (n : ℕ) : Prop :=
  qualifiers.length < n / 1000 ∨
  qualifiers ≠ [] ∧ (n ≤ 1000 * qualifiers.length ∨
    n / qualifiers.length = 1000 ∧
      ∀ q ∈ qualifiers.take (n % qualifiers.length), q ∈ qualifiers.drop (n % qualifiers.length))

/-- The number of symbols of a session. -/
theorem length_share {n : ℕ} (qualifiers : List String) (hne : qualifiers ≠ [])
    (qualifier : String) :
    lastWrite (qualifiers.zip (evenLengths n qualifiers.length)) qualifier
      = if qualifier ∈ qualifiers.drop (n % qualifiers.length) then some (n / qualifiers.length)
        else if qualifier ∈ qualifiers.take (n % qualifiers.length) then
          some (n / qualifiers.length + 1)
        else none := by
  have hmod : n % qualifiers.length < qualifiers.length :=
    Nat.mod_lt n (List.length_pos_iff.mpr hne)
  have htake : (qualifiers.take (n % qualifiers.length)).length = n % qualifiers.length := by
    rw [List.length_take, Nat.min_eq_left hmod.le]
  have hdrop : (qualifiers.drop (n % qualifiers.length)).length
      = qualifiers.length - n % qualifiers.length := List.length_drop
  have hzip : qualifiers.zip (evenLengths n qualifiers.length)
      = (qualifiers.take (n % qualifiers.length)).zip
          (List.replicate (qualifiers.take (n % qualifiers.length)).length
            (n / qualifiers.length + 1))
        ++ (qualifiers.drop (n % qualifiers.length)).zip
          (List.replicate (qualifiers.drop (n % qualifiers.length)).length
            (n / qualifiers.length)) := by
    rw [← List.zip_append (by rw [List.length_replicate]), List.take_append_drop, htake, hdrop]
    rfl
  rw [hzip, lastWrite_append, lastWrite_zip_replicate, lastWrite_zip_replicate]
  split <;> rfl

/-- The sizes of the shares, compared with 1000. -/
private theorem shares_le_iff {n : ℕ} (qualifiers : List String) (hne : qualifiers ≠ [])
    (hguard : n / 1000 ≤ qualifiers.length) :
    (∀ q ∈ qualifiers,
        ∃ k, lastWrite (qualifiers.zip (evenLengths n qualifiers.length)) q = some k ∧ k ≤ 1000)
      ↔ Fits qualifiers n := by
  have hpos : 0 < qualifiers.length := List.length_pos_iff.mpr hne
  have hmod : n % qualifiers.length < qualifiers.length := Nat.mod_lt n hpos
  have hdiv : qualifiers.length * (n / qualifiers.length) + n % qualifiers.length = n :=
    Nat.div_add_mod n _
  simp only [length_share qualifiers hne]
  constructor
  · intro h
    right
    refine ⟨hne, ?_⟩
    -- The last session has no later one to overwrite its part.
    have hlast : qualifiers.getLast hne ∈ qualifiers.drop (n % qualifiers.length) := by
      rw [← List.getLast_drop (by simpa using hmod)]
      exact List.getLast_mem _
    obtain ⟨k, hk, hle⟩ := h _ (List.getLast_mem hne)
    rw [if_pos hlast, Option.some.injEq] at hk
    rcases Nat.lt_or_ge (n / qualifiers.length) 1000 with hlt | hge
    · left
      exact ((Nat.div_lt_iff_lt_mul hpos).mp hlt).le
    · right
      have heq : n / qualifiers.length = 1000 := by omega
      refine ⟨heq, fun q hq => ?_⟩
      by_contra hdrop
      obtain ⟨k, hk, hle⟩ := h q (List.mem_of_mem_take hq)
      rw [if_neg hdrop, if_pos hq, Option.some.injEq] at hk
      omega
  · intro h q hq
    have htake (hdrop : q ∉ qualifiers.drop (n % qualifiers.length)) :
        q ∈ qualifiers.take (n % qualifiers.length) := by
      rw [← List.take_append_drop (n % qualifiers.length) qualifiers] at hq
      exact (List.mem_append.mp hq).resolve_right hdrop
    rcases h with h | ⟨-, h | ⟨heq, h⟩⟩
    · omega
    · have hle : n / qualifiers.length ≤ 1000 := Nat.div_le_of_le_mul (by omega)
      by_cases hdrop : q ∈ qualifiers.drop (n % qualifiers.length)
      · exact ⟨_, if_pos hdrop, hle⟩
      · refine ⟨_, by rw [if_neg hdrop, if_pos (htake hdrop)], ?_⟩
        -- A large part with 1001 symbols needs more than 1000 for each session.
        rcases Nat.lt_or_eq_of_le hle with hlt | heq
        · exact hlt
        · have hnil : n % qualifiers.length = 0 := by
            rw [heq] at hdiv
            omega
          have hmem := htake hdrop
          rw [hnil, List.take_zero] at hmem
          cases hmem
    · by_cases hdrop : q ∈ qualifiers.drop (n % qualifiers.length)
      · exact ⟨_, if_pos hdrop, heq.le⟩
      · exact absurd (h q (htake hdrop)) hdrop

/-- Too few sessions for the rounded down count are refused. -/
theorem withinCapacity_of_lt
    (h : (marketDataSessions settings).length < symbols.length / 1000) :
    WithinCapacity settings symbols := by
  rw [WithinCapacity, new]
  simp only [if_pos h]
  trivial

/-- Without a session, the guard lets up to 999 symbols pass and the division is by zero. -/
theorem new_of_nil (hnil : marketDataSessions settings = []) (h : symbols.length < 1000) :
    new settings symbols = .error .divisionByZero := by
  have hguard : ¬ ([] : List FIX.SessionID).length < symbols.length / 1000 := by
    rw [Nat.div_eq_of_lt h]
    exact Nat.lt_irrefl 0
  rw [new, hnil]
  simp only [if_neg hguard]
  rfl

/-- The capacity of the sessions, by the sizes of the shares. -/
theorem withinCapacity_iff_shares (hsessions : marketDataSessions settings ≠ [])
    (hguard : symbols.length / 1000 ≤ (marketDataSessions settings).length) :
    WithinCapacity settings symbols ↔ ∀ q ∈ qualifiers settings,
      ∃ k, lastWrite ((qualifiers settings).zip
        (evenLengths symbols.length (qualifiers settings).length)) q = some k ∧ k ≤ 1000 := by
  have hpos : 0 < (marketDataSessions settings).length := List.length_pos_iff.mpr hsessions
  obtain ⟨symbolsMap, hnew, hlookup⟩ := lookup_new hsessions hguard
  have hsize (q : String) : (symbolsMap.lookup q).map List.length
      = lastWrite ((qualifiers settings).zip
          (evenLengths symbols.length (qualifiers settings).length)) q := by
    rw [hlookup, length_qualifiers, ← map_length_splitEvenly hpos, ← lastWrite_map,
      ← List.zip_map_right]
  rw [WithinCapacity, hnew]
  simp only [← hsize, Option.map_eq_some_iff]
  rw [qualifiers, List.forall_mem_map]
  refine forall₂_congr fun session hsession => ?_
  simp only [onLogon_eq_ok_iff hsession]
  constructor
  · rintro ⟨share, hshare, hle⟩
    exact ⟨share.length, ⟨share, hshare, rfl⟩, hle⟩
  · rintro ⟨k, ⟨share, hshare, rfl⟩, hle⟩
    exact ⟨share, hshare, hle⟩

/-- No market data session is given more than 1000 symbols, and nothing is divided by zero,
exactly when the shares fit. -/
theorem capacity_iff (settings : FIX.SessionSettings) (symbols : List String) :
    WithinCapacity settings symbols ↔ Fits (qualifiers settings) symbols.length := by
  rcases Nat.lt_or_ge (marketDataSessions settings).length (symbols.length / 1000) with hlt | hge
  · refine iff_of_true (withinCapacity_of_lt hlt) (Or.inl ?_)
    rwa [length_qualifiers]
  · by_cases hnil : marketDataSessions settings = []
    · have hqualifiers : qualifiers settings = [] := by rw [qualifiers, hnil, List.map_nil]
      have hlength : symbols.length < 1000 := by
        rw [hnil, List.length_nil] at hge
        omega
      rw [WithinCapacity, new_of_nil hnil hlength, hqualifiers]
      refine iff_of_false id ?_
      rintro (h | ⟨hne, -⟩)
      · exact absurd h (Nat.not_lt.mpr (by rwa [hnil] at hge))
      · exact hne rfl
    · have hne : qualifiers settings ≠ [] := fun h => hnil (List.map_eq_nil_iff.mp h)
      rw [withinCapacity_iff_shares hnil hge,
        shares_le_iff (qualifiers settings) hne (by rwa [length_qualifiers])]

/-- One market data session. -/
def oneSession : FIX.SessionSettings :=
  ⟨[⟨"FIX.4.4", "HARJUS", "SPOT", "MARKETDATA1"⟩]⟩

/-- Two market data sessions beside the session for orders. -/
def twoSessions : FIX.SessionSettings :=
  ⟨[⟨"FIX.4.4", "HARJUS", "SPOT", "MARKETDATA1"⟩, ⟨"FIX.4.4", "HARJUS", "SPOT", "MARKETDATA2"⟩,
    ⟨"FIX.4.4", "HARJUS", "SPOT", "ORDERENTRY"⟩]⟩

/-- The symbols of many markets. -/
def manySymbols (count : ℕ) : List String := (List.range count).map fun i => "S" ++ toString i

/-- There are as many symbols as asked for. -/
theorem length_manySymbols (count : ℕ) : (manySymbols count).length = count := by
  rw [manySymbols, List.length_map, List.length_range]

/-- 1999 symbols are one full thousand, so one session is let through with all of them. With 2999
symbols two sessions are let through, with 1500 and 1499 of them. Without a session the number
of symbols is divided by zero. -/
theorem capacity_exceeded :
    ¬ WithinCapacity oneSession (manySymbols 1999) ∧
      ¬ WithinCapacity twoSessions (manySymbols 2999) ∧ ¬ WithinCapacity ⟨[]⟩ ["BTCUSDT"] := by
  have hone : marketDataSessions oneSession = oneSession.getSessions := by decide
  have htwo : marketDataSessions twoSessions = twoSessions.getSessions.take 2 := by decide
  refine ⟨?_, ?_, ?_⟩
  · rw [withinCapacity_iff_shares (by rw [hone]; decide)
      (by rw [hone, length_manySymbols]; decide), length_manySymbols]
    intro h
    obtain ⟨k, hk, hle⟩ := h "MARKETDATA1" (by decide)
    rw [length_share _ (by decide), length_qualifiers, hone] at hk
    have hk : some 1999 = some k := hk
    rw [Option.some.injEq] at hk
    omega
  · rw [withinCapacity_iff_shares (by rw [htwo]; decide)
      (by rw [htwo, length_manySymbols]; decide), length_manySymbols]
    intro h
    obtain ⟨k, hk, hle⟩ := h "MARKETDATA1" (by decide)
    rw [length_share _ (by decide), length_qualifiers, htwo] at hk
    have hk : some 1500 = some k := hk
    rw [Option.some.injEq] at hk
    omega
  · rw [WithinCapacity, new_of_nil rfl (by decide)]
    exact id

/-! ### Sessions with qualifiers of their own -/

/-- What the market data sessions subscribe to, for the symbols of the trading paths. -/
structure SubscribedOnce (symbols : List String) (tradingPaths : List (List Trade))
    (sessions : List FIX.SessionID) (subscribed : FIX.SessionID → List String) : Prop where
  /-- The lists, one after the other, are the symbols. -/
  flatMap_eq : sessions.flatMap subscribed = symbols
  /-- A symbol is on some session exactly when it is on some path. -/
  mem_iff : ∀ symbol, (∃ session ∈ sessions, symbol ∈ subscribed session) ↔
    ∃ path ∈ tradingPaths, ∃ trade ∈ path, trade.symbol.symbol = symbol
  /-- It is there once. -/
  count_eq_one : ∀ session ∈ sessions, ∀ symbol ∈ subscribed session,
    (subscribed session).count symbol = 1
  /-- And on no other session. -/
  eq_of_mem : ∀ session ∈ sessions, ∀ session' ∈ sessions, ∀ symbol ∈ subscribed session,
    symbol ∈ subscribed session' → session' = session
  /-- The lengths of the lists differ by one at most. -/
  length_le : ∀ session ∈ sessions, ∀ session' ∈ sessions,
    (subscribed session).length ≤ (subscribed session').length + 1

variable {setOrder : SetOrder} {tradingPaths : List (List Trade)}

/-- The symbols of the paths. -/
theorem mem_getUniqueSymbolsForTradingPaths {symbol : String} :
    symbol ∈ getUniqueSymbolsForTradingPaths setOrder tradingPaths
      ↔ ∃ path ∈ tradingPaths, ∃ trade ∈ path, trade.symbol.symbol = symbol := by
  rw [getUniqueSymbolsForTradingPaths, (setOrder.perm _).mem_iff, List.mem_dedup,
    List.mem_flatMap]
  simp only [List.mem_map]

/-- The unique symbols are different. -/
theorem nodup_getUniqueSymbolsForTradingPaths :
    (getUniqueSymbolsForTradingPaths setOrder tradingPaths).Nodup :=
  (setOrder.perm _).nodup_iff.mpr (List.nodup_dedup _)

/-- Sessions with qualifiers of their own subscribe to the parts in their order. -/
theorem map_lookup_new (hdistinct : (qualifiers settings).Nodup) {symbolsMap : SymbolsMap}
    (hlookup : ∀ qualifier, symbolsMap.lookup qualifier = lastWrite ((qualifiers settings).zip
      (splitEvenly symbols (marketDataSessions settings).length)) qualifier)
    (hpos : 0 < (marketDataSessions settings).length) :
    (marketDataSessions settings).map (fun session => symbolsMap.lookup session.sessionQualifier)
      = (splitEvenly symbols (marketDataSessions settings).length).map some := by
  have hlength : (qualifiers settings).length
      = (splitEvenly symbols (marketDataSessions settings).length).length := by
    rw [length_qualifiers, length_splitEvenly hpos]
  rw [← map_lastWrite_zip hdistinct hlength]
  simp only [hlookup, qualifiers, List.map_map]
  rfl

/-- Sessions that subscribe to the parts in their order have every symbol once. -/
theorem subscribedOnce_of_map {sessions : List FIX.SessionID}
    {subscribed : FIX.SessionID → List String} (hpos : 0 < sessions.length)
    (h : sessions.map subscribed
      = splitEvenly (getUniqueSymbolsForTradingPaths setOrder tradingPaths) sessions.length) :
    SubscribedOnce (getUniqueSymbolsForTradingPaths setOrder tradingPaths) tradingPaths sessions
      subscribed := by
  have hflat : sessions.flatMap subscribed
      = getUniqueSymbolsForTradingPaths setOrder tradingPaths := by
    rw [List.flatMap_def, h, flatten_splitEvenly hpos]
  have hnodup : (sessions.flatMap subscribed).Nodup :=
    hflat ▸ nodup_getUniqueSymbolsForTradingPaths
  obtain ⟨hnodupEach, hdisjoint⟩ := List.nodup_flatMap.mp hnodup
  have hsymm : Std.Symm (Function.onFun List.Disjoint subscribed) := ⟨fun _ _ h => h.symm⟩
  have hpart (session : FIX.SessionID) (hsession : session ∈ sessions) : subscribed session
      ∈ splitEvenly (getUniqueSymbolsForTradingPaths setOrder tradingPaths) sessions.length :=
    h ▸ List.mem_map_of_mem hsession
  exact {
    flatMap_eq := hflat
    mem_iff := by
      intro symbol
      rw [← @mem_getUniqueSymbolsForTradingPaths setOrder, ← hflat, List.mem_flatMap]
    count_eq_one := by
      intro session hsession symbol hmem
      exact List.count_eq_one_of_mem (hnodupEach session hsession) hmem
    eq_of_mem := by
      intro session hsession session' hsession' symbol hmem hmem'
      by_contra hne
      exact hdisjoint.forall hsession' hsession hne hmem' hmem
    length_le := by
      intro session hsession session' hsession'
      exact length_le_of_mem_splitEvenly hpos (hpart session hsession) (hpart session' hsession') }

/-- Sessions with qualifiers of their own share the symbols of the trading paths without a gap
or an overlap, and no checked access throws. -/
theorem symbols_subscribed_once (setOrder : SetOrder) (tradingPaths : List (List Trade))
    (settings : FIX.SessionSettings) (hsessions : marketDataSessions settings ≠ [])
    (hdistinct : (qualifiers settings).Nodup)
    (haccepts : (getUniqueSymbolsForTradingPaths setOrder tradingPaths).length / 1000
      ≤ (marketDataSessions settings).length) :
    ∃ symbolsMap subscribed,
      new settings (getUniqueSymbolsForTradingPaths setOrder tradingPaths) = .ok symbolsMap ∧
      (∀ session ∈ marketDataSessions settings,
        onLogon symbolsMap session = .ok (subscribed session)) ∧
      SubscribedOnce (getUniqueSymbolsForTradingPaths setOrder tradingPaths) tradingPaths
        (marketDataSessions settings) subscribed := by
  have hpos : 0 < (marketDataSessions settings).length := List.length_pos_iff.mpr hsessions
  obtain ⟨symbolsMap, hnew, hlookup⟩ := lookup_new hsessions haccepts
  have hmap := map_lookup_new hdistinct hlookup hpos
  let subscribed (session : FIX.SessionID) : List String :=
    (symbolsMap.lookup session.sessionQualifier).getD []
  -- The parts of the sessions are those of the split, one for each session in order.
  have hsubscribed : (marketDataSessions settings).map subscribed
      = splitEvenly (getUniqueSymbolsForTradingPaths setOrder tradingPaths)
          (marketDataSessions settings).length := by
    have h := congrArg (List.map fun share : Option (List String) => share.getD []) hmap
    rw [List.map_map, List.map_map] at h
    exact h.trans (List.map_id _)
  refine ⟨symbolsMap, subscribed, hnew, ?_, subscribedOnce_of_map hpos hsubscribed⟩
  intro session hsession
  have hsome : symbolsMap.lookup session.sessionQualifier
      ∈ (splitEvenly (getUniqueSymbolsForTradingPaths setOrder tradingPaths)
        (marketDataSessions settings).length).map some :=
    hmap ▸ List.mem_map_of_mem hsession
  obtain ⟨share, -, hshare⟩ := List.mem_map.mp hsome
  rw [onLogon_eq_ok_iff hsession, ← hshare]
  show _ = some ((symbolsMap.lookup session.sessionQualifier).getD [])
  rw [← hshare, Option.getD_some]

/-- The symbols of the sample cycle over two sessions. -/
theorem symbols_subscribed_once_cycle :
    ∃ symbolsMap subscribed,
      new twoSessions (getUniqueSymbolsForTradingPaths sampleSetOrder [sampleCycle])
        = .ok symbolsMap ∧
      (∀ session ∈ marketDataSessions twoSessions,
        onLogon symbolsMap session = .ok (subscribed session)) ∧
      SubscribedOnce (getUniqueSymbolsForTradingPaths sampleSetOrder [sampleCycle]) [sampleCycle]
        (marketDataSessions twoSessions) subscribed :=
  symbols_subscribed_once sampleSetOrder [sampleCycle] twoSessions (by decide) (by decide)
    (by decide)

end Harjus.Application
