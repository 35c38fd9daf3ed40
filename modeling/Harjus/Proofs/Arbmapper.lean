import Harjus.Arbmapper
import Harjus.Lib.Writes

/-!
# `Harjus.Proofs.Arbmapper`: trading paths against closed chains of trades

A `TradingCycle` is a closed chain of trades on symbols of the map, within the length bound
and the whitelist, that uses no asset twice.

* `represents_buildGraph`: the vertices are the assets, and each symbol has an edge for either
  position, from the asset used to the asset received.
* `findCycles_eq`: the cycles are the walks over the circuits of the graph.
* `getTradingPaths_sound`: every trading path is such a cycle, no two are the same, and a path
  may start anywhere.
* `getTradingPaths_complete_iff`: every such cycle is a trading path exactly when none of them
  passes two assets between which there is another market.
-/

set_option autoImplicit false

namespace Harjus

open Harjus.Lib

variable {boost : Boost} {setOrder : SetOrder} {book : Book} {symbolMap : SymbolMap}
variable {configuration : IConfiguration} {graph : Graph} {maxDepth : Int32}

/-! ### The graph of a symbol map -/

/-- The trade is on a symbol of the map. -/
def SymbolMap.HasTrade (symbolMap : SymbolMap) (t : Trade) : Prop :=
  ∃ pair ∈ symbolMap.entries, pair.2 = t.symbol

/-- The edges of the graph are the trades on the symbols, each from the vertex of the asset
that it uses to the vertex of the asset that it receives. -/
structure Represents (graph : Graph) (book : Book) (symbolMap : SymbolMap) : Prop where
  nodup : graph.vertices.Nodup
  symbol : ∀ e ∈ graph.edges, symbolMap.HasTrade e.trade
  fresh : ∀ e ∈ graph.edges, .new book e.trade.symbol e.trade.position = e.trade
  source : ∀ e ∈ graph.edges, graph.vertices[e.source]? = some e.trade.usedCurrency
  target : ∀ e ∈ graph.edges, graph.vertices[e.target]? = some e.trade.recvCurrency
  edge : ∀ t, symbolMap.HasTrade t → ∃ e ∈ graph.edges, e.trade.leg = t.leg

/-- The second loop gives each asset the next descriptor. -/
theorem foldl_addAsset (assets keys : List String) (state : Graph × Finmap fun _ : String => ℕ)
    (hnodup : (keys ++ assets).Nodup) (h : Slots state.1.vertices state.2 keys id) :
    Slots (assets.foldl addAsset state).1.vertices (assets.foldl addAsset state).2
        (keys ++ assets) id ∧
      (assets.foldl addAsset state).1.edges = state.1.edges := by
  induction assets generalizing keys state with
  | nil => exact ⟨by rwa [List.append_nil], rfl⟩
  | cons asset assets ih =>
    have hkey : asset ∉ keys := fun hmem =>
      (List.nodup_append.mp hnodup).2.2 asset hmem asset List.mem_cons_self rfl
    have hstep := h.create hkey
    rw [List.append_cons] at hnodup ⊢
    exact ih (keys ++ [asset]) (addAsset state asset) hnodup hstep

/-- The two edges of a symbol. -/
def symbolEdges (book : Book) (vertexMap : Finmap fun _ : String => ℕ)
    (pair : String × Symbol) : List Edge :=
  let base := (vertexMap.lookup pair.2.baseAsset).getD 0
  let quote := (vertexMap.lookup pair.2.quoteAsset).getD 0
  [⟨quote, base, .new book pair.2 .LONG⟩, ⟨base, quote, .new book pair.2 .SHORT⟩]

/-- The third loop adds the edges and leaves the vertices. -/
theorem foldl_addSymbol (vertexMap : Finmap fun _ : String => ℕ)
    (entries : List (String × Symbol)) (graph : Graph) :
    entries.foldl (addSymbol book vertexMap) graph
      = ⟨graph.vertices, graph.edges ++ entries.flatMap (symbolEdges book vertexMap)⟩ := by
  induction entries generalizing graph with
  | nil => rw [List.foldl_nil, List.flatMap_nil, List.append_nil]
  | cons pair entries ih =>
    rw [List.foldl_cons, ih, List.flatMap_cons]
    simp [addSymbol, Graph.addEdge, symbolEdges]

/-- The edges of a symbol go between the vertices of its assets. -/
theorem ends_of_mem_symbolEdges {vertices : List String}
    {vertexMap : Finmap fun _ : String => ℕ} {pair : String × Symbol}
    (hbase : vertices[(vertexMap.lookup pair.2.baseAsset).getD 0]? = some pair.2.baseAsset)
    (hquote : vertices[(vertexMap.lookup pair.2.quoteAsset).getD 0]? = some pair.2.quoteAsset)
    {e : Edge} (he : e ∈ symbolEdges book vertexMap pair) :
    vertices[e.source]? = some e.trade.usedCurrency ∧
      vertices[e.target]? = some e.trade.recvCurrency := by
  obtain rfl | he := List.mem_cons.mp he
  · exact ⟨hquote, hbase⟩
  · cases List.mem_singleton.mp he
    exact ⟨hbase, hquote⟩

/-- The trade on an edge of a symbol is freshly made from it. -/
theorem trade_of_mem_symbolEdges {vertexMap : Finmap fun _ : String => ℕ}
    {pair : String × Symbol} {e : Edge} (he : e ∈ symbolEdges book vertexMap pair) :
    ∃ position, e.trade = .new book pair.2 position := by
  obtain rfl | he := List.mem_cons.mp he
  · exact ⟨.LONG, rfl⟩
  · cases List.mem_singleton.mp he
    exact ⟨.SHORT, rfl⟩

/-- There is an edge for either position. -/
theorem exists_mem_symbolEdges (vertexMap : Finmap fun _ : String => ℕ) {pair : String × Symbol}
    {t : Trade} (h : pair.2 = t.symbol) :
    ∃ e ∈ symbolEdges book vertexMap pair, e.trade.leg = t.leg := by
  obtain ⟨symbol, position, orderQty⟩ := t
  subst h
  cases position with
  | LONG => exact ⟨_, List.mem_cons_self, rfl⟩
  | SHORT => exact ⟨_, List.mem_cons_of_mem _ List.mem_cons_self, rfl⟩

/-- A descriptor that is looked up is the vertex of its asset. -/
theorem vertex_lookup {assets : List String} (hnodup : assets.Nodup) {asset : String}
    (hasset : asset ∈ assets) :
    assets[((assets.foldl addAsset (Graph.empty, ∅)).2.lookup asset).getD 0]? = some asset := by
  have hslots := (foldl_addAsset assets [] (Graph.empty, ∅) hnodup (.empty id)).1
  rw [hslots.lookup_eq, List.nil_append, if_pos hasset, Option.getD_some,
    List.getElem?_idxOf hasset]

/-- The vertices of the graph are the assets, and its edges are those of the symbols. -/
theorem buildGraph_eq (setOrder : SetOrder) (book : Book) (symbolMap : SymbolMap)
    (hnodup : (setOrder.arrange (insertedAssets symbolMap)).Nodup) :
    buildGraph setOrder book symbolMap
      = ⟨setOrder.arrange (insertedAssets symbolMap), symbolMap.entries.flatMap (symbolEdges book
          ((setOrder.arrange (insertedAssets symbolMap)).foldl addAsset (Graph.empty, ∅)).2)⟩ := by
  obtain ⟨hslots, hedges⟩ := foldl_addAsset (setOrder.arrange (insertedAssets symbolMap)) []
    (Graph.empty, ∅) hnodup (.empty id)
  have hvertices := hslots.items_eq
  rw [List.nil_append, List.map_id] at hvertices
  rw [buildGraph, foldl_addSymbol, hvertices, hedges]
  rfl

/-- The graph that is built has the trades of the symbol map as its edges. -/
theorem represents_buildGraph (setOrder : SetOrder) (book : Book) (symbolMap : SymbolMap) :
    Represents (buildGraph setOrder book symbolMap) book symbolMap := by
  have hperm := setOrder.perm (insertedAssets symbolMap)
  have hnodup : (setOrder.arrange (insertedAssets symbolMap)).Nodup :=
    hperm.nodup_iff.mpr (List.nodup_dedup _)
  have hlookup : ∀ asset ∈ insertedAssets symbolMap,
      (setOrder.arrange (insertedAssets symbolMap))[
        (((setOrder.arrange (insertedAssets symbolMap)).foldl addAsset
          (Graph.empty, ∅)).2.lookup asset).getD 0]? = some asset := fun asset hasset =>
    vertex_lookup hnodup (hperm.mem_iff.mpr (List.mem_dedup.mpr hasset))
  rw [buildGraph_eq setOrder book symbolMap hnodup]
  -- From here on the vertex map matters only through its lookups.
  generalize ((setOrder.arrange (insertedAssets symbolMap)).foldl addAsset
    (Graph.empty, ∅)).2 = vertexMap at hlookup
  have hends : ∀ e ∈ symbolMap.entries.flatMap (symbolEdges book vertexMap),
      (setOrder.arrange (insertedAssets symbolMap))[e.source]? = some e.trade.usedCurrency ∧
      (setOrder.arrange (insertedAssets symbolMap))[e.target]? = some e.trade.recvCurrency := by
    intro e he
    obtain ⟨pair, hpair, he⟩ := List.mem_flatMap.mp he
    refine ends_of_mem_symbolEdges (hlookup _ ?_) (hlookup _ ?_) he
    · exact List.mem_flatMap.mpr ⟨pair, hpair, by simp⟩
    · exact List.mem_flatMap.mpr ⟨pair, hpair, by simp⟩
  exact {
    nodup := hnodup
    symbol := by
      intro e he
      obtain ⟨pair, hpair, he⟩ := List.mem_flatMap.mp he
      obtain ⟨position, htrade⟩ := trade_of_mem_symbolEdges he
      exact ⟨pair, hpair, by rw [htrade]; rfl⟩
    fresh := by
      intro e he
      obtain ⟨pair, -, he⟩ := List.mem_flatMap.mp he
      obtain ⟨position, htrade⟩ := trade_of_mem_symbolEdges he
      rw [htrade]
      rfl
    source := fun e he => (hends e he).1
    target := fun e he => (hends e he).2
    edge := by
      rintro t ⟨pair, hpair, hsymbol⟩
      obtain ⟨e, he, hleg⟩ := exists_mem_symbolEdges vertexMap hsymbol
      exact ⟨e, List.mem_flatMap.mpr ⟨pair, hpair, he⟩, hleg⟩ }

/-! ### Cycles are walks -/

/-- `boost::edge` chooses an edge where there is one. -/
theorem Boost.Documented.chooses (h : boost.Documented graph) :
    Chooses graph.Adj Edge.source Edge.target (boost.edge graph) where
  ends {u v e} he := by
    obtain ⟨hmem, hu, hv⟩ := h.edge_some u v e he
    exact ⟨⟨e, hmem, hu, hv⟩, hu, hv⟩
  exists_of_adj {u v} hadj := by
    cases he : boost.edge graph u v with
    | none => exact absurd hadj (h.edge_none u v he)
    | some e => exact ⟨e, rfl⟩

/-- The loop of the visitor looks up the edges of the walk over the cycle. -/
theorem visitCycle_eq (cycles : List (List Trade)) (path : List ℕ) :
    visitCycle boost book graph cycles path
      = cycles ++ (rotations (walkOf (boost.edge graph) path)).map
          (List.map fun e => .new book e.trade.symbol e.trade.position) := by
  have htrades : (List.range path.length).filterMap (fun i =>
        (boost.edge graph (path.getD i 0) (path.getD ((i + 1) % path.length) 0)).map Edge.trade)
      = (walkOf (boost.edge graph) path).map Edge.trade := by
    have hzip : List.zipWith (boost.edge graph) path (path.rotate 1)
        = (List.range path.length).map fun i =>
            boost.edge graph (path.getD i 0) (path.getD ((i + 1) % path.length) 0) := by
      refine List.ext_getElem (by simp) fun i hi hi' => ?_
      have hlt : i < path.length := by simpa using hi'
      have hmod : (i + 1) % path.length < path.length := Nat.mod_lt _ (by omega)
      rw [List.getElem_zipWith, List.getElem_map, List.getElem_range, List.getElem_rotate,
        List.getD_eq_getElem?_getD, List.getD_eq_getElem?_getD, List.getElem?_eq_getElem hlt,
        List.getElem?_eq_getElem hmod, Option.getD_some, Option.getD_some]
    rw [walkOf, hzip, List.reduceOption, List.filterMap_map, List.map_filterMap]
    rfl
  rw [visitCycle]
  dsimp only
  rw [htrades, List.length_map, rotations, List.map_map]
  congr 1
  refine List.map_congr_left fun i hi => ?_
  rw [rotateCopy, ← List.rotate_eq_drop_append_take (by simpa using (List.mem_range.mp hi).le),
    ← List.map_rotate, List.map_map]
  rfl

/-- The cycles are the walks over the circuits that the search visits. -/
theorem findCycles_eq :
    findCycles boost book graph maxDepth
      = (walks (boost.edge graph) (boost.tiernanAllCycles graph 3 (sizeOfInt maxDepth))).map
          (List.map fun e => .new book e.trade.symbol e.trade.position) := by
  have hfold : ∀ (circuits : List (List ℕ)) (cycles : List (List Trade)),
      circuits.foldl (visitCycle boost book graph) cycles
        = cycles ++ (walks (boost.edge graph) circuits).map
            (List.map fun e => .new book e.trade.symbol e.trade.position) := by
    intro circuits
    induction circuits with
    | nil => exact fun cycles => (List.append_nil cycles).symm
    | cons path circuits ih =>
      intro cycles
      rw [List.foldl_cons, ih, visitCycle_eq, List.append_assoc, walks_cons, List.map_append]
  rw [findCycles, hfold, List.nil_append]

/-- A cycle is a closed walk within the bounds through distinct vertices, along the edges that
are looked up. -/
theorem mem_findCycles_iff (hboost : boost.Documented graph)
    (hgraph : Represents graph book symbolMap) {path : List Trade} :
    path ∈ findCycles boost book graph maxDepth ↔
      ∃ w : List Edge, w.map Edge.trade = path ∧
        ClosedWalk Edge.source Edge.target w ∧ (w.map Edge.source).Nodup ∧
        3 ≤ w.length ∧ w.length ≤ sizeOfInt maxDepth ∧
        AllChosen Edge.source Edge.target (boost.edge graph) w := by
  have henum := hboost.tiernan_all_cycles 3 (sizeOfInt maxDepth) (by decide)
  have hfresh : ∀ w : List Edge, AllChosen Edge.source Edge.target (boost.edge graph) w →
      w.map (fun e => .new book e.trade.symbol e.trade.position) = w.map Edge.trade :=
    fun w hall => List.map_congr_left fun e he =>
      hgraph.fresh e (hboost.edge_some _ _ e (hall e he)).1
  rw [findCycles_eq, List.mem_map]
  constructor
  · rintro ⟨w, hw, rfl⟩
    have hspec := (mem_walks_iff (by decide) hboost.chooses henum).mp hw
    exact ⟨w, (hfresh w hspec.2.2.2.2).symm, hspec⟩
  · rintro ⟨w, rfl, hspec⟩
    exact ⟨w, (mem_walks_iff (by decide) hboost.chooses henum).mpr hspec,
      hfresh w hspec.2.2.2.2⟩

/-! ### Descriptors and assets -/

section Assets
variable {e : Edge} {w w' : List Edge}

/-- The asset of a vertex. -/
def Graph.asset (graph : Graph) (v : ℕ) : String := graph.vertices.getD v ""

/-- The asset of a vertex is the one the vertex was added for. -/
theorem asset_eq {v : ℕ} {asset : String} (h : graph.vertices[v]? = some asset) :
    graph.asset v = asset := by
  rw [Graph.asset, List.getD_eq_getElem?_getD, h, Option.getD_some]

/-- An asset has one vertex. -/
theorem idxOf_eq (hnodup : graph.vertices.Nodup) {v : ℕ} {asset : String}
    (h : graph.vertices[v]? = some asset) : graph.vertices.idxOf asset = v := by
  obtain ⟨hv, rfl⟩ := List.getElem?_eq_some_iff.mp h
  exact hnodup.idxOf_getElem v hv

/-- The used currencies and the source vertices determine each other. -/
theorem Represents.used_eq (hgraph : Represents graph book symbolMap)
    (hw : ∀ e ∈ w, e ∈ graph.edges) :
    (w.map Edge.trade).map Trade.usedCurrency = (w.map Edge.source).map graph.asset ∧
      w.map Edge.source
        = ((w.map Edge.trade).map Trade.usedCurrency).map graph.vertices.idxOf := by
  simp only [List.map_map]
  exact ⟨List.map_congr_left fun e he => (asset_eq (hgraph.source e (hw e he))).symm,
    List.map_congr_left fun e he => (idxOf_eq hgraph.nodup (hgraph.source e (hw e he))).symm⟩

/-- The received currencies and the target vertices determine each other. -/
theorem Represents.recv_eq (hgraph : Represents graph book symbolMap)
    (hw : ∀ e ∈ w, e ∈ graph.edges) :
    (w.map Edge.trade).map Trade.recvCurrency = (w.map Edge.target).map graph.asset ∧
      w.map Edge.target
        = ((w.map Edge.trade).map Trade.recvCurrency).map graph.vertices.idxOf := by
  simp only [List.map_map]
  exact ⟨List.map_congr_left fun e he => (asset_eq (hgraph.target e (hw e he))).symm,
    List.map_congr_left fun e he => (idxOf_eq hgraph.nodup (hgraph.target e (hw e he))).symm⟩

/-- Edges make a closed walk when their trades do. -/
theorem Represents.closedWalk_iff (hgraph : Represents graph book symbolMap)
    (hw : ∀ e ∈ w, e ∈ graph.edges) :
    ClosedWalk Edge.source Edge.target w
      ↔ ClosedWalk Trade.usedCurrency Trade.recvCurrency (w.map Edge.trade) := by
  rw [Lib.closedWalk_iff, Lib.closedWalk_iff]
  constructor
  · intro h
    rw [(hgraph.recv_eq hw).1, (hgraph.used_eq hw).1, h, List.map_rotate]
  · intro h
    rw [(hgraph.recv_eq hw).2, (hgraph.used_eq hw).2, h, List.map_rotate]

/-- Edges start at different vertices when their trades use different assets. -/
theorem Represents.nodup_iff (hgraph : Represents graph book symbolMap)
    (hw : ∀ e ∈ w, e ∈ graph.edges) :
    (w.map Edge.source).Nodup ↔ ((w.map Edge.trade).map Trade.usedCurrency).Nodup := by
  constructor
  · intro h
    rw [(hgraph.used_eq hw).2] at h
    exact h.of_map
  · intro h
    rw [(hgraph.used_eq hw).1] at h
    exact h.of_map

/-- Edges with the same ends whose trades have the same leg are the same. -/
theorem Represents.edge_ext (hgraph : Represents graph book symbolMap) {e e' : Edge}
    (he : e ∈ graph.edges) (he' : e' ∈ graph.edges) (hsource : e.source = e'.source)
    (htarget : e.target = e'.target) (hleg : e.trade.leg = e'.trade.leg) : e = e' := by
  have htrade : e.trade = e'.trade := by
    obtain ⟨hsymbol, hposition⟩ := Prod.mk.inj hleg
    rw [← hgraph.fresh e he, ← hgraph.fresh e' he', hsymbol, hposition]
  obtain ⟨source, target, trade⟩ := e
  obtain ⟨source', target', trade'⟩ := e'
  cases hsource
  cases htarget
  cases htrade
  rfl

/-- Trades on symbols of the map have edges, up to their order quantities. -/
theorem Represents.exists_edges (hgraph : Represents graph book symbolMap) {path : List Trade}
    (h : ∀ t ∈ path, symbolMap.HasTrade t) :
    ∃ w : List Edge, (∀ e ∈ w, e ∈ graph.edges) ∧
      (w.map Edge.trade).map Trade.leg = path.map Trade.leg := by
  induction path with
  | nil => exact ⟨[], fun _ h => (nomatch h), rfl⟩
  | cons t path ih =>
    obtain ⟨w, hw, hlegs⟩ := ih fun t' ht' => h t' (List.mem_cons_of_mem _ ht')
    obtain ⟨e, he, hleg⟩ := hgraph.edge t (h t List.mem_cons_self)
    refine ⟨e :: w, List.forall_mem_cons.mpr ⟨he, hw⟩, ?_⟩
    rw [List.map_cons, List.map_cons, List.map_cons, hleg, hlegs]

end Assets

/-! ### Trading cycles -/

/-- A closed chain of trades on symbols of the map, within the length bound and the whitelist,
that uses no asset twice. -/
structure TradingCycle (symbolMap : SymbolMap) (configuration : IConfiguration)
    (path : List Trade) : Prop where
  three_le : 3 ≤ path.length
  length_le : (path.length : ℤ) ≤ configuration.getMaxTradingPathLength.toInt
  closed : ClosedWalk Trade.usedCurrency Trade.recvCurrency path
  simple : (path.map Trade.usedCurrency).Nodup
  symbol : ∀ t ∈ path, symbolMap.HasTrade t
  whitelisted : configuration.getAssets ≠ [] →
    ∀ t ∈ path, t.usedCurrency ∈ configuration.getAssets ∧
      t.recvCurrency ∈ configuration.getAssets

/-- The whitelist drops a cycle that trades another asset. -/
theorem mem_getTradingPaths_iff {path : List Trade} :
    path ∈ getTradingPaths boost setOrder book symbolMap configuration ↔
      path ∈ findCycles boost book (buildGraph setOrder book symbolMap)
        configuration.getMaxTradingPathLength ∧
      (configuration.getAssets ≠ [] →
        ∀ t ∈ path, t.usedCurrency ∈ configuration.getAssets ∧
          t.recvCurrency ∈ configuration.getAssets) := by
  unfold getTradingPaths
  dsimp only
  split
  · rename_i hnil
    simp [hnil]
  · rename_i hne
    simp [hne, not_or]

/-- A length that is not negative stays what it is. -/
theorem sizeOfInt_of_nonneg {n : Int32} (h : 0 ≤ n.toInt) : (sizeOfInt n : ℤ) = n.toInt := by
  have hlt := n.toInt_lt
  rw [sizeOfInt, Int.emod_eq_of_lt h (by omega), Int.toNat_of_nonneg h]

section Paths
variable (hboost : boost.Documented (buildGraph setOrder book symbolMap)) {path path' : List Trade}

include hboost

/-- Apart from the length bound, a trading path is a cycle for any setting. -/
theorem closed_of_mem_getTradingPaths
    (h : path ∈ getTradingPaths boost setOrder book symbolMap configuration) :
    path ≠ [] ∧ ClosedWalk Trade.usedCurrency Trade.recvCurrency path := by
  have hgraph := represents_buildGraph setOrder book symbolMap
  obtain ⟨w, rfl, hclosed, -, hge, -, hall⟩ :=
    (mem_findCycles_iff hboost hgraph).mp (mem_getTradingPaths_iff.mp h).1
  have hw : ∀ e ∈ w, e ∈ (buildGraph setOrder book symbolMap).edges :=
    fun e he => (hboost.edge_some _ _ e (hall e he)).1
  refine ⟨?_, (hgraph.closedWalk_iff hw).mp hclosed⟩
  rintro hnil
  rw [List.map_eq_nil_iff.mp hnil] at hge
  exact absurd hge (by decide)

/-- What is returned is a trading cycle within the limits. -/
theorem tradingCycle_of_mem_getTradingPaths
    (hmax : 0 ≤ configuration.getMaxTradingPathLength.toInt)
    (h : path ∈ getTradingPaths boost setOrder book symbolMap configuration) :
    TradingCycle symbolMap configuration path := by
  have hgraph := represents_buildGraph setOrder book symbolMap
  have hclosed := (closed_of_mem_getTradingPaths hboost h).2
  obtain ⟨hmem, hwhite⟩ := mem_getTradingPaths_iff.mp h
  obtain ⟨w, rfl, -, hnodup, hge, hle, hall⟩ := (mem_findCycles_iff hboost hgraph).mp hmem
  have hw : ∀ e ∈ w, e ∈ (buildGraph setOrder book symbolMap).edges :=
    fun e he => (hboost.edge_some _ _ e (hall e he)).1
  have hsize := sizeOfInt_of_nonneg hmax
  exact {
    three_le := by rwa [List.length_map]
    length_le := by
      rw [List.length_map]
      omega
    closed := hclosed
    simple := (hgraph.nodup_iff hw).mp hnodup
    symbol := by
      intro t ht
      obtain ⟨e, he, rfl⟩ := List.mem_map.mp ht
      exact hgraph.symbol e (hw e he)
    whitelisted := hwhite }

/-- A trading path may start from any of its trades. -/
theorem rotate_mem_getTradingPaths
    (h : path ∈ getTradingPaths boost setOrder book symbolMap configuration) (n : ℕ) :
    path.rotate n ∈ getTradingPaths boost setOrder book symbolMap configuration := by
  have hgraph := represents_buildGraph setOrder book symbolMap
  obtain ⟨hmem, hwhite⟩ := mem_getTradingPaths_iff.mp h
  obtain ⟨w, rfl, hclosed, hnodup, hge, hle, hall⟩ := (mem_findCycles_iff hboost hgraph).mp hmem
  refine mem_getTradingPaths_iff.mpr ⟨?_, fun hne t ht => hwhite hne t (List.mem_rotate.mp ht)⟩
  refine (mem_findCycles_iff hboost hgraph).mpr ⟨w.rotate n, List.map_rotate _ _ _,
    hclosed.rotate n, ?_, ?_, ?_, fun e he => hall e (List.mem_rotate.mp he)⟩
  · rw [List.map_rotate]
    exact List.nodup_rotate.mpr hnodup
  · rwa [List.length_rotate]
  · rwa [List.length_rotate]

/-- No two trading paths use the same assets in the same order. -/
theorem nodup_map_used_getTradingPaths (configuration : IConfiguration) :
    ((getTradingPaths boost setOrder book symbolMap configuration).map
      (List.map Trade.usedCurrency)).Nodup := by
  have hgraph := represents_buildGraph setOrder book symbolMap
  have hsub : (getTradingPaths boost setOrder book symbolMap configuration).Sublist
      (findCycles boost book (buildGraph setOrder book symbolMap)
        configuration.getMaxTradingPathLength) := by
    unfold getTradingPaths
    dsimp only
    split
    · exact .refl _
    · exact List.filter_sublist
  refine List.Nodup.sublist (hsub.map _) ?_
  have henum := hboost.tiernan_all_cycles 3
    (sizeOfInt configuration.getMaxTradingPathLength) (by decide)
  have hwalks := nodup_map_walks hboost.chooses henum
  rw [findCycles_eq, List.map_map]
  refine List.Nodup.map_on (fun w hw w' hw' heq => ?_) hwalks.of_map
  -- The sources of a walk are its used assets, and no two walks have the same sources.
  have hsource : ∀ w ∈ walks (boost.edge (buildGraph setOrder book symbolMap))
        (boost.tiernanAllCycles (buildGraph setOrder book symbolMap) 3
          (sizeOfInt configuration.getMaxTradingPathLength)),
      w.map Edge.source
        = ((w.map fun e => .new book e.trade.symbol e.trade.position).map
            Trade.usedCurrency).map (buildGraph setOrder book symbolMap).vertices.idxOf := by
    intro w hw
    have hall := ((mem_walks_iff (by decide) hboost.chooses henum).mp hw).2.2.2.2
    have hedges : ∀ e ∈ w, e ∈ (buildGraph setOrder book symbolMap).edges :=
      fun e he => (hboost.edge_some _ _ e (hall e he)).1
    rw [(hgraph.used_eq hedges).2,
      List.map_congr_left (fun e he => (hgraph.fresh e (hedges e he)).symm)]
  refine List.inj_on_of_nodup_map hwalks hw hw' ?_
  rw [hsource w hw, hsource w' hw']
  exact congrArg _ heq

end Paths

/-! ### The trading paths are sound -/

/-- The leg of a trade says which asset it uses. -/
theorem map_usedCurrency_eq (path : List Trade) :
    path.map Trade.usedCurrency
      = (path.map Trade.leg).map fun leg => Trade.usedCurrency ⟨leg.1, leg.2, 0⟩ := by
  rw [List.map_map]
  rfl

/-- Every trading path is a cycle as meant, no two are the same, and each may start from any
of its trades. -/
theorem getTradingPaths_sound
    (hboost : boost.Documented (buildGraph setOrder book symbolMap))
    (hmax : 0 ≤ configuration.getMaxTradingPathLength.toInt) :
    (∀ path ∈ getTradingPaths boost setOrder book symbolMap configuration,
      TradingCycle symbolMap configuration path) ∧
    ((getTradingPaths boost setOrder book symbolMap configuration).map
      (List.map Trade.leg)).Nodup ∧
    ∀ path ∈ getTradingPaths boost setOrder book symbolMap configuration, ∀ n,
      path.rotate n ∈ getTradingPaths boost setOrder book symbolMap configuration := by
  refine ⟨fun path h => tradingCycle_of_mem_getTradingPaths hboost hmax h, ?_,
    fun path h n => rotate_mem_getTradingPaths hboost h n⟩
  have hnodup := nodup_map_used_getTradingPaths hboost configuration
  have hmap : (getTradingPaths boost setOrder book symbolMap configuration).map
        (List.map Trade.usedCurrency)
      = ((getTradingPaths boost setOrder book symbolMap configuration).map
          (List.map Trade.leg)).map
            (List.map fun leg => Trade.usedCurrency ⟨leg.1, leg.2, 0⟩) := by
    rw [List.map_map]
    exact List.map_congr_left fun path _ => map_usedCurrency_eq path
  rw [hmap] at hnodup
  exact hnodup.of_map

/-- A graph library that looks for the first edge and tries every list of vertices. -/
def searchBoost : Boost where
  edge graph u v := graph.edges.find? fun e => e.source = u ∧ e.target = v
  tiernanAllCycles graph minlen maxlen :=
    searchCircuits (graph.edges.map Edge.source) graph.Adj minlen maxlen

/-- A search over all circuits does what is documented of Boost. -/
theorem documented_searchBoost (graph : Graph) : searchBoost.Documented graph where
  edge_some u v e h := by
    have hends := List.find?_some h
    simp only [decide_eq_true_eq] at hends
    exact ⟨List.mem_of_find?_eq_some h, hends⟩
  edge_none u v h := by
    rintro ⟨e, he, hends⟩
    have hnone := List.find?_eq_none.mp h e he
    simp only [decide_eq_true_eq] at hnone
    exact hnone hends
  tiernan_all_cycles minlen maxlen _ :=
    enumerates_searchCircuits fun _ _ ⟨_, he, hsource, _⟩ => hsource ▸ List.mem_map_of_mem he

/-- A set that iterates over what was inserted in the order of the last insertions. -/
def sampleSetOrder : SetOrder := ⟨List.dedup, fun _ => .refl _⟩

/-- `BTCUSDT`, `ETHBTC` and `ETHUSDT`. -/
def sampleTriangle : SymbolMap where
  entries := [("BTCUSDT", ⟨"BTCUSDT", "BTC", "USDT", 0, 0⟩),
    ("ETHBTC", ⟨"ETHBTC", "ETH", "BTC", 0, 0⟩), ("ETHUSDT", ⟨"ETHUSDT", "ETH", "USDT", 0, 0⟩)]
  nodup := by decide

/-- `BTCUSDT:LONG,ETHBTC:LONG,ETHUSDT:SHORT`. -/
def sampleCycle : List Trade :=
  [⟨⟨"BTCUSDT", "BTC", "USDT", 0, 0⟩, .LONG, 0⟩, ⟨⟨"ETHBTC", "ETH", "BTC", 0, 0⟩, .LONG, 0⟩,
    ⟨⟨"ETHUSDT", "ETH", "USDT", 0, 0⟩, .SHORT, 0⟩]

/-! ### When they are complete -/

/-- Every cycle as meant is among the trading paths, as symbols with positions. -/
def Complete (boost : Boost) (setOrder : SetOrder) (book : Book) (symbolMap : SymbolMap)
    (configuration : IConfiguration) : Prop :=
  ∀ path, TradingCycle symbolMap configuration path →
    path.map Trade.leg ∈ (getTradingPaths boost setOrder book symbolMap configuration).map
      (List.map Trade.leg)

/-- No cycle as meant has a trade beside which another one exchanges the same assets. -/
def NoParallelTrade (symbolMap : SymbolMap) (configuration : IConfiguration) : Prop :=
  ∀ path, TradingCycle symbolMap configuration path → ∀ t ∈ path, ∀ t', symbolMap.HasTrade t' →
    t'.usedCurrency = t.usedCurrency → t'.recvCurrency = t.recvCurrency → t'.leg = t.leg

/-- What the trades of a path receive is a matter of their legs. -/
theorem map_recvCurrency_eq (path : List Trade) :
    path.map Trade.recvCurrency
      = (path.map Trade.leg).map fun leg => Trade.recvCurrency ⟨leg.1, leg.2, 0⟩ := by
  rw [List.map_map]
  rfl

/-- Trades that use and receive the assets of a cycle are a cycle. -/
theorem TradingCycle.of_assets {path path' : List Trade}
    (h : TradingCycle symbolMap configuration path)
    (hused : path'.map Trade.usedCurrency = path.map Trade.usedCurrency)
    (hrecv : path'.map Trade.recvCurrency = path.map Trade.recvCurrency)
    (hsymbol : ∀ t ∈ path', symbolMap.HasTrade t) : TradingCycle symbolMap configuration path' := by
  have hlength : path'.length = path.length := by
    simpa using congrArg List.length hused
  exact {
    three_le := hlength ▸ h.three_le
    length_le := hlength ▸ h.length_le
    closed := by
      rw [closedWalk_iff, hused, hrecv, ← closedWalk_iff]
      exact h.closed
    simple := hused ▸ h.simple
    symbol := hsymbol
    whitelisted := by
      intro hne t ht
      obtain ⟨t₁, ht₁, hused₁⟩ := List.mem_map.mp (hused ▸ List.mem_map_of_mem ht)
      obtain ⟨t₂, ht₂, hrecv₂⟩ := List.mem_map.mp (hrecv ▸ List.mem_map_of_mem ht)
      rw [← hused₁, ← hrecv₂]
      exact ⟨(h.whitelisted hne t₁ ht₁).1, (h.whitelisted hne t₂ ht₂).2⟩ }

/-- Whether trades are a cycle depends on their legs only. -/
theorem TradingCycle.congr {path path' : List Trade}
    (h : TradingCycle symbolMap configuration path)
    (hlegs : path'.map Trade.leg = path.map Trade.leg) :
    TradingCycle symbolMap configuration path' := by
  refine h.of_assets ?_ ?_ fun t' ht' => ?_
  · rw [map_usedCurrency_eq, hlegs, ← map_usedCurrency_eq]
  · rw [map_recvCurrency_eq, hlegs, ← map_recvCurrency_eq]
  · obtain ⟨t, ht, hleg⟩ := List.mem_map.mp (hlegs ▸ List.mem_map_of_mem ht')
    obtain ⟨pair, hpair, hsymbol⟩ := h.symbol t ht
    exact ⟨pair, hpair, hsymbol.trans (Prod.mk.inj hleg).1⟩

/-- A cycle stays one when a trade is replaced by another that exchanges the same assets. -/
theorem TradingCycle.replace {l l' : List Trade} {t t' : Trade}
    (h : TradingCycle symbolMap configuration (l ++ t :: l')) (ht' : symbolMap.HasTrade t')
    (hused : t'.usedCurrency = t.usedCurrency) (hrecv : t'.recvCurrency = t.recvCurrency) :
    TradingCycle symbolMap configuration (l ++ t' :: l') := by
  refine h.of_assets (by simp [hused]) (by simp [hrecv]) fun x hx => ?_
  obtain hx | hx := List.mem_append.mp hx
  · exact h.symbol x (List.mem_append_left _ hx)
  · obtain rfl | hx := List.mem_cons.mp hx
    · exact ht'
    · exact h.symbol x (List.mem_append_right _ (List.mem_cons_of_mem _ hx))

/-- Of two cycles over the same assets at most one is found. -/
theorem leg_eq_of_complete (hboost : boost.Documented (buildGraph setOrder book symbolMap))
    (hcomplete : Complete boost setOrder book symbolMap configuration) :
    NoParallelTrade symbolMap configuration := by
  intro path hpath t ht t' ht' hused hrecv
  obtain ⟨l, l', rfl⟩ := List.append_of_mem ht
  obtain ⟨p, hp, hlegs⟩ := List.mem_map.mp (hcomplete _ hpath)
  obtain ⟨p', hp', hlegs'⟩ := List.mem_map.mp (hcomplete _ (hpath.replace ht' hused hrecv))
  have hsame : p.map Trade.usedCurrency = p'.map Trade.usedCurrency := by
    rw [map_usedCurrency_eq, hlegs, map_usedCurrency_eq p', hlegs', ← map_usedCurrency_eq,
      ← map_usedCurrency_eq]
    simp [hused]
  have heq := List.inj_on_of_nodup_map (nodup_map_used_getTradingPaths hboost configuration)
    hp hp' hsame
  rw [heq, hlegs'] at hlegs
  simpa using hlegs

/-- A cycle is found when the edge that is looked up between two of its assets can only be the
one of its own trade. -/
theorem complete_of_noParallelTrade
    (hboost : boost.Documented (buildGraph setOrder book symbolMap))
    (hparallel : NoParallelTrade symbolMap configuration) :
    Complete boost setOrder book symbolMap configuration := by
  intro path hpath
  have hgraph := represents_buildGraph setOrder book symbolMap
  obtain ⟨w, hw, hlegs⟩ := hgraph.exists_edges hpath.symbol
  have hcycle := hpath.congr hlegs
  have hwalk : path.map Trade.leg = (w.map Edge.trade).map Trade.leg := hlegs.symm
  rw [hwalk]
  refine List.mem_map_of_mem (mem_getTradingPaths_iff.mpr ⟨?_, hcycle.whitelisted⟩)
  have hsize : w.length ≤ sizeOfInt configuration.getMaxTradingPathLength := by
    have hge := hcycle.three_le
    have hle := hcycle.length_le
    rw [List.length_map] at hge hle
    have hsize := sizeOfInt_of_nonneg (n := configuration.getMaxTradingPathLength) (by omega)
    omega
  refine (mem_findCycles_iff hboost hgraph).mpr ⟨w, rfl, (hgraph.closedWalk_iff hw).mpr
    hcycle.closed, (hgraph.nodup_iff hw).mpr hcycle.simple,
    by simpa using hcycle.three_le, hsize, fun e he => ?_⟩
  -- What is looked up between the ends of an edge is an edge with the same assets.
  obtain ⟨e', he'⟩ := hboost.chooses.exists_of_adj ⟨e, hw e he, rfl, rfl⟩
  obtain ⟨hmem', hsource, htarget⟩ := hboost.edge_some _ _ e' he'
  have hused : e'.trade.usedCurrency = e.trade.usedCurrency := by
    rw [← asset_eq (hgraph.source e' hmem'), hsource, asset_eq (hgraph.source e (hw e he))]
  have hrecv : e'.trade.recvCurrency = e.trade.recvCurrency := by
    rw [← asset_eq (hgraph.target e' hmem'), htarget, asset_eq (hgraph.target e (hw e he))]
  have hleg := hparallel _ hcycle e.trade (List.mem_map_of_mem he) e'.trade
    (hgraph.symbol e' hmem') hused hrecv
  rw [he', hgraph.edge_ext hmem' (hw e he) hsource htarget hleg]

/-- The trading paths are complete exactly when no cycle passes two assets between which there
is another market. -/
theorem getTradingPaths_complete_iff
    (hboost : boost.Documented (buildGraph setOrder book symbolMap)) :
    Complete boost setOrder book symbolMap configuration
      ↔ NoParallelTrade symbolMap configuration :=
  ⟨leg_eq_of_complete hboost, complete_of_noParallelTrade hboost⟩

/-- Between two assets of the triangle there is one market. -/
theorem noParallelTrade_sampleTriangle : NoParallelTrade sampleTriangle ⟨3, []⟩ := by
  have hlegs : ∀ pair ∈ sampleTriangle.entries, ∀ pair' ∈ sampleTriangle.entries,
      ∀ position ∈ [Position.LONG, .SHORT], ∀ position' ∈ [Position.LONG, .SHORT],
        Trade.usedCurrency ⟨pair'.2, position', 0⟩ = Trade.usedCurrency ⟨pair.2, position, 0⟩ →
        Trade.recvCurrency ⟨pair'.2, position', 0⟩ = Trade.recvCurrency ⟨pair.2, position, 0⟩ →
        (pair'.2, position') = (pair.2, position) := by decide +kernel
  have hposition : ∀ position, position ∈ [Position.LONG, .SHORT] := by
    intro position
    cases position <;> decide
  rintro path hpath t ht t' ⟨pair', hpair', hsymbol'⟩ hused hrecv
  obtain ⟨pair, hpair, hsymbol⟩ := hpath.symbol t ht
  obtain ⟨symbol, position, orderQty⟩ := t
  obtain ⟨symbol', position', orderQty'⟩ := t'
  subst hsymbol hsymbol'
  exact hlegs pair hpair pair' hpair' position (hposition _) position' (hposition _) hused hrecv

/-- The sample cycle is one as meant, on every map with its three markets. -/
theorem tradingCycle_sampleCycle {symbolMap : SymbolMap}
    (h : ∀ t ∈ sampleCycle, symbolMap.HasTrade t) :
    TradingCycle symbolMap ⟨3, []⟩ sampleCycle where
  three_le := by decide
  length_le := by decide
  closed := closedWalk_iff.mpr rfl
  simple := by decide
  symbol := h
  whitelisted := fun h => absurd rfl h

/-- Every cycle of the triangle is found. -/
theorem getTradingPaths_complete_iff_triangle :
    Complete searchBoost sampleSetOrder .empty sampleTriangle ⟨3, []⟩ :=
  (getTradingPaths_complete_iff (documented_searchBoost _)).mpr noParallelTrade_sampleTriangle

/-- `BTCUSDT`, `ETHBTC` and `ETHUSDT` are found, and may start from any of them. -/
theorem getTradingPaths_sound_triangle :
    ∃ path, path.map Trade.leg = sampleCycle.map Trade.leg ∧
      TradingCycle sampleTriangle ⟨3, []⟩ path ∧
      ∀ n, path.rotate n
        ∈ getTradingPaths searchBoost sampleSetOrder .empty sampleTriangle ⟨3, []⟩ := by
  have hboost := documented_searchBoost (buildGraph sampleSetOrder .empty sampleTriangle)
  have hcycle : TradingCycle sampleTriangle ⟨3, []⟩ sampleCycle :=
    tradingCycle_sampleCycle (by simp [SymbolMap.HasTrade, sampleTriangle, sampleCycle])
  obtain ⟨path, hpath, hlegs⟩ := List.mem_map.mp
    (complete_of_noParallelTrade hboost noParallelTrade_sampleTriangle _ hcycle)
  have hmax : (0 : ℤ) ≤ (⟨3, []⟩ : IConfiguration).getMaxTradingPathLength.toInt := by decide
  obtain ⟨hcycles, -, hrotate⟩ := getTradingPaths_sound hboost hmax
  exact ⟨path, hlegs, hcycles path hpath, hrotate path hpath⟩

/-- The triangle with a second market between `BTC` and `USDT`. -/
def sampleDoubled : SymbolMap where
  entries := ("BTCUSDTM", ⟨"BTCUSDTM", "BTC", "USDT", 0, 0⟩) :: sampleTriangle.entries
  nodup := by decide

/-- With a second market between two assets some cycle is missing. -/
theorem getTradingPaths_incomplete_doubled :
    searchBoost.Documented (buildGraph sampleSetOrder .empty sampleDoubled) ∧
      ¬ Complete searchBoost sampleSetOrder .empty sampleDoubled ⟨3, []⟩ := by
  refine ⟨documented_searchBoost _, fun hcomplete => ?_⟩
  have hparallel := leg_eq_of_complete (documented_searchBoost _) hcomplete
  -- `BTCUSDT`, `ETHBTC` and `ETHUSDT` are a cycle, and `BTCUSDTM` may replace `BTCUSDT`.
  have hcycle : TradingCycle sampleDoubled ⟨3, []⟩ sampleCycle := tradingCycle_sampleCycle
    (by simp [SymbolMap.HasTrade, sampleDoubled, sampleTriangle, sampleCycle])
  have hleg := hparallel _ hcycle _ List.mem_cons_self
    ⟨⟨"BTCUSDTM", "BTC", "USDT", 0, 0⟩, .LONG, 0⟩ ⟨_, List.mem_cons_self, rfl⟩ rfl rfl
  exact absurd hleg (by decide +kernel)

end Harjus
