import Harjus.Configuration
import Harjus.Exchange
import Harjus.Lib.Circuit

/-!
# `Harjus.Arbmapper`: the trading paths of a symbol map

`getTradingPaths` (`src/Arbmapper.cpp`) builds a directed multigraph with a vertex for each
asset and two edges for each symbol, and turns the cycles that it finds there into trades.

* A vertex descriptor is the position of the vertex, as in an adjacency list over `vecS`.
* `Boost` is the part that the graph library does: to look an edge up and to enumerate the
  cycles. `Boost.Documented` is what the library says about both.
* `SetOrder` is the order in which the set of the assets iterates.
-/

set_option autoImplicit false

namespace Harjus

open Harjus.Lib

/-! ### The graph -/

/-- An edge with its `EdgeProperties`. -/
structure Edge where
  source : ℕ
  target : ℕ
  trade : Trade
  deriving DecidableEq

/-- `Graph`: the `VertexProperties` of the vertices, and the edges. -/
structure Graph where
  vertices : List String
  edges : List Edge

namespace Graph

/-- `Graph graph = 0`. -/
def empty : Graph := ⟨[], []⟩

/-- `boost::add_vertex`. The new descriptor is the number of vertices before. -/
def addVertex (graph : Graph) (asset : String) : Graph :=
  { graph with vertices := graph.vertices ++ [asset] }

/-- `boost::add_edge`. -/
def addEdge (graph : Graph) (source target : ℕ) (trade : Trade) : Graph :=
  { graph with edges := graph.edges ++ [⟨source, target, trade⟩] }

/-- There is an edge between the two vertices. -/
def Adj (graph : Graph) (u v : ℕ) : Prop := ∃ e ∈ graph.edges, e.source = u ∧ e.target = v

instance (graph : Graph) : DecidableRel graph.Adj :=
  fun u v => inferInstanceAs (Decidable (∃ e ∈ graph.edges, e.source = u ∧ e.target = v))

end Graph

/-- The order in which an `std::unordered_set` iterates over what was inserted. -/
structure SetOrder where
  arrange : List String → List String
  perm : ∀ inserted, (arrange inserted).Perm inserted.dedup

/-- `boost::edge` and `boost::tiernan_all_cycles`, the latter as the list of the paths that it
calls the visitor with. -/
structure Boost where
  edge : Graph → ℕ → ℕ → Option Edge
  tiernanAllCycles : Graph → ℕ → ℕ → List (List ℕ)

/-- `boost::edge` gives one of the edges between two vertices if there is one, and the visitor
sees each simple cycle within the bounds once. -/
structure Boost.Documented (boost : Boost) (graph : Graph) : Prop where
  edge_some : ∀ u v e, boost.edge graph u v = some e →
    e ∈ graph.edges ∧ e.source = u ∧ e.target = v
  edge_none : ∀ u v, boost.edge graph u v = none → ¬ graph.Adj u v
  tiernan_all_cycles : ∀ minlen maxlen, 0 < minlen →
    Enumerates graph.Adj minlen maxlen (boost.tiernanAllCycles graph minlen maxlen)

/-! ### `buildGraph` -/

/-- The assets in the order in which the first loop inserts them into `uniqueAssets`. -/
def insertedAssets (symbolMap : SymbolMap) : List String :=
  symbolMap.entries.flatMap fun pair => [pair.2.baseAsset, pair.2.quoteAsset]

/-- The body of the second loop of `buildGraph`, on the graph and `vertexMap`. -/
def addAsset (state : Graph × Finmap fun _ : String => ℕ) (asset : String) :
    Graph × Finmap fun _ : String => ℕ :=
  (state.1.addVertex asset, state.2.insert asset state.1.vertices.length)

/-- The body of the third loop of `buildGraph`. -/
def addSymbol (book : Book) (vertexMap : Finmap fun _ : String => ℕ) (graph : Graph)
    (pair : String × Symbol) : Graph :=
  let symbol := pair.2
  let base := (vertexMap.lookup symbol.baseAsset).getD 0
  let quote := (vertexMap.lookup symbol.quoteAsset).getD 0
  (graph.addEdge quote base (.new book symbol .LONG)).addEdge base quote (.new book symbol .SHORT)

/-- `buildGraph`, on an empty graph. -/
def buildGraph (setOrder : SetOrder) (book : Book) (symbolMap : SymbolMap) : Graph :=
  let uniqueAssets := setOrder.arrange (insertedAssets symbolMap)
  let state := uniqueAssets.foldl addAsset (Graph.empty, ∅)
  symbolMap.entries.foldl (addSymbol book state.2) state.1

/-! ### `getTradingPaths` -/

/-- `rotate_copy_with_copy_constructor`, with `middle` as a position. -/
def rotateCopy (book : Book) (path : List Trade) (middle : ℕ) : List Trade :=
  (path.drop middle ++ path.take middle).map fun trade => .new book trade.symbol trade.position

/-- `CycleVisitor::cycle`, on the cycles so far. -/
def visitCycle (boost : Boost) (book : Book) (graph : Graph) (cycles : List (List Trade))
    (path : List ℕ) : List (List Trade) :=
  let tradePath := (List.range path.length).filterMap fun i =>
    let u := path.getD i 0
    let v := path.getD ((i + 1) % path.length) 0
    (boost.edge graph u v).map Edge.trade
  cycles ++ (List.range tradePath.length).map (rotateCopy book tradePath)

/-- The conversion from `int` to `std::size_t`. -/
def sizeOfInt (n : Int32) : ℕ := (n.toInt % 2 ^ 64).toNat

/-- `findCycles`. -/
def findCycles (boost : Boost) (book : Book) (graph : Graph) (maxDepth : Int32) :
    List (List Trade) :=
  (boost.tiernanAllCycles graph 3 (sizeOfInt maxDepth)).foldl (visitCycle boost book graph) []

/-- `getTradingPaths`. -/
def getTradingPaths (boost : Boost) (setOrder : SetOrder) (book : Book) (symbolMap : SymbolMap)
    (configuration : IConfiguration) : List (List Trade) :=
  let graph := buildGraph setOrder book symbolMap
  let cycles := findCycles boost book graph configuration.getMaxTradingPathLength
  let assets := configuration.getAssets
  if assets = [] then cycles
  else
    cycles.filter fun cycle =>
      ¬ ∃ trade ∈ cycle, trade.usedCurrency ∉ assets ∨ trade.recvCurrency ∉ assets

end Harjus
