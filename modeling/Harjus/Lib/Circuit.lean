import Mathlib.Data.List.Cycle
import Mathlib.Data.List.Permutation
import Mathlib.Data.List.ReduceOption
import Mathlib.Data.List.Sublists
import Mathlib.Data.Finset.Max

/-!
# `Harjus.Lib.Circuit`: closed walks over circuits of vertices

Edges have a source and a target, and several edges may have both in common. A closed walk is a
list of edges that follow one another and come back, and a circuit a list of distinct vertices
in which each one, the last one included, has an edge to the next.

A search that enumerates circuits knows vertices only. To get walks out of it, `walkOf` puts
the edge that `choose` gives between each vertex and the next, and `walks` takes every
rotation of the result.

* `closedWalk_iff`: a walk is closed when its targets are its sources rotated by one.
* `mem_walks_iff`: the walks are the closed walks without a repeated source whose edges are
  all chosen.
* `nodup_map_walks`: no two of the walks have the same sources.

The module names no program.
-/

set_option autoImplicit false

namespace Harjus.Lib

variable {V E : Type*}

/-! ### Closed walks -/

section ClosedWalk
variable {source target : E → V} {walk : List E}

/-- The edges follow one another, and the last one ends where the first one starts. -/
structure ClosedWalk (source target : E → V) (walk : List E) : Prop where
  chain : walk.IsChain fun e e' => source e' = target e
  closes : ∀ e ∈ walk.getLast?, ∀ e' ∈ walk.head?, target e = source e'

/-- The targets of a walk are its sources from the second on, with one vertex behind them. -/
private theorem map_target_cons (e : E) (walk : List E) (v : V) :
    (e :: walk).map target = walk.map source ++ [v] ↔
      (e :: walk).IsChain (fun e e' => source e' = target e) ∧
      ∀ e' ∈ (e :: walk).getLast?, target e' = v := by
  induction walk generalizing e with
  | nil => simp
  | cons e' walk ih =>
    rw [List.map_cons (a := e), List.map_cons (a := e') (f := source), List.cons_append,
      List.cons.injEq, ih e', List.isChain_cons_cons, List.getLast?_cons_cons, and_assoc, eq_comm]

/-- A walk is closed when its targets are its sources rotated by one. -/
theorem closedWalk_iff :
    ClosedWalk source target walk ↔ walk.map target = (walk.map source).rotate 1 := by
  cases walk with
  | nil => exact ⟨fun _ => rfl, fun _ => ⟨.nil, fun _ h => nomatch h⟩⟩
  | cons e walk =>
    rw [List.map_cons (f := source), List.rotate_cons_succ, List.rotate_zero, map_target_cons]
    constructor
    · intro h
      exact ⟨h.chain, fun e' he' => h.closes e' he' e rfl⟩
    · intro h
      refine ⟨h.1, fun e' he' e'' he'' => ?_⟩
      cases he''
      exact h.2 e' he'

/-- A closed walk may start anywhere. -/
theorem ClosedWalk.rotate (h : ClosedWalk source target walk) (n : ℕ) :
    ClosedWalk source target (walk.rotate n) := by
  rw [closedWalk_iff] at h ⊢
  rw [List.map_rotate, List.map_rotate, h, List.rotate_rotate, List.rotate_rotate, Nat.add_comm]

end ClosedWalk

/-! ### Rotations -/

section Rotations
variable {α β : Type*}

/-- A list from each of its positions on. -/
def rotations (l : List α) : List (List α) := (List.range l.length).map l.rotate

/-- The rotations of a list that is not empty are the lists that are rotated of it. -/
theorem mem_rotations {l l' : List α} : l' ∈ rotations l ↔ l ≠ [] ∧ l ~r l' := by
  rw [rotations, List.mem_map]
  constructor
  · rintro ⟨n, hn, rfl⟩
    have hpos := Nat.zero_lt_of_lt (List.mem_range.mp hn)
    exact ⟨List.ne_nil_of_length_pos hpos, n, rfl⟩
  · rintro ⟨hne, hrot⟩
    obtain ⟨n, hn, rfl⟩ := hrot
    have hpos := List.length_pos_of_ne_nil hne
    exact ⟨n % l.length, List.mem_range.mpr (Nat.mod_lt _ hpos), List.rotate_mod l n⟩

/-- The rotations of a list without a repetition are different. -/
theorem nodup_rotations {l : List α} (h : l.Nodup) : (rotations l).Nodup := by
  refine List.Nodup.map_on (fun i hi j hj heq => ?_) List.nodup_range
  obtain hmod | hnil := (h.rotate_congr_iff).mp heq
  · rwa [Nat.mod_eq_of_lt (List.mem_range.mp hi), Nat.mod_eq_of_lt (List.mem_range.mp hj)]
      at hmod
  · rw [hnil] at hi
    exact absurd hi (by simp)

/-- Rotating and mapping may be swapped. -/
theorem map_rotations (f : α → β) (l : List α) :
    (rotations l).map (List.map f) = rotations (l.map f) := by
  rw [rotations, rotations, List.map_map, List.length_map]
  exact List.map_congr_left fun n _ => List.map_rotate f l n

end Rotations

/-! ### Circuits -/

section Circuits
variable {Adj : V → V → Prop} {vs vs' : List V} {lo hi : ℕ} {circuits : List (List V)}

/-- Distinct vertices, each with an edge to the next and the last with one to the first. -/
def IsCircuit (Adj : V → V → Prop) (vs : List V) : Prop :=
  vs.Nodup ∧ List.Forall₂ Adj vs (vs.rotate 1)

/-- A circuit does not depend on the vertex that it is listed from. -/
theorem isCircuit_iff_cycle :
    IsCircuit Adj vs ↔ (vs : Cycle V).Nodup ∧ (vs : Cycle V).Chain Adj := by
  cases vs with
  | nil => exact ⟨fun _ => ⟨List.nodup_nil, trivial⟩, fun _ => ⟨List.nodup_nil, .nil⟩⟩
  | cons v vs =>
    rw [IsCircuit, Cycle.nodup_coe_iff, Cycle.chain_coe_cons, List.rotate_cons_succ,
      List.rotate_zero, ← List.isChain_cons_append_singleton_iff_forall₂, List.cons_append]

/-- A circuit may start anywhere. -/
theorem IsCircuit.congr (h : vs ~r vs') : IsCircuit Adj vs ↔ IsCircuit Adj vs' := by
  rw [isCircuit_iff_cycle, isCircuit_iff_cycle, Cycle.coe_eq_coe.mpr h]

/-- The lists are the circuits of a length from `lo` to `hi`, each from one of its vertices. -/
structure Enumerates (Adj : V → V → Prop) (lo hi : ℕ) (circuits : List (List V)) : Prop where
  sound : ∀ vs ∈ circuits, IsCircuit Adj vs ∧ lo ≤ vs.length ∧ vs.length ≤ hi
  complete : ∀ vs, IsCircuit Adj vs → lo ≤ vs.length → vs.length ≤ hi →
    ∃ vs' ∈ circuits, vs' ~r vs
  once : circuits.Pairwise fun vs vs' => ¬ vs ~r vs'

/-- Every circuit within the bounds is a rotation of exactly one of the lists. -/
theorem mem_flatMap_rotations_iff (h : Enumerates Adj lo hi circuits) (hlo : 0 < lo) :
    vs ∈ circuits.flatMap rotations ↔ IsCircuit Adj vs ∧ lo ≤ vs.length ∧ vs.length ≤ hi := by
  rw [List.mem_flatMap]
  constructor
  · rintro ⟨vs', hmem, hvs⟩
    obtain ⟨-, hrot⟩ := mem_rotations.mp hvs
    obtain ⟨hcircuit, hbounds⟩ := h.sound vs' hmem
    rw [hrot.perm.length_eq] at hbounds
    exact ⟨(IsCircuit.congr hrot).mp hcircuit, hbounds⟩
  · rintro ⟨hcircuit, hge, hle⟩
    obtain ⟨vs', hmem, hrot⟩ := h.complete vs hcircuit hge hle
    have hne : vs' ≠ [] := by
      rintro rfl
      have hnil := (h.sound [] hmem).2.1
      exact absurd hnil (Nat.not_le.mpr hlo)
    exact ⟨vs', hmem, mem_rotations.mpr ⟨hne, hrot⟩⟩

/-- Rotations of different circuits are different. -/
theorem nodup_flatMap_rotations (h : Enumerates Adj lo hi circuits) :
    (circuits.flatMap rotations).Nodup := by
  refine List.nodup_flatMap.mpr ⟨fun vs hvs => nodup_rotations (h.sound vs hvs).1.1, ?_⟩
  refine h.once.imp fun hne vs hvs hvs' => ?_
  obtain ⟨-, hrot⟩ := mem_rotations.mp hvs
  obtain ⟨-, hrot'⟩ := mem_rotations.mp hvs'
  exact hne (hrot.trans hrot'.symm)

end Circuits

/-! ### Walks over circuits -/

section Walks
variable {Adj : V → V → Prop} {source target : E → V} {choose : V → V → Option E}
variable {us vs : List V} {w w' : List E} {lo hi : ℕ} {circuits : List (List V)}

/-- `choose` gives an edge between two vertices when there is one. -/
structure Chooses (Adj : V → V → Prop) (source target : E → V) (choose : V → V → Option E) :
    Prop where
  ends : ∀ {u v e}, choose u v = some e → Adj u v ∧ source e = u ∧ target e = v
  exists_of_adj : ∀ {u v}, Adj u v → ∃ e, choose u v = some e

/-- The chosen edge from each vertex to the next. -/
def walkOf (choose : V → V → Option E) (vs : List V) : List E :=
  (List.zipWith choose vs (vs.rotate 1)).reduceOption

/-- Every edge of the walk is the one chosen between its ends. -/
def AllChosen (source target : E → V) (choose : V → V → Option E) (w : List E) : Prop :=
  ∀ e ∈ w, choose (source e) (target e) = some e

/-- Edges chosen for adjacent vertices have the vertices as their sources and targets. -/
private theorem zipWith_spec (hchoose : Chooses Adj source target choose)
    (h : List.Forall₂ Adj us vs) :
    (List.zipWith choose us vs).reduceOption.map source = us ∧
    (List.zipWith choose us vs).reduceOption.map target = vs ∧
    AllChosen source target choose (List.zipWith choose us vs).reduceOption := by
  induction h with
  | nil => exact ⟨rfl, rfl, fun _ he => nomatch he⟩
  | @cons u v us vs hadj _ ih =>
    obtain ⟨e, he⟩ := hchoose.exists_of_adj hadj
    obtain ⟨-, rfl, rfl⟩ := hchoose.ends he
    obtain ⟨hsource, htarget, hall⟩ := ih
    rw [List.zipWith_cons_cons, he, List.reduceOption_cons_of_some, List.map_cons, List.map_cons,
      hsource, htarget]
    refine ⟨rfl, rfl, fun e' he' => ?_⟩
    obtain rfl | he' := List.mem_cons.mp he'
    · exact he
    · exact hall e' he'

/-- The walk over a circuit is closed, visits its vertices and takes chosen edges. -/
theorem walkOf_spec (hchoose : Chooses Adj source target choose) (h : IsCircuit Adj vs) :
    (walkOf choose vs).map source = vs ∧ ClosedWalk source target (walkOf choose vs) ∧
    AllChosen source target choose (walkOf choose vs) := by
  obtain ⟨hsource, htarget, hall⟩ := zipWith_spec hchoose h.2
  refine ⟨hsource, closedWalk_iff.mpr ?_, hall⟩
  rw [walkOf, hsource, htarget]

/-- A closed walk without a choice is known by its sources. -/
theorem eq_of_map_source_eq (hw : ClosedWalk source target w) (hw' : ClosedWalk source target w')
    (hall : AllChosen source target choose w) (hall' : AllChosen source target choose w')
    (h : w.map source = w'.map source) : w = w' := by
  have htarget : w.map target = w'.map target := by
    rw [closedWalk_iff.mp hw, closedWalk_iff.mp hw', h]
  have hzip : ∀ {w : List E}, AllChosen source target choose w →
      w.map some = List.zipWith choose (w.map source) (w.map target) := by
    intro w hall
    rw [List.zipWith_map_left, List.zipWith_map_right, List.zipWith_self]
    exact List.map_congr_left fun e he => (hall e he).symm
  refine List.map_injective_iff.mpr (Option.some_injective E) ?_
  rw [hzip hall, hzip hall', h, htarget]

/-- The walks over the circuits, from each of their vertices. -/
def walks (choose : V → V → Option E) (circuits : List (List V)) : List (List E) :=
  circuits.flatMap fun vs => rotations (walkOf choose vs)

/-- The walks of a circuit and of those behind it. -/
theorem walks_cons (vs : List V) (circuits : List (List V)) :
    walks choose (vs :: circuits) = rotations (walkOf choose vs) ++ walks choose circuits :=
  List.flatMap_cons

/-- The sources of the walks are the circuits from each of their vertices. -/
theorem map_source_walks (hchoose : Chooses Adj source target choose)
    (h : Enumerates Adj lo hi circuits) :
    (walks choose circuits).map (List.map source) = circuits.flatMap rotations := by
  rw [walks, List.map_flatMap]
  refine List.flatMap_congr fun vs hvs => ?_
  rw [map_rotations, (walkOf_spec hchoose (h.sound vs hvs).1).1]

/-- No two of the walks have the same sources. -/
theorem nodup_map_walks (hchoose : Chooses Adj source target choose)
    (h : Enumerates Adj lo hi circuits) :
    ((walks choose circuits).map (List.map source)).Nodup := by
  rw [map_source_walks hchoose h]
  exact nodup_flatMap_rotations h

/-- The walks are the closed walks within the bounds that repeat no source and take chosen
edges only. -/
theorem mem_walks_iff (hlo : 0 < lo) (hchoose : Chooses Adj source target choose)
    (h : Enumerates Adj lo hi circuits) :
    w ∈ walks choose circuits ↔ ClosedWalk source target w ∧ (w.map source).Nodup ∧
      lo ≤ w.length ∧ w.length ≤ hi ∧ AllChosen source target choose w := by
  have hwalk : ∀ w ∈ walks choose circuits, ClosedWalk source target w ∧
      AllChosen source target choose w := by
    intro w hw
    obtain ⟨vs, hvs, hrot⟩ := List.mem_flatMap.mp hw
    obtain ⟨-, n, rfl⟩ := mem_rotations.mp hrot
    obtain ⟨-, hclosed, hall⟩ := walkOf_spec hchoose (h.sound vs hvs).1
    exact ⟨hclosed.rotate n, fun e he => hall e (List.mem_rotate.mp he)⟩
  constructor
  · intro hw
    have hsource : w.map source ∈ circuits.flatMap rotations := by
      rw [← map_source_walks hchoose h]
      exact List.mem_map_of_mem hw
    obtain ⟨hcircuit, hge, hle⟩ := (mem_flatMap_rotations_iff h hlo).mp hsource
    rw [List.length_map] at hge hle
    exact ⟨(hwalk w hw).1, hcircuit.1, hge, hle, (hwalk w hw).2⟩
  · rintro ⟨hclosed, hnodup, hge, hle, hall⟩
    -- The sources are a circuit, so some walk has them, and it is this one.
    have hcircuit : IsCircuit Adj (w.map source) := by
      refine ⟨hnodup, ?_⟩
      rw [← closedWalk_iff.mp hclosed, List.forall₂_map_left_iff, List.forall₂_map_right_iff,
        List.forall₂_same]
      exact fun e he => (hchoose.ends (hall e he)).1
    have hmem : w.map source ∈ circuits.flatMap rotations :=
      (mem_flatMap_rotations_iff h hlo).mpr
        ⟨hcircuit, by rwa [List.length_map], by rwa [List.length_map]⟩
    rw [← map_source_walks hchoose h] at hmem
    obtain ⟨w', hw', heq⟩ := List.mem_map.mp hmem
    rw [← eq_of_map_source_eq (hwalk w' hw').1 hclosed (hwalk w' hw').2 hall heq]
    exact hw'

end Walks

/-! ### A search -/

section Search
variable [LinearOrder V] {Adj : V → V → Prop} {vs vs' : List V} {lo hi : ℕ}

/-- The list starts at its least vertex. -/
def LeastFirst (vs : List V) : Prop := ∀ v ∈ vs.head?, ∀ u ∈ vs, v ≤ u

instance : Decidable (LeastFirst vs) :=
  match vs with
  | [] => .isTrue fun _ h => nomatch h
  | v :: vs => decidable_of_iff (∀ u ∈ v :: vs, v ≤ u) (by simp [LeastFirst])

instance [DecidableRel Adj] : Decidable (IsCircuit Adj vs) := inferInstanceAs (Decidable (_ ∧ _))

/-- The circuits on the vertices by brute force, each from its least vertex. -/
def searchCircuits (vertices : List V) (Adj : V → V → Prop) [DecidableRel Adj] (lo hi : ℕ) :
    List (List V) :=
  (vertices.sublists.flatMap List.permutations).dedup.filter fun vs =>
    IsCircuit Adj vs ∧ lo ≤ vs.length ∧ vs.length ≤ hi ∧ LeastFirst vs

/-- Every circuit can be rotated to start with its least vertex. -/
theorem exists_leastFirst (vs : List V) : ∃ vs', vs' ~r vs ∧ LeastFirst vs' := by
  by_cases hne : vs = []
  · exact ⟨vs, .refl vs, by simp [hne, LeastFirst]⟩
  · obtain ⟨v, hv, hleast⟩ := vs.toFinset.exists_min_image id
      (List.toFinset_nonempty_iff vs |>.mpr hne)
    obtain ⟨l, l', rfl⟩ := List.append_of_mem (List.mem_toFinset.mp hv)
    refine ⟨(v :: l') ++ l, List.isRotated_append, fun v' hv' u hu => ?_⟩
    cases hv'
    exact hleast u (by simpa [or_comm, or_left_comm, or_assoc] using hu)

/-- Two rotations of one list that both start at the least vertex are the same. -/
theorem LeastFirst.eq_of_isRotated (h : LeastFirst vs) (h' : LeastFirst vs') (hnodup : vs.Nodup)
    (hrot : vs ~r vs') : vs = vs' := by
  obtain ⟨n, hn, rfl⟩ := List.isRotated_iff_mod.mp hrot
  cases vs with
  | nil => simp
  | cons v vs =>
    by_cases hlt : n < (v :: vs).length
    · have hhead : ((v :: vs).rotate n).head? = some (v :: vs)[n] := by
        rw [List.head?_rotate hlt, List.getElem?_eq_getElem hlt]
      have hle : v ≤ (v :: vs)[n] := h v rfl _ (List.getElem_mem hlt)
      have hge : (v :: vs)[n] ≤ v :=
        h' _ hhead v (List.mem_rotate.mpr List.mem_cons_self)
      have hzero : n = 0 :=
        hnodup.getElem_inj_iff.mp
          (show (v :: vs)[n] = (v :: vs)[0] from le_antisymm hge hle)
      rw [hzero, List.rotate_zero]
    · have hlen : n = (v :: vs).length := le_antisymm hn (Nat.not_lt.mp hlt)
      rw [hlen, List.rotate_length]

/-- The search finds every circuit once. -/
theorem enumerates_searchCircuits [DecidableRel Adj] {vertices : List V}
    (hvertices : ∀ u v, Adj u v → u ∈ vertices) :
    Enumerates Adj lo hi (searchCircuits vertices Adj lo hi) where
  sound vs hvs := by
    have h := (List.mem_filter.mp hvs).2
    simp only [decide_eq_true_eq] at h
    exact ⟨h.1, h.2.1, h.2.2.1⟩
  complete vs hcircuit hge hle := by
    obtain ⟨vs', hrot, hleast⟩ := exists_leastFirst vs
    have hcircuit' := (IsCircuit.congr hrot).mpr hcircuit
    have hsub : vs' ⊆ vertices :=
      ((List.forall₂_and_left _ _).mp
        (hcircuit'.2.imp fun u v hadj => And.intro (hvertices u v hadj) hadj)).1
    obtain ⟨s, hperm, hs⟩ := hcircuit'.1.subperm hsub
    refine ⟨vs', List.mem_filter.mpr ⟨?_, ?_⟩, hrot⟩
    · rw [List.mem_dedup, List.mem_flatMap]
      exact ⟨s, List.mem_sublists.mpr hs, List.mem_permutations.mpr hperm.symm⟩
    · rw [← hrot.perm.length_eq] at hge hle
      simp only [decide_eq_true_eq]
      exact ⟨hcircuit', hge, hle, hleast⟩
  once := by
    refine ((List.nodup_dedup _).filter _).pairwise_of_forall_ne fun vs hvs vs' hvs' hne hrot => ?_
    have h := (List.mem_filter.mp hvs).2
    have h' := (List.mem_filter.mp hvs').2
    simp only [decide_eq_true_eq] at h h'
    exact hne (h.2.2.2.eq_of_isRotated h'.2.2.2 h.1.1 hrot)

end Search

end Harjus.Lib
