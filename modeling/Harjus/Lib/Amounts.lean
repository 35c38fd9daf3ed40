import Mathlib.Data.Finmap
import Mathlib.Algebra.BigOperators.Group.Multiset.Basic
import Mathlib.Algebra.Order.BigOperators.Group.Multiset
import Mathlib.Tactic.Abel

/-!
# `Harjus.Lib.Amounts`: finite maps of amounts

A ledger is a finite map from keys to amounts of a commutative group, where a missing key
stands for the amount `0`. `Finmap.post` adds to one entry, `Finmap.charge` takes from one
entry, and `Finmap.postAll` adds every entry of a second map. All three create a missing
entry, as the indexing operator of a hash map does.

* `lookup_postAll`: the entries of `m.postAll d`, key by key.
* `amount_post`, `amount_charge`, `amount_postAll`: what is held under each key.
* `post_post_comm`, `postAll_postAll_comm`: postings commute as maps, so the order in which
  they arrive does not show in the result.

`Finmap.total` sums a function over the entries of any finite map. `total_insert`,
`total_erase` and `total_overwrite` say how the sum moves with the map, and
`count_eq_zero_iff` and `count_pos_iff` turn a count into a statement about the entries.

The module names no program. Mathlib's `Finmap` is the map.
-/

set_option autoImplicit false

namespace Finmap

section Total
variable {K V M : Type*} [DecidableEq K] [AddCommMonoid M]

/-- The sum of `f` over the entries of `m`. -/
def total (f : K → V → M) (m : Finmap fun _ : K => V) : M :=
  (m.entries.map fun e => f e.1 e.2).sum

omit [DecidableEq K] in
/-- Nothing adds up to zero. -/
@[simp] theorem total_empty (f : K → V → M) : total f ∅ = 0 := rfl

/-- A fresh entry adds its own summand. -/
theorem total_insert {m : Finmap fun _ : K => V} {k : K} (f : K → V → M) (v : V)
    (h : k ∉ m) : total f (m.insert k v) = f k v + total f m := by
  rw [total, total, entries_insert_of_notMem h, Multiset.map_cons, Multiset.sum_cons]

omit M [AddCommMonoid M] in
/-- A map without keys is the empty map. -/
theorem eq_empty_iff {m : Finmap fun _ : K => V} : m = ∅ ↔ ∀ k, k ∉ m := by
  constructor
  · rintro rfl k
    exact notMem_empty
  · intro h
    refine ext_lookup fun k => ?_
    rw [lookup_eq_none.mpr (h k), lookup_empty]

omit M [AddCommMonoid M] in
/-- A map with a key is not empty. -/
theorem ne_empty_of_mem {m : Finmap fun _ : K => V} {k : K} (h : k ∈ m) : m ≠ ∅ :=
  fun hempty => eq_empty_iff.mp hempty k h

/-- An entry put back after its erasure gives the map it was erased from. -/
theorem insert_erase_of_lookup {m : Finmap fun _ : K => V} {k : K} {v : V}
    (h : m.lookup k = some v) : (m.erase k).insert k v = m := by
  refine ext_lookup fun x => ?_
  by_cases hx : x = k
  · rw [hx, lookup_insert, h]
  · rw [lookup_insert_of_ne _ hx, lookup_erase_ne hx]

omit M [AddCommMonoid M] in
/-- The entries of an insertion are the new one and the old ones under the other keys. -/
theorem lookup_insert_eq_some {m : Finmap fun _ : K => V} {k x : K} {v y : V} :
    (m.insert k v).lookup x = some y ↔ x = k ∧ v = y ∨ x ≠ k ∧ m.lookup x = some y := by
  by_cases hx : x = k
  · subst hx
    simp
  · rw [lookup_insert_of_ne _ hx]
    simp [hx]

omit M [AddCommMonoid M] in
/-- What holds of the new entry and of the old ones under the other keys holds of every entry
of an insertion. -/
theorem forall_insert {m : Finmap fun _ : K => V} {k : K} {v : V} {P : K → V → Prop}
    (hnew : P k v) (hold : ∀ x y, x ≠ k → m.lookup x = some y → P x y) :
    ∀ x y, (m.insert k v).lookup x = some y → P x y := by
  intro x y h
  rcases lookup_insert_eq_some.mp h with ⟨rfl, rfl⟩ | ⟨hx, hy⟩
  · exact hnew
  · exact hold x y hx hy

omit M [AddCommMonoid M] in
/-- The entries of an erasure are those of the map under the other keys. -/
theorem lookup_erase_eq_some {m : Finmap fun _ : K => V} {k x : K} {v : V} :
    (m.erase k).lookup x = some v ↔ x ≠ k ∧ m.lookup x = some v := by
  by_cases hx : x = k
  · subst hx
    simp
  · rw [lookup_erase_ne hx]
    exact (and_iff_right hx).symm

/-- Erasing an entry that was just put gives the map without the key. -/
theorem erase_insert (m : Finmap fun _ : K => V) (k : K) (v : V) :
    (m.insert k v).erase k = m.erase k := by
  refine ext_lookup fun x => ?_
  by_cases hx : x = k
  · rw [hx, lookup_erase, lookup_erase]
  · rw [lookup_erase_ne hx, lookup_erase_ne hx, lookup_insert_of_ne _ hx]

/-- Overwriting an entry by itself changes nothing. -/
theorem insert_of_lookup {m : Finmap fun _ : K => V} {k : K} {v : V}
    (h : m.lookup k = some v) : m.insert k v = m := by
  refine ext_lookup fun x => ?_
  by_cases hx : x = k
  · rw [hx, lookup_insert, h]
  · rw [lookup_insert_of_ne _ hx]

/-- Erasing an entry takes its summand away. -/
theorem total_erase {m : Finmap fun _ : K => V} {k : K} {v : V} (f : K → V → M)
    (h : m.lookup k = some v) : f k v + total f (m.erase k) = total f m := by
  rw [← total_insert f v notMem_erase_self, insert_erase_of_lookup h]

/-- Overwriting an entry replaces its summand. -/
theorem total_overwrite {m : Finmap fun _ : K => V} {k : K} {v : V} (f : K → V → M) (v' : V)
    (h : m.lookup k = some v) :
    f k v + total f (m.insert k v') = f k v' + total f m := by
  have hins : m.insert k v' = (m.erase k).insert k v' := by
    conv_lhs => rw [← insert_erase_of_lookup h, insert_insert]
  rw [hins, total_insert f v' notMem_erase_self, ← total_erase f h]
  abel

/-- Two functions that agree on the entries of a map have the same sum. -/
theorem total_congr {m : Finmap fun _ : K => V} {f g : K → V → M}
    (h : ∀ k v, m.lookup k = some v → f k v = g k v) : total f m = total g m := by
  refine congrArg Multiset.sum (Multiset.map_congr rfl fun e he => ?_)
  exact h e.1 e.2 (lookup_eq_some_iff.mpr he)

/-- A sum that reads no entry is zero. -/
theorem total_eq_zero {m : Finmap fun _ : K => V} {f : K → V → M}
    (h : ∀ k v, m.lookup k = some v → f k v = 0) : total f m = 0 := by
  rw [total_congr (g := fun _ _ => 0) h]
  simp [total]

omit [DecidableEq K] in
/-- Sums of differences are differences of sums. -/
theorem total_sub {G : Type*} [AddCommGroup G] (f g : K → V → G)
    (m : Finmap fun _ : K => V) :
    total (fun k v => f k v - g k v) m = total f m - total g m :=
  Multiset.sum_map_sub

end Total

section Put
variable {K V : Type*} [DecidableEq K]

/-- Write one entry: `none` erases it. -/
def put (m : Finmap fun _ : K => V) (k : K) : Option V → Finmap fun _ : K => V
  | none => m.erase k
  | some v => m.insert k v

/-- What is under the keys after one of them has been set or erased. -/
theorem lookup_put (m : Finmap fun _ : K => V) (k x : K) (v : Option V) :
    (m.put k v).lookup x = if x = k then v else m.lookup x := by
  by_cases hx : x = k
  · subst hx
    rw [if_pos rfl]
    cases v with
    | none => exact lookup_erase x m
    | some v => exact lookup_insert m
  · rw [if_neg hx]
    cases v with
    | none => exact lookup_erase_ne hx
    | some v => exact lookup_insert_of_ne m hx

/-- Writes of two entries commute. -/
theorem put_put_comm (m : Finmap fun _ : K => V) {k k' : K} (h : k ≠ k') (v v' : Option V) :
    (m.put k v).put k' v' = (m.put k' v').put k v := by
  refine ext_lookup fun x => ?_
  simp only [lookup_put]
  split
  · rename_i hx
    rw [if_neg (hx ▸ h.symm)]
  · rfl

/-- The second write of an entry decides. -/
@[simp] theorem put_put (m : Finmap fun _ : K => V) (k : K) (v v' : Option V) :
    (m.put k v).put k v' = m.put k v' := by
  refine ext_lookup fun x => ?_
  simp only [lookup_put]
  split <;> rfl

end Put

section Count
variable {K V : Type*} [DecidableEq K]

/-- The number of entries of `m` that satisfy `p`. -/
def count (p : K → V → Prop) [∀ k v, Decidable (p k v)] (m : Finmap fun _ : K => V) : ℤ :=
  total (fun k v => if p k v then 1 else 0) m

variable (p : K → V → Prop) [∀ k v, Decidable (p k v)]

/-- An entry that goes is counted no more. -/
theorem count_erase {m : Finmap fun _ : K => V} {k : K} {v : V} (h : m.lookup k = some v) :
    count p (m.erase k) = count p m - if p k v then 1 else 0 := by
  have := total_erase (fun k v => if p k v then (1 : ℤ) else 0) h
  simp only [count]
  omega

omit [DecidableEq K] in
/-- A count is not negative. -/
theorem count_nonneg (m : Finmap fun _ : K => V) : 0 ≤ count p m := by
  refine Multiset.sum_nonneg fun x hx => ?_
  obtain ⟨e, -, rfl⟩ := Multiset.mem_map.mp hx
  dsimp only
  split <;> decide

/-- A count is zero exactly when no entry is counted. -/
theorem count_eq_zero_iff {m : Finmap fun _ : K => V} :
    count p m = 0 ↔ ∀ k v, m.lookup k = some v → ¬ p k v := by
  constructor
  · intro hzero k v hk hp
    have herase := count_erase p hk
    have hrest := count_nonneg p (m.erase k)
    rw [if_pos hp] at herase
    omega
  · exact fun h => total_eq_zero fun k v hk => if_neg (h k v hk)

/-- A count is positive exactly when some entry is counted. -/
theorem count_pos_iff (m : Finmap fun _ : K => V) :
    0 < count p m ↔ ∃ k v, m.lookup k = some v ∧ p k v := by
  rw [(count_nonneg p m).lt_iff_ne', Ne, count_eq_zero_iff]
  push Not
  rfl

end Count

section Amounts
variable {K V : Type*} [DecidableEq K]

/-- What the map holds under `k`: `0` for a missing key. -/
def amount [Zero V] (m : Finmap fun _ : K => V) (k : K) : V := (m.lookup k).getD 0

/-- A nonzero amount is an entry. -/
theorem lookup_of_amount_ne_zero [Zero V] {m : Finmap fun _ : K => V} {k : K}
    (h : m.amount k ≠ 0) : m.lookup k = some (m.amount k) := by
  unfold amount at h ⊢
  cases hlookup : m.lookup k with
  | none =>
    rw [hlookup] at h
    exact absurd rfl h
  | some v => rfl

/-- There is no amount of anything in an empty map. -/
@[simp] theorem amount_empty [Zero V] (k : K) : amount (∅ : Finmap fun _ : K => V) k = 0 := by
  simp [amount]

/-- The amounts after one of them has been set. -/
theorem amount_insert [Zero V] (m : Finmap fun _ : K => V) (k k' : K) (v : V) :
    (m.insert k v).amount k' = if k' = k then v else m.amount k' := by
  unfold amount
  split
  · subst k'
    rw [lookup_insert, Option.getD_some]
  · rename_i hk
    rw [lookup_insert_of_ne _ hk]

/-- The amounts in a map of one. -/
theorem amount_singleton [Zero V] (k k' : K) (v : V) :
    amount (singleton k v : Finmap fun _ : K => V) k' = if k' = k then v else 0 := by
  have hsingle : (singleton k v : Finmap fun _ : K => V) = insert k v ∅ :=
    ext_lookup fun x => by
      by_cases hx : x = k
      · rw [hx, lookup_insert, lookup_singleton_eq]
      · rw [lookup_insert_of_ne _ hx, lookup_empty, lookup_eq_none, mem_singleton]
        exact hx
  rw [hsingle, amount_insert, amount_empty]

variable [AddCommGroup V]

/-- Add `v` to the entry of `k`. -/
def post (m : Finmap fun _ : K => V) (k : K) (v : V) : Finmap fun _ : K => V :=
  m.insert k (m.amount k + v)

/-- Take `v` from the entry of `k`. -/
def charge (m : Finmap fun _ : K => V) (k : K) (v : V) : Finmap fun _ : K => V :=
  m.insert k (m.amount k - v)

/-- A charge is a posting with the other sign. -/
theorem charge_eq_post (m : Finmap fun _ : K => V) (k : K) (v : V) :
    m.charge k v = m.post k (-v) := by
  rw [charge, post, sub_eq_add_neg]

/-- The entries after a posting: the entry of `k` merges with the posted amount. -/
theorem lookup_post (m : Finmap fun _ : K => V) (k x : K) (v : V) :
    (m.post k v).lookup x
      = Option.merge (· + ·) (m.lookup x) (if x = k then some v else none) := by
  unfold post amount
  by_cases hx : x = k
  · subst x
    rw [lookup_insert, if_pos rfl]
    cases m.lookup k <;> simp
  · rw [lookup_insert_of_ne _ hx, if_neg hx]
    simp

/-- The amounts after a posting. -/
theorem amount_post (m : Finmap fun _ : K => V) (k x : K) (v : V) :
    (m.post k v).amount x = m.amount x + if x = k then v else 0 := by
  rw [post, amount_insert]
  split
  · subst x
    rfl
  · rw [add_zero]

/-- The amounts after a charge. -/
theorem amount_charge (m : Finmap fun _ : K => V) (k x : K) (v : V) :
    (m.charge k v).amount x = m.amount x - if x = k then v else 0 := by
  rw [charge_eq_post, amount_post]
  split
  · rw [sub_eq_add_neg]
  · rw [add_zero, sub_zero]

/-- Merging amounts in two orders: `+` is commutative and associative, and `none` is its
unit. -/
private theorem merge_right_comm (a b c : Option V) :
    Option.merge (· + ·) (Option.merge (· + ·) a b) c
      = Option.merge (· + ·) (Option.merge (· + ·) a c) b := by
  cases a <;> cases b <;> cases c <;> simp [add_comm, add_left_comm]

/-- Two postings commute. -/
theorem post_post_comm (m : Finmap fun _ : K => V) (k k' : K) (v v' : V) :
    (m.post k v).post k' v' = (m.post k' v').post k v := by
  refine ext_lookup fun x => ?_
  simp only [lookup_post]
  exact merge_right_comm _ _ _

/-- Add every entry of `d` to the entry of the same key. Postings commute, so the order of
the entries of `d` does not matter. -/
def postAll (m d : Finmap fun _ : K => V) : Finmap fun _ : K => V :=
  d.foldl post (fun m k v k' v' => post_post_comm m k k' v v') m

/-- Posting nothing changes nothing. -/
@[simp] theorem postAll_empty (m : Finmap fun _ : K => V) : m.postAll ∅ = m := rfl

/-- The entries after posting every entry of `d`. -/
theorem lookup_postAll (m d : Finmap fun _ : K => V) (x : K) :
    (m.postAll d).lookup x = Option.merge (· + ·) (m.lookup x) (d.lookup x) := by
  induction d using Finmap.induction_on with
  | H d =>
    obtain ⟨entries, hnodup⟩ := d
    show (entries.foldl (fun m (e : Sigma fun _ : K => V) => m.post e.1 e.2) m).lookup x
      = Option.merge (· + ·) (m.lookup x) (entries.dlookup x)
    -- Along the list of entries: a key occurs once, so the rest adds nothing to it.
    induction entries generalizing m with
    | nil => simp
    | cons e entries ih =>
      obtain ⟨k, v⟩ := e
      rw [List.nodupKeys_cons] at hnodup
      rw [List.foldl_cons, ih _ hnodup.2, lookup_post]
      by_cases hx : x = k
      · subst x
        rw [if_pos rfl, List.dlookup_cons_eq, List.dlookup_eq_none.mpr hnodup.1]
        simp
      · have hne : List.dlookup x ((⟨k, v⟩ : Sigma fun _ : K => V) :: entries)
            = entries.dlookup x := List.dlookup_cons_ne _ _ hx
        rw [if_neg hx, hne]
        simp

/-- The amounts after all of another map has been posted. -/
theorem amount_postAll (m d : Finmap fun _ : K => V) (x : K) :
    (m.postAll d).amount x = m.amount x + d.amount x := by
  rw [amount, lookup_postAll, amount, amount]
  cases m.lookup x <;> cases d.lookup x <;> simp

/-- Two maps may be posted in either order. -/
theorem postAll_postAll_comm (m d d' : Finmap fun _ : K => V) :
    (m.postAll d).postAll d' = (m.postAll d').postAll d := by
  refine ext_lookup fun x => ?_
  simp only [lookup_postAll]
  exact merge_right_comm _ _ _

end Amounts

end Finmap
