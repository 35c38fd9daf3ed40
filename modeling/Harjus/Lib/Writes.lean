import Mathlib.Data.Finmap
import Mathlib.Data.List.Nodup

/-!
# `Harjus.Lib.Writes`: lists of writes to keyed cells

A write is a key with a value. `lastWrite writes k` is the value of the last write to `k`,
and `overwrite f writes` is the function `f` after all of them.

* `lastWrite_concat`: one more write decides its own cell and no other.
* `map_lastWrite_zip`: keys that do not repeat keep the values that are written to them.
* `lookup_foldl_insert`: a finite map after a list of inserts.
* `rebuild_eq_overwrite_iff`: cells come in groups, and a lossy writer blanks every group it
  touches before it writes. It agrees with `overwrite` exactly when each cell that it blanks
  and does not write was blank before.

`Slots` is a second, concrete form of a function on a list of keys: a vector of values with a
map from each key to its position. `Slots.create` and `Slots.modify` are its two operations.

The module names no program.
-/

set_option autoImplicit false

namespace Harjus.Lib

section LastWrite
variable {K V : Type*} [DecidableEq K]

/-- The value of the last write to a key. -/
def lastWrite : List (K × V) → K → Option V
  | [], _ => none
  | w :: writes, k => (lastWrite writes k).or (if w.1 = k then some w.2 else none)

/-- Nothing was written. -/
@[simp] theorem lastWrite_nil (k : K) : lastWrite ([] : List (K × V)) k = none := rfl

/-- A later write to the key counts, if there is one. -/
theorem lastWrite_cons (w : K × V) (writes : List (K × V)) (k : K) :
    lastWrite (w :: writes) k
      = (lastWrite writes k).or (if w.1 = k then some w.2 else none) := rfl

/-- The writes of the second list come after those of the first. -/
theorem lastWrite_append (writes writes' : List (K × V)) (k : K) :
    lastWrite (writes ++ writes') k = (lastWrite writes' k).or (lastWrite writes k) := by
  induction writes with
  | nil => rw [List.nil_append, lastWrite_nil, Option.or_none]
  | cons w writes ih =>
    rw [List.cons_append, lastWrite_cons, lastWrite_cons, ih, Option.or_assoc]

/-- One more write decides its own cell. -/
theorem lastWrite_concat (writes : List (K × V)) (k : K) (v : V) :
    lastWrite (writes ++ [(k, v)]) = Function.update (lastWrite writes) k (some v) := by
  funext x
  rw [lastWrite_append, lastWrite_cons, lastWrite_nil, Option.none_or]
  by_cases hx : k = x
  · rw [if_pos hx, ← hx, Function.update_self, Option.some_or]
  · rw [if_neg hx, Function.update_of_ne (Ne.symm hx), Option.none_or]

/-- A cell without a last write is not written. -/
theorem lastWrite_eq_none_iff {writes : List (K × V)} {k : K} :
    lastWrite writes k = none ↔ k ∉ writes.map Prod.fst := by
  induction writes with
  | nil => simp
  | cons w writes ih =>
    rw [lastWrite_cons, Option.or_eq_none_iff, ih, List.map_cons, List.mem_cons, not_or,
      and_comm, eq_comm (a := k)]
    refine and_congr_left fun _ => ?_
    split <;> simp [*]

/-- A last write is one of the writes. -/
theorem mem_of_lastWrite {writes : List (K × V)} {k : K} {v : V}
    (h : lastWrite writes k = some v) : (k, v) ∈ writes := by
  induction writes with
  | nil => cases h
  | cons w writes ih =>
    rw [lastWrite_cons] at h
    cases hlast : lastWrite writes k with
    | some v' =>
      rw [hlast, Option.some_or] at h
      exact List.mem_cons_of_mem _ (ih (hlast.trans h))
    | none =>
      rw [hlast, Option.none_or] at h
      split at h
      · rename_i hk
        cases h
        rw [← hk]
        exact List.mem_cons_self
      · cases h

/-- The last write, of values under a function. -/
theorem lastWrite_map {V' : Type*} (g : V → V') (writes : List (K × V)) (k : K) :
    lastWrite (writes.map (Prod.map id g)) k = (lastWrite writes k).map g := by
  induction writes with
  | nil => rfl
  | cons w writes ih =>
    rw [List.map_cons, lastWrite_cons, lastWrite_cons, ih, Option.map_or]
    congr 1
    show (if w.1 = k then some (g w.2) else none) = _
    split <;> rfl

/-- The same value for every key. -/
theorem lastWrite_zip_replicate (keys : List K) (v : V) (k : K) :
    lastWrite (keys.zip (List.replicate keys.length v)) k = if k ∈ keys then some v else none := by
  induction keys with
  | nil => rfl
  | cons key keys ih =>
    rw [List.length_cons, List.replicate_succ, List.zip_cons_cons, lastWrite_cons, ih]
    by_cases hk : k ∈ keys
    · rw [if_pos hk, if_pos (List.mem_cons_of_mem _ hk), Option.some_or]
    · rw [if_neg hk, Option.none_or]
      by_cases hkey : key = k
      · rw [if_pos hkey, if_pos (hkey ▸ List.mem_cons_self)]
      · rw [if_neg hkey, if_neg (by simp [Ne.symm hkey, hk])]

/-- Keys that do not repeat keep their own values. -/
theorem map_lastWrite_zip {keys : List K} {values : List V} (hnodup : keys.Nodup)
    (hlength : keys.length = values.length) :
    keys.map (lastWrite (keys.zip values)) = values.map some := by
  induction keys generalizing values with
  | nil => rw [List.eq_nil_of_length_eq_zero hlength.symm, List.map_nil, List.map_nil]
  | cons key keys ih =>
    cases values with
    | nil => cases hlength
    | cons v values =>
      obtain ⟨hkey, hnodup⟩ := List.nodup_cons.mp hnodup
      have hlength : keys.length = values.length := Nat.succ.inj hlength
      have hnone : lastWrite (keys.zip values) key = none := by
        rw [lastWrite_eq_none_iff, List.map_fst_zip hlength.le]
        exact hkey
      rw [List.zip_cons_cons, List.map_cons, List.map_cons, ← ih hnodup hlength, lastWrite_cons,
        hnone, if_pos rfl, Option.none_or]
      congr 1
      refine List.map_congr_left fun k hk => ?_
      have hne : key ≠ k := fun h => hkey (h ▸ hk)
      rw [lastWrite_cons, if_neg hne, Option.or_none]

/-- A map after a list of inserts. -/
theorem lookup_foldl_insert (m : Finmap fun _ : K => V) (writes : List (K × V)) (k : K) :
    (writes.foldl (fun m w => m.insert w.1 w.2) m).lookup k
      = (lastWrite writes k).or (m.lookup k) := by
  induction writes generalizing m with
  | nil => rfl
  | cons w writes ih =>
    rw [List.foldl_cons, ih, lastWrite_cons, Option.or_assoc]
    congr 1
    by_cases hk : w.1 = k
    · rw [if_pos hk, ← hk, Finmap.lookup_insert, Option.some_or]
    · rw [if_neg hk, Finmap.lookup_insert_of_ne _ (Ne.symm hk), Option.none_or]

/-- A function after a list of writes. -/
def overwrite (f : K → V) (writes : List (K × V)) : K → V :=
  fun k => (lastWrite writes k).getD (f k)

end LastWrite

section Rebuild
variable {K V G : Type*} [DecidableEq K] [DecidableEq G] (group : K → G) (blank : V)

/-- The lossy writer: a cell of a touched group holds its last write or is blank, and the
other groups are left alone. -/
def rebuild (f : K → V) (touched : List G) (writes : List (K × V)) : K → V :=
  fun k => if group k ∈ touched then (lastWrite writes k).getD blank else f k

variable {group blank}

/-- The lossy writer loses nothing exactly when what it blanks was blank. -/
theorem rebuild_eq_overwrite_iff {f : K → V} {touched : List G} {writes : List (K × V)}
    (htouched : ∀ w ∈ writes, group w.1 ∈ touched) :
    rebuild group blank f touched writes = overwrite f writes ↔
      ∀ k, group k ∈ touched → k ∉ writes.map Prod.fst → f k = blank := by
  constructor
  · intro h k hk hnone
    have hcell := congrFun h k
    rw [rebuild, overwrite, if_pos hk, lastWrite_eq_none_iff.mpr hnone] at hcell
    exact hcell.symm
  · intro h
    funext k
    rw [rebuild, overwrite]
    by_cases hk : group k ∈ touched
    · rw [if_pos hk]
      cases hlast : lastWrite writes k with
      | none => exact (h k hk (lastWrite_eq_none_iff.mp hlast)).symm
      | some v => rfl
    · -- A cell of an untouched group is not written, so both functions leave it.
      have hnone : k ∉ writes.map Prod.fst := by
        intro hmem
        obtain ⟨w, hw, rfl⟩ := List.mem_map.mp hmem
        exact hk (htouched w hw)
      rw [if_neg hk, lastWrite_eq_none_iff.mpr hnone]
      rfl

end Rebuild

/-- The keys of a list in the order of their first occurrence, one element further on. -/
theorem eraseDups_concat {K : Type*} [DecidableEq K] (keys : List K) (k : K) :
    (keys ++ [k]).eraseDups = if k ∈ keys then keys.eraseDups else keys.eraseDups ++ [k] := by
  rw [List.eraseDups_append]
  by_cases hk : k ∈ keys <;> simp [hk, List.removeAll, List.eraseDups_cons]

/-- Slots hold `f` on the keys: `items` is the vector of values, `index` the position of
each key. -/
structure Slots {K V : Type*} [DecidableEq K] (items : List V) (index : Finmap fun _ : K => ℕ)
    (keys : List K) (f : K → V) : Prop where
  nodup : keys.Nodup
  items_eq : items = keys.map f
  lookup_eq : ∀ k, index.lookup k = if k ∈ keys then some (keys.idxOf k) else none

namespace Slots

variable {K V : Type*} [DecidableEq K] {items : List V} {index : Finmap fun _ : K => ℕ}
variable {keys : List K} {f : K → V} {k : K}

/-- No key has a slot at first. -/
theorem empty (f : K → V) : Slots [] (∅ : Finmap fun _ : K => ℕ) [] f :=
  ⟨List.nodup_nil, rfl, fun _ => Finmap.lookup_empty _⟩

/-- A key has a position when it is one of the keys. -/
theorem mem_index (h : Slots items index keys f) : k ∈ index ↔ k ∈ keys := by
  rw [← Finmap.lookup_isSome, h.lookup_eq]
  split <;> simp [*]

/-- A value pushed at the end takes the next position. -/
theorem create (h : Slots items index keys f) (hk : k ∉ keys) :
    Slots (items ++ [f k]) (index.insert k items.length) (keys ++ [k]) f where
  nodup := List.nodup_append.mpr
    ⟨h.nodup, List.nodup_singleton k, fun a ha b hb hab =>
      hk (List.mem_singleton.mp hb ▸ hab ▸ ha)⟩
  items_eq := by rw [h.items_eq, List.map_append, List.map_singleton]
  lookup_eq := by
    intro x
    by_cases hx : x = k
    · subst hx
      rw [Finmap.lookup_insert, if_pos (by simp), List.idxOf_append_of_notMem hk, h.items_eq]
      simp
    · rw [Finmap.lookup_insert_of_ne _ hx, h.lookup_eq]
      by_cases hmem : x ∈ keys
      · rw [if_pos hmem, if_pos (List.mem_append_left _ hmem), List.idxOf_append_of_mem hmem]
      · rw [if_neg hmem, if_neg (by simp [hmem, hx])]

/-- A value changed at the position of its key. -/
theorem modify (h : Slots items index keys f) (hk : k ∈ keys) (g : V → V) :
    Slots (items.modify ((index.lookup k).getD 0) g) index keys
      (Function.update f k (g (f k))) where
  nodup := h.nodup
  items_eq := by
    rw [h.lookup_eq, if_pos hk, Option.getD_some, h.items_eq]
    refine List.ext_getElem (by simp) fun i hi hi' => ?_
    have hlt : i < keys.length := by simpa using hi'
    -- Keys do not repeat, so only position `idxOf k` holds the value of `k`.
    rw [List.getElem_modify, List.getElem_map, List.getElem_map]
    by_cases hik : keys.idxOf k = i
    · have hkey : keys[i] = k := by
        subst hik
        exact List.getElem_idxOf hlt
      rw [if_pos hik, hkey, Function.update_self]
    · have hkey : keys[i] ≠ k := by
        rintro rfl
        exact hik (h.nodup.idxOf_getElem i hlt)
      rw [if_neg hik, Function.update_of_ne hkey]
  lookup_eq := h.lookup_eq

end Slots

end Harjus.Lib
