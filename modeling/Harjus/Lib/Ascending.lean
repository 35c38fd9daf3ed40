import Mathlib.Data.List.Pairwise
import Mathlib.Data.List.Sort
import Mathlib.Data.List.TakeWhile
import Mathlib.Order.Basic

/-!
# `Harjus.Lib.Ascending`: a list that is kept in the order of its keys

Every element has a key, and the keys of the list ascend.

* `find_eq_some_iff`: the element with a key is the one that a search from the front finds.
* `search_eq_find`: a search by the order finds the same.
* `insertBefore`: a new element goes before the first one with a greater key. The keys still ascend
  (`Ascending.insertBefore`), and a new element with the greatest key goes to the end.
* `Ascending.ext`: the elements determine the list.

The module names no program.
-/

set_option autoImplicit false

namespace Harjus.Lib

variable {α κ : Type*} [LinearOrder κ] (key : α → κ)

/-- The keys of the list ascend. -/
def Ascending (l : List α) : Prop := l.Pairwise fun x y => key x < key y

/-- The first element with a key that is not below, if it is the key. -/
def search (k : κ) (l : List α) : Option α :=
  match l.dropWhile fun x => key x < k with
  | x :: _ => if key x = k then some x else none
  | [] => none

/-- A new element before the first one with a greater key. -/
def insertBefore (x : α) (l : List α) : List α :=
  l.takeWhile (fun y => ¬ key x < key y) ++ x :: l.dropWhile fun y => ¬ key x < key y

variable {key}

/-- A search goes past the elements below its key. -/
theorem search_cons (k : κ) (x : α) (l : List α) :
    search key k (x :: l) =
      if key x < k then search key k l else if key x = k then some x else none := by
  by_cases h : key x < k <;> simp [search, h]

namespace Ascending

/-- The keys of an empty list ascend. -/
theorem nil : Ascending key ([] : List α) := List.Pairwise.nil

/-- The keys behind the first element ascend. -/
theorem of_cons {x : α} {l : List α} (h : Ascending key (x :: l)) : Ascending key l :=
  (List.pairwise_cons.mp h).2

/-- The first key is below the others. -/
theorem lt_of_cons {x y : α} {l : List α} (h : Ascending key (x :: l)) (hy : y ∈ l) :
    key x < key y :=
  (List.pairwise_cons.mp h).1 y hy

/-- Ascending keys are different, and so are their elements. -/
theorem nodup {l : List α} (h : Ascending key l) : l.Nodup :=
  h.imp fun hlt heq => absurd (congrArg key heq) (ne_of_lt hlt)

/-- Elements with the same key are the same. -/
theorem eq_of_key_eq {l : List α} (h : Ascending key l) {x y : α} (hx : x ∈ l) (hy : y ∈ l)
    (heq : key x = key y) : x = y := by
  induction l with
  | nil => cases hx
  | cons z l ih =>
    rcases List.mem_cons.mp hx with hxz | hxl
    · rcases List.mem_cons.mp hy with hyz | hyl
      · rw [hxz, hyz]
      · exact absurd (hxz ▸ heq) (ne_of_lt (h.lt_of_cons hyl))
    · rcases List.mem_cons.mp hy with hyz | hyl
      · exact absurd (hyz ▸ heq.symm) (ne_of_lt (h.lt_of_cons hxl))
      · exact ih h.of_cons hxl hyl

/-- A search from the front finds the element with a key. -/
theorem find_eq_some_iff {l : List α} (h : Ascending key l) {k : κ} {x : α} :
    l.find? (fun y => key y = k) = some x ↔ x ∈ l ∧ key x = k := by
  constructor
  · intro hfind
    have hkey := List.find?_some hfind
    exact ⟨List.mem_of_find?_eq_some hfind, of_decide_eq_true hkey⟩
  · intro ⟨hx, hkey⟩
    cases hfind : l.find? fun y => key y = k with
    | none =>
      have hnone := List.find?_eq_none.mp hfind x hx
      exact absurd (decide_eq_true hkey) hnone
    | some y =>
      have hy := List.find?_some hfind
      have hmem := List.mem_of_find?_eq_some hfind
      rw [h.eq_of_key_eq hmem hx (by rw [hkey]; exact of_decide_eq_true hy)]

/-- A search by the order finds the same as one from the front. -/
theorem search_eq_find {l : List α} (h : Ascending key l) (k : κ) :
    search key k l = l.find? fun y => key y = k := by
  induction l with
  | nil => rfl
  | cons x l ih =>
    rw [search_cons, List.find?_cons]
    rcases lt_trichotomy (key x) k with hlt | heq | hgt
    · simp [hlt, ne_of_lt hlt, ih h.of_cons]
    · simp [heq]
    · have hnone : l.find? (fun y => key y = k) = none := by
        refine List.find?_eq_none.mpr fun y hy => ?_
        simpa using ne_of_gt (lt_trans hgt (h.lt_of_cons hy))
      simp [not_lt_of_gt hgt, ne_of_gt hgt, hnone]

/-- The list is determined by its elements. -/
theorem ext {l l' : List α} (h : Ascending key l) (h' : Ascending key l')
    (hmem : ∀ x, x ∈ l ↔ x ∈ l') : l = l' :=
  List.Perm.eq_of_pairwise (fun _ _ _ _ hlt hlt' => absurd hlt (not_lt_of_gt hlt')) h h'
    ((List.perm_ext_iff_of_nodup h.nodup h'.nodup).mpr hmem)

/-- An element with the least key is the first. -/
theorem eq_cons_of_least {l : List α} (h : Ascending key l) {x : α} (hx : x ∈ l)
    (hleast : ∀ y ∈ l, key x ≤ key y) : ∃ rest, l = x :: rest := by
  cases l with
  | nil => cases hx
  | cons y rest =>
    rcases List.mem_cons.mp hx with rfl | hrest
    · exact ⟨rest, rfl⟩
    · exact absurd (h.lt_of_cons hrest) (not_lt_of_ge (hleast y List.mem_cons_self))

/-- An element with the greatest key is the last. -/
theorem eq_concat_of_greatest {l : List α} (h : Ascending key l) {x : α} (hx : x ∈ l)
    (hgreatest : ∀ y ∈ l, key y ≤ key x) : ∃ rest, l = rest ++ [x] := by
  obtain ⟨before, after, rfl⟩ := List.append_of_mem hx
  cases after with
  | nil => exact ⟨before, rfl⟩
  | cons y after =>
    have hlt := (List.pairwise_append.mp h).2.1
    have hle := hgreatest y (by simp)
    exact absurd (Ascending.lt_of_cons hlt List.mem_cons_self) (not_lt_of_ge hle)

end Ascending

/-- The elements of the list with the new one. -/
theorem mem_insertBefore {x y : α} {l : List α} : y ∈ insertBefore key x l ↔ y = x ∨ y ∈ l := by
  have hsplit := List.takeWhile_append_dropWhile (p := fun y => ¬ key x < key y) (l := l)
  rw [insertBefore, List.mem_append, List.mem_cons]
  conv_rhs => rw [← hsplit, List.mem_append]
  tauto

/-- Behind the elements that are not greater, all are greater. -/
theorem Ascending.lt_of_mem_dropWhile {x : α} {l : List α} (h : Ascending key l) :
    ∀ y ∈ l.dropWhile (fun y => ¬ key x < key y), key x < key y := by
  induction l with
  | nil =>
    intro y hy
    cases hy
  | cons z l ih =>
    by_cases hz : key x < key z
    · rw [List.dropWhile_cons_of_neg (by simpa using hz)]
      intro y hy
      rcases List.mem_cons.mp hy with rfl | hy
      · exact hz
      · exact lt_trans hz (h.lt_of_cons hy)
    · rw [List.dropWhile_cons_of_pos (by simpa using hz)]
      exact ih h.of_cons

/-- With a new key, the keys still ascend. -/
theorem Ascending.insertBefore {x : α} {l : List α} (h : Ascending key l)
    (hnew : ∀ y ∈ l, key y ≠ key x) : Ascending key (insertBefore key x l) := by
  have hbelow : ∀ y ∈ l.takeWhile (fun y => ¬ key x < key y), key y < key x := by
    intro y hy
    have hnot : ¬ key x < key y := by simpa using List.mem_takeWhile_imp hy
    exact lt_of_le_of_ne (not_lt.mp hnot) (hnew y ((List.takeWhile_prefix _).subset hy))
  have habove := h.lt_of_mem_dropWhile (x := x)
  refine List.pairwise_append.mpr ⟨h.sublist (List.takeWhile_prefix _).sublist,
    List.pairwise_cons.mpr ⟨habove, h.sublist (List.dropWhile_suffix _).sublist⟩, ?_⟩
  intro y hy z hz
  rcases List.mem_cons.mp hz with rfl | hz
  · exact hbelow y hy
  · exact lt_trans (hbelow y hy) (habove z hz)

/-- A new element whose key is the greatest goes to the end. -/
theorem insertBefore_of_forall_lt {x : α} {l : List α} (h : ∀ y ∈ l, key y < key x) :
    insertBefore key x l = l ++ [x] := by
  have htake : ∀ y ∈ l, decide (¬ key x < key y) = true :=
    fun y hy => decide_eq_true (not_lt_of_gt (h y hy))
  rw [insertBefore, List.takeWhile_eq_self_iff.mpr htake, List.dropWhile_eq_nil_iff.mpr htake]

end Harjus.Lib
