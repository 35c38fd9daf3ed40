import Harjus.Message
import Harjus.Proofs.Wire.FieldMap

/-!
# `Harjus.Proofs.Wire.Text`: the text of a message and its measures

The text of a map is the text of its fields, each with the groups under its tag (`FieldMap.flat`).
The length and the checksum of a map are summed over the fields first and over the groups then. In
a map that is `Tidy` both come to the same.

* `calculateString_eq`: the text is that of the fields in `flat`.
* `calculateLength_eq`, `calculateTotal_eq`: the measures are those of the fields in `flat`.
-/

set_option autoImplicit false

namespace Harjus.Wire

open Harjus.Lib
open Harjus.FIX (SOH)

namespace FieldMap

/-! ### Recursion into the groups -/

section Fold
variable {β : Type} (f : MessageOrder → List FieldBase → List (ℤ × List β) → β)

/-- The recursion over a list of groups is a map over it. -/
theorem foldList_eq (groups : List FieldMap) : foldList f groups = groups.map (fold f) := by
  induction groups with
  | nil => rfl
  | cons group groups ih => rw [foldList, ih, List.map_cons]

/-- The recursion over the groups under all tags is a map over them. -/
theorem foldGroups_eq (groups : Groups) :
    foldGroups f groups = groups.map fun entry => (entry.1, entry.2.map (fold f)) := by
  induction groups with
  | nil => rfl
  | cons entry groups ih => rw [foldGroups, ih, foldList_eq, List.map_cons]

/-- A function of a map, from what it is of each group. -/
theorem fold_mk (order : MessageOrder) (fields : List FieldBase) (groups : Groups) :
    fold f (mk order fields groups)
      = f order fields (groups.map fun entry => (entry.1, entry.2.map (fold f))) := by
  rw [fold, foldGroups_eq]

end Fold

/-- What is computed of the groups under a tag. -/
theorem lookup_map_groups {β : Type} (f : FieldMap → β) (groups : Groups) (tag : ℤ) :
    ((groups.map fun entry => (entry.1, entry.2.map f)).lookup tag).getD []
      = (groups.find tag).map f := by
  unfold Groups.find
  induction groups with
  | nil => rfl
  | cons entry groups ih =>
    obtain ⟨key, entries⟩ := entry
    rw [List.map_cons, List.lookup_cons, List.lookup_cons]
    cases tag == key with
    | true => rfl
    | false => exact ih

/-- The fields in the order in which they are written, with those of the groups. -/
def flat : FieldMap → List FieldBase :=
  fold fun _ fields groups => fields.flatMap fun field =>
    field :: ((groups.lookup field.tag).getD []).flatten

/-- The fields of a map in the order of its text, each with the groups under it. -/
theorem flat_mk (order : MessageOrder) (fields : List FieldBase) (groups : Groups) :
    (mk order fields groups).flat
      = fields.flatMap fun field => field :: (groups.find field.tag).flatMap flat := by
  rw [flat, fold_mk]
  simp only [lookup_map_groups, List.flatMap_def]

/-- The text of a map, from the texts of its groups. -/
theorem calculateString_mk (order : MessageOrder) (fields : List FieldBase) (groups : Groups) :
    (mk order fields groups).calculateString = fields.flatMap fun field =>
      field.getFixString ++ (groups.find field.tag).flatMap calculateString := by
  rw [calculateString, fold_mk]
  simp only [lookup_map_groups, List.flatMap_def]

/-- The groups under a tag are in an entry with the tag. -/
theorem mem_find {groups : Groups} {tag : ℤ} {group : FieldMap} (h : group ∈ groups.find tag) :
    ∃ entry ∈ groups, entry.1 = tag ∧ group ∈ entry.2 := by
  unfold Groups.find at h
  induction groups with
  | nil => cases h
  | cons entry groups ih =>
    rw [List.lookup_cons] at h
    cases hkey : tag == entry.1 with
    | true =>
      rw [hkey] at h
      exact ⟨entry, List.mem_cons_self, (beq_iff_eq.mp hkey).symm, h⟩
    | false =>
      rw [hkey] at h
      obtain ⟨other, hother, htag, hgroup⟩ := ih h
      exact ⟨other, List.mem_cons_of_mem _ hother, htag, hgroup⟩

/-- A map with sorted fields, whose groups stand under its tags and are such maps. -/
inductive Tidy : FieldMap → Prop
  | mk {order : MessageOrder} {fields : List FieldBase} {groups : Groups}
      (hfields : Ascending (FieldBase.key order) fields) (hkeys : Ascending Prod.fst groups)
      (hne : ∀ entry ∈ groups, entry.2 ≠ [])
      (htags : ∀ entry ∈ groups, ∃ field ∈ fields, field.tag = entry.1)
      (hgroups : ∀ entry ∈ groups, ∀ group ∈ entry.2, Tidy group) : Tidy (mk order fields groups)

/-- A tidy map is sorted. -/
theorem Tidy.sorted {map : FieldMap} (h : map.Tidy) : map.Sorted := by
  cases h with
  | mk hfields => exact hfields

/-- A sorted map without groups is tidy. -/
theorem Sorted.tidy {map : FieldMap} (h : map.Sorted) (hgroups : map.groups = []) : map.Tidy := by
  cases map with
  | mk order fields groups =>
    have hempty : groups = [] := hgroups
    subst hempty
    exact .mk h .nil (by simp) (by simp) (by simp)

/-- The text of a map is that of its fields. -/
theorem calculateString_eq {map : FieldMap} (h : map.Tidy) :
    map.calculateString = map.flat.flatMap FieldBase.getFixString := by
  induction h with
  | @mk order fields groups _ _ _ _ _ ih =>
    rw [calculateString_mk, flat_mk, List.flatMap_assoc]
    refine List.flatMap_congr fun field _ => ?_
    rw [List.flatMap_cons, List.flatMap_assoc]
    congr 1
    refine List.flatMap_congr fun group hgroup => ?_
    obtain ⟨entry, hentry, -, hmem⟩ := mem_find hgroup
    exact ih entry hentry group hmem

/-! ### Measures -/

/-- The groups under a tag are in the first entry with the tag. -/
theorem find_cons (key : ℤ) (entries : List FieldMap) (groups : Groups) (tag : ℤ) :
    Groups.find ((key, entries) :: groups) tag
      = if tag = key then entries else groups.find tag := by
  rw [Groups.find, List.lookup_cons]
  by_cases h : tag = key
  · rw [if_pos h, h, beq_self_eq_true]
    rfl
  · rw [if_neg h, beq_false_of_ne h]
    rfl

/-- Without an entry for the tag there are no groups under it. -/
theorem find_eq_nil {groups : Groups} {tag : ℤ} (h : ∀ entry ∈ groups, entry.1 ≠ tag) :
    groups.find tag = [] := by
  refine List.eq_nil_iff_forall_not_mem.mpr fun group hgroup => ?_
  obtain ⟨entry, hentry, htag, -⟩ := mem_find hgroup
  exact h entry hentry htag

/-- A sum over tags in which one of them counts for more. -/
theorem sum_map_ite {tags : List ℤ} (hnodup : tags.Nodup) {key : ℤ} (hkey : key ∈ tags) (n : ℕ)
    {f : ℤ → ℕ} (hf : f key = 0) :
    (tags.map fun tag => if tag = key then n else f tag).sum = n + (tags.map f).sum := by
  induction tags with
  | nil => cases hkey
  | cons tag tags ih =>
    obtain ⟨hnew, hrest⟩ := List.nodup_cons.mp hnodup
    rw [List.map_cons, List.sum_cons, List.map_cons, List.sum_cons]
    by_cases htag : tag = key
    · have hsame : tags.map (fun tag => if tag = key then n else f tag) = tags.map f := by
        refine List.map_congr_left fun other hother => if_neg fun heq => hnew ?_
        rw [htag, ← heq]
        exact hother
      rw [if_pos htag, hsame, htag, hf, Nat.zero_add]
    · have hmem : key ∈ tags := (List.mem_cons.mp hkey).resolve_left fun heq => htag heq.symm
      rw [if_neg htag, ih hrest hmem]
      omega

/-- A sum over the tags of what is under them is a sum over the groups. -/
theorem sum_groups {groups : Groups} (hkeys : Ascending Prod.fst groups) {tags : List ℤ}
    (hnodup : tags.Nodup) (htags : ∀ entry ∈ groups, entry.1 ∈ tags) (weight : FieldMap → ℕ) :
    (tags.map fun tag => ((groups.find tag).map weight).sum).sum
      = (groups.map fun entry => (entry.2.map weight).sum).sum := by
  induction groups with
  | nil =>
    have hzero : ∀ tag : ℤ, ((Groups.find [] tag).map weight).sum = 0 := fun _ => rfl
    simp [hzero]
  | cons entry groups ih =>
    obtain ⟨key, entries⟩ := entry
    have hnone : Groups.find groups key = [] :=
      find_eq_nil fun other hother => ne_of_gt (hkeys.lt_of_cons hother)
    have hsplit : ∀ tag : ℤ, ((Groups.find ((key, entries) :: groups) tag).map weight).sum
        = if tag = key then (entries.map weight).sum
          else ((Groups.find groups tag).map weight).sum := by
      intro tag
      rw [find_cons]
      split <;> rfl
    simp only [hsplit]
    rw [sum_map_ite hnodup (htags _ List.mem_cons_self) _ (by rw [hnone]; rfl),
      ih hkeys.of_cons fun other hother => htags other (List.mem_cons_of_mem _ hother),
      List.map_cons, List.sum_cons]

/-- The sum of the weights of the fields and of what is computed of the groups. -/
def weigh (weight : FieldBase → ℕ) : FieldMap → ℕ :=
  fold fun _ fields groups => (fields.map weight).sum + (groups.map fun entry => entry.2.sum).sum

/-- The weight of a tidy map is that of its fields. -/
theorem weigh_eq (weight : FieldBase → ℕ) {map : FieldMap} (h : map.Tidy) :
    map.weigh weight = (map.flat.map weight).sum := by
  induction h with
  | @mk order fields groups hfields hkeys _ htags _ ih =>
    have hnodup : (fields.map FieldBase.tag).Nodup :=
      List.pairwise_map.mpr (hfields.imp fun hlt heq => ne_of_lt hlt (congrArg order.key heq))
    have hmem : ∀ entry ∈ groups, entry.1 ∈ fields.map FieldBase.tag := fun entry hentry => by
      obtain ⟨field, hfield, htag⟩ := htags entry hentry
      exact List.mem_map.mpr ⟨field, hfield, htag⟩
    have hgroups : ∀ tag : ℤ, (((groups.find tag).flatMap flat).map weight).sum
        = ((groups.find tag).map (weigh weight)).sum := by
      intro tag
      rw [List.map_flatMap, List.flatMap_def, List.sum_flatten, List.map_map]
      congr 1
      refine List.map_congr_left fun group hgroup => ?_
      obtain ⟨entry, hentry, -, hin⟩ := mem_find hgroup
      exact (ih entry hentry group hin).symm
    -- Each group is counted under its tag, so the sum over the fields meets each of them once.
    have hsum := sum_groups hkeys hnodup hmem (weigh weight)
    rw [List.map_map] at hsum
    calc
      (mk order fields groups).weigh weight
        = (fields.map weight).sum
            + (groups.map fun entry => (entry.2.map (weigh weight)).sum).sum := by
          rw [weigh, fold_mk, List.map_map]
          rfl
      _ = (fields.map fun field =>
            weight field + ((groups.find field.tag).map (weigh weight)).sum).sum := by
          rw [← hsum, List.sum_map_add]
          rfl
      _ = ((mk order fields groups).flat.map weight).sum := by
          rw [flat_mk, List.map_flatMap, List.flatMap_def, List.sum_flatten, List.map_map]
          congr 1
          refine List.map_congr_left fun field _ => ?_
          show _ = ((field :: (groups.find field.tag).flatMap flat).map weight).sum
          rw [List.map_cons, List.sum_cons, hgroups]

/-- The tags that the body length does not count. -/
def uncounted (tag : ℤ) : Bool := tag = 8 ∨ tag = 9 ∨ tag = 10

/-- A sum over some of the fields, as one over all of them. -/
theorem sum_filter (p : FieldBase → Bool) (weight : FieldBase → ℕ) (fields : List FieldBase) :
    ((fields.filter p).map weight).sum
      = (fields.map fun field => if p field then weight field else 0).sum := by
  induction fields with
  | nil => rfl
  | cons field fields ih =>
    rw [List.filter_cons, List.map_cons, List.sum_cons]
    cases p field with
    | true =>
      rw [if_pos rfl, if_pos rfl, List.map_cons, List.sum_cons, ih]
    | false =>
      rw [if_neg Bool.false_ne_true, if_neg Bool.false_ne_true, ih, Nat.zero_add]

/-- The length is the weight of the counted fields. -/
theorem calculateLength_weigh (map : FieldMap) : map.calculateLength
    = map.weigh fun field => if !uncounted field.tag then field.getLength else 0 := by
  unfold calculateLength weigh
  congr 1
  funext _ fields groups
  rw [sum_filter]
  congr 3
  funext field
  simp [uncounted]

/-- The total is the weight of the fields without a checksum. -/
theorem calculateTotal_weigh (map : FieldMap) : map.calculateTotal
    = map.weigh fun field => if decide (field.tag ≠ 10) then field.getTotal else 0 := by
  unfold calculateTotal weigh
  congr 1
  funext _ fields groups
  rw [sum_filter]

/-- The length of a tidy map is that of its counted fields. -/
theorem calculateLength_eq {map : FieldMap} (h : map.Tidy) :
    map.calculateLength
      = ((map.flat.filter fun field => !uncounted field.tag).map FieldBase.getLength).sum := by
  rw [calculateLength_weigh, weigh_eq _ h, sum_filter]

/-- The total of a tidy map is that of its fields without a checksum. -/
theorem calculateTotal_eq {map : FieldMap} (h : map.Tidy) :
    map.calculateTotal
      = ((map.flat.filter fun field => field.tag ≠ 10).map FieldBase.getTotal).sum := by
  rw [calculateTotal_weigh, weigh_eq _ h, sum_filter]

end FieldMap

end Harjus.Wire
