import Mathlib.Data.List.Basic

/-!
# Tables of regions

A table that is made with room for all its entries, and written region by region, each from its start.

* `region` — what has been written, and the room that is left;
* `set_region` — the next entry of a region is written, wherever it stands in the table;
* `written_map` — a table without room has its entries.
-/

namespace Regions

variable {α : Type} {xs : List α} {room : Nat} {x : α} {pre post : List (Option α)}

def region (xs : List α) (room : Nat) : List (Option α) := xs.map some ++ List.replicate room none

theorem region_zero (xs : List α) : region xs 0 = xs.map some := List.append_nil _

theorem length_region : (region xs room).length = xs.length + room := by
  unfold region
  rw [List.length_append, List.length_map, List.length_replicate]

theorem region_push : (region xs (room + 1)).set xs.length (some x) = region (xs ++ [x]) room := by
  unfold region
  rw [List.set_append_right _ _ (Nat.le_of_eq (List.length_map some)), List.length_map, Nat.sub_self, List.replicate_succ,
    List.set_cons_zero, List.map_append, List.append_assoc]
  rfl

theorem set_region {j : Nat} (hj : j = pre.length + xs.length) :
    (pre ++ (region xs (room + 1) ++ post)).set j (some x) = pre ++ (region (xs ++ [x]) room ++ post) := by
  have hlt : xs.length < (region xs (room + 1)).length := by
    rw [length_region]
    omega
  rw [hj, List.set_append_right _ _ (Nat.le_add_right _ _), Nat.add_sub_cancel_left, List.set_append_left _ _ hlt,
    region_push]

theorem lt_region {j : Nat} (hj : j = pre.length + xs.length) : j < (pre ++ (region xs (room + 1) ++ post)).length := by
  rw [hj, List.length_append, List.length_append, length_region]
  omega

/-- The entries of a table, if all have been written. -/
def written : List (Option α) → Option (List α)
  | [] => some []
  | none :: _ => none
  | some x :: rest => (written rest).map (x :: ·)

theorem written_map (xs : List α) : written (xs.map some) = some xs := by
  induction xs with
  | nil => rfl
  | cons x xs ih =>
    rw [List.map_cons, written, ih]
    rfl

end Regions
