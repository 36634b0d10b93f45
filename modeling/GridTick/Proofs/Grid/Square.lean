import Mathlib.Data.List.Nodup
import GridTick.Proofs.Grid.Ring

/-!
# GridTick.Proofs.Grid.Square — a window is a square of the closed grid

The listing of a window goes through its square row by row.  A side has at most `2^32 - 1` cells, one less than the
circle, so no two places of the listing have the same key, also where the square runs over an edge or reaches almost
round the grid.

* `Window.keys_eq`, `Window.firstKeys_eq_take`: the listing, place by place.
* `Window.keyAt_injOn`, `Window.keys_nodup`: no key is listed twice.
* `areaOf_eq`: the number of cells, held at the largest word.
* `Window.Square`, `window_square`: a window, of any centre and radius.
-/

namespace GridTick

/-! ## Rows of equal length -/

/-- `m` rows of `n` places each, counted through. -/
theorem flatMap_range_rows {α : Type} (g : Nat → Nat → α) (m n : Nat) :
    ((List.range m).flatMap fun row => (List.range n).map (g row)) =
      (List.range (m * n)).map fun i => g (i / n) (i % n) := by
  induction m with
  | zero => simp
  | succ m ih =>
    rw [List.range_succ, List.flatMap_append, List.flatMap_singleton, ih, Nat.succ_mul, List.range_add,
      List.map_append, List.map_map]
    refine congrArg _ (List.map_congr_left fun column hcolumn => ?_)
    have hlt : column < n := List.mem_range.mp hcolumn
    have hrow : (m * n + column) / n = m := by
      rw [Nat.mul_comm, Nat.mul_add_div (by omega), Nat.div_eq_of_lt hlt, Nat.add_zero]
    have hplace : (m * n + column) % n = column := by
      rw [Nat.mul_comm, Nat.mul_add_mod, Nat.mod_eq_of_lt hlt]
    rw [Function.comp_apply, hrow, hplace]

/-! ## The listing -/

namespace Window

variable {w : Window}

theorem keys_eq (w : Window) : w.keys = (List.range (w.side * w.side)).map w.keyAt := by
  have hrows := flatMap_range_rows (fun row column => (w.center.offset (.ofInt ((row : Int) - w.reach))
    (.ofInt ((column : Int) - w.reach))).key) w.side w.side
  rw [keys, steps, List.flatMap_map]
  simp only [List.map_map]
  exact hrows

theorem length_keys (w : Window) : w.keys.length = w.side * w.side := by
  rw [keys_eq, List.length_map, List.length_range]

theorem getElem?_keys {i : Nat} (hi : i < w.side * w.side) : w.keys[i]? = some (w.keyAt i) := by
  rw [keys_eq, List.getElem?_map, List.getElem?_range hi, Option.map_some]

/-- The first keys are found without listing the others. -/
theorem firstKeys_eq_take (w : Window) (n : Nat) : w.firstKeys n = w.keys.take n := by
  rw [firstKeys, keys_eq, ← List.map_take, List.take_range]

/-! ## No key is listed twice -/

theorem reach_le (w : Window) : w.reach ≤ 2147483647 := Nat.min_le_right ..

/-- Two places of a row that lead to the same coordinate are one. -/
theorem place_injective {x : Int32} {s a b : Nat} (hs : s ≤ 2147483647) (ha : a < 2 * s + 1) (hb : b < 2 * s + 1)
    (h : x + .ofInt ((a : Int) - s) = x + .ofInt ((b : Int) - s)) : a = b := by
  obtain ⟨q, hq⟩ := add_ofInt_eq_iff.mp h
  obtain ⟨q', hq'⟩ := add_ofInt_eq_iff.mp (rfl : x + .ofInt ((b : Int) - s) = _)
  omega

theorem keyAt_injOn {i j : Nat} (hi : i < w.side * w.side) (hj : j < w.side * w.side) (h : w.keyAt i = w.keyAt j) :
    i = j := by
  have hcells := Cell.mk.inj (Cell.key_injective h)
  have hcolumn : ∀ i, i % w.side < w.side := fun i => Nat.mod_lt i (Nat.succ_pos _)
  have hdiv := place_injective w.reach_le (Nat.div_lt_of_lt_mul hi) (Nat.div_lt_of_lt_mul hj) hcells.1
  have hmod := place_injective w.reach_le (hcolumn i) (hcolumn j) hcells.2
  rw [← Nat.div_add_mod i w.side, hdiv, hmod, Nat.div_add_mod]

theorem keys_nodup (w : Window) : w.keys.Nodup := by
  rw [keys_eq]
  refine List.Nodup.map_on (fun i hi j hj => ?_) List.nodup_range
  exact keyAt_injOn (List.mem_range.mp hi) (List.mem_range.mp hj)

theorem size_toSet (w : Window) : w.toSet.size = w.side * w.side := by
  rw [toSet, Std.ExtTreeSet.size_ofList, length_keys]
  exact w.keys_nodup.imp fun hne heq => hne (Std.LawfulEqCmp.eq_of_compare heq)

end Window

/-! ## The number of cells -/

/-- Only the last product can be held back. -/
theorem areaOf_eq (r : UInt32) : areaOf r = min ((2 * r.toNat + 1) * (2 * r.toNat + 1)) 18446744073709551615 := by
  have hr := r.toNat_lt
  have hlast : lastWord = 18446744073709551615 := rfl
  have hdouble : heldProduct r.toNat 2 = 2 * r.toNat := by
    rw [heldProduct, hlast]
    omega
  have hside : heldSum (2 * r.toNat) 1 = 2 * r.toNat + 1 := by
    rw [heldSum, hlast]
    omega
  rw [areaOf, hdouble, hside, heldProduct, hlast]

/-- A window lists the cells that are at most `s` steps away from its centre: row by row, each once, so many as the
square has. -/
structure Window.Square (w : Window) (s : Nat) : Prop where
  length : w.keys.length = (2 * s + 1) * (2 * s + 1)
  nodup : w.keys.Nodup
  place : ∀ i < (2 * s + 1) * (2 * s + 1), w.keys[i]? = some (w.center.offset
    (.ofInt ((i / (2 * s + 1) : Nat) - s)) (.ofInt ((i % (2 * s + 1) : Nat) - s))).key
  inside : ∀ c : Cell, c.key ∈ w.toSet ↔ w.center.ringDistance c ≤ s
  size : w.toSet.size = (2 * s + 1) * (2 * s + 1)
  area : w.radius.toNat ≤ 2147483647 → w.toSet.size = w.area ∧ w.area = areaOf w.radius

/-- Every window is a square, of its radius or of the largest that the grid has room for; the number of cells that is
given for a radius is that of its square, held at the largest word. -/
theorem window_square (w : Window) : w.Square (min w.radius.toNat 2147483647) ∧
    ∀ r, areaOf r = min ((2 * r.toNat + 1) * (2 * r.toNat + 1)) 18446744073709551615 := by
  refine ⟨⟨w.length_keys, w.keys_nodup, fun i hi => Window.getElem?_keys hi, fun c => ?_, w.size_toSet, fun hr => ?_⟩,
    areaOf_eq⟩
  · rw [Window.mem_toSet, Window.mem_keys, Key.cell_key]
    rfl
  · refine ⟨?_, rfl⟩
    have hside : w.side = 2 * w.radius.toNat + 1 := congrArg (2 * · + 1) (Nat.min_eq_left hr)
    have hle : (2 * w.radius.toNat + 1) * (2 * w.radius.toNat + 1) ≤ 4294967295 * 4294967295 :=
      Nat.mul_le_mul (by omega) (by omega)
    rw [w.size_toSet, hside, Window.area, areaOf_eq]
    omega

end GridTick
