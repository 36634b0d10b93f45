import Mathlib.Data.Nat.Basic
import Mathlib.Order.Basic
import Mathlib.Tactic.ByContra
import GridTick.Proofs.Grid.Ring

/-!
# GridTick.Proofs.Grid.Plane — a window on the plane and on the closed grid

A window is listed on the closed grid, where a row runs on over the edge, and asked about a cell on the plane, where the
row ends at the edge.  The plane never finds two cells nearer than the grid does, so whatever a window covers it lists.
The two differ just on the cells that are near over the edge only.

* `ringGap_le_lineGap`, `Cell.ringDistance_le_distance`: the grid is never the longer way.
* `Fits`, `Fits.lineGap_le`, `exists_over_edge`: stretches that stay on the line, and those that run over its ends.
* `Window.Inside`: a square that stays on the plane.
* `window_covers`: where a window covers what it lists.
-/

namespace GridTick

/-! ## One axis -/

section Axis

variable {a b : Int32} {s : Nat}

theorem ringGap_le_lineGap : ringGap a b ≤ lineGap a b := Nat.min_le_left ..

/-- A stretch of radius `s` round `a` stays between the ends of the line. -/
def Fits (a : Int32) (s : Nat) : Prop := -2147483648 ≤ a.toInt - s ∧ a.toInt + s ≤ 2147483647

/-- From such a stretch nothing is nearer over the edge. -/
theorem Fits.lineGap_le (h : Fits a s) (hgap : ringGap a b ≤ s) : lineGap a b ≤ s := by
  have hb := b.toInt_lt
  have hb' := b.le_toInt
  obtain ⟨hlow, hhigh⟩ := h
  simp only [ringGap, lineGap, gridSide_eq] at hgap ⊢
  omega

/-- From any other stretch the far end of the line is. -/
theorem exists_over_edge (hs : s ≤ 2147483647) (h : ¬ Fits a s) : ∃ b, ringGap a b ≤ s ∧ s < lineGap a b := by
  have ha := a.toInt_lt
  have ha' := a.le_toInt
  unfold Fits at h
  simp only [ringGap, lineGap, gridSide_eq]
  by_cases hhigh : a.toInt + s ≤ 2147483647
  · refine ⟨Int32.maxValue, ?_⟩
    rw [Int32.toInt_maxValue]
    omega
  · refine ⟨Int32.minValue, ?_⟩
    rw [Int32.toInt_minValue]
    omega

end Axis

/-! ## Cells -/

namespace Cell

variable {a b : Cell} {s : Nat}

theorem distance_le_iff : a.distance b ≤ s ↔ lineGap a.x b.x ≤ s ∧ lineGap a.z b.z ≤ s := by
  rw [distance, Nat.max_le]

theorem ringDistance_le_distance : a.ringDistance b ≤ a.distance b := by
  obtain ⟨hx, hz⟩ := distance_le_iff.mp (le_refl (a.distance b))
  exact ringDistance_le_iff.mpr ⟨ringGap_le_lineGap.trans hx, ringGap_le_lineGap.trans hz⟩

end Cell

/-! ## Windows -/

namespace Window

variable {w : Window} {c : Cell}

/-- The square round the centre stays on the plane. -/
def Inside (w : Window) : Prop := Fits w.center.x w.radius.toNat ∧ Fits w.center.z w.radius.toNat

theorem covers_iff : w.covers c = true ↔ w.center.distance c ≤ w.radius.toNat := decide_eq_true_iff

/-- A radius that the grid has room for is not cut down. -/
theorem key_mem_toSet_iff (hr : w.radius.toNat ≤ 2147483647) :
    c.key ∈ w.toSet ↔ w.center.ringDistance c ≤ w.radius.toNat := by
  have hreach : w.reach = w.radius.toNat := Nat.min_eq_left hr
  rw [mem_toSet, mem_keys, Key.cell_key, hreach]

theorem key_mem_toSet_of_covers (hr : w.radius.toNat ≤ 2147483647) (hc : w.covers c = true) : c.key ∈ w.toSet :=
  (key_mem_toSet_iff hr).mpr (Cell.ringDistance_le_distance.trans (covers_iff.mp hc))

theorem Inside.covers (h : w.Inside) (hc : w.center.ringDistance c ≤ w.radius.toNat) : w.covers c = true := by
  obtain ⟨hx, hz⟩ := Cell.ringDistance_le_iff.mp hc
  exact covers_iff.mpr (Cell.distance_le_iff.mpr ⟨h.1.lineGap_le hx, h.2.lineGap_le hz⟩)

/-- A square that runs over the edge of the plane has a cell on the other side. -/
theorem exists_beyond (hr : w.radius.toNat ≤ 2147483647) (h : ¬ w.Inside) :
    ∃ c, w.center.ringDistance c ≤ w.radius.toNat ∧ w.radius.toNat < w.center.distance c := by
  have hown : ∀ a : Int32, ringGap a a ≤ w.radius.toNat := fun a => ringGap_self.trans_le (Nat.zero_le _)
  by_cases hx : Fits w.center.x w.radius.toNat
  · obtain ⟨z, hnear, hfar⟩ := exists_over_edge hr fun hz => h ⟨hx, hz⟩
    exact ⟨⟨w.center.x, z⟩, Cell.ringDistance_le_iff.mpr ⟨hown _, hnear⟩, hfar.trans_le (Nat.le_max_right ..)⟩
  · obtain ⟨x, hnear, hfar⟩ := exists_over_edge hr hx
    exact ⟨⟨x, w.center.z⟩, Cell.ringDistance_le_iff.mpr ⟨hnear, hown _⟩, hfar.trans_le (Nat.le_max_left ..)⟩

end Window

/-- A window lists every cell that it covers.  It covers every cell that it lists just if its square stays on the plane;
and the cells for which the two differ are those that are near round the edge of the grid and far on the plane. -/
theorem window_covers {w : Window} (hr : w.radius.toNat ≤ 2147483647) :
    (∀ c, w.covers c = true → c.key ∈ w.toSet) ∧
      ((∀ c, w.covers c = true ↔ c.key ∈ w.toSet) ↔ w.Inside) ∧
      ∀ c, ¬ (w.covers c = true ↔ c.key ∈ w.toSet) ↔
        w.center.ringDistance c ≤ w.radius.toNat ∧ w.radius.toNat < w.center.distance c := by
  have hcovered : ∀ c, w.covers c = true → c.key ∈ w.toSet := fun c => Window.key_mem_toSet_of_covers hr
  have hdiffer : ∀ c, ¬ (w.covers c = true ↔ c.key ∈ w.toSet) ↔
      w.center.ringDistance c ≤ w.radius.toNat ∧ w.radius.toNat < w.center.distance c := by
    intro c
    have hnearer : w.center.ringDistance c ≤ w.center.distance c := Cell.ringDistance_le_distance
    rw [Window.covers_iff, Window.key_mem_toSet_iff hr]
    omega
  refine ⟨hcovered, ?_, hdiffer⟩
  constructor
  · intro hagree
    by_contra hover
    obtain ⟨c, hc⟩ := Window.exists_beyond hr hover
    exact (hdiffer c).mpr hc (hagree c)
  · intro hinside c
    exact ⟨hcovered c, fun hlisted => hinside.covers ((Window.key_mem_toSet_iff hr).mp hlisted)⟩

/-- A window of nine cells at the end of a row lists three cells at the other end, and covers none of them. -/
theorem window_covers_over_edge :
    let w : Window := ⟨⟨2147483647, 0⟩, 1⟩
    w.radius.toNat ≤ 2147483647 ∧ ¬ w.Inside ∧
      ∀ z ∈ steps 1, (Cell.mk (-2147483648) z).key ∈ w.toSet ∧ w.covers ⟨-2147483648, z⟩ = false := by
  intro w
  have hr : w.radius.toNat ≤ 2147483647 := by decide
  obtain ⟨-, hagree, hdiffer⟩ := window_covers hr
  have hsteps : ∀ {z}, z ∈ steps 1 → z = -1 ∨ z = 0 ∨ z = 1 := by
    have hlist : steps 1 = [-1, 0, 1] := by decide +kernel
    intro z hz
    rw [hlist] at hz
    simpa using hz
  have hfar : ∀ z ∈ steps 1, w.center.ringDistance ⟨-2147483648, z⟩ ≤ w.radius.toNat ∧
      w.radius.toNat < w.center.distance ⟨-2147483648, z⟩ := by
    intro z hz
    rcases hsteps hz with rfl | rfl | rfl <;> decide +kernel
  have hcovers : ∀ z ∈ steps 1, w.covers ⟨-2147483648, z⟩ = false := by
    intro z hz
    rcases hsteps hz with rfl | rfl | rfl <;> decide +kernel
  have hbeyond : ∀ z ∈ steps 1, ¬ (w.covers ⟨-2147483648, z⟩ = true ↔ (Cell.mk (-2147483648) z).key ∈ w.toSet) :=
    fun z hz => (hdiffer _).mpr (hfar z hz)
  have hzero : (0 : Int32) ∈ steps 1 := by decide +kernel
  refine ⟨hr, fun hinside => hbeyond 0 hzero (hagree.mpr hinside _), fun z hz => ?_⟩
  have hlisted := hbeyond z hz
  rw [hcovers z hz] at hlisted
  exact ⟨by simpa using hlisted, hcovers z hz⟩

end GridTick
