import GridTick.Grid.Position
import GridTick.Proofs.Number.Value

/-!
# GridTick.Proofs.Grid.Floor — the cell of a point and the cell of a block

A coordinate of a point is divided by sixteen, rounded down and held inside the signed 32-bit range.  Division of
doubles rounds, but of all finite doubles only the negative ones nearest to zero come out in another cell for it.  So a
larger coordinate never lies in a smaller cell, and a whole coordinate lies in the cell of the block with that number.

* `toInt_coordinateOf`: the coordinate of a finite double.
* `floorAside_mono`: rounding down with those numbers set aside keeps the order.
* `world_floored`: points and blocks lie in the same cells.
-/

namespace GridTick

open Binary64

/-! ## The range of coordinates -/

/-- A whole number held inside the range. -/
def held (n : Int) : Int := max (-2 ^ 31) (min (2 ^ 31 - 1) n)

theorem toInt_clampCoordinate (n : Int) : (clampCoordinate n).toInt = held n := by
  have hmin : minCoordinate = -2 ^ 31 := rfl
  have hmax : maxCoordinate = 2 ^ 31 - 1 := rfl
  rw [clampCoordinate, held, hmin, hmax]
  exact Int32.toInt_ofInt_of_le (by omega) (by omega)

theorem held_mono {n m : Int} (h : n ≤ m) : held n ≤ held m := by
  unfold held
  omega

theorem held_of_fits {n : Int} (hlow : -2 ^ 31 ≤ n) (hhigh : n < 2 ^ 31) : held n = n := by
  unfold held
  omega

/-! ## One coordinate -/

/-- A sixteenth rounded down; numbers whose sixteenth vanishes count as zero. -/
def floorAside (v : ℚ) : Int := if Vanishes v then 0 else ⌊v / 16⌋

theorem floorAside_of_vanishes {v : ℚ} (h : Vanishes v) : floorAside v = 0 := if_pos h

theorem floorAside_of_not_vanishes {v : ℚ} (h : ¬ Vanishes v) : floorAside v = ⌊v / 16⌋ := if_neg h

theorem floorAside_mono {v w : ℚ} (h : v ≤ w) : floorAside v ≤ floorAside w := by
  by_cases hv : Vanishes v
  · rw [floorAside_of_vanishes hv]
    by_cases hw : Vanishes w
    · rw [floorAside_of_vanishes hw]
    · -- past the numbers set aside there is zero
      have hnonneg : 0 ≤ w := le_of_not_gt fun hneg => hw ⟨hv.1.trans h, hneg⟩
      rw [floorAside_of_not_vanishes hw]
      exact Int.floor_nonneg.mpr (by linarith)
  · rw [floorAside_of_not_vanishes hv]
    by_cases hw : Vanishes w
    · have hneg : v / 16 < 0 := by linarith [hw.2]
      rw [floorAside_of_vanishes hw]
      exact (Int.floor_lt.mpr (by exact_mod_cast hneg)).le
    · rw [floorAside_of_not_vanishes hw]
      exact Int.floor_le_floor (by linarith)

theorem toInt_coordinateOf {bits : UInt64} {v : ℚ} (h : (ofBits bits).value? = some v) :
    (Cell.coordinateOf bits).toInt = held (floorAside v) := by
  obtain ⟨negative, m, e, hbits, rfl⟩ := value?_eq_some_iff.mp h
  obtain ⟨hm, he⟩ := ofBits_bounds hbits
  obtain ⟨hvanishes, hkept⟩ := floor_sixteenth negative hm he
  have hcoordinate : Cell.coordinateOf bits =
      clampCoordinate (floorOf negative (shiftDown m e 4).1 (shiftDown m e 4).2) := by
    rw [Cell.coordinateOf, hbits]
    rfl
  rw [hcoordinate, toInt_clampCoordinate]
  by_cases hv : Vanishes (valueOf negative m e)
  · rw [(hvanishes hv).1, floorAside_of_vanishes hv]
  · rw [hkept hv, floorAside_of_not_vanishes hv]

theorem coordinateOf_notANumber {bits : UInt64} (h : ofBits bits = .notANumber) : Cell.coordinateOf bits = 0 := by
  rw [Cell.coordinateOf, h]

theorem coordinateOf_below {bits : UInt64} (h : ofBits bits = .infinite true) :
    (Cell.coordinateOf bits).toInt = -2 ^ 31 := by
  rw [Cell.coordinateOf, h]
  exact toInt_clampCoordinate minCoordinate

theorem coordinateOf_above {bits : UInt64} (h : ofBits bits = .infinite false) :
    (Cell.coordinateOf bits).toInt = 2 ^ 31 - 1 := by
  rw [Cell.coordinateOf, h]
  exact toInt_clampCoordinate maxCoordinate

/-- Larger doubles have coordinates at least as large. -/
theorem coordinateOf_mono {bits bits' : UInt64} (h : Le (ofBits bits) (ofBits bits')) :
    (Cell.coordinateOf bits).toInt ≤ (Cell.coordinateOf bits').toInt := by
  generalize hv : ofBits bits = v at h
  generalize hw : ofBits bits' = w at h
  cases h with
  | least _ =>
    rw [coordinateOf_below hv]
    exact Int32.le_toInt _
  | greatest _ =>
    rw [coordinateOf_above hw]
    have hlt := (Cell.coordinateOf bits).toInt_lt
    omega
  | finite hq hr hle =>
    subst hv hw
    rw [toInt_coordinateOf hq, toInt_coordinateOf hr]
    exact held_mono (floorAside_mono hle)

/-! ## Blocks -/

theorem toInt_shiftRight_blockShift (b : Int32) : (b >>> Int32.ofNat Cell.blockShift).toInt = b.toInt / 16 := by
  have hshift : ((Int32.ofNat Cell.blockShift).toBitVec.smod 32).toNat = 4 := by decide
  rw [← Int32.toInt_toBitVec, Int32.toBitVec_shiftRight, BitVec.toInt_sshiftRight', hshift, Int32.toInt_toBitVec,
    Int.shiftRight_eq_div_pow]
  rfl

/-- No whole number is among those set aside. -/
theorem not_vanishes_intCast (n : Int) : ¬ Vanishes n := by
  rintro ⟨hlow, hneg⟩
  have hone : n ≤ -1 := by
    have hlt : n < 0 := by exact_mod_cast hneg
    omega
  have hcast : (n : ℚ) ≤ -1 := by exact_mod_cast hone
  have hsmall : (2 : ℚ) ^ (-1071 : Int) < 1 := by
    calc (2 : ℚ) ^ (-1071 : Int) < 2 ^ (0 : Int) := zpow_lt_zpow_right₀ (by norm_num) (by omega)
      _ = 1 := zpow_zero _
  linarith

theorem floor_div_sixteen (n : Int) : ⌊(n : ℚ) / 16⌋ = n / 16 := Rat.floor_intCast_div_natCast n 16

/-- A whole coordinate lies in the cell of the block with that number. -/
theorem coordinateOf_block {bits : UInt64} {b : Int32} (h : (ofBits bits).value? = some (b.toInt : ℚ)) :
    Cell.coordinateOf bits = b >>> Int32.ofNat Cell.blockShift := by
  have hlow := b.le_toInt
  have hhigh := b.toInt_lt
  rw [← Int32.toInt_inj, toInt_coordinateOf h, floorAside_of_not_vanishes (not_vanishes_intCast _), floor_div_sixteen,
    toInt_shiftRight_blockShift]
  exact held_of_fits (by omega) (by omega)

/-! ## Cells -/

/-- What a coordinate of a cell is, by the bits of the block coordinate. -/
structure FloorOf (bits : UInt64) (c : Int32) : Prop where
  notANumber : ofBits bits = .notANumber → c = 0
  below : ofBits bits = .infinite true → c.toInt = -2 ^ 31
  above : ofBits bits = .infinite false → c.toInt = 2 ^ 31 - 1
  /-- Finite coordinates are divided by sixteen, rounded down and held inside the range. -/
  finite : ∀ v, (ofBits bits).value? = some v → ¬ (-2 ^ (-1071 : Int) ≤ v ∧ v < 0) →
    c.toInt = max (-2 ^ 31) (min (2 ^ 31 - 1) ⌊v / 16⌋)
  /-- The negative ones nearest to zero lie in cell zero. -/
  nearZero : ∀ v, (ofBits bits).value? = some v → -2 ^ (-1071 : Int) ≤ v → v < 0 → c = 0 ∧ ⌊v / 16⌋ = -1

/-- Points and blocks lie in the same cells. -/
structure WorldFloored : Prop where
  coordinates : ∀ x z, FloorOf x (Cell.ofWorldBits x z).x ∧ FloorOf z (Cell.ofWorldBits x z).z
  /-- A larger coordinate of a point never lies in a smaller cell. -/
  monotone : ∀ x x' z z',
    (Le (ofBits x) (ofBits x') → (Cell.ofWorldBits x z).x.toInt ≤ (Cell.ofWorldBits x' z').x.toInt) ∧
    (Le (ofBits z) (ofBits z') → (Cell.ofWorldBits x z).z.toInt ≤ (Cell.ofWorldBits x' z').z.toInt)
  /-- Every block coordinate is the number behind some bits. -/
  whole : ∀ b : Int32, (ofBits (bitsOfWhole b.toInt)).value? = some (b.toInt : ℚ)
  /-- With any bits for the coordinates of a block the point lies in the cell of the block. -/
  blocks : ∀ (bx bz : Int32) (x z : UInt64), (ofBits x).value? = some (bx.toInt : ℚ) →
    (ofBits z).value? = some (bz.toInt : ℚ) → Cell.ofWorldBits x z = Cell.ofBlock bx bz
  /-- The cell of a block. -/
  sixteenths : ∀ bx bz : Int32, (Cell.ofBlock bx bz).x.toInt = ⌊(bx.toInt : ℚ) / 16⌋ ∧
    (Cell.ofBlock bx bz).z.toInt = ⌊(bz.toInt : ℚ) / 16⌋

theorem floorOf_coordinateOf (bits : UInt64) : FloorOf bits (Cell.coordinateOf bits) where
  notANumber := coordinateOf_notANumber
  below := coordinateOf_below
  above := coordinateOf_above
  finite := by
    intro v hv hkept
    rw [toInt_coordinateOf hv, floorAside_of_not_vanishes hkept, held]
  nearZero := by
    intro v hv hlow hneg
    have hvanishes : Vanishes v := ⟨hlow, hneg⟩
    constructor
    · have hzero : (Cell.coordinateOf bits).toInt = (0 : Int32).toInt := by
        rw [toInt_coordinateOf hv, floorAside_of_vanishes hvanishes]
        rfl
      exact Int32.toInt_inj.mp hzero
    · obtain ⟨negative, m, e, hbits, rfl⟩ := value?_eq_some_iff.mp hv
      obtain ⟨hm, he⟩ := ofBits_bounds hbits
      exact ((floor_sixteenth negative hm he).1 hvanishes).2

theorem world_floored : WorldFloored where
  coordinates := fun x z => ⟨floorOf_coordinateOf x, floorOf_coordinateOf z⟩
  monotone := fun _ _ _ _ => ⟨coordinateOf_mono, coordinateOf_mono⟩
  whole := by
    intro b
    have hlow := b.le_toInt
    have hhigh := b.toInt_lt
    exact value?_bitsOfWhole (by omega)
  blocks := by
    intro bx bz x z hx hz
    rw [Cell.ofWorldBits, coordinateOf_block hx, coordinateOf_block hz, Cell.ofBlock]
  sixteenths := by
    intro bx bz
    rw [floor_div_sixteen, floor_div_sixteen]
    exact ⟨toInt_shiftRight_blockShift bx, toInt_shiftRight_blockShift bz⟩

/-- The last number that lies in cell zero although it is negative, and the next one below it. -/
example : Cell.ofWorldBits 0x8000000000000008 0x8000000000000009 = ⟨0, -1⟩ := by decide +kernel

end GridTick
