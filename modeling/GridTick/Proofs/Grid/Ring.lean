import GridTick.Grid.Window

/-!
# GridTick.Proofs.Grid.Ring — moves and gaps on the closed grid

The gap between two coordinates is the least number of steps that leads from one to the other round the circle.  So
squares of one radius share a cell exactly when their centres are at most twice the radius apart.

* `ringGap_le_iff`: the gap, by moves.
* `ringGap_meet`, `Cell.ringDistance_meet`: squares that share a cell.
* `Key.cell_key`, `Key.key_cell`: packing loses nothing.
* `Window.mem_keys`: the keys of a window, by distance.
-/

namespace GridTick

/-! ## One axis -/

section Axis

variable {a b : Int32} {s : Nat}

theorem gridSide_eq : gridSide = 4294967296 := rfl

theorem add_ofInt_eq_iff {d : Int} : a + .ofInt d = b ↔ ∃ q : Int, b.toInt = a.toInt + d + 4294967296 * q := by
  have hlt := b.toInt_lt
  have hle := b.le_toInt
  have hsum : a + .ofInt d = .ofInt (a.toInt + d) := by rw [Int32.ofInt_add, Int32.ofInt_toInt]
  rw [hsum, Int32.ofInt_eq_iff_bmod_eq_toInt, Int.bmod_eq_iff (by decide)]
  constructor
  · rintro ⟨-, -, q, hq⟩
    exact ⟨q, by omega⟩
  · rintro ⟨q, hq⟩
    exact ⟨by omega, by omega, q, by omega⟩

/-- The gap is at most `s` exactly when a move of at most `s` steps leads across it. -/
theorem ringGap_le_iff : ringGap a b ≤ s ↔ ∃ d : Int, d.natAbs ≤ s ∧ a + .ofInt d = b := by
  have ha := a.toInt_lt
  have ha' := a.le_toInt
  have hb := b.toInt_lt
  have hb' := b.le_toInt
  simp only [add_ofInt_eq_iff, ringGap, lineGap, gridSide_eq]
  constructor
  · intro h
    by_cases hline : (a.toInt - b.toInt).natAbs ≤ s
    · exact ⟨b.toInt - a.toInt, by omega, 0, by omega⟩
    · -- the short way leads over the edge
      by_cases hab : a.toInt ≤ b.toInt
      · exact ⟨b.toInt - a.toInt - 4294967296, by omega, 1, by omega⟩
      · exact ⟨b.toInt - a.toInt + 4294967296, by omega, -1, by omega⟩
  · rintro ⟨d, hd, q, hq⟩
    by_cases hs : 2147483648 ≤ s
    · omega
    · have hq' : q = 0 ∨ q = 1 ∨ q = -1 := by omega
      rcases hq' with rfl | rfl | rfl
      · omega
      · omega
      · omega

theorem ringGap_self : ringGap a a = 0 := by
  simp [ringGap, lineGap]

theorem ringGap_comm : ringGap a b = ringGap b a := by
  simp only [ringGap, lineGap]
  omega

theorem ringGap_le_half : ringGap a b ≤ 2147483648 := by
  simp only [ringGap, gridSide_eq]
  omega

/-- Two stretches of radius `s` share a coordinate exactly when their middles are at most `2 * s` apart. -/
theorem ringGap_meet : (∃ c, ringGap a c ≤ s ∧ ringGap b c ≤ s) ↔ ringGap a b ≤ 2 * s := by
  constructor
  · rintro ⟨c, hac, hbc⟩
    rw [ringGap_comm] at hbc
    obtain ⟨d, hd, rfl⟩ := ringGap_le_iff.mp hac
    obtain ⟨d', hd', rfl⟩ := ringGap_le_iff.mp hbc
    refine ringGap_le_iff.mpr ⟨d + d', by omega, ?_⟩
    rw [Int32.ofInt_add, Int32.add_assoc]
  · intro h
    obtain ⟨d, hd, rfl⟩ := ringGap_le_iff.mp h
    -- go as far as the first stretch reaches, and leave the rest to the second
    have hhalf : ∃ d₁ d₂ : Int, d = d₁ + d₂ ∧ d₁.natAbs ≤ s ∧ d₂.natAbs ≤ s := by
      refine ⟨max (-(s : Int)) (min (s : Int) d), d - max (-(s : Int)) (min (s : Int) d), ?_, ?_, ?_⟩
      · omega
      · omega
      · omega
    obtain ⟨d₁, d₂, rfl, hd₁, hd₂⟩ := hhalf
    refine ⟨a + .ofInt d₁, ringGap_le_iff.mpr ⟨d₁, hd₁, rfl⟩, ?_⟩
    rw [ringGap_comm]
    refine ringGap_le_iff.mpr ⟨d₂, hd₂, ?_⟩
    rw [Int32.ofInt_add, Int32.add_assoc]

theorem mem_steps {x : Int32} : x ∈ steps s ↔ ∃ d : Int, d.natAbs ≤ s ∧ .ofInt d = x := by
  simp only [steps, List.mem_map, List.mem_range]
  constructor
  · rintro ⟨i, hi, rfl⟩
    exact ⟨i - s, by omega, rfl⟩
  · rintro ⟨d, hd, rfl⟩
    refine ⟨(d + s).toNat, by omega, ?_⟩
    have hback : ((d + s).toNat : Int) - s = d := by omega
    rw [hback]

end Axis

/-! ## Cells -/

namespace Cell

variable {a b c : Cell} {s : Nat}

theorem ringDistance_le_iff : a.ringDistance b ≤ s ↔ ringGap a.x b.x ≤ s ∧ ringGap a.z b.z ≤ s := by
  rw [ringDistance, Nat.max_le]

theorem ringDistance_self : a.ringDistance a = 0 := by
  rw [ringDistance, ringGap_self, ringGap_self, Nat.max_self]

theorem ringDistance_le_half : a.ringDistance b ≤ 2147483648 :=
  ringDistance_le_iff.mpr ⟨ringGap_le_half, ringGap_le_half⟩

/-- Two squares of radius `s` share a cell exactly when their centres are at most `2 * s` apart. -/
theorem ringDistance_meet : (∃ c, a.ringDistance c ≤ s ∧ b.ringDistance c ≤ s) ↔ a.ringDistance b ≤ 2 * s := by
  simp only [ringDistance_le_iff, ← ringGap_meet]
  constructor
  · rintro ⟨c, ⟨hax, haz⟩, hbx, hbz⟩
    exact ⟨⟨c.x, hax, hbx⟩, c.z, haz, hbz⟩
  · rintro ⟨⟨x, hax, hbx⟩, z, haz, hbz⟩
    exact ⟨⟨x, z⟩, ⟨hax, haz⟩, hbx, hbz⟩

end Cell

/-! ## Keys -/

namespace Key

theorem ofCoordinates_toNat (x z : Int32) :
    (ofCoordinates x z).bits.toNat = z.toUInt32.toNat * 4294967296 + x.toUInt32.toNat := by
  have hx := x.toUInt32.toNat_lt
  have hz := z.toUInt32.toNat_lt
  have hhigh : z.toUInt32.toNat <<< 32 = z.toUInt32.toNat * 4294967296 := Nat.shiftLeft_eq ..
  have hshift : (z.toUInt32.toUInt64 <<< 32).toNat = z.toUInt32.toNat <<< 32 := by
    rw [UInt64.toNat_shiftLeft, UInt32.toNat_toUInt64]
    show z.toUInt32.toNat <<< 32 % 18446744073709551616 = z.toUInt32.toNat <<< 32
    omega
  rw [ofCoordinates, UInt64.toNat_or, hshift, UInt32.toNat_toUInt64, ← Nat.shiftLeft_add_eq_or_of_lt hx, hhigh]

theorem x_toNat (k : Key) : k.x.toUInt32.toNat = k.bits.toNat % 4294967296 := by
  rw [x, UInt32.toUInt32_toInt32, UInt64.toNat_toUInt32]

theorem z_toNat (k : Key) : k.z.toUInt32.toNat = k.bits.toNat / 4294967296 := by
  have hlt := k.bits.toNat_lt
  have hhigh : k.bits.toNat >>> 32 = k.bits.toNat / 4294967296 := Nat.shiftRight_eq_div_pow ..
  have hshift : (k.bits >>> 32).toNat = k.bits.toNat >>> 32 := UInt64.toNat_shiftRight ..
  rw [z, UInt32.toUInt32_toInt32, UInt64.toNat_toUInt32, hshift, hhigh]
  exact Nat.mod_eq_of_lt (by omega)

theorem cell_key (c : Cell) : c.key.cell = c := by
  obtain ⟨x, z⟩ := c
  have hbits : (Cell.key ⟨x, z⟩).bits.toNat = z.toUInt32.toNat * 4294967296 + x.toUInt32.toNat :=
    ofCoordinates_toNat x z
  have hx := x.toUInt32.toNat_lt
  have hcx : (Cell.key ⟨x, z⟩).x.toUInt32 = x.toUInt32 := by
    refine UInt32.toNat_inj.mp ?_
    rw [x_toNat, hbits]
    omega
  have hcz : (Cell.key ⟨x, z⟩).z.toUInt32 = z.toUInt32 := by
    refine UInt32.toNat_inj.mp ?_
    rw [z_toNat, hbits]
    omega
  have hcx' : (Cell.key ⟨x, z⟩).x = x := congrArg UInt32.toInt32 hcx
  have hcz' : (Cell.key ⟨x, z⟩).z = z := congrArg UInt32.toInt32 hcz
  rw [cell, hcx', hcz']

theorem key_cell (k : Key) : k.cell.key = k := by
  obtain ⟨bits⟩ := k
  have hbits := ofCoordinates_toNat (Key.x ⟨bits⟩) (Key.z ⟨bits⟩)
  rw [x_toNat, z_toNat] at hbits
  refine congrArg Key.mk (UInt64.toNat_inj.mp (hbits.trans ?_))
  dsimp only
  omega

end Key

theorem Cell.key_injective {c c' : Cell} (h : c.key = c'.key) : c = c' := by
  rw [← Key.cell_key c, h, Key.cell_key]

/-! ## Windows -/

/-- A window lists the cells within its reach. -/
theorem Window.mem_keys {w : Window} {k : Key} : k ∈ w.keys ↔ w.center.ringDistance k.cell ≤ w.reach := by
  simp only [keys, List.mem_flatMap, List.mem_map, Cell.ringDistance_le_iff, ringGap_le_iff, mem_steps]
  constructor
  · rintro ⟨_, ⟨dx, hdx, rfl⟩, _, ⟨dz, hdz, rfl⟩, rfl⟩
    rw [Key.cell_key]
    exact ⟨⟨dx, hdx, rfl⟩, dz, hdz, rfl⟩
  · rintro ⟨⟨dx, hdx, hx⟩, dz, hdz, hz⟩
    refine ⟨_, ⟨dx, hdx, rfl⟩, _, ⟨dz, hdz, rfl⟩, ?_⟩
    have hcell : w.center.offset (.ofInt dx) (.ofInt dz) = k.cell := by rw [Cell.offset, hx, hz]
    rw [hcell, Key.key_cell]

theorem Window.mem_toSet {w : Window} {k : Key} : k ∈ w.toSet ↔ k ∈ w.keys := KeySet.mem_ofList

end GridTick
