import Mathlib.Data.Int.ModEq
import Mathlib.Algebra.BigOperators.Group.List.Basic
import GridTick.Proofs.Grid.Ring

/-!
# GridTick.Proofs.Grid.Walk — keys of the cells on a walk

A key is a word for a cell and nothing else: every word is the key of one cell, and however a key is made from a cell
it is the same.  So what moves do to a key is what they do to the cell.  Only the sums of the moves matter, each round
the circle of `2^32` steps.

* `alongX`, `alongZ`: the sums of a list of moves.
* `Cell.walk_eq_offset`: a walk is one move by the sums.
* `Cell.walk_eq_iff`, `Cell.walk_eq_self_iff`: walks that end in one cell, and walks that return.
* `FaithfulKeys`, `key_faithful`: packing and unpacking, and keys on walks.
-/

namespace GridTick

/-! ## Sums of moves -/

/-- Steps along the first axis in all, backward ones counted down and none cut off at the edge. -/
def alongX (moves : List (Int32 × Int32)) : Int := (moves.map fun m => m.1.toInt).sum

/-- Steps along the second axis in all. -/
def alongZ (moves : List (Int32 × Int32)) : Int := (moves.map fun m => m.2.toInt).sum

theorem alongX_cons (m : Int32 × Int32) (moves : List (Int32 × Int32)) :
    alongX (m :: moves) = m.1.toInt + alongX moves := by
  rw [alongX, List.map_cons, List.sum_cons, alongX]

theorem alongZ_cons (m : Int32 × Int32) (moves : List (Int32 × Int32)) :
    alongZ (m :: moves) = m.2.toInt + alongZ moves := by
  rw [alongZ, List.map_cons, List.sum_cons, alongZ]

theorem alongX_perm {moves moves' : List (Int32 × Int32)} (h : moves.Perm moves') : alongX moves = alongX moves' :=
  (h.map _).sum_eq

theorem alongZ_perm {moves moves' : List (Int32 × Int32)} (h : moves.Perm moves') : alongZ moves = alongZ moves' :=
  (h.map _).sum_eq

/-- Two moves from one coordinate end at the same one just if they differ by whole turns of the circle. -/
theorem add_ofInt_inj {a : Int32} {d d' : Int} : a + .ofInt d = a + .ofInt d' ↔ d ≡ d' [ZMOD 2 ^ 32] := by
  obtain ⟨q', hq'⟩ := add_ofInt_eq_iff.mp (rfl : a + .ofInt d' = a + .ofInt d')
  rw [add_ofInt_eq_iff, Int.modEq_iff_dvd]
  constructor
  · rintro ⟨q, hq⟩
    exact ⟨q - q', by omega⟩
  · rintro ⟨q, hq⟩
    exact ⟨q + q', by omega⟩

theorem add_ofInt_eq_self_iff {a : Int32} {d : Int} : a + .ofInt d = a ↔ d ≡ 0 [ZMOD 2 ^ 32] := by
  have hzero : a + .ofInt 0 = a := Int32.add_zero a
  rw [← add_ofInt_inj (a := a), hzero]

/-- The unsigned word of a coordinate that is `d` steps on. -/
theorem toNat_add_ofInt (a : Int32) (d : Int) : ((a + .ofInt d).toUInt32.toNat : Int) = (a.toInt + d) % 2 ^ 32 := by
  obtain ⟨q, hq⟩ := add_ofInt_eq_iff.mp (rfl : a + .ofInt d = _)
  have hsigned : (a + .ofInt d).toInt = if 2 * (a + .ofInt d).toUInt32.toNat < 2 ^ 32
      then ((a + .ofInt d).toUInt32.toNat : Int) else (a + .ofInt d).toUInt32.toNat - (2 ^ 32 : Nat) :=
    BitVec.toInt_eq_toNat_cond _
  have hlt := (a + .ofInt d).toUInt32.toNat_lt
  rw [hsigned] at hq
  split at hq
  · omega
  · omega

/-! ## Walks -/

namespace Cell

variable {c : Cell} {moves moves' : List (Int32 × Int32)}

/-- A walk ends where one move by its sums ends. -/
theorem walk_eq_offset (c : Cell) (moves : List (Int32 × Int32)) :
    c.walk moves = c.offset (.ofInt (alongX moves)) (.ofInt (alongZ moves)) := by
  induction moves generalizing c with
  | nil => exact (offset_zero c).symm
  | cons m moves ih =>
    rw [walk_cons, ih, alongX_cons, alongZ_cons]
    simp only [offset, Int32.ofInt_add, Int32.ofInt_toInt, Int32.add_assoc]

theorem offset_eq_iff {x z : Int32} {c' : Cell} : c.offset x z = c' ↔ c.x + x = c'.x ∧ c.z + z = c'.z := by
  obtain ⟨x', z'⟩ := c'
  rw [offset, mk.injEq]

theorem walk_eq_iff : c.walk moves = c.walk moves' ↔
    alongX moves ≡ alongX moves' [ZMOD 2 ^ 32] ∧ alongZ moves ≡ alongZ moves' [ZMOD 2 ^ 32] := by
  rw [walk_eq_offset c moves, walk_eq_offset c moves', offset_eq_iff]
  exact and_congr add_ofInt_inj add_ofInt_inj

theorem walk_eq_self_iff : c.walk moves = c ↔ alongX moves ≡ 0 [ZMOD 2 ^ 32] ∧ alongZ moves ≡ 0 [ZMOD 2 ^ 32] := by
  rw [walk_eq_offset, offset_eq_iff, add_ofInt_eq_self_iff, add_ofInt_eq_self_iff]

theorem walk_perm (h : moves.Perm moves') : c.walk moves = c.walk moves' := by
  rw [walk_eq_offset, walk_eq_offset, alongX_perm h, alongZ_perm h]

end Cell

/-! ## Keys -/

theorem Cell.key_inj {c c' : Cell} : c.key = c'.key ↔ c = c' := ⟨key_injective, congrArg key⟩

/-- The word of the key at the end of a walk. -/
theorem Key.bits_walk (c : Cell) (moves : List (Int32 × Int32)) : ((c.walk moves).key.bits.toNat : Int) =
    (c.z.toInt + alongZ moves) % 2 ^ 32 * 2 ^ 32 + (c.x.toInt + alongX moves) % 2 ^ 32 := by
  have hword : (c.walk moves).key.bits.toNat =
      (c.walk moves).z.toUInt32.toNat * 4294967296 + (c.walk moves).x.toUInt32.toNat := ofCoordinates_toNat _ _
  have hx := toNat_add_ofInt c.x (alongX moves)
  have hz := toNat_add_ofInt c.z (alongZ moves)
  rw [hword, Cell.walk_eq_offset, Cell.offset]
  push_cast
  rw [hx, hz]
  rfl

/-- Keys stand for cells: pairs of coordinates and words go over into one another, a key made from a cell in any way is
the same, and the key at the end of a walk tells the sums of its moves up to whole turns and nothing else. -/
structure FaithfulKeys : Prop where
  unpacked : ∀ x z : Int32, (Key.ofCoordinates x z).cell = ⟨x, z⟩
  packed : ∀ bits : UInt64, (Key.ofCoordinates (Key.mk bits).cell.x (Key.mk bits).cell.z).bits = bits
  toWord : Function.Bijective fun p : Int32 × Int32 => (Key.ofCoordinates p.1 p.2).bits
  ofWord : Function.Bijective fun bits : UInt64 => ((Key.mk bits).x, (Key.mk bits).z)
  same : ∀ c : Cell, Key.ofCoordinates c.x c.z = c.key ∧ Key.ofCell c = c.key ∧ Key.mk c.key.bits = c.key
  walked : ∀ (c : Cell) (moves : List (Int32 × Int32)), ((c.walk moves).key.bits.toNat : Int) =
    (c.z.toInt + alongZ moves) % 2 ^ 32 * 2 ^ 32 + (c.x.toInt + alongX moves) % 2 ^ 32
  apart : ∀ (c : Cell) (moves moves' : List (Int32 × Int32)), (c.walk moves).key = (c.walk moves').key ↔
    alongX moves ≡ alongX moves' [ZMOD 2 ^ 32] ∧ alongZ moves ≡ alongZ moves' [ZMOD 2 ^ 32]
  returned : ∀ (c : Cell) (moves : List (Int32 × Int32)), (c.walk moves).key = c.key ↔
    alongX moves ≡ 0 [ZMOD 2 ^ 32] ∧ alongZ moves ≡ 0 [ZMOD 2 ^ 32]
  reordered : ∀ (c : Cell) {moves moves' : List (Int32 × Int32)}, moves.Perm moves' →
    (c.walk moves).key = (c.walk moves').key

/-- Packing loses nothing and adds nothing, at any number of moves of any length round the grid. -/
theorem key_faithful : FaithfulKeys := by
  have hunpacked : ∀ x z : Int32, (Key.ofCoordinates x z).cell = ⟨x, z⟩ := fun x z => Key.cell_key ⟨x, z⟩
  have hpacked : ∀ bits : UInt64, (Key.ofCoordinates (Key.mk bits).cell.x (Key.mk bits).cell.z).bits = bits :=
    fun bits => congrArg Key.bits (Key.key_cell ⟨bits⟩)
  -- the two packings undo each other, so each is a bijection
  have hleft : Function.LeftInverse (fun bits : UInt64 => ((Key.mk bits).x, (Key.mk bits).z))
      fun p : Int32 × Int32 => (Key.ofCoordinates p.1 p.2).bits := by
    intro p
    obtain ⟨hx, hz⟩ := Cell.mk.inj (hunpacked p.1 p.2)
    exact Prod.ext hx hz
  have hright : Function.RightInverse (fun bits : UInt64 => ((Key.mk bits).x, (Key.mk bits).z))
      fun p : Int32 × Int32 => (Key.ofCoordinates p.1 p.2).bits := hpacked
  exact {
    unpacked := hunpacked
    packed := hpacked
    toWord := ⟨hleft.injective, hright.surjective⟩
    ofWord := ⟨hright.injective, hleft.surjective⟩
    same := fun c => ⟨rfl, rfl, rfl⟩
    walked := Key.bits_walk
    apart := fun c moves moves' => Cell.key_inj.trans Cell.walk_eq_iff
    returned := fun c moves => Cell.key_inj.trans Cell.walk_eq_self_iff
    reordered := fun c _ _ h => congrArg Cell.key (Cell.walk_perm h) }

/-- Half a turn twice leads back; half a turn along one axis and three steps along the other do not. -/
example : ((Cell.mk (-5) 7).walk [(-2147483648, 0), (-2147483648, 0)]).key = (Cell.mk (-5) 7).key ∧
    ((Cell.mk (-5) 7).walk [(-2147483648, 1), (0, 2)]).key ≠ (Cell.mk (-5) 7).key := by decide

end GridTick
