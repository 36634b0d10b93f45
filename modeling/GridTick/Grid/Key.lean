import GridTick.Grid.Cell
import Std.Data.ExtTreeSet

/-!
# GridTick.Grid.Key — packed cells

A `Key` is a cell in one 64-bit word: `z` in the high half and `x` in the low half, each as the unsigned word of the
same bits.  Keys are ordered by that word, which is the order in which a `KeySet` lists its members; two key sets
with the same members are equal.

* `Key.ofCell`, `Key.cell`: packing and unpacking.
* `KeySet.meets`: whether two sets share a key.
-/

namespace GridTick

/-- A cell packed into one word. -/
structure Key where
  bits : UInt64
deriving DecidableEq, Inhabited, Repr

namespace Key

/-- Pack two coordinates: `z` above, `x` below. -/
def ofCoordinates (x z : Int32) : Key :=
  ⟨(z.toUInt32.toUInt64 <<< 32) ||| x.toUInt32.toUInt64⟩

def ofCell (c : Cell) : Key := ofCoordinates c.x c.z

/-- Signed coordinate in the low half. -/
def x (k : Key) : Int32 := k.bits.toUInt32.toInt32

/-- Signed coordinate in the high half. -/
def z (k : Key) : Int32 := (k.bits >>> 32).toUInt32.toInt32

def cell (k : Key) : Cell := ⟨k.x, k.z⟩

def text (k : Key) : String := s!"{k.x.toInt}:{k.z.toInt}"

def describe (k : Key) : String := s!"ChunkKey({k.x.toInt}, {k.z.toInt})"

instance : Ord Key := ⟨fun a b => compare a.bits b.bits⟩

theorem compare_def (a b : Key) : compare a b = compare a.bits b.bits := rfl

instance : Std.OrientedOrd Key where
  eq_swap {a b} := by simpa only [compare_def] using Std.OrientedCmp.eq_swap

instance : Std.TransOrd Key where
  isLE_trans {a b c} h₁ h₂ := by
    simp only [compare_def] at h₁ h₂ ⊢
    exact Std.TransCmp.isLE_trans h₁ h₂

instance : Std.LawfulEqOrd Key where
  eq_of_compare {a b} h := by
    have hc : compare a.bits b.bits = .eq := h
    have hb : a.bits = b.bits := Std.LawfulEqCmp.eq_of_compare hc
    cases a; cases b; simp_all

end Key

def Cell.key (c : Cell) : Key := Key.ofCell c

/-- A finite set of keys. -/
abbrev KeySet := Std.ExtTreeSet Key

namespace KeySet

def meets (a b : KeySet) : Bool := !(a.inter b).isEmpty

theorem meets_iff {a b : KeySet} : a.meets b = true ↔ ∃ k, k ∈ a ∧ k ∈ b := by
  have h : (a ∩ b).isEmpty ↔ ∀ k, k ∈ a → k ∉ b := Std.ExtTreeSet.isEmpty_inter_iff
  rw [← Std.ExtTreeSet.inter_eq] at h
  rw [meets, Bool.not_eq_true', ← Bool.not_eq_true, h]
  simp

theorem mem_insert {s : KeySet} {k k' : Key} : k ∈ s.insert k' ↔ k = k' ∨ k ∈ s := by
  rw [Std.ExtTreeSet.mem_insert, Std.LawfulEqCmp.compare_eq_iff_eq, eq_comm]

theorem mem_ofList {l : List Key} {k : Key} : k ∈ (Std.ExtTreeSet.ofList l : KeySet) ↔ k ∈ l := by
  rw [Std.ExtTreeSet.mem_ofList, List.contains_iff_mem]

theorem mem_union {a b : KeySet} {k : Key} : k ∈ a.union b ↔ k ∈ a ∨ k ∈ b := by
  rw [Std.ExtTreeSet.union_eq, Std.ExtTreeSet.mem_union_iff]

theorem mem_toList {s : KeySet} {k : Key} : k ∈ s.toList ↔ k ∈ s := Std.ExtTreeSet.mem_toList

theorem nodup_toList (s : KeySet) : s.toList.Nodup := by
  refine Std.ExtTreeSet.distinct_toList.imp fun hne heq => hne ?_
  rw [heq, Std.LawfulEqCmp.compare_eq_iff_eq]

end KeySet

end GridTick
