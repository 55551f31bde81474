import LinuxDriver.BlkdevState
import Mathlib.Tactic.Ring

namespace LinuxDriver.BlkdevGeometry

open BlkdevState

structure HdGeometry where
  heads : UInt8
  sectors : UInt8
  cylinders : UInt16
  start : UInt64

def headsSectors (simpBlkdevBytes : Nat) : UInt8 × UInt8 :=
  if simpBlkdevBytes < 16 * 1024 * 1024 then (1, 1)
  else if simpBlkdevBytes < 512 * 1024 * 1024 then (1, 32)
  else if simpBlkdevBytes < 16 * 1024 * 1024 * 1024 then (32, 32)
  else (255, 63)

/-- `/` binds tighter than `>>`, so it is the shift count that gets divided. -/
def simpBlkdevGetgeo (simpBlkdevBytes : UInt64) (geo : HdGeometry) : Int × HdGeometry :=
  let hs := headsSectors simpBlkdevBytes.toNat
  let shift := simpBlkdevSectorshift / hs.1.toNat / hs.2.toNat
  (0, { geo with
    heads := hs.1
    sectors := hs.2
    cylinders := UInt16.ofNat (simpBlkdevBytes.toNat >>> shift) })

/-- A line of the table in the comment of `simp_blkdev_getgeo`. -/
structure Row where
  heads : Nat
  sectors : Nat
  cylMin : Nat
  cylMax : Option Nat

def tableRow (bytes : Nat) : Row :=
  if bytes < 16 * 1024 * 1024 then ⟨1, 1, 0, some 32768⟩
  else if bytes < 512 * 1024 * 1024 then ⟨1, 32, 1024, some 32768⟩
  else if bytes < 16 * 1024 * 1024 * 1024 then ⟨32, 32, 1024, some 32768⟩
  else ⟨255, 63, 2088, none⟩

def Row.size (r : Row) : Nat := r.heads * r.sectors

/-- The geometry is that of the table for `bytes`, its cylinders as many as the
capacity fills. -/
structure Honest (bytes : Nat) (geo : HdGeometry) : Prop where
  heads : geo.heads.toNat = (tableRow bytes).heads
  sectors : geo.sectors.toNat = (tableRow bytes).sectors
  cylinders : geo.cylinders.toNat = bytes / 512 / (tableRow bytes).size
  le : (tableRow bytes).size * geo.cylinders.toNat ≤ bytes / 512
  lt : bytes / 512 < (tableRow bytes).size * (geo.cylinders.toNat + 1)
  cylMin_le : (tableRow bytes).cylMin ≤ geo.cylinders.toNat
  le_cylMax : ∀ m, (tableRow bytes).cylMax = some m → geo.cylinders.toNat ≤ m

inductive RowCase (bytes : Nat) : Row → Prop
  | first (h : bytes < 2 ^ 24) : RowCase bytes ⟨1, 1, 0, some 32768⟩
  | second (h : 2 ^ 24 ≤ bytes) (h' : bytes < 2 ^ 29) : RowCase bytes ⟨1, 32, 1024, some 32768⟩
  | third (h : 2 ^ 29 ≤ bytes) (h' : bytes < 2 ^ 34) : RowCase bytes ⟨32, 32, 1024, some 32768⟩
  | last (h : 2 ^ 34 ≤ bytes) : RowCase bytes ⟨255, 63, 2088, none⟩

theorem tableRow_case (bytes : Nat) : RowCase bytes (tableRow bytes) := by
  rw [tableRow]
  split
  · exact .first (by assumption)
  · split
    · exact .second (by omega) (by assumption)
    · split
      · exact .third (by omega) (by assumption)
      · exact .last (by omega)

theorem size_pos (bytes : Nat) : 0 < (tableRow bytes).size := by
  have h := tableRow_case bytes
  generalize tableRow bytes = r at *
  cases h <;> decide

theorem headsSectors_eq (bytes : Nat) :
    (headsSectors bytes).1.toNat = (tableRow bytes).heads ∧
      (headsSectors bytes).2.toNat = (tableRow bytes).sectors := by
  rw [headsSectors, tableRow]
  split
  · exact ⟨rfl, rfl⟩
  · split
    · exact ⟨rfl, rfl⟩
    · split <;> exact ⟨rfl, rfl⟩

theorem table_range (bytes : Nat) :
    (tableRow bytes).cylMin ≤ bytes / 512 / (tableRow bytes).size ∧
      ∀ m, (tableRow bytes).cylMax = some m → bytes / 512 / (tableRow bytes).size ≤ m := by
  have h := tableRow_case bytes
  generalize tableRow bytes = r at *
  cases h <;> simp only [Row.size, Option.some.injEq, forall_eq', reduceCtorEq, false_imp_iff,
    implies_true, and_true] <;> omega

/-- Only the cylinders can be wrong. -/
theorem honest_iff_cylinders (simpBlkdevBytes : UInt64) (geo : HdGeometry) :
    Honest simpBlkdevBytes.toNat (simpBlkdevGetgeo simpBlkdevBytes geo).2 ↔
      (simpBlkdevGetgeo simpBlkdevBytes geo).2.cylinders.toNat =
        simpBlkdevBytes.toNat / 512 / (tableRow simpBlkdevBytes.toNat).size := by
  obtain ⟨hheads, hsectors⟩ := headsSectors_eq simpBlkdevBytes.toNat
  obtain ⟨hmin, hmax⟩ := table_range simpBlkdevBytes.toNat
  have hpos := size_pos simpBlkdevBytes.toNat
  constructor
  · intro h
    exact h.cylinders
  · intro h
    refine ⟨hheads, hsectors, h, ?_, ?_, ?_, ?_⟩ <;> rw [h]
    · exact Nat.mul_div_le _ _
    · exact Nat.lt_mul_div_succ _ hpos
    · exact hmin
    · exact hmax

theorem getgeo_cylinders (simpBlkdevBytes : UInt64) (geo : HdGeometry) :
    (simpBlkdevGetgeo simpBlkdevBytes geo).2.cylinders.toNat =
      if simpBlkdevBytes.toNat < 2 ^ 24 then simpBlkdevBytes.toNat / 512
      else simpBlkdevBytes.toNat % 2 ^ 16 := by
  obtain ⟨hheads, hsectors⟩ := headsSectors_eq simpBlkdevBytes.toNat
  have h := tableRow_case simpBlkdevBytes.toNat
  simp only [simpBlkdevGetgeo, hheads, hsectors, UInt16.toNat_ofNat', Nat.shiftRight_eq_div_pow]
  generalize tableRow simpBlkdevBytes.toNat = r at *
  cases h with
  | first h =>
    rw [if_pos h]
    change simpBlkdevBytes.toNat / 512 % 2 ^ 16 = _
    omega
  | second h | third h | last h =>
    rw [if_neg (by omega)]
    change simpBlkdevBytes.toNat / 2 ^ 0 % 2 ^ 16 = _
    rw [Nat.pow_zero, Nat.div_one]

/-- Dividing by `size` gives 512 times the lowest 7 bits. -/
theorem div_eq_low_bits {n size : Nat} (hpos : 0 < size) :
    512 * (n % 128) = n / size ↔
      ∃ t j, t < 128 ∧ 128 * j + t < size ∧ n = 512 * size * t + (128 * j + t) := by
  have hsize : ∀ t, 512 * size * t = 128 * (4 * size * t) := by
    intro t
    ring
  constructor
  · intro h
    have hn := Nat.div_add_mod n size
    rw [← h, show size * (512 * (n % 128)) = 512 * size * (n % 128) by ring, hsize] at hn
    have hlow : n % size % 128 = n % 128 := by omega
    have hmod := Nat.mod_lt n hpos
    refine ⟨n % 128, n % size / 128, Nat.mod_lt n (by decide), by omega, ?_⟩
    rw [hsize]
    omega
  · rintro ⟨t, j, ht, hj, hn⟩
    have hlow : n % 128 = t := by
      rw [hn, hsize]
      omega
    rw [hlow, hn, show 512 * size * t = size * (512 * t) by ring, Nat.mul_add_div hpos,
      Nat.div_eq_of_lt hj, Nat.add_zero]

/-- Below 16M the geometry is right. From there on the cylinders are the low bits
of the capacity itself, which is right only for the capacities of this form. -/
theorem getgeo_honest_iff (simpBlkdevBytes : UInt64) (geo : HdGeometry)
    (hsectors : 512 ∣ simpBlkdevBytes.toNat) :
    Honest simpBlkdevBytes.toNat (simpBlkdevGetgeo simpBlkdevBytes geo).2 ↔
      simpBlkdevBytes.toNat < 2 ^ 24 ∨
        ∃ t j, t < 128 ∧ 128 * j + t < (tableRow simpBlkdevBytes.toNat).size ∧
          simpBlkdevBytes.toNat / 512 =
            512 * (tableRow simpBlkdevBytes.toNat).size * t + (128 * j + t) := by
  have hpos := size_pos simpBlkdevBytes.toNat
  rw [honest_iff_cylinders, getgeo_cylinders]
  by_cases hlow : simpBlkdevBytes.toNat < 2 ^ 24
  · simp only [hlow, if_true, true_or, iff_true]
    have hrow : tableRow simpBlkdevBytes.toNat = ⟨1, 1, 0, some 32768⟩ := if_pos hlow
    rw [hrow]
    exact (Nat.div_one _).symm
  · have hlow7 : simpBlkdevBytes.toNat % 2 ^ 16 = 512 * (simpBlkdevBytes.toNat / 512 % 128) := by
      omega
    rw [if_neg hlow, hlow7, div_eq_low_bits hpos]
    exact (or_iff_right hlow).symm

theorem getgeo_honest_iff_lucky :
    Honest 16778240 (simpBlkdevGetgeo 16778240 ⟨0, 0, 0, 0⟩).2 ∧
      (simpBlkdevGetgeo 16778240 ⟨0, 0, 0, 0⟩).2.cylinders = 1024 := by
  refine ⟨(getgeo_honest_iff 16778240 ⟨0, 0, 0, 0⟩ ?_).mpr (Or.inr ⟨2, 0, ?_⟩), ?_⟩ <;>
    decide +kernel

/-- A disk of the default size, which has no cylinders. -/
theorem default_size_lies :
    (simpBlkdevGetgeo 0x1000000 ⟨0, 0, 0, 0⟩).2.cylinders = 0 ∧
      ¬ Honest 0x1000000 (simpBlkdevGetgeo 0x1000000 ⟨0, 0, 0, 0⟩).2 := by
  refine ⟨by decide +kernel, fun h => ?_⟩
  exact absurd h.cylMin_le (by decide +kernel)

end LinuxDriver.BlkdevGeometry
