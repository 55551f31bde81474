import Mathlib.Order.Bounds.Basic
import Mathlib.Algebra.GroupWithZero.Nat

namespace LinuxDriver.Dividers

def rates (h n : Nat) : Set Nat := {r | ∃ d, 1 ≤ d ∧ d ≤ n ∧ r = h / d}

def below (h n m : Nat) : Set Nat := {r | r ∈ rates h n ∧ r ≤ m}

def above (h n m : Nat) : Set Nat := {r | r ∈ rates h n ∧ m ≤ r}

variable {h n m d : Nat}

theorem le_div_div (hm : 0 < m) (hle : m ≤ h) : m ≤ h / (h / m) :=
  (Nat.le_div_iff_mul_le (Nat.div_pos hle hm)).mpr (Nat.mul_div_le h m)

theorem div_lt_of_lt_div (hm : 0 < m) (hd : h / m < d) : h / d < m :=
  Nat.div_lt_of_lt_mul (Nat.lt_mul_of_div_lt hd hm)

theorem le_div_of_le_div (hd : 0 < d) (hle : d ≤ h / m) : m ≤ h / d :=
  (Nat.le_div_iff_mul_le hd).mpr
    (Nat.le_trans (Nat.mul_le_mul_left m hle) (Nat.mul_div_le h m))

theorem div_div_eq (hd : 0 < d) (hm : 0 < h / d) : h / (h / (h / d)) = h / d := by
  have hle : h / d ≤ h := Nat.div_le_self h d
  have hquot : d ≤ h / (h / d) :=
    (Nat.le_div_iff_mul_le hm).mpr (Nat.mul_comm d (h / d) ▸ Nat.div_mul_le_self h d)
  exact Nat.le_antisymm (Nat.div_le_div_left hquot hd) (le_div_div hm hle)

/-- The first divider that is not above `m` gives the greatest such rate. -/
theorem isGreatest_below (hd : 1 ≤ d) (hn : d ≤ n) (hle : h / d ≤ m)
    (hfirst : ∀ k, 1 ≤ k → k < d → m < h / k) : IsGreatest (below h n m) (h / d) := by
  refine ⟨⟨⟨d, hd, hn, rfl⟩, hle⟩, ?_⟩
  rintro r ⟨⟨k, hk, hkn, rfl⟩, hkm⟩
  have hdk : d ≤ k := by
    by_contra hlt
    exact absurd hkm (Nat.not_le.mpr (hfirst k hk (Nat.not_le.mp hlt)))
  exact Nat.div_le_div_left hdk hd

theorem isGreatest_self (hd : 1 ≤ d) (hn : d ≤ n) (heq : h / d = m) :
    IsGreatest (below h n m) m :=
  ⟨⟨⟨d, hd, hn, heq.symm⟩, Nat.le_refl m⟩, fun _ hr => hr.2⟩

/-- The quotient as a divider gives the least rate that is not below `m`. -/
theorem isLeast_above (hm : 0 < m) (hle : m ≤ h) (hn : h / m ≤ n) :
    IsLeast (above h n m) (h / (h / m)) := by
  refine ⟨⟨⟨h / m, Nat.div_pos hle hm, hn, rfl⟩, le_div_div hm hle⟩, ?_⟩
  rintro r ⟨⟨k, hk, -, rfl⟩, hkm⟩
  have hquot : k ≤ h / m :=
    (Nat.le_div_iff_mul_le hm).mpr (Nat.mul_comm m k ▸ (Nat.le_div_iff_mul_le hk).mp hkm)
  exact Nat.div_le_div_left hquot hk

theorem isLeast_above_last (hn : 1 ≤ n) (hle : n ≤ h / m) :
    IsLeast (above h n m) (h / n) := by
  refine ⟨⟨⟨n, hn, Nat.le_refl n, rfl⟩, le_div_of_le_div hn hle⟩, ?_⟩
  rintro r ⟨⟨k, hk, hkn, rfl⟩, -⟩
  exact Nat.div_le_div_left hkn hk

theorem not_mem_below (hm : m < h / n) (r : Nat) : r ∉ below h n m := by
  rintro ⟨⟨k, hk, hkn, rfl⟩, hle⟩
  have hge : h / n ≤ h / k := Nat.div_le_div_left hkn hk
  omega

theorem below_min (h n m : Nat) : below h n (min h m) = below h n m := by
  ext r
  constructor
  · rintro ⟨hr, hle⟩
    exact ⟨hr, Nat.le_trans hle (Nat.min_le_right h m)⟩
  · rintro ⟨⟨d, hd, hn, rfl⟩, hle⟩
    exact ⟨⟨d, hd, hn, rfl⟩, Nat.le_min.mpr ⟨Nat.div_le_self h d, hle⟩⟩

end LinuxDriver.Dividers
