import LinuxDriver.Dividers

namespace LinuxDriver.SpiClock

open Dividers

def einval : Int := 22

def psrMask : Nat := 0xff

/-- The rate of the bus, from that of `src_clk` and the prescaler. -/
def rate (src psr : Nat) : Nat := src / 2 / (psr + 1)

def firstPsr (src maxSpeedHz : Nat) : Nat :=
  let psr := (src / 2 / maxSpeedHz - 1) &&& psrMask
  if psr = psrMask then psr - 1 else psr

def checkRate (src maxSpeedHz : Nat) : Int × Nat :=
  let psr := firstPsr src maxSpeedHz
  if maxSpeedHz < rate src psr ∧ ¬ psr + 1 < psrMask then (-einval, maxSpeedHz)
  else
    let psr := if maxSpeedHz < rate src psr then psr + 1 else psr
    if rate src psr ≤ maxSpeedHz then (0, rate src psr) else (-einval, maxSpeedHz)

/-- `s3c64xx_spi_setup` from the check of the requested rate on, where it divides
by it. -/
def setupRate (src maxSpeedHz : Nat) : Option (Int × Nat) :=
  let speed := rate src 0
  let maxSpeedHz := if speed < maxSpeedHz then speed else maxSpeedHz
  if maxSpeedHz = 0 then none else some (checkRate src maxSpeedHz)

/-- The prescaler that `s3c64xx_spi_config` sets for a speed, with the wrap of
its 32 bits. -/
def configPsr (src curSpeed : Nat) : Nat := (src / curSpeed / 2 + (2 ^ 32 - 1)) % 2 ^ 32 &&& psrMask

theorem and_psrMask (n : Nat) : n &&& psrMask = n % 256 := Nat.and_two_pow_sub_one_eq_mod n 8

theorem firstPsr_eq (src m : Nat) :
    firstPsr src m =
      if (src / 2 / m - 1) % 256 = 255 then 254 else (src / 2 / m - 1) % 256 := by
  rw [firstPsr, and_psrMask, psrMask]
  split
  · rename_i h
    rw [h]
  · rfl

theorem firstPsr_le_quot {src m : Nat} (h1 : 1 ≤ src / 2 / m) :
    firstPsr src m + 1 ≤ src / 2 / m := by
  rw [firstPsr_eq]
  split <;> omega

theorem firstPsr_eq_quot {src m : Nat} (h1 : 1 ≤ src / 2 / m) (hle : src / 2 / m ≤ 256)
    (hlast : firstPsr src m + 1 < 255) : firstPsr src m + 1 = src / 2 / m := by
  rw [firstPsr_eq] at hlast ⊢
  split at hlast
  · omega
  · rename_i hne
    rw [if_neg hne]
    omega

theorem firstPsr_le (src m : Nat) : firstPsr src m + 1 ≤ 255 := by
  rw [firstPsr_eq]
  split <;> omega

theorem rate_ne {src psr : Nat} (hsrc : 510 ≤ src) (hpsr : psr + 1 ≤ 255) :
    rate src psr ≠ 0 := by
  have hle : psr + 1 ≤ src / 2 := by omega
  exact Nat.ne_of_gt (Nat.div_pos hle (Nat.succ_pos psr))

theorem setupRate_ne {src m : Nat} {r : Int × Nat} (hsrc : 510 ≤ src)
    (h : setupRate src m = some r) : r.2 ≠ 0 := by
  have hpsr (m : Nat) (hno : ¬ (m < rate src (firstPsr src m) ∧ ¬ firstPsr src m + 1 < psrMask)) :
      (if m < rate src (firstPsr src m) then firstPsr src m + 1 else firstPsr src m) + 1 ≤
        255 := by
    have hfirst := firstPsr_le src m
    split
    · rename_i hlt
      have hlast := not_not.mp (not_and.mp hno hlt)
      rw [psrMask] at hlast
      omega
    · exact hfirst
  rw [setupRate] at h
  generalize (if rate src 0 < m then rate src 0 else m) = m' at h
  by_cases hm : m' = 0
  · rw [if_pos hm] at h
    cases h
  · rw [if_neg hm, Option.some.injEq] at h
    rw [← h, checkRate]
    split
    · exact hm
    · rename_i hno
      have hrate := rate_ne hsrc (hpsr m' hno)
      dsimp only
      generalize (if m' < rate src (firstPsr src m') then firstPsr src m' + 1
        else firstPsr src m') = psr at hrate ⊢
      split
      · exact hrate
      · exact hm

theorem setupRate_eq (src req : Nat) :
    setupRate src req =
      if min (src / 2) req = 0 then none else some (checkRate src (min (src / 2) req)) := by
  have hmin : (if rate src 0 < req then rate src 0 else req) = min (src / 2) req := by
    rw [rate, Nat.zero_add, Nat.div_one]
    split <;> omega
  rw [setupRate, hmin]

theorem checkRate_cases (src m : Nat) :
    (rate src (firstPsr src m) ≤ m ∧ checkRate src m = (0, rate src (firstPsr src m))) ∨
      (m < rate src (firstPsr src m) ∧ 255 ≤ firstPsr src m + 1 ∧
        checkRate src m = (-einval, m)) ∨
      (m < rate src (firstPsr src m) ∧ firstPsr src m + 1 < 255 ∧
        rate src (firstPsr src m + 1) ≤ m ∧
        checkRate src m = (0, rate src (firstPsr src m + 1))) ∨
      (m < rate src (firstPsr src m) ∧ m < rate src (firstPsr src m + 1) ∧
        checkRate src m = (-einval, m)) := by
  rw [checkRate, psrMask]
  dsimp only
  by_cases hover : m < rate src (firstPsr src m)
  · by_cases hlast : firstPsr src m + 1 < 255
    · rw [if_neg (fun h => h.2 hlast), if_pos hover]
      by_cases hnext : rate src (firstPsr src m + 1) ≤ m
      · exact Or.inr (Or.inr (Or.inl ⟨hover, hlast, hnext, if_pos hnext⟩))
      · exact Or.inr (Or.inr (Or.inr ⟨hover, Nat.not_le.mp hnext, if_neg hnext⟩))
    · exact Or.inr (Or.inl ⟨hover, Nat.not_lt.mp hlast, if_pos ⟨hover, hlast⟩⟩)
  · have hle : rate src (firstPsr src m) ≤ m := Nat.not_lt.mp hover
    rw [if_neg (fun h => hover h.1), if_neg hover]
    exact Or.inl ⟨hle, if_pos hle⟩

theorem lt_of_quot {h m : Nat} (hh : 32640 ≤ h) (hm : 0 < m) (hq : 257 ≤ h / m) :
    m < h / 255 := by
  have hmul : 257 * m ≤ h := (Nat.le_div_iff_mul_le hm).mp hq
  omega

theorem checkRate_spec {src m : Nat} (hsrc : 65280 ≤ src) (hm : 0 < m) (hle : m ≤ src / 2) :
    (∃ r, checkRate src m = (0, r) ∧ IsGreatest (below (src / 2) 255 m) r) ∨
      (checkRate src m = (-einval, m) ∧ ∀ r, r ∉ below (src / 2) 255 m) := by
  have hquot : 1 ≤ src / 2 / m := Nat.div_pos hle hm
  have hfirst : firstPsr src m + 1 ≤ 255 := firstPsr_le src m
  have hge : m ≤ rate src (firstPsr src m) :=
    le_div_of_le_div (Nat.succ_pos _) (firstPsr_le_quot hquot)
  rcases checkRate_cases src m with ⟨hr, heq⟩ | ⟨hr, hlast, heq⟩ | ⟨hr, hlast, hnext, heq⟩ |
    ⟨hr, hnext, heq⟩
  · have hself : rate src (firstPsr src m) = m := Nat.le_antisymm hr hge
    refine Or.inl ⟨m, by rw [heq, hself], ?_⟩
    exact isGreatest_self (Nat.succ_pos (firstPsr src m)) hfirst hself
  · have hp : firstPsr src m + 1 = 255 := Nat.le_antisymm hfirst hlast
    rw [rate, hp] at hr
    exact Or.inr ⟨heq, not_mem_below hr⟩
  · refine Or.inl ⟨_, heq, ?_⟩
    refine isGreatest_below (Nat.succ_pos _) hlast hnext (fun k hk hlt => ?_)
    exact Nat.lt_of_lt_of_le hr (Nat.div_le_div_left (Nat.le_of_lt_succ hlt) hk)
  · refine Or.inr ⟨heq, not_mem_below ?_⟩
    by_cases hq : 257 ≤ src / 2 / m
    · exact lt_of_quot (by omega) hm hq
    · -- the first divider is the quotient itself, so that the next one is not above `m`
      by_cases hlast : firstPsr src m + 1 < 255
      · have hp := firstPsr_eq_quot hquot (by omega) hlast
        have hlt : src / 2 / (firstPsr src m + 1 + 1) < m := div_lt_of_lt_div hm (by omega)
        rw [rate] at hnext
        omega
      · have hp : firstPsr src m + 1 = 255 := by omega
        rw [rate, hp] at hr
        exact hr

theorem configPsr_eq (src s : Nat) : configPsr src s = (src / 2 / s + 255) % 256 := by
  rw [configPsr, and_psrMask, Nat.div_div_eq_div_mul, Nat.mul_comm s 2, ← Nat.div_div_eq_div_mul]
  omega

theorem rate_configPsr {src s : Nat} (h1 : 1 ≤ src / 2 / s) (h : src / 2 / s ≤ 256) :
    rate src (configPsr src s) = src / 2 / (src / 2 / s) := by
  have hd : (src / 2 / s + 255) % 256 + 1 = src / 2 / s := by omega
  rw [rate, configPsr_eq, hd]

theorem quot_le {h d : Nat} (hh : 32640 ≤ h) (hd : 1 ≤ d) (hn : d ≤ 255) :
    h / (h / d) ≤ 256 := by
  have hm : 128 ≤ h / d := Nat.le_trans (by omega) (Nat.div_le_div_left hn hd)
  have hrem : h % d < d := Nat.mod_lt h hd
  have hsum : h / d * d + h % d = h := Nat.div_add_mod' h d
  have hmul : 257 * (h / d) = h / d * 255 + 2 * (h / d) := by omega
  have hle : h / d * d ≤ h / d * 255 := Nat.mul_le_mul_left (h / d) hn
  exact Nat.le_of_lt_succ ((Nat.div_lt_iff_lt_mul (by omega)).mpr (by omega))

/-- A transfer at a speed that `s3c64xx_spi_setup` has stored has that speed. -/
theorem rate_of_mem {src m : Nat} (hsrc : 65280 ≤ src) (hm : m ∈ rates (src / 2) 255) :
    rate src (configPsr src m) = m := by
  obtain ⟨d, hd, hn, rfl⟩ := hm
  have hpos : 0 < src / 2 / d := Nat.div_pos (by omega) hd
  have hquot : 1 ≤ src / 2 / (src / 2 / d) := Nat.div_pos (Nat.div_le_self _ d) hpos
  rw [rate_configPsr hquot (quot_le (by omega) hd hn)]
  exact div_div_eq hd hpos

/-- `s3c64xx_spi_setup` stores the greatest rate of the prescalers that is not above
the requested one, at which `s3c64xx_spi_config` then runs the bus, and refuses the
device when there is none. -/
theorem setup_rounds_down {src req : Nat} (hsrc : 65280 ≤ src) (hreq : 0 < req) :
    (∃ m, setupRate src req = some (0, m) ∧ IsGreatest (below (src / 2) 255 req) m ∧
        rate src (configPsr src m) = m) ∨
      (∃ m, setupRate src req = some (-einval, m) ∧ below (src / 2) 255 req = ∅) := by
  have hpos : 0 < min (src / 2) req := Nat.lt_min.mpr ⟨by omega, hreq⟩
  rw [setupRate_eq, if_neg (Nat.ne_of_gt hpos), ← below_min]
  rcases checkRate_spec hsrc hpos (Nat.min_le_left _ req) with ⟨m, heq, hm⟩ | ⟨heq, hno⟩
  · exact Or.inl ⟨m, by rw [heq], hm, rate_of_mem hsrc hm.1.1⟩
  · exact Or.inr ⟨_, by rw [heq], Set.eq_empty_of_forall_notMem hno⟩

theorem setup_rounds_down_20MHz :
    (∃ m, setupRate 100000000 20000000 = some (0, m) ∧
        IsGreatest (below 50000000 255 20000000) m ∧
        rate 100000000 (configPsr 100000000 m) = m) ∨
      (∃ m, setupRate 100000000 20000000 = some (-einval, m) ∧
        below 50000000 255 20000000 = ∅) :=
  setup_rounds_down (by decide) (by decide)

/-- The divider that is left of a quotient when it wraps gives a higher rate than the
last divider. -/
theorem last_lt_wrapped {h s d : Nat} (hs : 0 < s) (hd : 0 < d) (hwrap : h / s % 256 = d) :
    h / 256 < h / d := by
  have hquot : 256 * (h / s / 256) + d = h / s := hwrap ▸ Nat.div_add_mod (h / s) 256
  have hlt : d < 256 := hwrap ▸ Nat.mod_lt _ (by decide)
  generalize h / s / 256 = k at hquot
  have hlow : s * (256 * k + d) ≤ h := by
    rw [hquot]
    exact Nat.mul_div_le h s
  have hhigh : h < s * (256 * k + d + 1) := by
    rw [hquot]
    exact Nat.lt_mul_div_succ h hs
  have hlast : h / 256 < s * (k + 1) := by
    refine Nat.div_lt_of_lt_mul (Nat.lt_of_lt_of_le hhigh ?_)
    rw [Nat.mul_left_comm]
    exact Nat.mul_le_mul_left s (by omega)
  have hwrapped : s * (k + 1) ≤ h / d := by
    refine (Nat.le_div_iff_mul_le hd).mpr (Nat.le_trans ?_ hlow)
    rw [Nat.mul_assoc, Nat.add_mul, Nat.one_mul, Nat.mul_comm k d]
    exact Nat.mul_le_mul_left s
      (Nat.add_le_add_right (Nat.mul_le_mul_right k (Nat.le_of_lt hlt)) d)
  exact Nat.lt_of_lt_of_le hlast hwrapped

/-- The speed that a transfer asks for itself is not checked: it has the least rate
of the prescalers that is not below it, so that the bus may be faster, and from 257
prescaled periods on the prescaler wraps around. -/
theorem transfer_rounds_up_iff {src s : Nat} (hs : 0 < s) :
    IsLeast (above (src / 2) 256 s) (rate src (configPsr src s)) ↔
      1 ≤ src / 2 / s ∧ (src / 2 / s ≤ 256 ∨ 256 ∣ src / 2 / s) := by
  constructor
  · intro hleast
    have hle : s ≤ src / 2 := Nat.le_trans hleast.1.2 (Nat.div_le_self _ _)
    refine ⟨Nat.div_pos hle hs, ?_⟩
    by_contra hno
    obtain ⟨hbig, hdvd⟩ := not_or.mp hno
    have hlast : rate src (configPsr src s) ≤ src / 2 / 256 :=
      hleast.2 (isLeast_above_last (by decide) (by omega)).1
    -- the prescaler has wrapped to a divider before the last
    have hdiv : src / 2 / s % 256 = configPsr src s + 1 := by
      rw [configPsr_eq]
      omega
    exact absurd hlast (Nat.not_le.mpr (last_lt_wrapped hs (Nat.succ_pos _) hdiv))
  · rintro ⟨hquot, hin | ⟨k, hk⟩⟩
    · rw [rate_configPsr hquot hin]
      have hle : s ≤ src / 2 := by
        by_contra hlt
        rw [Nat.div_eq_of_lt (Nat.not_le.mp hlt)] at hquot
        exact absurd hquot (by decide)
      exact isLeast_above hs hle hin
    · have hdiv : configPsr src s + 1 = 256 := by
        rw [configPsr_eq, hk]
        omega
      rw [rate, hdiv]
      exact isLeast_above_last (by decide) (by omega)

theorem transfer_rounds_up_190kHz :
    ¬ IsLeast (above 50000000 256 190000) (rate 100000000 (configPsr 100000000 190000)) := by
  have hiff : IsLeast (above 50000000 256 190000)
      (rate 100000000 (configPsr 100000000 190000)) ↔
        1 ≤ 50000000 / 190000 ∧ (50000000 / 190000 ≤ 256 ∨ 256 ∣ 50000000 / 190000) :=
    transfer_rounds_up_iff (by decide)
  rw [hiff]
  decide

end LinuxDriver.SpiClock
