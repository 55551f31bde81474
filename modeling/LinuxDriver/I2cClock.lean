import LinuxDriver.Runs
import Mathlib.Algebra.GroupWithZero.Nat

namespace LinuxDriver.I2cClock

open Runs

def einval : Int := 22

def scalemask : BitVec 32 := 0xf
def irqen : BitVec 32 := 0x20
def txdiv512 : BitVec 32 := 0x40
def acken : BitVec 32 := 0x80

/-- What `S3C2410_IICCON` divides the clock by. -/
def divider (con : BitVec 32) : Nat :=
  (if con &&& txdiv512 = 0#32 then 16 else 512) * ((con &&& scalemask).toNat + 1)

/-- The bus, which runs at `clk` Hz over the divider, is below `khz`. -/
def Below (clk : Nat) (con : BitVec 32) (khz : Nat) : Prop := clk < 1000 * khz * divider con

def calcDiv1 (q : Nat) : Nat := if 16 * 16 < q then 512 else 16

def calcDivs (q : Nat) : Nat :=
  let divs := (q + (calcDiv1 q - 1)) / calcDiv1 q
  let divs := if divs = 0 then 1 else divs
  if 17 < divs then 17 else divs

/-- The frequency, `*div1` and `*divs`, where it does not divide by 0. -/
def calcdivisor (clkin wanted : Nat) : Option (Nat × Nat × Nat) :=
  if wanted = 0 then none
  else
    let div1 := calcDiv1 (clkin / wanted)
    let divs := calcDivs (clkin / wanted)
    some (clkin / (divs * div1), div1, divs)

structure Clock where
  clkrate : Nat
  con : BitVec 32
deriving DecidableEq

def targetFrequency (frequency : Nat) : Nat :=
  (if frequency ≠ 0 then frequency else 100000) / 1000

def setDivs (div1 divs : Nat) (iiccon : BitVec 32) : BitVec 32 :=
  let iiccon := iiccon &&& ~~~(scalemask ||| txdiv512)
  let iiccon := iiccon ||| BitVec.ofNat 32 (divs - 1)
  if div1 = 512 then iiccon ||| txdiv512 else iiccon

def clockrate (frequency clk : Nat) (i2c : Clock) : Option (Except Int Nat × Clock) :=
  let i2c := { i2c with clkrate := clk }
  match calcdivisor (clk / 1000) (targetFrequency frequency) with
  | none => none
  | some (freq, div1, divs) =>
    if targetFrequency frequency < freq then some (.error (-einval), i2c)
    else some (.ok freq, { i2c with con := setDivs div1 divs i2c.con })

def init (frequency clk : Nat) (i2c : Clock) : Option (Except Int Nat × Clock) :=
  match clockrate frequency clk { i2c with con := irqen ||| acken } with
  | none => none
  | some (.error _, i2c) => some (.error (-einval), { i2c with con := 0 })
  | some (.ok freq, i2c) => some (.ok freq, i2c)

inductive Val
  | prechange
  | postchange
deriving DecidableEq

def cpufreqTransition (frequency : Nat) (val : Val) (clk : Nat) (i2c : Clock) : Option Clock :=
  let deltaF := ((clk : Int) - i2c.clkrate).bmod (2 ^ 32)
  if val = .postchange ∧ deltaF < 0 ∨ val = .prechange ∧ 0 < deltaF then
    (clockrate frequency clk i2c).map Prod.snd
  else some i2c

inductive Phase
  | quiet
  | announced (new : Nat)
  | changed
deriving DecidableEq

structure Bus where
  clk : Nat
  phase : Phase
  i2c : Clock
deriving DecidableEq

inductive Act
  | announce (new read : Nat)
  | change
  | settle
deriving DecidableEq

/-- One step of a change of the frequency: the notification ahead of it, the change
and the notification after it. -/
def step (frequency : Nat) (s : Bus) : Act → Option Bus
  | .announce new read =>
    if s.phase = .quiet then
      (cpufreqTransition frequency .prechange read s.i2c).map
        (fun i2c => ⟨s.clk, .announced new, i2c⟩)
    else none
  | .change =>
    match s.phase with
    | .announced new => some ⟨new, .changed, s.i2c⟩
    | _ => none
  | .settle =>
    if s.phase = .changed then
      (cpufreqTransition frequency .postchange s.clk s.i2c).map
        (fun i2c => ⟨s.clk, .quiet, i2c⟩)
    else none

theorem and_scalemask_le (con : BitVec 32) : (con &&& scalemask).toNat ≤ 15 := by
  rw [BitVec.toNat_and]
  exact Nat.and_le_right

/-- The dividers of the register are the multiples of 16 up to 256 and those of 512
up to 8192. -/
theorem divider_cases (con : BitVec 32) :
    ∃ k, 1 ≤ k ∧ k ≤ 16 ∧ (divider con = 16 * k ∨ divider con = 512 * k) := by
  refine ⟨(con &&& scalemask).toNat + 1, Nat.succ_pos _, ?_, ?_⟩
  · exact Nat.succ_le_succ (and_scalemask_le con)
  · rw [divider]
    by_cases h : con &&& txdiv512 = 0#32
    · exact Or.inl (by rw [if_pos h])
    · exact Or.inr (by rw [if_neg h])

theorem clear_and (con m : BitVec 32) (hm : ~~~(scalemask ||| txdiv512) &&& m = 0#32) :
    con &&& ~~~(scalemask ||| txdiv512) &&& m = 0#32 := by
  rw [BitVec.and_assoc, hm]
  exact BitVec.and_zero

theorem setDivs_16_and (divs : Nat) (con : BitVec 32) {m : BitVec 32}
    (hm : ~~~(scalemask ||| txdiv512) &&& m = 0#32) :
    setDivs 16 divs con &&& m = BitVec.ofNat 32 (divs - 1) &&& m := by
  rw [setDivs, if_neg (by decide), BitVec.and_or_distrib_right, clear_and con m hm,
    BitVec.zero_or]

theorem setDivs_512_and (divs : Nat) (con : BitVec 32) {m : BitVec 32}
    (hm : ~~~(scalemask ||| txdiv512) &&& m = 0#32) :
    setDivs 512 divs con &&& m = BitVec.ofNat 32 (divs - 1) &&& m ||| txdiv512 &&& m := by
  rw [setDivs, if_pos rfl, BitVec.and_or_distrib_right, BitVec.and_or_distrib_right,
    clear_and con m hm, BitVec.zero_or]

theorem ofNat_and_txdiv512 : ∀ n < 17, BitVec.ofNat 32 n &&& txdiv512 = 0#32 := by decide

theorem ofNat_and_scalemask : ∀ n < 17, (BitVec.ofNat 32 n &&& scalemask).toNat = n % 16 := by
  decide

theorem divider_setDivs {div1 divs : Nat} (con : BitVec 32) (h1 : div1 = 16 ∨ div1 = 512)
    (hd : 1 ≤ divs) (hd17 : divs ≤ 17) :
    divider (setDivs div1 divs con) = div1 * ((divs - 1) % 16 + 1) := by
  have htx := ofNat_and_txdiv512 (divs - 1) (by omega)
  have hscale := ofNat_and_scalemask (divs - 1) (by omega)
  rcases h1 with rfl | rfl
  · rw [divider, setDivs_16_and divs con rfl, setDivs_16_and divs con rfl, htx, hscale,
      if_pos rfl]
  · have hno : txdiv512 &&& scalemask = 0#32 := rfl
    rw [divider, setDivs_512_and divs con rfl, setDivs_512_and divs con rfl, htx, hno,
      BitVec.or_zero, hscale, if_neg (by decide)]

theorem calcDiv1_cases (q : Nat) : calcDiv1 q = 16 ∧ q ≤ 256 ∨ calcDiv1 q = 512 ∧ 256 < q := by
  rw [calcDiv1]
  split <;> omega

theorem calcDivs_bounds (q : Nat) : 1 ≤ calcDivs q ∧ calcDivs q ≤ 17 := by
  rw [calcDivs]
  rcases calcDiv1_cases q with ⟨h1, -⟩ | ⟨h1, -⟩
  · rw [h1]
    split <;> split <;> omega
  · rw [h1]
    split <;> split <;> omega

/-- Up to 8192 the quotient is rounded up to a divider of the register. -/
theorem calcDivs_spec {q : Nat} (hq : q ≤ 8192) :
    calcDivs q ≤ 16 ∧ q ≤ calcDivs q * calcDiv1 q ∧
      calcDivs q * calcDiv1 q < max q 1 + calcDiv1 q := by
  rw [calcDivs]
  rcases calcDiv1_cases q with ⟨h1, hle⟩ | ⟨h1, hlt⟩
  · rw [h1]
    split <;> split <;> omega
  · rw [h1]
    split <;> split <;> omega

theorem calcDivs_big {q : Nat} (hq : 8192 < q) : calcDivs q = 17 ∧ calcDiv1 q = 512 := by
  have h1 : calcDiv1 q = 512 := if_pos (by omega)
  refine ⟨?_, h1⟩
  rw [calcDivs, h1]
  split <;> split <;> omega

theorem calcDivs_least {q : Nat} (hq : q ≤ 8192) (con : BitVec 32) (hcon : q ≤ divider con) :
    calcDivs q * calcDiv1 q ≤ divider con := by
  obtain ⟨-, -, hlt⟩ := calcDivs_spec hq
  obtain ⟨k, hk, hk16, hdiv⟩ := divider_cases con
  rcases calcDiv1_cases q with ⟨h1, hle⟩ | ⟨h1, hgt⟩
  · rw [h1] at hlt ⊢
    omega
  · rw [h1] at hlt ⊢
    omega

theorem clockrate_eq {frequency clk : Nat} (i2c : Clock) (ht : 0 < targetFrequency frequency) :
    clockrate frequency clk i2c =
      let t := targetFrequency frequency
      let q := clk / 1000 / t
      let freq := clk / 1000 / (calcDivs q * calcDiv1 q)
      if t < freq then some (.error (-einval), { i2c with clkrate := clk })
      else some (.ok freq, ⟨clk, setDivs (calcDiv1 q) (calcDivs q) i2c.con⟩) := by
  rw [clockrate, calcdivisor, if_neg (Nat.ne_of_gt ht)]

theorem clockrate_ok {frequency clk got : Nat} {i2c i2c' : Clock}
    (h : clockrate frequency clk i2c = some (.ok got, i2c')) :
    0 < targetFrequency frequency ∧ got ≤ targetFrequency frequency ∧
      got = clk / 1000 / (calcDivs (clk / 1000 / targetFrequency frequency) *
        calcDiv1 (clk / 1000 / targetFrequency frequency)) ∧
      i2c' = ⟨clk, setDivs (calcDiv1 (clk / 1000 / targetFrequency frequency))
        (calcDivs (clk / 1000 / targetFrequency frequency)) i2c.con⟩ := by
  have ht : 0 < targetFrequency frequency := by
    by_contra hno
    have hzero : targetFrequency frequency = 0 := Nat.eq_zero_of_not_pos hno
    rw [clockrate, hzero] at h
    cases h
  rw [clockrate_eq i2c ht] at h
  dsimp only at h
  split at h
  · cases h
  · rename_i hle
    cases h
    exact ⟨ht, Nat.not_lt.mp hle, rfl, rfl⟩

theorem divider_pos (con : BitVec 32) : 0 < divider con := by
  obtain ⟨k, hk, -, hdiv | hdiv⟩ := divider_cases con
  · omega
  · omega

theorem below_iff (clk : Nat) (con : BitVec 32) (khz : Nat) :
    Below clk con khz ↔ clk / 1000 / divider con < khz := by
  rw [Below, Nat.div_div_eq_div_mul,
    Nat.div_lt_iff_lt_mul (Nat.mul_pos (by decide) (divider_pos con)), Nat.mul_left_comm,
    Nat.mul_assoc]

theorem clk_le_of_quot {clk t d : Nat} (h : clk ≤ 1000 * t * d) : clk / 1000 / t ≤ d := by
  have hle : clk / 1000 ≤ t * d := by
    rw [Nat.mul_assoc] at h
    exact Nat.div_le_of_le_mul h
  exact Nat.div_le_of_le_mul hle

theorem divider_of_fits {q : Nat} (hq : q ≤ 8192) (con : BitVec 32) :
    divider (setDivs (calcDiv1 q) (calcDivs q) con) = calcDivs q * calcDiv1 q := by
  obtain ⟨hd, hd17⟩ := calcDivs_bounds q
  have hfit := (calcDivs_spec hq).1
  have hmod : (calcDivs q - 1) % 16 + 1 = calcDivs q := by omega
  rw [divider_setDivs con ((calcDiv1_cases q).imp And.left And.left) hd hd17, hmod, Nat.mul_comm]

/-- Beyond it the scaler of 17 is that of 1. -/
theorem divider_of_big {q : Nat} (hq : 8192 < q) (con : BitVec 32) :
    divider (setDivs (calcDiv1 q) (calcDivs q) con) = 512 := by
  obtain ⟨h17, h512⟩ := calcDivs_big hq
  rw [h17, h512]
  exact divider_setDivs con (Or.inr rfl) (by decide) (by decide)

/-- With a quotient up to 8192 the bus has the frequency that is reported, rounded
down, and no setting of the register that is not above the target is faster; beyond
it the scaler does not fit and the bus is above the target by a kHz or more. -/
theorem clockrate_safe_iff {frequency clk got : Nat} {i2c i2c' : Clock}
    (h : clockrate frequency clk i2c = some (.ok got, i2c')) :
    got ≤ targetFrequency frequency ∧
      (Below clk i2c'.con (targetFrequency frequency + 1) ↔
        clk / 1000 / targetFrequency frequency ≤ 8192) ∧
      (clk / 1000 / targetFrequency frequency ≤ 8192 →
        ¬ Below clk i2c'.con got ∧ Below clk i2c'.con (got + 1) ∧
          ∀ con, clk ≤ 1000 * targetFrequency frequency * divider con →
            divider i2c'.con ≤ divider con) := by
  obtain ⟨ht, hgot, hfreq, rfl⟩ := clockrate_ok h
  generalize targetFrequency frequency = t at *
  refine ⟨hgot, ?_, fun hq => ?_⟩
  · rw [below_iff]
    constructor
    · intro hlow
      by_contra hbig
      rw [divider_of_big (Nat.not_le.mp hbig)] at hlow
      have hmul : 8193 * t ≤ clk / 1000 := (Nat.le_div_iff_mul_le ht).mp (Nat.not_le.mp hbig)
      omega
    · intro hq
      rw [divider_of_fits hq, ← hfreq]
      exact Nat.lt_succ_of_le hgot
  · rw [below_iff, below_iff, divider_of_fits hq, ← hfreq]
    refine ⟨Nat.lt_irrefl got, Nat.lt_succ_self got, fun con hcon => ?_⟩
    exact calcDivs_least hq con (clk_le_of_quot hcon)

theorem clockrate_safe_iff_at_850MHz :
    clockrate 100000 850000000 ⟨0, 0xa0⟩ = some (.ok 97, ⟨850000000, 0xf0⟩) ∧
      ¬ Below 850000000 0xf0 (targetFrequency 100000 + 1) := by
  have h : clockrate 100000 850000000 ⟨0, 0xa0⟩ = some (.ok 97, ⟨850000000, 0xf0⟩) := rfl
  refine ⟨h, fun hlow => ?_⟩
  have hq : 850000000 / 1000 / targetFrequency 100000 ≤ 8192 :=
    (clockrate_safe_iff h).2.1.mp hlow
  exact absurd hq (by decide)

/-- The rate is one at which `s3c24xx_i2c_clockrate` sets a clock that the scaler has. -/
def Fits (frequency clk : Nat) : Prop :=
  clk < 2 ^ 31 ∧ 0 < targetFrequency frequency ∧
    clk / 1000 / targetFrequency frequency ≤ 8192 ∧
    clk / 1000 / (calcDivs (clk / 1000 / targetFrequency frequency) *
      calcDiv1 (clk / 1000 / targetFrequency frequency)) ≤ targetFrequency frequency

/-- The announcement reads the new rate, as the driver takes it to. -/
def Announced (frequency : Nat) (_ : Bus) : Act → Prop
  | .announce new read => read = new ∧ Fits frequency new
  | _ => True

/-- The bus would not be a kHz above the target either at the rate that the clock was
set for, which is not below the one it has. -/
structure Slow (frequency : Nat) (s : Bus) : Prop where
  fits : Fits frequency s.clk
  le : s.clk ≤ s.i2c.clkrate
  small : s.i2c.clkrate < 2 ^ 31
  rate : Below s.i2c.clkrate s.i2c.con (targetFrequency frequency + 1)
  next : ∀ new, s.phase = .announced new → Fits frequency new ∧ new ≤ s.i2c.clkrate

theorem clockrate_fits {frequency clk : Nat} (i2c : Clock) (h : Fits frequency clk) :
    ∃ got i2c', clockrate frequency clk i2c = some (.ok got, i2c') ∧ i2c'.clkrate = clk ∧
      Below clk i2c'.con (targetFrequency frequency + 1) := by
  obtain ⟨-, ht, hq, hle⟩ := h
  have heq : clockrate frequency clk i2c = _ := clockrate_eq i2c ht
  dsimp only at heq
  rw [if_neg (Nat.not_lt.mpr hle)] at heq
  exact ⟨_, _, heq, rfl, (clockrate_safe_iff heq).2.1.mpr hq⟩

theorem deltaF_eq {a b : Nat} (ha : a < 2 ^ 31) (hb : b < 2 ^ 31) :
    ((a : Int) - b).bmod (2 ^ 32) = (a : Int) - b := by
  rw [Int.bmod_eq_of_le (by omega) (by omega)]

theorem prechange_spec {frequency new : Nat} {i2c i2c' : Clock} (hfits : Fits frequency new)
    (hsmall : i2c.clkrate < 2 ^ 31)
    (hrate : Below i2c.clkrate i2c.con (targetFrequency frequency + 1))
    (h : cpufreqTransition frequency .prechange new i2c = some i2c') :
    i2c'.clkrate = max new i2c.clkrate ∧
      Below i2c'.clkrate i2c'.con (targetFrequency frequency + 1) := by
  rw [cpufreqTransition, deltaF_eq hfits.1 hsmall] at h
  split at h
  · rename_i hpos
    obtain ⟨got, set, heq, hclk, hset⟩ := clockrate_fits i2c hfits
    rw [heq] at h
    cases h
    have hlt : i2c.clkrate < new := by
      rcases hpos with ⟨hval, -⟩ | ⟨-, hpos⟩
      · cases hval
      · omega
    rw [hclk, Nat.max_eq_left (Nat.le_of_lt hlt)]
    exact ⟨rfl, hset⟩
  · rename_i hno
    cases h
    have hle : new ≤ i2c.clkrate := by
      by_contra hlt
      exact hno (Or.inr ⟨rfl, by omega⟩)
    rw [Nat.max_eq_right hle]
    exact ⟨rfl, hrate⟩

theorem postchange_spec {frequency clk : Nat} {i2c i2c' : Clock} (hfits : Fits frequency clk)
    (hle : clk ≤ i2c.clkrate) (hsmall : i2c.clkrate < 2 ^ 31)
    (hrate : Below i2c.clkrate i2c.con (targetFrequency frequency + 1))
    (h : cpufreqTransition frequency .postchange clk i2c = some i2c') :
    i2c'.clkrate = clk ∧ Below clk i2c'.con (targetFrequency frequency + 1) := by
  rw [cpufreqTransition, deltaF_eq hfits.1 hsmall] at h
  split at h
  · obtain ⟨got, set, heq, hclk, hset⟩ := clockrate_fits i2c hfits
    rw [heq] at h
    cases h
    exact ⟨hclk, hset⟩
  · rename_i hno
    cases h
    have heq : i2c.clkrate = clk := by
      by_contra hne
      exact hno (Or.inl ⟨rfl, by omega⟩)
    exact ⟨heq, heq ▸ hrate⟩

theorem slow_step {frequency : Nat} {s t : Bus} {a : Act} (hs : Slow frequency s)
    (ha : Announced frequency s a) (h : step frequency s a = some t) : Slow frequency t := by
  cases a with
  | announce new read =>
    obtain ⟨rfl, hfits⟩ := ha
    simp only [step] at h
    split at h
    · obtain ⟨i2c, hi2c, rfl⟩ := Option.map_eq_some_iff.mp h
      obtain ⟨hmax, hrate⟩ := prechange_spec hfits hs.small hs.rate hi2c
      have hsmall := hs.small
      refine ⟨hs.fits, ?_, ?_, hrate, ?_⟩
      · exact hmax ▸ Nat.le_trans hs.le (Nat.le_max_right read _)
      · exact hmax ▸ Nat.max_lt.mpr ⟨hfits.1, hsmall⟩
      · intro new heq
        cases heq
        exact ⟨hfits, hmax ▸ Nat.le_max_left read _⟩
    · cases h
  | change =>
    simp only [step] at h
    split at h
    · rename_i new hphase
      cases h
      obtain ⟨hfits, hle⟩ := hs.next new hphase
      exact ⟨hfits, hle, hs.small, hs.rate, fun _ heq => Phase.noConfusion heq⟩
    · cases h
  | settle =>
    simp only [step] at h
    split at h
    · obtain ⟨i2c, hi2c, rfl⟩ := Option.map_eq_some_iff.mp h
      obtain ⟨hclk, hrate⟩ := postchange_spec hs.fits hs.le hs.small hs.rate hi2c
      refine ⟨hs.fits, Nat.le_of_eq hclk.symm, ?_, ?_, fun _ heq => Phase.noConfusion heq⟩
      · exact hclk ▸ hs.fits.1
      · exact hclk.symm ▸ hrate
    · cases h

/-- From `s3c24xx_i2c_init` on and through any changes of the frequency, the bus is
never a kHz above the target, neither between a notification and the change nor
after. -/
theorem never_a_kHz_above {frequency clk got : Nat} {i2c i2c' : Clock} {as : List Act}
    (hinit : init frequency clk i2c = some (.ok got, i2c')) (hfits : Fits frequency clk)
    (hrun : Meets (step frequency) (Announced frequency) ⟨clk, .quiet, i2c'⟩ as) :
    Always (step frequency)
      (fun s => Below s.clk s.i2c.con (targetFrequency frequency + 1))
      ⟨clk, .quiet, i2c'⟩ as := by
  obtain ⟨got', set, heq, hclk, hset⟩ :=
    clockrate_fits { i2c with con := irqen ||| acken } hfits
  rw [init, heq] at hinit
  cases hinit
  have hstart : Slow frequency ⟨clk, .quiet, i2c'⟩ := by
    refine ⟨hfits, Nat.le_of_eq hclk.symm, ?_, ?_, fun _ heq => Phase.noConfusion heq⟩
    · exact hclk ▸ hfits.1
    · exact hclk.symm ▸ hset
  refine always_mono (fun s hs => ?_) (always_of_meets (fun _ _ _ => slow_step) hstart hrun)
  exact Nat.lt_of_le_of_lt hs.le hs.rate

theorem never_a_kHz_above_133MHz :
    Always (step 100000) (fun s => Below s.clk s.i2c.con (targetFrequency 100000 + 1))
      ⟨66000000, .quiet, ⟨66000000, 0xe1⟩⟩
      [.announce 133000000 133000000, .change, .settle, .announce 66000000 66000000, .change,
        .settle] := by
  have hinit : init 100000 66000000 ⟨0, 0⟩ = some (.ok 64, ⟨66000000, 0xe1⟩) := rfl
  have hlow : Fits 100000 66000000 := by
    rw [Fits]
    decide
  have hhigh : Fits 100000 133000000 := by
    rw [Fits]
    decide
  refine never_a_kHz_above hinit hlow ?_
  refine ⟨⟨rfl, hhigh⟩, fun _ _ => ⟨trivial, fun _ _ => ⟨trivial, fun _ _ => ?_⟩⟩⟩
  exact ⟨⟨rfl, hlow⟩, fun _ _ => ⟨trivial, fun _ _ => ⟨trivial, fun _ _ => trivial⟩⟩⟩

end LinuxDriver.I2cClock
