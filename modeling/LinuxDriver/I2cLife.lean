import LinuxDriver.Unwind
import LinuxDriver.I2cClock

namespace LinuxDriver.I2cLife

open Runs Holding Unwind

def enoent : Int := 2
def enxio : Int := 6
def enomem : Int := 12
def einval : Int := 22

/-- What the driver takes for a controller: its own structure, the clock and once more
for each time that it is enabled, the region with the block that describes it, the
registers, the interrupt, the notifier of frequency changes and the adapter. -/
inductive Resource
  | state
  | clk
  | clkOn
  | ioarea
  | region
  | regs
  | irq
  | notifier
  | adapter
deriving DecidableEq

/-- What `pdev` has for the driver, with the frequency of its platform data and what
`platform_get_irq` returns for it. -/
structure Pdev where
  platformData : Bool
  frequency : Nat
  memRes : Bool
  irq : Int

structure Outcome where
  kzalloc : Bool
  clkGet : Bool
  clkEnable : Int
  requestMemRegion : Bool
  ioremap : Bool
  init : Int
  requestIrq : Int
  registerCpufreq : Int
  addAdapter : Int

abbrev Held := Resources Resource

section Probe

/-- The labels of `s3c24xx_i2c_probe`, from the last one up. -/
def errNoclk (h : Held) : Held := h.release .state
def errClk (h : Held) : Held := errNoclk ((h.release .clkOn).release .clk)
def errIoarea (h : Held) : Held := errClk ((h.release .region).release .ioarea)
def errIomap (h : Held) : Held := errIoarea (h.release .regs)
def errIrq (h : Held) : Held := errIomap (h.release .irq)
def errCpufreq (h : Held) : Held := errIrq (h.release .notifier)

/-- `clk_enable` when it returns `ret`, which the driver does not look at. -/
def clkEnable (ret : Int) (h : Held) : Held := if ret = 0 then h.acquire .clkOn else h

def useRegs (h : Held) : Held := (h.use .regs).use .clkOn

def probeAdapter (o : Outcome) (h : Held) : Int × Held :=
  if o.registerCpufreq < 0 then (o.registerCpufreq, errIrq h)
  else
    let h := h.acquire .notifier
    if o.addAdapter < 0 then (o.addAdapter, errCpufreq h)
    else (0, (h.acquire .adapter).release .clkOn)

def probeIrq (pdev : Pdev) (o : Outcome) (h : Held) : Int × Held :=
  let h := useRegs h
  if o.init ≠ 0 then (o.init, errIomap h)
  else if pdev.irq ≤ 0 then (pdev.irq, errIomap h)
  else if o.requestIrq ≠ 0 then (o.requestIrq, errIomap h)
  else probeAdapter o (h.acquire .irq)

def probeRegs (pdev : Pdev) (o : Outcome) (h : Held) : Int × Held :=
  if !pdev.memRes then (-enoent, errClk h)
  else if !o.requestMemRegion then (-enxio, errClk h)
  else
    let h := (h.acquire .ioarea).acquire .region
    if !o.ioremap then (-enxio, errIoarea h) else probeIrq pdev o (h.acquire .regs)

def probe (pdev : Pdev) (o : Outcome) (h : Held) : Int × Held :=
  if !pdev.platformData then (-einval, h)
  else if !o.kzalloc then (-enomem, h)
  else
    let h := h.acquire .state
    if !o.clkGet then (-enoent, errNoclk h)
    else probeRegs pdev o (clkEnable o.clkEnable (h.acquire .clk))

end Probe

def remove (h : Held) : Held :=
  let h := (h.release .notifier).release .adapter
  let h := h.release .irq
  let h := (h.release .clkOn).release .clk
  let h := h.release .regs
  ((h.release .region).release .ioarea).release .state

def resume (ret : Int) (h : Held) : Held := (useRegs (clkEnable ret h)).release .clkOn

/-- How `s3c24xx_i2c_doxfer` ends: without the bus, with the transfer over, or with a
wait that timed out, which leaves the transfer to its interrupts. -/
inductive End
  | noBus
  | over
  | timedOut

/-- The driver of a controller, in `s3c24xx_i2c_xfer` or not, and whether there is a
transfer that still has interrupts to come. -/
structure Sys where
  holding : Held
  bound : Bool
  busy : Bool
  left : Bool
  suspended : Bool

def start : Sys := ⟨Resources.empty, false, false, false, false⟩

/-- `begin`, `doxfer` and `finish` are the parts of `s3c24xx_i2c_xfer`, with the return
value of its `clk_enable`; `irq` is an interrupt after a wait that timed out, perhaps the
last one; `transition` is a change of the clock's rate to `clk` on which
`s3c24xx_i2c_cpufreq_transition` acts. -/
inductive Act
  | probe (o : Outcome)
  | remove
  | begin (ret : Int)
  | doxfer (out : End)
  | finish
  | irq (last : Bool)
  | transition (clk : Nat)
  | suspend
  | resume (ret : Int)

def leaves (left : Bool) : End → Bool
  | .noBus => left
  | .over => false
  | .timedOut => true

def clockrate (frequency clk : Nat) (h : Held) : Option Held :=
  match I2cClock.clockrate frequency clk ⟨0, 0⟩ with
  | none => none
  | some (.error _, _) => some h
  | some (.ok _, _) => some (useRegs h)

def step (pdev : Pdev) (s : Sys) : Act → Option Sys
  | .probe o =>
    if s.bound = false then
      let r := probe pdev o s.holding
      some ⟨r.2, decide (r.1 = 0), false, false, false⟩
    else none
  | .remove =>
    if s.bound = true ∧ s.busy = false then
      some { s with holding := remove s.holding, bound := false }
    else none
  | .begin ret =>
    if s.bound = true ∧ s.busy = false then
      some { s with holding := clkEnable ret s.holding, busy := true }
    else none
  | .doxfer out =>
    if s.bound = true ∧ s.busy = true then
      some (if s.suspended then s
        else { s with holding := useRegs s.holding, left := leaves s.left out })
    else none
  | .finish =>
    if s.bound = true ∧ s.busy = true then
      some { s with holding := s.holding.release .clkOn, busy := false }
    else none
  | .irq last =>
    if s.bound = true ∧ s.left = true then
      some { s with holding := useRegs s.holding, left := !last }
    else none
  | .transition clk =>
    if s.bound = true then
      (clockrate pdev.frequency clk s.holding).map (fun h => { s with holding := h })
    else none
  | .suspend => if s.bound = true then some { s with suspended := true } else none
  | .resume ret =>
    if s.bound = true ∧ s.suspended = true then
      some { s with holding := resume ret s.holding, suspended := false }
    else none

def held : Bool → Bool → List Resource
  | false, _ => []
  | true, false => [.adapter, .notifier, .irq, .regs, .region, .ioarea, .clk, .state]
  | true, true => [.clkOn, .adapter, .notifier, .irq, .regs, .region, .ioarea, .clk, .state]

/-- The driver holds what it should, and has used and given back nothing else. -/
def Ledger (s : Sys) : Prop := Holds (held s.bound s.busy) s.holding

/-- A probe gets as far as enabling the clock. -/
def GetsClk (pdev : Pdev) (o : Outcome) : Prop :=
  pdev.platformData = true ∧ o.kzalloc = true ∧ o.clkGet = true

def GetsRegs (pdev : Pdev) (o : Outcome) : Prop :=
  pdev.memRes = true ∧ o.requestMemRegion = true ∧ o.ioremap = true ∧ o.init = 0

variable {pdev : Pdev} {o : Outcome} {h : Held}

def Probed (r : Int × Held) : Prop :=
  r.1 = 0 ∧ Holds (held true false) r.2 ∨ r.1 ≠ 0 ∧ Holds [] r.2

theorem probed_of_failed {n : Int} (hn : n ≠ 0) (hh : Holds [] h) : Probed (n, h) :=
  Or.inr ⟨hn, hh⟩

theorem errClk_holds (hh : Holds [.clkOn, .clk, .state] h) : Holds [] (errClk h) :=
  hh.release.release.release

theorem errIoarea_holds (hh : Holds [.region, .ioarea, .clkOn, .clk, .state] h) :
    Holds [] (errIoarea h) :=
  errClk_holds hh.release.release

theorem errIomap_holds (hh : Holds [.regs, .region, .ioarea, .clkOn, .clk, .state] h) :
    Holds [] (errIomap h) :=
  errIoarea_holds hh.release

theorem errIrq_holds (hh : Holds [.irq, .regs, .region, .ioarea, .clkOn, .clk, .state] h) :
    Holds [] (errIrq h) :=
  errIomap_holds hh.release

theorem errCpufreq_holds
    (hh : Holds [.notifier, .irq, .regs, .region, .ioarea, .clkOn, .clk, .state] h) :
    Holds [] (errCpufreq h) :=
  errIrq_holds hh.release

theorem useRegs_holds {rs : List Resource} (hh : Holds rs h) (hregs : .regs ∈ rs)
    (hclk : .clkOn ∈ rs) : Holds rs (useRegs h) :=
  (hh.use hregs).use hclk

theorem useRegs_misused {rs : List Resource} (hh : Holds rs h) (hregs : .regs ∈ rs)
    (hclk : .clkOn ∉ rs) : (useRegs h).misused = true :=
  (hh.use hregs).use_misused hclk

theorem probeAdapter_probed
    (hh : Holds [.irq, .regs, .region, .ioarea, .clkOn, .clk, .state] h) :
    Probed (probeAdapter o h) := by
  rw [probeAdapter]
  split
  · rename_i herr
    exact probed_of_failed (Int.ne_of_lt herr) (errIrq_holds hh)
  · split
    · rename_i herr
      exact probed_of_failed (Int.ne_of_lt herr) (errCpufreq_holds hh.acquire)
    · have hall : Holds [.adapter, .notifier, .irq, .regs, .region, .ioarea, .clkOn, .clk, .state]
          ((h.acquire .notifier).acquire .adapter) := hh.acquire.acquire
      exact Or.inl ⟨rfl, Holds.release_under
        [Resource.adapter, .notifier, .irq, .regs, .region, .ioarea] hall⟩

theorem probeIrq_probed (hirq : o.init = 0 → pdev.irq ≠ 0)
    (hh : Holds [.regs, .region, .ioarea, .clkOn, .clk, .state] h) :
    Probed (probeIrq pdev o h) := by
  have huse := useRegs_holds hh (by simp) (by simp)
  rw [probeIrq]
  split
  · rename_i herr
    exact probed_of_failed herr (errIomap_holds huse)
  · rename_i hinit
    split
    · exact probed_of_failed (hirq (not_not.mp hinit)) (errIomap_holds huse)
    · split
      · rename_i herr
        exact probed_of_failed herr (errIomap_holds huse)
      · exact probeAdapter_probed huse.acquire

theorem neg_ne_zero {n : Int} (hn : 0 < n) : -n ≠ 0 := by omega

theorem probeRegs_probed (hirq : GetsRegs pdev o → pdev.irq ≠ 0)
    (hh : Holds [.clkOn, .clk, .state] h) : Probed (probeRegs pdev o h) := by
  rw [probeRegs]
  split
  · exact probed_of_failed (neg_ne_zero (by decide)) (errClk_holds hh)
  · rename_i hmem
    split
    · exact probed_of_failed (neg_ne_zero (by decide)) (errClk_holds hh)
    · rename_i hregion
      split
      · exact probed_of_failed (neg_ne_zero (by decide)) (errIoarea_holds hh.acquire.acquire)
      · rename_i hremap
        simp only [Bool.not_eq_true', Bool.not_eq_false] at hmem hregion hremap
        exact probeIrq_probed (fun hinit => hirq ⟨hmem, hregion, hremap, hinit⟩)
          hh.acquire.acquire.acquire

theorem probe_probed
    (hclk : GetsClk pdev o → o.clkEnable = 0 ∧ (GetsRegs pdev o → pdev.irq ≠ 0))
    (hh : Holds [] h) : Probed (probe pdev o h) := by
  rw [probe]
  split
  · exact probed_of_failed (neg_ne_zero (by decide)) hh
  · rename_i hdata
    split
    · exact probed_of_failed (neg_ne_zero (by decide)) hh
    · rename_i halloc
      split
      · exact probed_of_failed (neg_ne_zero (by decide)) hh.acquire.release
      · rename_i hget
        simp only [Bool.not_eq_true', Bool.not_eq_false] at hdata halloc hget
        obtain ⟨hon, hirq⟩ := hclk ⟨hdata, halloc, hget⟩
        rw [hon]
        exact probeRegs_probed hirq hh.acquire.acquire.acquire

theorem resume_holds {rs : List Resource} (hh : Holds rs h) (hregs : .regs ∈ rs) :
    Holds rs (resume 0 h) :=
  (useRegs_holds hh.acquire (List.mem_cons_of_mem _ hregs) List.mem_cons_self).release

end LinuxDriver.I2cLife
