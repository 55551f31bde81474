import LinuxDriver.Unwind
import LinuxDriver.Runs

namespace LinuxDriver.SpiLife

open Runs Holding Unwind

def enxio : Int := 6
def enomem : Int := 12
def ebusy : Int := 16
def enodev : Int := 19
def einval : Int := 22

/-- What the driver takes for a controller. A master is held once for each reference to
it, a clock that is enabled is held besides the clock. -/
inductive Resource
  | master
  | region
  | regs
  | clk
  | clkOn
  | srcClk
  | srcClkOn
  | workqueue
  | registered
deriving DecidableEq

/-- What `pdev` has for the driver: its `id`, platform data with the name of a clock, a
`cfg_gpio` and `clk_from_cmu`, and its three resources. -/
structure Pdev where
  id : Int
  platformData : Bool
  srcClkName : Bool
  cfgGpio : Bool
  clkFromCmu : Bool
  dmatxRes : Bool
  dmarxRes : Bool
  memRes : Bool

/-- What the calls of a probe return. The two clocks are `IS_ERR` when negative, and
then what `PTR_ERR` says. -/
structure Outcome where
  allocMaster : Bool
  requestMemRegion : Bool
  ioremap : Bool
  cfgGpio : Int
  clk : Int
  clkEnable : Int
  srcClk : Int
  srcClkEnable : Int
  workqueue : Bool
  registerMaster : Int

abbrev Held := Resources Resource

section Probe

/-- The labels from `err0` to `err8`, each going on to the one below it. -/
def err0 (h : Held) : Held := h.release .master
def err1 (h : Held) : Held := err0 (h.release .region)
def err2 (h : Held) : Held := err1 (h.release .regs)
def err3 (h : Held) : Held := err2 h
def err4 (h : Held) : Held := err3 (h.release .clk)
def err5 (h : Held) : Held := err4 (h.release .clkOn)
def err6 (h : Held) : Held := err5 (h.release .srcClk)
def err7 (h : Held) : Held := err6 (h.release .srcClkOn)
def err8 (h : Held) : Held := err7 (h.release .workqueue)

def hwinit (h : Held) : Held := (h.use .regs).use .clkOn

def probeQueue (o : Outcome) (h : Held) : Int × Held :=
  if !o.workqueue then (-enomem, err7 h)
  else
    let h := hwinit (h.acquire .workqueue)
    if o.registerMaster ≠ 0 then (-ebusy, err8 h) else (0, h.acquire .registered)

def probeSrcClk (o : Outcome) (h : Held) : Int × Held :=
  if o.srcClk < 0 then (o.srcClk, err5 h)
  else
    let h := h.acquire .srcClk
    if o.srcClkEnable ≠ 0 then (-ebusy, err6 h) else probeQueue o (h.acquire .srcClkOn)

def probeClk (o : Outcome) (h : Held) : Int × Held :=
  if o.clk < 0 then (o.clk, err3 h)
  else
    let h := h.acquire .clk
    if o.clkEnable ≠ 0 then (-ebusy, err4 h) else probeSrcClk o (h.acquire .clkOn)

def probeRegs (pdev : Pdev) (o : Outcome) (h : Held) : Int × Held :=
  if !o.requestMemRegion then (-enxio, err0 h)
  else
    let h := h.acquire .region
    if !o.ioremap then (-enxio, err1 h)
    else
      let h := h.acquire .regs
      if !pdev.cfgGpio ∨ o.cfgGpio ≠ 0 then (-ebusy, err2 h) else probeClk o h

def probe (pdev : Pdev) (o : Outcome) (h : Held) : Int × Held :=
  if pdev.id < 0 then (-enodev, h)
  else if !pdev.platformData then (-enodev, h)
  else if !pdev.srcClkName then (-einval, h)
  else if !pdev.dmatxRes then (-enxio, h)
  else if !pdev.dmarxRes then (-enxio, h)
  else if !pdev.memRes then (-enxio, h)
  else if !o.allocMaster then (-enomem, h)
  else probeRegs pdev o (h.acquire .master)

end Probe

def unregisterMaster (h : Held) : Held := (h.release .registered).release .master

def remove (pdev : Pdev) (h : Held) : Held :=
  let h := unregisterMaster (h.acquire .master)
  let h := h.release .workqueue
  let h := (h.release .srcClkOn).release .srcClk
  let h := (h.release .clkOn).release .clk
  let h := h.release .regs
  let h := if pdev.memRes then h.release .region else h
  h.release .master

def suspend (h : Held) : Held :=
  let h := h.acquire .master
  (h.release .srcClkOn).release .clkOn

def clkEnable (ret : Int) (on : Resource) (h : Held) : Held := if ret = 0 then h.acquire on else h

def resume (srcRet ret : Int) (h : Held) : Held :=
  let h := h.acquire .master
  hwinit (clkEnable ret .clkOn (clkEnable srcRet .srcClkOn h))

def useRegs (h : Held) : Held := ((h.use .regs).use .clkOn).use .srcClkOn

/-- `s3c64xx_spi_config`, with what the `clk_enable` returns that ends it when the source
clock is divided outside, and which it does not look at. -/
def config (pdev : Pdev) (ret : Int) (h : Held) : Held :=
  if pdev.clkFromCmu then clkEnable ret .srcClkOn (((h.release .srcClkOn).use .regs).use .clkOn)
  else useRegs h

/-- `handle_msg`, with a result for each of its calls of `s3c64xx_spi_config`. -/
def handleMsg (pdev : Pdev) (rets : List Int) (h : Held) : Held :=
  useRegs (rets.foldl (fun h ret => config pdev ret h) (h.use .workqueue))

inductive Phase
  | unbound
  | bound
  | suspended
deriving DecidableEq

/-- The driver of a controller, with how often it was suspended or resumed. It takes no
message while it is suspended, unless `SUSPND` was lost. -/
structure Sys where
  holding : Held
  phase : Phase
  pmCalls : Nat

def start : Sys := ⟨Resources.empty, .unbound, 0⟩

inductive Act
  | probe (o : Outcome)
  | remove
  | suspend
  | resume (srcRet ret : Int)
  | handleMsg (rets : List Int)

def step (pdev : Pdev) (s : Sys) : Act → Option Sys
  | .probe o =>
    if s.phase = .unbound then
      let r := probe pdev o s.holding
      some { s with holding := r.2, phase := if r.1 = 0 then .bound else .unbound }
    else none
  | .remove =>
    if s.phase = .bound then some { s with holding := remove pdev s.holding, phase := .unbound }
    else none
  | .suspend =>
    if s.phase = .bound then some ⟨suspend s.holding, .suspended, s.pmCalls + 1⟩ else none
  | .resume srcRet ret =>
    if s.phase = .suspended then some ⟨resume srcRet ret s.holding, .bound, s.pmCalls + 1⟩
    else none
  | .handleMsg rets =>
    if s.phase = .unbound then none else some { s with holding := handleMsg pdev rets s.holding }

def held : Phase → List Resource
  | .unbound => []
  | .bound => [.registered, .workqueue, .srcClkOn, .srcClk, .clkOn, .clk, .regs, .region, .master]
  | .suspended => [.registered, .workqueue, .srcClk, .clk, .regs, .region, .master]

variable {pdev : Pdev} {o : Outcome} {h : Held} {rs : List Resource}

def Probed (rs : List Resource) (r : Int × Held) : Prop :=
  r.1 = 0 ∧ Holds (held .bound ++ rs) r.2 ∨ r.1 ≠ 0 ∧ Holds rs r.2

theorem probed_of_failed {n : Int} (hn : n ≠ 0) (hh : Holds rs h) : Probed rs (n, h) :=
  Or.inr ⟨hn, hh⟩

theorem probed_of_done (hh : Holds (held .bound ++ rs) h) : Probed rs (0, h) := Or.inl ⟨rfl, hh⟩

theorem err0_holds (hh : Holds (.master :: rs) h) : Holds rs (err0 h) := hh.release

theorem err1_holds (hh : Holds (.region :: .master :: rs) h) : Holds rs (err1 h) :=
  err0_holds hh.release

theorem err2_holds (hh : Holds (.regs :: .region :: .master :: rs) h) : Holds rs (err2 h) :=
  err1_holds hh.release

theorem err4_holds (hh : Holds (.clk :: .regs :: .region :: .master :: rs) h) :
    Holds rs (err4 h) :=
  err2_holds hh.release

theorem err5_holds (hh : Holds (.clkOn :: .clk :: .regs :: .region :: .master :: rs) h) :
    Holds rs (err5 h) :=
  err4_holds hh.release

theorem err6_holds (hh : Holds (.srcClk :: .clkOn :: .clk :: .regs :: .region :: .master :: rs) h) :
    Holds rs (err6 h) :=
  err5_holds hh.release

theorem err7_holds
    (hh : Holds (.srcClkOn :: .srcClk :: .clkOn :: .clk :: .regs :: .region :: .master :: rs) h) :
    Holds rs (err7 h) :=
  err6_holds hh.release

theorem err8_holds
    (hh : Holds (.workqueue :: .srcClkOn :: .srcClk :: .clkOn :: .clk :: .regs :: .region ::
      .master :: rs) h) : Holds rs (err8 h) :=
  err7_holds hh.release

theorem hwinit_holds (hh : Holds rs h) (hregs : .regs ∈ rs) (hclk : .clkOn ∈ rs) :
    Holds rs (hwinit h) :=
  (hh.use hregs).use hclk

theorem neg_ne_zero {n : Int} (hn : 0 < n) : -n ≠ 0 := by omega

theorem probeQueue_probed
    (hh : Holds (.srcClkOn :: .srcClk :: .clkOn :: .clk :: .regs :: .region :: .master :: rs) h) :
    Probed rs (probeQueue o h) := by
  rw [probeQueue]
  split
  · exact probed_of_failed (neg_ne_zero (by decide)) (err7_holds hh)
  · have hqueue : Holds (.workqueue :: .srcClkOn :: .srcClk :: .clkOn :: .clk :: .regs ::
        .region :: .master :: rs) (h.acquire .workqueue) := hh.acquire
    have hinit := hwinit_holds hqueue (by simp) (by simp)
    split
    · exact probed_of_failed (neg_ne_zero (by decide)) (err8_holds hinit)
    · exact probed_of_done hinit.acquire

theorem probeSrcClk_probed
    (hh : Holds (.clkOn :: .clk :: .regs :: .region :: .master :: rs) h) :
    Probed rs (probeSrcClk o h) := by
  rw [probeSrcClk]
  split
  · rename_i herr
    exact probed_of_failed (Int.ne_of_lt herr) (err5_holds hh)
  · split
    · exact probed_of_failed (neg_ne_zero (by decide)) (err6_holds hh.acquire)
    · exact probeQueue_probed hh.acquire.acquire

theorem probeClk_probed (hh : Holds (.regs :: .region :: .master :: rs) h) :
    Probed rs (probeClk o h) := by
  rw [probeClk]
  split
  · rename_i herr
    exact probed_of_failed (Int.ne_of_lt herr) (err2_holds hh)
  · split
    · exact probed_of_failed (neg_ne_zero (by decide)) (err4_holds hh.acquire)
    · exact probeSrcClk_probed hh.acquire.acquire

theorem probeRegs_probed (hh : Holds (.master :: rs) h) : Probed rs (probeRegs pdev o h) := by
  rw [probeRegs]
  split
  · exact probed_of_failed (neg_ne_zero (by decide)) (err0_holds hh)
  · split
    · exact probed_of_failed (neg_ne_zero (by decide)) (err1_holds hh.acquire)
    · split
      · exact probed_of_failed (neg_ne_zero (by decide)) (err2_holds hh.acquire.acquire)
      · exact probeClk_probed hh.acquire.acquire

theorem probe_probed (hh : Holds rs h) :
    Probed rs (probe pdev o h) ∧ ((probe pdev o h).1 = 0 → pdev.memRes = true) := by
  have hfail : ∀ n : Int, 0 < n → Probed rs (-n, h) ∧ ((-n, h).1 = 0 → pdev.memRes = true) :=
    fun n hn => ⟨probed_of_failed (neg_ne_zero hn) hh, fun h0 => absurd h0 (neg_ne_zero hn)⟩
  rw [probe]
  split
  · exact hfail enodev (by decide)
  split
  · exact hfail enodev (by decide)
  split
  · exact hfail einval (by decide)
  split
  · exact hfail enxio (by decide)
  split
  · exact hfail enxio (by decide)
  split
  · exact hfail enxio (by decide)
  · rename_i hmem
    split
    · exact hfail enomem (by decide)
    · exact ⟨probeRegs_probed hh.acquire,
        fun _ => eq_true_of_ne_false (fun hno => hmem (by rw [hno]; rfl))⟩

theorem remove_holds (hmem : pdev.memRes = true) (hh : Holds (held .bound ++ rs) h) :
    Holds rs (remove pdev h) := by
  have hget : Holds (.master :: (held .bound ++ rs)) (h.acquire .master) := hh.acquire
  have hunregistered := (Holds.release_under [Resource.master] hget).release
  have hclks := hunregistered.release.release.release.release.release
  rw [remove, if_pos hmem]
  exact hclks.release.release.release

theorem suspend_holds (hh : Holds (held .bound ++ rs) h) :
    Holds (held .suspended ++ .master :: rs) (suspend h) := by
  have hget : Holds (.master :: (held .bound ++ rs)) (h.acquire .master) := hh.acquire
  have hsrc := Holds.release_under [Resource.master, .registered, .workqueue] hget
  have hclk := Holds.release_under [Resource.master, .registered, .workqueue, .srcClk] hsrc
  have hperm : [Resource.master, .registered, .workqueue, .srcClk, .clk, .regs, .region,
      .master].Perm (held .suspended ++ [.master]) := by decide
  refine hclk.of_perm ?_
  rw [List.append_cons]
  exact hperm.append_right rs

theorem resume_holds (hh : Holds (held .suspended ++ rs) h) :
    Holds (held .bound ++ .master :: rs) (resume 0 0 h) := by
  have hget : Holds (.clkOn :: .srcClkOn :: .master :: (held .suspended ++ rs))
      (((h.acquire .master).acquire .srcClkOn).acquire .clkOn) := hh.acquire.acquire.acquire
  have hperm : ([Resource.clkOn, .srcClkOn, .master] ++ held .suspended).Perm
      (held .bound ++ [.master]) := by decide
  have hall := hwinit_holds hget (by simp [held]) (by simp)
  refine hall.of_perm ?_
  rw [List.append_cons]
  exact hperm.append_right rs

section Messages

variable {rets : List Int} {ret : Int}

theorem useRegs_holds (hh : Holds rs h) (hregs : .regs ∈ rs) (hclk : .clkOn ∈ rs)
    (hsrc : .srcClkOn ∈ rs) : Holds rs (useRegs h) :=
  ((hh.use hregs).use hclk).use hsrc

theorem config_holds (hh : Holds (held .bound ++ rs) h) (hret : pdev.clkFromCmu = true → ret = 0) :
    Holds (held .bound ++ rs) (config pdev ret h) := by
  rw [config]
  split
  · rename_i hcmu
    rw [clkEnable, if_pos (hret hcmu)]
    have hoff := Holds.release_under [Resource.registered, .workqueue] hh
    have hused := (hoff.use (r := .regs) (by simp)).use (r := .clkOn) (by simp)
    exact hused.acquire.of_perm List.perm_middle.symm
  · exact useRegs_holds hh (by simp [held]) (by simp [held]) (by simp [held])

theorem handleMsg_holds (hh : Holds (held .bound ++ rs) h)
    (hrets : pdev.clkFromCmu = true → ∀ ret ∈ rets, ret = 0) :
    Holds (held .bound ++ rs) (handleMsg pdev rets h) := by
  have hall {g : Held} (hg : Holds (held .bound ++ rs) g) : Holds (held .bound ++ rs)
      (useRegs (rets.foldl (fun h ret => config pdev ret h) g)) := by
    induction rets generalizing g with
    | nil => exact useRegs_holds hg (by simp [held]) (by simp [held]) (by simp [held])
    | cons ret rest ih =>
      exact ih (fun hcmu r hr => hrets hcmu r (List.mem_cons_of_mem ret hr))
        (config_holds hg (fun hcmu => hrets hcmu ret List.mem_cons_self))
  exact hall (hh.use (by simp [held]))

theorem useRegs_misused (hm : h.misused = true) : (useRegs h).misused = true :=
  misused_use (misused_use (misused_use hm))

theorem clkEnable_misused {on : Resource} (hm : h.misused = true) :
    (clkEnable ret on h).misused = true := by
  rw [clkEnable]
  split
  · exact hm
  · exact hm

theorem config_misused (hm : h.misused = true) : (config pdev ret h).misused = true := by
  rw [config]
  split
  · exact clkEnable_misused (misused_use (misused_use (misused_release hm)))
  · exact useRegs_misused hm

theorem rest_misused (hm : h.misused = true) :
    (useRegs (rets.foldl (fun h ret => config pdev ret h) h)).misused = true := by
  induction rets generalizing h with
  | nil => exact useRegs_misused hm
  | cons ret rest ih => exact ih (config_misused hm)

/-- With the source clock off the registers are used wrongly, or the clock is disabled
that is off. -/
theorem rest_off (hsrc : .srcClkOn ∉ h.held) :
    (useRegs (rets.foldl (fun h ret => config pdev ret h) h)).misused = true := by
  have huse : (useRegs h).misused = true := by
    rw [useRegs, use_of_not_mem]
    rw [held_use, held_use]
    exact hsrc
  cases rets with
  | nil => exact huse
  | cons ret rest =>
    rw [List.foldl_cons]
    refine rest_misused ?_
    rw [config]
    split
    · have hrel : (h.release .srcClkOn).misused = true := by rw [release_of_not_mem hsrc]
      exact clkEnable_misused (misused_use (misused_use hrel))
    · exact huse

theorem rest_not_enabled (hcmu : pdev.clkFromCmu = true) (hh : Holds (held .bound ++ rs) h)
    (hrs : .srcClkOn ∉ rs) (hbad : ∃ ret ∈ rets, ret ≠ 0) :
    (useRegs (rets.foldl (fun h ret => config pdev ret h) h)).misused = true := by
  induction rets generalizing h with
  | nil =>
    obtain ⟨_, hmem, _⟩ := hbad
    cases hmem
  | cons ret rest ih =>
    rw [List.foldl_cons]
    by_cases hret : ret = 0
    · refine ih (config_holds hh (fun _ => hret)) ?_
      obtain ⟨r, hr, hne⟩ := hbad
      rcases List.mem_cons.mp hr with rfl | hr
      · exact absurd hret hne
      · exact ⟨r, hr, hne⟩
    · have hoff := Holds.release_under [Resource.registered, .workqueue] hh
      have hused := (hoff.use (r := .regs) (by simp)).use (r := .clkOn) (by simp)
      refine rest_off (fun hmem => ?_)
      rw [config, if_pos hcmu, clkEnable, if_neg hret] at hmem
      have hin := hused.mem.mp hmem
      simp [hrs] at hin

end Messages

/-- The driver holds what its phase says, and a reference to its master for each suspend
and each resume that there ever was; no resource was ever used or given back that was
not held. -/
def Ledger (s : Sys) : Prop :=
  Holds (held s.phase ++ List.replicate s.pmCalls .master) s.holding

/-- A resume enables both clocks, and so does a message, which is not handled while the
driver is suspended. -/
def Enabled (pdev : Pdev) (s : Sys) : Act → Prop
  | .resume srcRet ret => s.phase = .suspended → srcRet = 0 ∧ ret = 0
  | .handleMsg rets => s.phase ≠ .suspended ∧
      (s.phase = .bound → pdev.clkFromCmu = true → ∀ ret ∈ rets, ret = 0)
  | _ => True

structure Inv (pdev : Pdev) (s : Sys) : Prop where
  ledger : Ledger s
  mem : s.phase ≠ .unbound → pdev.memRes = true

theorem step_inv {s t : Sys} {a : Act} (hs : Inv pdev s) (ha : Enabled pdev s a)
    (hstep : step pdev s a = some t) : Inv pdev t := by
  obtain ⟨h, phase, n⟩ := s
  obtain ⟨hled, hmem⟩ := hs
  cases a with
  | probe o =>
    simp only [step] at hstep
    split at hstep
    · rename_i hphase
      cases hphase
      cases hstep
      obtain ⟨hprobed, hres⟩ := @probe_probed pdev o _ _ hled
      rcases hprobed with ⟨h0, hall⟩ | ⟨hne, hnone⟩
      · rw [h0]
        exact ⟨hall, fun _ => hres h0⟩
      · rw [if_neg hne]
        exact ⟨hnone, fun hbound => absurd rfl hbound⟩
    · cases hstep
  | remove =>
    simp only [step] at hstep
    split at hstep
    · rename_i hphase
      cases hphase
      cases hstep
      exact ⟨remove_holds (hmem Phase.noConfusion) hled, fun hne => absurd rfl hne⟩
    · cases hstep
  | suspend =>
    simp only [step] at hstep
    split at hstep
    · rename_i hphase
      cases hphase
      cases hstep
      exact ⟨suspend_holds hled, fun _ => hmem Phase.noConfusion⟩
    · cases hstep
  | resume srcRet ret =>
    simp only [step] at hstep
    split at hstep
    · rename_i hphase
      cases hphase
      cases hstep
      obtain ⟨rfl, rfl⟩ := ha rfl
      exact ⟨resume_holds hled, fun _ => hmem Phase.noConfusion⟩
    · cases hstep
  | handleMsg rets =>
    obtain ⟨hawake, hrets⟩ := ha
    cases phase with
    | unbound => cases hstep
    | suspended => exact absurd rfl hawake
    | bound =>
      cases hstep
      exact ⟨handleMsg_holds hled (hrets rfl), hmem⟩

theorem resume_not_enabled {h : Held} {n : Nat} {srcRet ret : Int} (hbad : ¬ (srcRet = 0 ∧ ret = 0))
    (hh : Holds (held .suspended ++ List.replicate n .master) h) :
    ¬ Holds (held .bound ++ List.replicate (n + 1) .master) (resume srcRet ret h) := by
  have hget : Holds (.master :: (held .suspended ++ List.replicate n .master))
      (h.acquire .master) := hh.acquire
  intro hno
  rw [resume, clkEnable, clkEnable] at hno
  by_cases hret : ret = 0
  · have hsrc : srcRet ≠ 0 := fun h0 => hbad ⟨h0, hret⟩
    rw [if_pos hret, if_neg hsrc] at hno
    have hon := hwinit_holds (hget.acquire (r := .clkOn)) (by simp [held]) (by simp)
    have hlen := hon.length_eq hno
    simp [held] at hlen
  · rw [if_neg hret] at hno
    have hoff : ∀ {rs : List Resource} {g : Held}, Holds rs g → .regs ∈ rs → .clkOn ∉ rs →
        (hwinit g).misused = true := fun hg hregs hclk => (hg.use hregs).use_misused hclk
    refine hno.not_misused ?_
    split
    · exact hoff hget.acquire (by simp [held]) (by simp [held, List.mem_replicate])
    · exact hoff hget (by simp [held]) (by simp [held, List.mem_replicate])

theorem step_not_enabled {s : Sys} {a : Act} (hs : Inv pdev s) (ha : ¬ Enabled pdev s a) :
    ∃ t, step pdev s a = some t ∧ ¬ Ledger t := by
  cases a with
  | resume srcRet ret =>
    obtain ⟨hphase, hbad⟩ := not_forall.mp ha
    refine ⟨_, if_pos hphase, resume_not_enabled hbad ?_⟩
    have hled := hs.ledger
    rwa [Ledger, hphase] at hled
  | handleMsg rets =>
    have hled := hs.ledger
    have hbad (hphase : s.phase ≠ .unbound)
        (hmis : (handleMsg pdev rets s.holding).misused = true) :
        ∃ t, step pdev s (.handleMsg rets) = some t ∧ ¬ Ledger t :=
      ⟨_, if_neg hphase, fun hno => Bool.noConfusion (hmis.symm.trans hno.clean)⟩
    cases hphase : s.phase with
    | unbound =>
      refine absurd ⟨?_, fun hno => ?_⟩ ha
      · rw [hphase]
        exact Phase.noConfusion
      · rw [hphase] at hno
        cases hno
    | suspended =>
      rw [Ledger, hphase] at hled
      refine hbad (by rw [hphase]; exact Phase.noConfusion) (rest_off (fun hmem => ?_))
      rw [held_use] at hmem
      have hin := hled.mem.mp hmem
      simp [held, List.mem_replicate] at hin
    | bound =>
      rw [Ledger, hphase] at hled
      have hne : ¬ ∀ _ : pdev.clkFromCmu = true, ∀ ret ∈ rets, ret = 0 := fun hall =>
        ha ⟨by rw [hphase]; exact Phase.noConfusion, fun _ => hall⟩
      obtain ⟨hcmu, hnot⟩ := Classical.not_forall.mp hne
      refine hbad (by rw [hphase]; exact Phase.noConfusion)
        (rest_not_enabled hcmu (hled.use (by simp [held])) (by simp [List.mem_replicate]) ?_)
      by_contra hno
      exact hnot (fun ret hr => by_contra (fun hret => hno ⟨ret, hr, hret⟩))
  | _ => exact absurd trivial ha

/-- Through any probes, removes, suspends, resumes and messages the driver holds exactly
what its phase says, and uses and gives back nothing that it does not hold, if and only if
each resume and each message could enable its clocks and none is handled while the driver
is suspended. What is left after a remove is one reference to the master for each suspend
and each resume. -/
theorem ledger_iff_enabled (pdev : Pdev) (as : List Act) :
    Always (step pdev) Ledger start as ↔ Meets (step pdev) (Enabled pdev) start as :=
  always_iff_meets (fun _ h => h.ledger) (fun _ _ _ h ha hstep => step_inv h ha hstep)
    (fun _ _ h ha => step_not_enabled h ha) as ⟨holds_empty, fun hne => absurd rfl hne⟩

end LinuxDriver.SpiLife
