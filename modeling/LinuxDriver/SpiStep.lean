import LinuxDriver.SpiWork
import Mathlib.Tactic.Common

namespace LinuxDriver.SpiStep

open Runs Holding SpiMaster SpiWork

variable {sci : Info} {dev : Nat → Device}

section Frames

def enabled (dev : Nat → Device) (d : Nat) (tglSpi : Option Nat) (level : Nat → Bool) :
    Nat → Bool :=
  Function.update
    (match tglSpi with
      | none => level
      | some last => if last ≠ d then Function.update level (dev last).line (!(dev d).mode.csHigh)
          else level)
    (dev d).line (dev d).mode.csHigh

theorem enabled_none (d : Nat) (level : Nat → Bool) :
    enabled dev d none level = Function.update level (dev d).line (dev d).mode.csHigh := rfl

theorem enabled_some (d last : Nat) (level : Nat → Bool) :
    enabled dev d (some last) level =
      Function.update
        (if last ≠ d then Function.update level (dev last).line (!(dev d).mode.csHigh) else level)
        (dev d).line (dev d).mode.csHigh := rfl

def disabled (dev : Nat → Device) (d : Nat) (level : Nat → Bool) : Nat → Bool :=
  Function.update level (dev d).line (!(dev d).mode.csHigh)

def untoggled (d : Nat) (tglSpi : Option Nat) : Option Nat :=
  if tglSpi = some d then none else tglSpi

theorem enableCs_eq (d : Nat) (s : Spi) :
    enableCs d s = { s with tglSpi := none, level := enabled s.dev d s.tglSpi s.level } := by
  obtain ⟨_, _, _, tgl, _, _, _, _, _, _, _, _, _, _, _⟩ := s
  cases tgl with
  | none => rfl
  | some last =>
    simp only [enableCs, enabled]
    split <;> rfl

theorem untoggle_eq (d : Nat) (s : Spi) :
    untoggle d s = { s with tglSpi := untoggled d s.tglSpi } := by
  rw [untoggle, untoggled]
  split <;> rfl

theorem disableCs_eq (d : Nat) (s : Spi) :
    disableCs d s =
      { s with tglSpi := untoggled d s.tglSpi, level := disabled s.dev d s.level } := by
  rw [disableCs, untoggle_eq]
  rfl

def setConfig (c : Config) (s : Spi) : Spi :=
  { s with cur := c, hw := if s.cur = c then s.hw else some c }

theorem config_eq (c : Config) (s : Spi) :
    (if s.cur ≠ c then config { s with cur := c } else s) = setConfig c s := by
  by_cases h : s.cur = c
  · subst h
    simp [setConfig]
  · simp [setConfig, config, h]

def wanted (d : Device) (mode : Mode) (xfer : Transfer) : Config :=
  ⟨mode, xfer.bpw d, xfer.speed d⟩

theorem config_xfer (xfer : Transfer) (d : Device) (s : Spi) :
    (if xfer.bpw d ≠ s.cur.bpw ∨ xfer.speed d ≠ s.cur.speed then
        config { s with cur := { s.cur with bpw := xfer.bpw d, speed := xfer.speed d } }
      else s) = setConfig (wanted d s.cur.mode xfer) s := by
  rw [← config_eq]
  have hiff : (xfer.bpw d ≠ s.cur.bpw ∨ xfer.speed d ≠ s.cur.speed) ↔
      s.cur ≠ wanted d s.cur.mode xfer := by
    obtain ⟨mode, bpw, speed⟩ := s.cur
    simp only [wanted, ne_eq, Config.mk.injEq, true_and, not_and_or]
    exact or_congr (not_congr eq_comm) (not_congr eq_comm)
  by_cases h : s.cur = wanted d s.cur.mode xfer
  · rw [if_neg (fun hno => hiff.mp hno h), if_neg (not_not.mpr h)]
  · rw [if_pos (hiff.mpr h), if_pos h]
    rfl

def off : Datapath := ⟨false, false, false, false, false⟩

/-- A transfer that is over is not the last of its message, and the line goes with it. -/
def toggles (xfer : Transfer) (rest : List Transfer) : Bool := xfer.csChange && !rest.isEmpty

def ended (xfer : Transfer) (rest : List Transfer) (h : Handling) : Handling :=
  { h with
    todo := rest
    csToggle := h.csToggle || (xfer.csChange && rest.isEmpty)
    actualLength := h.actualLength + xfer.len
    phase := .next }

theorem endXfer_eq (xfer : Transfer) (rest : List Transfer) (h : Handling) (s : Spi) :
    put (endXfer xfer rest h s) =
      { s with
        path := off
        tglSpi := if toggles xfer rest then untoggled h.msg.spi s.tglSpi else s.tglSpi
        level := if toggles xfer rest then disabled s.dev h.msg.spi s.level else s.level
        worker := .handling (ended xfer rest h) } := by
  rw [endXfer, disableCs_eq, toggles]
  cases xfer.csChange && !rest.isEmpty <;> rfl

def keeps (h : Handling) (status : Int) : Bool := h.csToggle && decide (status = 0)

theorem outMsg_eq (status : Int) (h : Handling) (s : Spi) :
    outMsg sci status h s =
      { s with
        tglSpi := if keeps h status then some h.msg.spi else untoggled h.msg.spi s.tglSpi
        level := if keeps h status then s.level else disabled s.dev h.msg.spi s.level
        dma := unmapMssg sci h.msg h.transfers s.dma
        completed := s.completed ++ [(h.msg, status, h.actualLength)] } := by
  have hiff : (h.csToggle = false ∨ status ≠ 0) ↔ keeps h status = false := by
    rw [keeps, Bool.and_eq_false_iff, decide_eq_false_iff_not]
  rw [outMsg, disableCs_eq]
  cases hk : keeps h status with
  | true => simp [hiff, hk]
  | false => simp [hiff, hk]

end Frames

section Step

variable (sci)

/-- What each step can do. -/
inductive Step (s : Spi) : Act → Spi → Prop
  | refused {msg : Message} (hsuspnd : s.state.suspnd = true) : Step s (.transfer msg) s
  | queued {msg : Message} (hgone : s.pm ≠ .gone) (hsuspnd : s.state.suspnd = false) :
    Step s (.transfer msg)
      { s with queue := s.queue ++ [msg], accepted := s.accepted ++ [msg], pending := true }
  | assigned {d : Nat} {mode : Mode} {bitsPerWord maxSpeedHz : Nat} :
    Step s (.assign d mode bitsPerWord maxSpeedHz)
      { s with dev := assign d mode bitsPerWord maxSpeedHz s.dev }
  | setupRefused {d : Nat} : Step s (.setup d) s
  | setup {d : Nat} (hgone : s.pm ≠ .gone) (hsuspnd : s.state.suspnd = false) :
    Step s (.setup d) { s with setups := s.setups ++ [(d, .check)] }
  | checked {d src : Nat} {r : Int × Device} (hd : (d, Setup.check) ∈ s.setups)
      (hr : check sci src (s.dev d) = some r) :
    Step s (.check d src)
      (next d .check [.untoggle] { s with dev := Function.update s.dev d r.2 })
  | untoggled {d : Nat} (hd : (d, Setup.untoggle) ∈ s.setups) :
    Step s (.untoggle d)
      (next d .untoggle [.setLevel] { s with tglSpi := untoggled d s.tglSpi })
  | leveled {d : Nat} (hd : (d, Setup.setLevel) ∈ s.setups) :
    Step s (.setLevel d) (next d .setLevel [] { s with level := disabled s.dev d s.level })
  | work (hw : s.worker = .idle) (hp : s.pending = true) :
    Step s .work { s with pending := false, worker := .looking }
  | stopped (hw : s.worker = .looking) (hstop : s.queue = [] ∨ s.state.suspnd = true) :
    Step s .look { s with state := { s.state with spiBusy := false }, worker := .idle }
  | taken {msg : Message} {rest : List Message} (hw : s.worker = .looking)
      (hq : s.queue = msg :: rest) (hsuspnd : s.state.suspnd = false) :
    Step s .look
      { s with
        queue := rest
        state := { s.state with spiBusy := true }
        worker := .handling ⟨msg, msg.transfers, [], false, 0, .taken⟩ }
  | begun {map : Nat → Option Nat} {h : Handling} (hw : s.worker = .handling h)
      (hp : h.phase = .taken) :
    Step s (.beginMsg map) { setConfig ⟨(s.dev h.msg.spi).mode, (s.dev h.msg.spi).bitsPerWord,
        (s.dev h.msg.spi).maxSpeedHz⟩ s with
      dma := (mapMssg sci map h.msg s.dma).2.2
      worker := .handling { h with
        transfers := (mapMssg sci map h.msg s.dma).2.1
        todo := (mapMssg sci map h.msg s.dma).2.1
        phase := if (mapMssg sci map h.msg s.dma).1 then .next else .out (-enomem) } }
  | finished {h : Handling} (hw : s.worker = .handling h) (hp : h.phase = .next)
      (ht : h.todo = []) :
    Step s .startXfer { s with worker := .handling { h with phase := .out 0 } }
  | odd {h : Handling} {xfer : Transfer} {rest : List Transfer} (hw : s.worker = .handling h)
      (hp : h.phase = .next) (ht : h.todo = xfer :: rest)
      (hlen : xfer.len.toNat % (xfer.bpw (s.dev h.msg.spi) / 8) ≠ 0) :
    Step s .startXfer { s with worker := .handling { h with phase := .out (-eio) } }
  | started {h : Handling} {xfer : Transfer} {rest : List Transfer} (hw : s.worker = .handling h)
      (hp : h.phase = .next) (ht : h.todo = xfer :: rest)
      (hlen : xfer.len.toNat % (xfer.bpw (s.dev h.msg.spi) / 8) = 0) :
    Step s .startXfer { enableDatapath sci xfer
        (setConfig (wanted (s.dev h.msg.spi) s.cur.mode xfer) s) with
      tglSpi := none
      level := enabled s.dev h.msg.spi s.tglSpi s.level
      worker := .handling { h with phase := .active } }
  | failed {io : Io} {h : Handling} {xfer : Transfer} {rest : List Transfer} {state : Flags}
      (hw : s.worker = .handling h) (hp : h.phase = .active) (ht : h.todo = xfer :: rest)
      (hstate : ∃ rx tx, state = { s.state with rxBusy := rx, txBusy := tx }) :
    Step s (.wait io) { s with
      state := state
      worker := .handling { h with phase := .out (-eio) } }
  | polled {io : Io} {h : Handling} {xfer : Transfer} {rest : List Transfer}
      (hw : s.worker = .handling h) (hp : h.phase = .active) (ht : h.todo = xfer :: rest) :
    Step s (.wait io) { s with worker := .handling { h with phase := .clearing s.state } }
  | waited {io : Io} {h : Handling} {xfer : Transfer} {rest : List Transfer} {state : Flags}
      (hw : s.worker = .handling h) (hp : h.phase = .active) (ht : h.todo = xfer :: rest)
      (hstate : ∃ rx tx, state = { s.state with rxBusy := rx, txBusy := tx }) :
    Step s (.wait io)
      { s with
        state := state
        path := off
        tglSpi := if toggles xfer rest then untoggled h.msg.spi s.tglSpi else s.tglSpi
        level := if toggles xfer rest then disabled s.dev h.msg.spi s.level else s.level
        worker := .handling (ended xfer rest h) }
  | stored {h : Handling} {xfer : Transfer} {rest : List Transfer} {saved state : Flags}
      (hw : s.worker = .handling h) (hp : h.phase = .clearing saved) (ht : h.todo = xfer :: rest)
      (hstate : ∃ rx tx, state = { saved with rxBusy := rx, txBusy := tx }) :
    Step s .store
      { s with
        state := state
        path := off
        tglSpi := if toggles xfer rest then untoggled h.msg.spi s.tglSpi else s.tglSpi
        level := if toggles xfer rest then disabled s.dev h.msg.spi s.level else s.level
        worker := .handling (ended xfer rest h) }
  | done {h : Handling} {status : Int} (hw : s.worker = .handling h) (hp : h.phase = .out status) :
    Step s .outMsg
      { s with
        tglSpi := if keeps h status then some h.msg.spi else untoggled h.msg.spi s.tglSpi
        level := if keeps h status then s.level else disabled s.dev h.msg.spi s.level
        dma := unmapMssg sci h.msg h.transfers s.dma
        completed := s.completed ++ [(h.msg, status, h.actualLength)]
        worker := .looking }
  | suspend (hpm : s.pm = .awake) :
    Step s .suspend { s with state := { s.state with suspnd := true }, pm := .suspending }
  | suspended (hpm : s.pm = .suspending) (hbusy : s.state.spiBusy = false) :
    Step s .suspended
      { s with hw := none, pm := .asleep, cur := { s.cur with speed := 0 } }
  | resume (hpm : s.pm = .asleep) : Step s .resume (resume s)
  | remove (hpm : s.pm = .awake) :
    Step s .remove { s with state := { s.state with suspnd := true }, pm := .removing }
  | removed (hw : s.worker = .idle) (hpm : s.pm = .removing) (hbusy : s.state.spiBusy = false)
      (hp : s.pending = false) (hsetups : s.setups = []) :
    Step s .removed { s with pm := .gone }

variable {sci}

theorem dmaCbs_state (cbs : List DmaCb) (state : Flags) :
    ∃ rx tx, (dmaCbs cbs state).1 = { state with rxBusy := rx, txBusy := tx } := by
  induction cbs generalizing state with
  | nil => exact ⟨state.rxBusy, state.txBusy, rfl⟩
  | cons cb rest ih =>
    obtain ⟨rx, tx, heq⟩ := ih (dmaCb state cb).1
    refine ⟨rx, tx, ?_⟩
    rw [dmaCbs, heq]
    cases cb <;> rfl

theorem handle_step {s t : Spi} {h : Handling} {a : Act} (hw : s.worker = .handling h)
    (hstep : handle sci h s a = some t) : Step sci s a t := by
  cases a with
  | beginMsg map =>
    simp only [handle] at hstep
    split at hstep
    · rename_i hp
      cases hstep
      rw [SpiMaster.beginMsg, config_eq]
      exact .begun hw hp
    · cases hstep
  | startXfer =>
    simp only [handle] at hstep
    split at hstep
    · rename_i hp
      split at hstep
      · rename_i ht
        cases hstep
        exact .finished hw hp ht
      · rename_i xfer rest ht
        cases hstep
        rw [SpiMaster.startXfer]
        split
        · rename_i hlen
          exact .odd hw hp ht hlen
        · rename_i hlen
          dsimp only
          rw [enableCs_eq, config_xfer]
          exact .started hw hp ht (not_not.mp hlen)
    · cases hstep
  | wait io =>
    simp only [handle] at hstep
    split at hstep
    · rename_i xfer rest hp ht
      cases hstep
      rw [waitForXfer]
      split
      · dsimp only
        split
        · rw [endXfer_eq]
          exact .waited hw hp ht (dmaCbs_state io.cbs s.state)
        · exact .failed hw hp ht (dmaCbs_state io.cbs s.state)
      · split
        · exact .polled hw hp ht
        · exact .failed hw hp ht ⟨s.state.rxBusy, s.state.txBusy, rfl⟩
    · cases hstep
  | store =>
    simp only [handle] at hstep
    split at hstep
    · rename_i saved xfer rest hp ht
      cases hstep
      rw [storeState, endXfer_eq]
      split
      · exact .stored hw hp ht ⟨false, saved.txBusy, rfl⟩
      · exact .stored hw hp ht ⟨saved.rxBusy, false, rfl⟩
    · cases hstep
  | outMsg =>
    simp only [handle] at hstep
    split at hstep
    · rename_i status hp
      cases hstep
      rw [outMsg_eq]
      exact .done hw hp
    · cases hstep
  | _ => cases hstep

theorem step_spec {s t : Spi} {a : Act} (hstep : step sci s a = some t) :
    Step sci s a t := by
  have hhandle (hsome : whileHandling (fun h => handle sci h s a) s.worker = some t) :
      Step sci s a t := by
    cases hw : s.worker with
    | handling h =>
      rw [hw] at hsome
      exact handle_step hw hsome
    | idle =>
      rw [hw] at hsome
      cases hsome
    | looking =>
      rw [hw] at hsome
      cases hsome
  cases a with
  | transfer msg =>
    simp only [step, SpiWork.transfer] at hstep
    split at hstep
    · cases hstep
    · rename_i hgone
      cases hstep
      split
      · rename_i hsuspnd
        exact .refused hsuspnd
      · rename_i hsuspnd
        exact .queued hgone (eq_false_of_ne_true hsuspnd)
  | setup d =>
    simp only [step, SpiWork.setup] at hstep
    split at hstep
    · cases hstep
    · rename_i hgone
      cases hstep
      split
      · exact .setupRefused
      · split
        · exact .setupRefused
        · rename_i hsuspnd
          exact .setup hgone (eq_false_of_ne_true hsuspnd)
  | assign d mode bitsPerWord maxSpeedHz =>
    cases hstep
    exact .assigned
  | check d src =>
    simp only [step] at hstep
    split at hstep
    · rename_i hd
      obtain ⟨r, hr, rfl⟩ := Option.map_eq_some_iff.mp hstep
      exact .checked hd hr
    · cases hstep
  | untoggle d =>
    simp only [step] at hstep
    split at hstep
    · rename_i hd
      cases hstep
      rw [untoggle_eq]
      exact .untoggled hd
    · cases hstep
  | setLevel d =>
    simp only [step] at hstep
    split at hstep
    · rename_i hd
      cases hstep
      exact .leveled hd
    · cases hstep
  | work =>
    simp only [step] at hstep
    split at hstep
    · rename_i hw
      split at hstep
      · rename_i hp
        cases hstep
        exact .work hw hp
      · cases hstep
    · cases hstep
  | look =>
    simp only [step] at hstep
    split at hstep
    · rename_i hw
      cases hstep
      simp only [SpiWork.look]
      split
      · rename_i hq
        exact .stopped hw (.inl hq)
      · rename_i msg rest hq
        split
        · rename_i hsuspnd
          exact .stopped hw (.inr hsuspnd)
        · rename_i hsuspnd
          exact .taken hw hq (eq_false_of_ne_true hsuspnd)
    · cases hstep
  | suspend =>
    simp only [step] at hstep
    split at hstep
    · rename_i hpm
      cases hstep
      exact .suspend hpm
    · cases hstep
  | suspended =>
    simp only [step] at hstep
    split at hstep
    · rename_i hpm
      cases hstep
      exact .suspended hpm.1 hpm.2
    · cases hstep
  | resume =>
    simp only [step] at hstep
    split at hstep
    · rename_i hpm
      cases hstep
      exact .resume hpm
    · cases hstep
  | remove =>
    simp only [step] at hstep
    split at hstep
    · rename_i hpm
      cases hstep
      exact .remove hpm
    · cases hstep
  | removed =>
    simp only [step] at hstep
    split at hstep
    · rename_i hw
      split at hstep
      · rename_i hpm
        cases hstep
        exact .removed hw hpm.1 hpm.2.1 hpm.2.2.1 hpm.2.2.2
      · cases hstep
    · cases hstep
  | beginMsg map => exact hhandle hstep
  | startXfer => exact hhandle hstep
  | wait io => exact hhandle hstep
  | store => exact hhandle hstep
  | outMsg => exact hhandle hstep

theorem startXfer_some {s : Spi} {h : Handling} {xfer : Transfer} {rest : List Transfer}
    (hw : s.worker = .handling h) (hp : h.phase = .next) (ht : h.todo = xfer :: rest) :
    ∃ t, step sci s .startXfer = some t :=
  ⟨put (startXfer sci xfer h s), by simp only [step, hw, whileHandling, handle, hp, ht, if_true]⟩

end Step

end LinuxDriver.SpiStep
