import LinuxDriver.SpiMaster
import LinuxDriver.SpiClock
import LinuxDriver.Runs

namespace LinuxDriver.SpiWork

open Runs Holding SpiMaster

def ebusy : Int := 16
def eshutdown : Int := 108

/-- What the clients, the work queue, the hardware and the power management can do.
A client writes the fields of its `spi_device` when it likes. -/
inductive Act
  | transfer (msg : Message)
  | assign (d : Nat) (mode : Mode) (bitsPerWord maxSpeedHz : Nat)
  | setup (d : Nat)
  | check (d src : Nat)
  | untoggle (d : Nat)
  | setLevel (d : Nat)
  | work
  | look
  | beginMsg (map : Nat → Option Nat)
  | startXfer
  | wait (io : Io)
  | store
  | outMsg
  | suspend
  | suspended
  | resume
  | remove
  | removed

section Clients

variable (sci : Info)

def transfer (msg : Message) (s : Spi) : Int × Spi :=
  if s.state.suspnd then (-eshutdown, s)
  else (0, { s with
    queue := s.queue ++ [msg]
    accepted := s.accepted ++ [msg]
    pending := true })

/-- `s3c64xx_spi_setup` as far as it holds the lock. -/
def setup (d : Nat) (s : Spi) : Int × Spi :=
  if s.queue.any (fun msg => msg.spi = d) then (-ebusy, s)
  else if s.state.suspnd then (-eshutdown, s)
  else (0, { s with setups := s.setups ++ [(d, .check)] })

theorem transfer_refused {msg : Message} {s : Spi} (h : (transfer msg s).1 ≠ 0) :
    (transfer msg s).2 = s := by
  rw [transfer] at h ⊢
  split
  · rfl
  · rename_i hno
    rw [if_neg hno] at h
    exact absurd rfl h

theorem setup_refused {d : Nat} {s : Spi} (h : (setup d s).1 ≠ 0) : (setup d s).2 = s := by
  rw [setup] at h ⊢
  split
  · rfl
  · rename_i hqueued
    rw [if_neg hqueued] at h
    split
    · rfl
    · rename_i hno
      rw [if_neg hno] at h
      exact absurd rfl h

/-- The rest of its checks, of which the one of the rate stores the speed. Without a
result it divides by zero. -/
def check (src : Nat) (d : Device) : Option (Int × Device) :=
  if d.bitsPerWord ≠ 8 ∧ d.bitsPerWord ≠ 16 ∧ d.bitsPerWord ≠ 32 then some (-SpiClock.einval, d)
  else if sci.clkFromCmu then some (0, d)
  else (SpiClock.setupRate src d.maxSpeedHz).map (fun r => (r.1, { d with maxSpeedHz := r.2 }))

def assign (d : Nat) (mode : Mode) (bitsPerWord maxSpeedHz : Nat) (dev : Nat → Device) :
    Nat → Device :=
  Function.update dev d ⟨(dev d).line, mode, bitsPerWord, maxSpeedHz⟩

def next (d : Nat) (stage : Setup) (after : List Setup) (s : Spi) : Spi :=
  { s with setups := s.setups.erase (d, stage) ++ after.map (fun stage => (d, stage)) }

end Clients

/-- `s3c64xx_spi_work` with the lock: `SPIBUSY` is cleared when a message is
over, and set for the next one. -/
def look (s : Spi) : Spi :=
  let s := { s with state := { s.state with spiBusy := false } }
  match s.queue with
  | [] => { s with worker := .idle }
  | msg :: rest =>
    if s.state.suspnd then { s with worker := .idle }
    else { s with
      queue := rest
      state := { s.state with spiBusy := true }
      worker := .handling ⟨msg, msg.transfers, [], false, 0, .taken⟩ }

def put (r : Handling × Spi) : Spi := { r.2 with worker := .handling r.1 }

variable (sci : Info)

def handle (h : Handling) (s : Spi) : Act → Option Spi
  | .beginMsg map => if h.phase = .taken then some (put (beginMsg sci map h s)) else none
  | .startXfer =>
    if h.phase = .next then
      match h.todo with
      | [] => some (put ({ h with phase := .out 0 }, s))
      | xfer :: _ => some (put (startXfer sci xfer h s))
    else none
  | .wait io =>
    match h.phase, h.todo with
    | .active, xfer :: rest => some (put (waitForXfer sci io xfer rest h s))
    | _, _ => none
  | .store =>
    match h.phase, h.todo with
    | .clearing state, xfer :: rest => some (put (storeState state xfer rest h s))
    | _, _ => none
  | .outMsg =>
    match h.phase with
    | .out status => some { outMsg sci status h s with worker := .looking }
    | _ => none
  | _ => none

def whileHandling (f : Handling → Option Spi) : Worker → Option Spi
  | .handling h => f h
  | _ => none

/-- `s3c64xx_spi_suspend` and `s3c64xx_spi_remove` set `SUSPND`. -/
def setSuspnd (pm : Pm) (s : Spi) : Spi :=
  { s with state := { s.state with suspnd := true }, pm := pm }

def hwinit (s : Spi) : Spi := flushFifo { s with cur := { s.cur with speed := 0 }, hw := none }

def resume (s : Spi) : Spi :=
  let s := hwinit s
  { s with state := { s.state with suspnd := false }, pm := .awake }

def step (s : Spi) : Act → Option Spi
  | .transfer msg => if s.pm = .gone then none else some (transfer msg s).2
  | .assign d mode bitsPerWord maxSpeedHz =>
    some { s with dev := assign d mode bitsPerWord maxSpeedHz s.dev }
  | .setup d => if s.pm = .gone then none else some (setup d s).2
  | .check d src =>
    if (d, Setup.check) ∈ s.setups then
      (check sci src (s.dev d)).map (fun r =>
        next d .check [.untoggle] { s with dev := Function.update s.dev d r.2 })
    else none
  | .untoggle d =>
    if (d, Setup.untoggle) ∈ s.setups then
      some (next d .untoggle [.setLevel] (untoggle d s))
    else none
  | .setLevel d =>
    if (d, Setup.setLevel) ∈ s.setups then
      some (next d .setLevel [] (setLevel d (!(s.dev d).mode.csHigh) s))
    else none
  | .work =>
    match s.worker with
    | .idle => if s.pending then some { s with pending := false, worker := .looking } else none
    | _ => none
  | .look =>
    match s.worker with
    | .looking => some (look s)
    | _ => none
  | .suspend => if s.pm = .awake then some (setSuspnd .suspending s) else none
  | .suspended =>
    if s.pm = .suspending ∧ s.state.spiBusy = false then
      some { s with cur := { s.cur with speed := 0 }, hw := none, pm := .asleep }
    else none
  | .resume => if s.pm = .asleep then some (resume s) else none
  | .remove => if s.pm = .awake then some (setSuspnd .removing s) else none
  | .removed =>
    match s.worker with
    | .idle =>
      if s.pm = .removing ∧ s.state.spiBusy = false ∧ s.pending = false ∧ s.setups = [] then
        some { s with pm := .gone }
      else none
    | _ => none
  | a => whileHandling (fun h => handle sci h s a) s.worker

def start (dev : Nat → Device) (level : Nat → Bool) : Spi where
  dev := dev
  state := ⟨false, false, false, false⟩
  queue := []
  tglSpi := none
  cur := ⟨⟨false, false, false⟩, 8, 0⟩
  hw := none
  path := ⟨false, false, false, false, false⟩
  level := level
  dma := Resources.empty
  pending := false
  worker := .idle
  pm := .awake
  setups := []
  accepted := []
  completed := []

end LinuxDriver.SpiWork
