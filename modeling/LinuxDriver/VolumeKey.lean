import LinuxDriver.Runs
import Mathlib.Logic.Function.Iterate

namespace LinuxDriver.VolumeKey

open Runs

inductive Dev
  | allocated
  | registered
  | unregistered
deriving DecidableEq

/-- The next call of `hello_probe`, from `request_irq` on, or of `hello_remove`. A
bound driver knows whether the registration succeeded only here: `hello_probe`
returns 0 in both cases. `oops` is a `set_bit` through a NULL `input`. -/
inductive Pc
  | requestIrq
  | allocate
  | register
  | bound (registered : Bool)
  | oops
deriving DecidableEq

/-- A call of `input_report_key`, with what has become of the device that it is for;
there is none when `input` is NULL. -/
structure Report where
  device : Option Dev
  value : Nat

/-- `devices` are all devices there have been, which `input` points into. -/
structure State where
  pc : Pc
  input : Option Nat
  devices : List Dev
  installed : Nat
  level : Bool
  reports : List Report

def State.init (level : Bool) : State := ⟨.requestIrq, none, [], 0, level, []⟩

def State.device (s : State) : Option Dev := s.input.bind (fun i => s.devices[i]?)

def State.setDevice (s : State) (d : Dev) : State :=
  { s with devices := s.input.elim s.devices (fun i => s.devices.set i d) }

def requestIrq (ok : Bool) (s : State) : State :=
  if ok && s.installed = 0 then { s with installed := 1 } else s

def buttonInterrupt (s : State) : State :=
  let state := (if s.level then 1 else 0) ^^^ 1
  { s with reports := s.reports ++ [⟨s.device, state⟩] }

def edge (s : State) : State :=
  buttonInterrupt^[s.installed] { s with level := !s.level }

def driverStep (ok : Bool) (s : State) : Option State :=
  match s.pc with
  | .requestIrq => some { requestIrq ok s with pc := .allocate }
  | .allocate =>
    if ok then
      some { s with
        devices := s.devices ++ [.allocated], input := some s.devices.length, pc := .register }
    else some { s with input := none, pc := .oops }
  | .register =>
    some { (if ok then s.setDevice .registered else s) with pc := .bound ok }
  | .bound _ => some { s.setDevice .unregistered with pc := .requestIrq }
  | .oops => none

inductive Act
  | driver (ok : Bool)
  | edge

def step (s : State) : Act → Option State
  | .driver ok => driverStep ok s
  | .edge => some (edge s)

/-- Every report went to a device that was registered, and there is one handler
at most. -/
structure Safe (s : State) : Prop where
  reports : ∀ r, r ∈ s.reports → r.device = some .registered
  installed : s.installed ≤ 1

/-- An edge comes, once the handler is installed, only while the driver is bound
with its device registered. -/
def Allowed (s : State) : Act → Prop
  | .edge => s.installed ≠ 0 → s.pc = .bound true
  | .driver _ => True

def Pc.Device : Pc → Option Dev → Prop
  | .requestIrq, d | .allocate, d => d = none ∨ d = some .unregistered
  | .register, d | .bound false, d => d = some .allocated
  | .bound true, d => d = some .registered
  | .oops, d => d = none

structure Inv (s : State) : Prop where
  safe : Safe s
  device : s.pc.Device s.device

theorem inv_init (level : Bool) : Inv (State.init level) where
  safe := ⟨List.forall_mem_nil _, Nat.zero_le 1⟩
  device := .inl rfl

theorem Inv.registered_iff {s : State} (h : Inv s) :
    s.device = some .registered ↔ s.pc = .bound true := by
  have hd := h.device
  generalize s.pc = pc at hd ⊢
  generalize s.device = d at hd ⊢
  cases pc with
  | bound ok => cases ok <;> rw [Pc.Device] at hd <;> simp [hd]
  | requestIrq => obtain rfl | rfl := hd <;> simp
  | allocate => obtain rfl | rfl := hd <;> simp
  | register | oops =>
    rw [Pc.Device] at hd
    simp [hd]

@[simp]
theorem device_allocate (s : State) (pc : Pc) :
    State.device { s with
      devices := s.devices ++ [.allocated], input := some s.devices.length, pc := pc } =
      some .allocated :=
  List.getElem?_concat_length

theorem device_setDevice (s : State) (d : Dev) :
    (s.setDevice d).device = s.device.map (fun _ => d) := by
  rw [State.setDevice, State.device, State.device]
  cases s.input with
  | none => rfl
  | some i => exact List.getElem?_set_self' ..

theorem installed_requestIrq {s : State} (ok : Bool) (h : s.installed ≤ 1) :
    (requestIrq ok s).installed ≤ 1 := by
  rw [requestIrq]
  split
  · exact Nat.le_refl 1
  · exact h

theorem requestIrq_frame (ok : Bool) (s : State) :
    requestIrq ok s = { s with installed := (requestIrq ok s).installed } := by
  rw [requestIrq]
  split <;> rfl

theorem driver_inv {s t : State} {ok : Bool} (h : Inv s) (hstep : driverStep ok s = some t) :
    Inv t := by
  obtain ⟨hsafe, hdev⟩ := h
  rw [driverStep] at hstep
  generalize hpc : s.pc = pc at *
  cases pc with
  | requestIrq =>
    cases hstep
    have hone := installed_requestIrq ok hsafe.installed
    rw [requestIrq_frame]
    exact ⟨⟨hsafe.reports, hone⟩, hdev⟩
  | allocate =>
    simp only at hstep
    split at hstep
    · cases hstep
      exact ⟨⟨hsafe.reports, hsafe.installed⟩, device_allocate s _⟩
    · cases hstep
      exact ⟨⟨hsafe.reports, hsafe.installed⟩, rfl⟩
  | register =>
    cases hstep
    cases ok with
    | false => exact ⟨⟨hsafe.reports, hsafe.installed⟩, hdev⟩
    | true =>
      refine ⟨⟨hsafe.reports, hsafe.installed⟩, (device_setDevice s .registered).trans ?_⟩
      rw [hdev]
      rfl
  | bound registered =>
    cases hstep
    refine ⟨⟨hsafe.reports, hsafe.installed⟩, .inr ((device_setDevice s .unregistered).trans ?_)⟩
    cases registered <;> rw [hdev] <;> rfl
  | oops => cases hstep

theorem edge_eq {s : State} (h : s.installed ≤ 1) :
    edge s = { s with
      level := !s.level
      reports := if s.installed = 0 then s.reports
        else s.reports ++ [⟨s.device, (if !s.level then 1 else 0) ^^^ 1⟩] } := by
  obtain hzero | hone := Nat.le_one_iff_eq_zero_or_eq_one.mp h
  · simp only [edge, hzero, Function.iterate_zero, id, if_true]
  · simp only [edge, hone, Function.iterate_one, buttonInterrupt]
    rfl

theorem edge_inv {s : State} (h : Inv s) (ha : Allowed s .edge) : Inv (edge s) := by
  rw [edge_eq h.safe.installed]
  refine ⟨⟨?_, h.safe.installed⟩, h.device⟩
  by_cases hzero : s.installed = 0
  · simp only [hzero, if_true]
    exact h.safe.reports
  · simp only [if_neg hzero, List.forall_mem_append, List.forall_mem_singleton]
    exact ⟨h.safe.reports, h.registered_iff.mpr (ha hzero)⟩

theorem edge_unsafe {s : State} (h : Inv s) (ha : ¬ Allowed s .edge) : ¬ Safe (edge s) := by
  obtain ⟨hinst, hpc⟩ := Classical.not_imp.mp ha
  rw [edge_eq h.safe.installed]
  intro hsafe
  have hlast := hsafe.reports ⟨s.device, (if !s.level then 1 else 0) ^^^ 1⟩
    (by simp only [if_neg hinst, List.mem_append, List.mem_singleton, or_true])
  exact hpc (h.registered_iff.mp hlast)

/-- All reports of a run go to a registered device exactly when every edge of it
comes before the handler is installed or while the driver is bound. -/
theorem reports_registered_iff (level : Bool) (as : List Act) :
    Always step Safe (State.init level) as ↔ Meets step Allowed (State.init level) as := by
  refine always_iff_meets (fun _ hs => hs.safe) ?_ ?_ as (inv_init level)
  · intro s a t h ha hstep
    cases a with
    | driver ok => exact driver_inv h hstep
    | edge =>
      cases hstep
      exact edge_inv h ha
  · intro s a h ha
    cases a with
    | driver ok => exact absurd trivial ha
    | edge => exact ⟨_, rfl, edge_unsafe h ha⟩

/-- An edge comes between `request_irq` and `input_allocate_device`. -/
theorem early_edge_has_no_device : ¬ ∀ level as, Always step Safe (State.init level) as := by
  intro h
  have hend := always_end (h true [.driver true, .edge]) rfl
  have hnone := hend.reports ⟨none, 1⟩ (List.mem_singleton.mpr rfl)
  cases hnone

end LinuxDriver.VolumeKey
