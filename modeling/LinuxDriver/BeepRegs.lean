import LinuxDriver.Runs
import Mathlib.Logic.Function.Basic

namespace LinuxDriver.BeepRegs

open Runs

def einval : Int := 22
def efault : Int := 14

inductive Reg
  | tcfg0
  | tcfg1
  | tcon
  | tcntb0
  | tcmpb0
  | tcnto0
  | tcntb1
  | tcmpb1
  | tcnto1
  | tcntb2
  | tcmpb2
  | tcnto2
  | tcntb3
  | tcmpb3
  | tcnto3
  | tcntb4
  | tcnto4
  | tintCstat
  | gpd0con
  | gpd0pud
deriving DecidableEq

abbrev Regs := Reg → BitVec 32

def modify (r : Reg) (mask bits : BitVec 32) (s : Regs) : Regs :=
  Function.update s r (s r &&& ~~~mask ||| bits)

def beepOn : BitVec 32 := 1
def beepOff : BitVec 32 := 0

def fs4412BeepOff (s : Regs) : Regs :=
  let s := modify .tcon 0xf 0x0 s
  modify .gpd0con 0xf 0x0 s

def fs4412BeepOn (s : Regs) : Regs :=
  let s := modify .gpd0con 0xf 0x2 s
  modify .tcon 0xf (0x1 ||| 0x8) s

def fs4412BeepInit (s : Regs) : Regs :=
  let s := modify .gpd0con 0xf 0x2 s
  let s := Function.update s .gpd0pud (s .gpd0pud &&& ~~~0xf)
  let s := modify .tcfg0 0xff 0xf9 s
  let s := modify .tcfg1 0xf 0x2 s
  let s := Function.update s .tcmpb0 50
  let s := Function.update s .tcntb0 100
  let s := modify .tcon 0xf (0x1 ||| 0x2) s
  fs4412BeepOff s

def beepOpen (s : Regs) : Int × Regs := (0, fs4412BeepOff s)

def beepRelease (s : Regs) : Int × Regs := (0, fs4412BeepOff s)

/-- What comes before is a test of `cmd` that only prints. -/
def beepUnlockedIoctl (cmd : BitVec 32) (s : Regs) : Int × Regs :=
  if cmd = beepOn then (0, fs4412BeepOn s) else (0, fs4412BeepOff s)

def beepWrite (buffer : Option (BitVec 32)) (size : Nat) (s : Regs) : Int × Regs :=
  if size ≠ 4 then (-einval, s)
  else
    match buffer with
    | none => (-efault, s)
    | some beepCommand =>
      if beepCommand = beepOn then (0, fs4412BeepOn s)
      else if beepCommand = beepOff then (0, fs4412BeepOff s)
      else (0, s)

inductive Act
  | «open»
  | release
  | ioctl (cmd : BitVec 32)
  | write (buffer : Option (BitVec 32)) (size : Nat)

def Act.apply (s : Regs) : Act → Regs
  | .open => (beepOpen s).2
  | .release => (beepRelease s).2
  | .ioctl cmd => (beepUnlockedIoctl cmd s).2
  | .write buffer size => (beepWrite buffer size s).2

def command (cmd : BitVec 32) : Option Bool :=
  if cmd = beepOn then some true else if cmd = beepOff then some false else none

/-- Whether the beeper should sound from this event on; `none` for the events that
should have no effect. -/
def Act.wants : Act → Option Bool
  | .open | .release => some false
  | .ioctl cmd => command cmd
  | .write buffer size => if size = 4 then buffer.bind command else none

structure Sys where
  regs : Regs
  past : List Act

def step (c : Sys) (a : Act) : Option Sys := some ⟨a.apply c.regs, c.past ++ [a]⟩

def Sys.start (s : Regs) : Sys := ⟨fs4412BeepInit s, []⟩

/-- The most recent event that should have an effect was to turn the beeper on. -/
def On (past : List Act) : Prop := (past.filterMap Act.wants).getLast? = some true

def Sounding (s : Regs) : Prop := s .tcon &&& 0xf = 0x9 ∧ s .gpd0con &&& 0xf = 0x2

def Silent (s : Regs) : Prop := s .tcon &&& 0xf = 0x0 ∧ s .gpd0con &&& 0xf = 0x0

/-- Nothing but the low four bits of two registers has changed. -/
structure Kept (s₀ s : Regs) : Prop where
  tcon : s .tcon &&& ~~~0xf = s₀ .tcon &&& ~~~0xf
  gpd0con : s .gpd0con &&& ~~~0xf = s₀ .gpd0con &&& ~~~0xf
  other : ∀ r, r ≠ .tcon → r ≠ .gpd0con → s r = s₀ r

structure Good (s₀ : Regs) (c : Sys) : Prop where
  kept : Kept s₀ c.regs
  sounding : Sounding c.regs ↔ On c.past

/-- An invalid command comes through `ioctl` only when the beeper should be off. -/
def Allowed (c : Sys) : Act → Prop
  | .ioctl cmd => command cmd = none → ¬ On c.past
  | _ => True

structure Inv (s₀ : Regs) (c : Sys) : Prop where
  kept : Kept s₀ c.regs
  on : On c.past → Sounding c.regs
  off : ¬ On c.past → Silent c.regs

theorem modify_self (r : Reg) (mask bits : BitVec 32) (s : Regs) :
    modify r mask bits s r = s r &&& ~~~mask ||| bits :=
  Function.update_self ..

theorem modify_of_ne {r t : Reg} (mask bits : BitVec 32) (s : Regs) (h : t ≠ r) :
    modify r mask bits s t = s t :=
  Function.update_of_ne h ..

theorem insert_and_mask (x mask bits : BitVec 32) :
    (x &&& ~~~mask ||| bits) &&& mask = bits &&& mask := by
  rw [BitVec.and_or_distrib_right, BitVec.and_assoc, BitVec.not_and_self]
  exact (congrArg (· ||| bits &&& mask) BitVec.and_zero).trans BitVec.zero_or

theorem insert_and_not {mask bits : BitVec 32} (x : BitVec 32) (h : bits &&& ~~~mask = 0) :
    (x &&& ~~~mask ||| bits) &&& ~~~mask = x &&& ~~~mask := by
  rw [BitVec.and_or_distrib_right, BitVec.and_assoc, BitVec.and_self, h]
  exact BitVec.or_zero

theorem and_not_of_clear {x mask : BitVec 32} (h : x &&& mask = 0) : x &&& ~~~mask = x := by
  calc x &&& ~~~mask = x &&& mask ||| x &&& ~~~mask := by rw [h]; exact BitVec.zero_or.symm
    _ = x &&& (mask ||| ~~~mask) := BitVec.and_or_distrib_left.symm
    _ = x := by rw [BitVec.or_not_self, BitVec.and_allOnes]

def drive (con tcon : BitVec 32) (s : Regs) : Regs :=
  modify .gpd0con 0xf con (modify .tcon 0xf tcon s)

theorem off_eq_drive (s : Regs) : fs4412BeepOff s = drive 0x0 0x0 s := rfl

theorem on_eq_drive (s : Regs) : fs4412BeepOn s = drive 0x2 0x9 s := by
  have hne : Reg.gpd0con ≠ Reg.tcon := Reg.noConfusion
  rw [fs4412BeepOn, drive]
  simp only [modify, Function.update_of_ne hne, Function.update_of_ne hne.symm]
  exact Function.update_comm hne _ _ s

theorem drive_tcon (con tcon : BitVec 32) (s : Regs) :
    drive con tcon s .tcon = s .tcon &&& ~~~0xf ||| tcon :=
  (modify_of_ne 0xf con _ Reg.noConfusion).trans (modify_self ..)

theorem drive_gpd0con (con tcon : BitVec 32) (s : Regs) :
    drive con tcon s .gpd0con = s .gpd0con &&& ~~~0xf ||| con := by
  rw [drive, modify_self, modify_of_ne 0xf tcon s Reg.noConfusion]

theorem drive_kept {con tcon : BitVec 32} {s₀ s : Regs} (h : Kept s₀ s)
    (hcon : con &&& ~~~0xf = 0) (htcon : tcon &&& ~~~0xf = 0) : Kept s₀ (drive con tcon s) where
  tcon := by rw [drive_tcon, insert_and_not _ htcon, h.tcon]
  gpd0con := by rw [drive_gpd0con, insert_and_not _ hcon, h.gpd0con]
  other r ht hg := by rw [drive, modify_of_ne _ _ _ hg, modify_of_ne _ _ _ ht, h.other r ht hg]

theorem off_kept {s₀ s : Regs} (h : Kept s₀ s) : Kept s₀ (fs4412BeepOff s) :=
  drive_kept h rfl rfl

theorem on_kept {s₀ s : Regs} (h : Kept s₀ s) : Kept s₀ (fs4412BeepOn s) := by
  rw [on_eq_drive]
  exact drive_kept h rfl rfl

theorem off_silent (s : Regs) : Silent (fs4412BeepOff s) := by
  rw [off_eq_drive, Silent, drive_tcon, drive_gpd0con, insert_and_mask, insert_and_mask]
  exact ⟨rfl, rfl⟩

theorem on_sounding (s : Regs) : Sounding (fs4412BeepOn s) := by
  rw [on_eq_drive, Sounding, drive_tcon, drive_gpd0con, insert_and_mask, insert_and_mask]
  exact ⟨rfl, rfl⟩

theorem not_sounding_of_silent {s : Regs} (h : Silent s) : ¬ Sounding s := by
  intro hs
  have hzero := h.1.symm.trans hs.1
  cases hzero

theorem off_eq_self_iff (s : Regs) : fs4412BeepOff s = s ↔ Silent s := by
  constructor
  · intro h
    rw [← h]
    exact off_silent s
  · intro h
    funext r
    by_cases hg : r = .gpd0con
    · subst hg
      rw [off_eq_drive, drive_gpd0con, and_not_of_clear h.2]
      exact BitVec.or_zero
    · by_cases ht : r = .tcon
      · subst ht
        rw [off_eq_drive, drive_tcon, and_not_of_clear h.1]
        exact BitVec.or_zero
      · rw [off_eq_drive, drive, modify_of_ne _ _ _ hg, modify_of_ne _ _ _ ht]

theorem command_eq_some {cmd : BitVec 32} {on : Bool} (h : command cmd = some on) :
    cmd = beepOn ∧ on = true ∨ cmd ≠ beepOn ∧ cmd = beepOff ∧ on = false := by
  rw [command] at h
  split at h
  · rename_i hon
    cases h
    exact .inl ⟨hon, rfl⟩
  · rename_i hon
    split at h
    · rename_i hoff
      cases h
      exact .inr ⟨hon, hoff, rfl⟩
    · cases h

theorem command_eq_none {cmd : BitVec 32} (h : command cmd = none) :
    cmd ≠ beepOn ∧ cmd ≠ beepOff := by
  rw [command] at h
  split at h
  · cases h
  · rename_i hon
    split at h
    · cases h
    · rename_i hoff
      exact ⟨hon, hoff⟩

theorem ioctl_of_command {cmd : BitVec 32} {on : Bool} (h : command cmd = some on) (s : Regs) :
    (beepUnlockedIoctl cmd s).2 = if on then fs4412BeepOn s else fs4412BeepOff s := by
  rw [beepUnlockedIoctl]
  obtain ⟨hcmd, rfl⟩ | ⟨hcmd, -, rfl⟩ := command_eq_some h
  · rw [if_pos hcmd, if_pos rfl]
  · rw [if_neg hcmd, if_neg Bool.false_ne_true]

theorem ioctl_of_invalid {cmd : BitVec 32} (h : command cmd = none) (s : Regs) :
    (beepUnlockedIoctl cmd s).2 = fs4412BeepOff s := by
  rw [beepUnlockedIoctl, if_neg (command_eq_none h).1]

theorem write_of_command {cmd : BitVec 32} {on : Bool} (h : command cmd = some on) (s : Regs) :
    (beepWrite (some cmd) 4 s).2 = if on then fs4412BeepOn s else fs4412BeepOff s := by
  simp only [beepWrite, ne_eq, not_true_eq_false, if_false]
  obtain ⟨hcmd, rfl⟩ | ⟨hne, hcmd, rfl⟩ := command_eq_some h
  · rw [if_pos hcmd, if_pos rfl]
  · rw [if_neg hne, if_pos hcmd, if_neg Bool.false_ne_true]

theorem write_of_invalid {cmd : BitVec 32} (h : command cmd = none) (s : Regs) :
    (beepWrite (some cmd) 4 s).2 = s := by
  obtain ⟨hon, hoff⟩ := command_eq_none h
  simp only [beepWrite, ne_eq, not_true_eq_false, if_false, if_neg hon, if_neg hoff]

theorem apply_of_wants {a : Act} {on : Bool} (h : a.wants = some on) (s : Regs) :
    a.apply s = if on then fs4412BeepOn s else fs4412BeepOff s := by
  cases a with
  | «open» =>
    cases h
    rfl
  | release =>
    cases h
    rfl
  | ioctl cmd => exact ioctl_of_command h s
  | write buffer size =>
    rw [Act.wants] at h
    split at h
    · rename_i hsize
      subst hsize
      obtain ⟨cmd, rfl, hcmd⟩ := Option.bind_eq_some_iff.mp h
      exact write_of_command hcmd s
    · cases h

theorem write_of_none {buffer : Option (BitVec 32)} {size : Nat}
    (h : (Act.write buffer size).wants = none) (s : Regs) : (beepWrite buffer size s).2 = s := by
  by_cases hsize : size = 4
  · subst hsize
    cases buffer with
    | none => rfl
    | some cmd => exact write_of_invalid h s
  · simp only [beepWrite, ne_eq, hsize, not_false_eq_true, if_true]

theorem on_append_of_wants {a : Act} {on : Bool} (h : a.wants = some on) (past : List Act) :
    On (past ++ [a]) ↔ on = true := by
  simp [On, List.filterMap_append, h]

theorem on_append_of_none {a : Act} (h : a.wants = none) (past : List Act) :
    On (past ++ [a]) ↔ On past := by
  simp [On, List.filterMap_append, h]

theorem good_of_inv {s₀ : Regs} {c : Sys} (h : Inv s₀ c) : Good s₀ c where
  kept := h.kept
  sounding := by
    refine ⟨fun hs => ?_, h.on⟩
    by_contra hoff
    exact not_sounding_of_silent (h.off hoff) hs

theorem inv_start (s : Regs) : Inv (fs4412BeepInit s) (Sys.start s) where
  kept := ⟨rfl, rfl, fun _ _ _ => rfl⟩
  on h := by cases h
  off _ := off_silent _

theorem inv_of_wants {s₀ : Regs} {c : Sys} {a : Act} {on : Bool} (h : Inv s₀ c)
    (hw : a.wants = some on) : Inv s₀ ⟨a.apply c.regs, c.past ++ [a]⟩ := by
  rw [apply_of_wants hw]
  cases on with
  | true =>
    exact ⟨on_kept h.kept, fun _ => on_sounding _,
      fun hno => absurd ((on_append_of_wants hw c.past).mpr rfl) hno⟩
  | false =>
    exact ⟨off_kept h.kept, fun hon => Bool.noConfusion ((on_append_of_wants hw c.past).mp hon),
      fun _ => off_silent _⟩

theorem inv_of_ioctl {s₀ : Regs} {c : Sys} {cmd : BitVec 32} (h : Inv s₀ c)
    (hw : command cmd = none) (hoff : ¬ On c.past) :
    Inv s₀ ⟨Act.apply c.regs (.ioctl cmd), c.past ++ [.ioctl cmd]⟩ := by
  rw [Act.apply, ioctl_of_invalid hw]
  have hpast := on_append_of_none (a := .ioctl cmd) hw c.past
  exact ⟨off_kept h.kept, fun hon => absurd (hpast.mp hon) hoff, fun _ => off_silent _⟩

theorem inv_of_write {s₀ : Regs} {c : Sys} {buffer : Option (BitVec 32)} {size : Nat}
    (h : Inv s₀ c) (hw : (Act.write buffer size).wants = none) :
    Inv s₀ ⟨Act.apply c.regs (.write buffer size), c.past ++ [.write buffer size]⟩ := by
  rw [Act.apply, write_of_none hw]
  have hpast := on_append_of_none hw c.past
  exact ⟨h.kept, fun hon => h.on (hpast.mp hon), fun hno => h.off (fun hon => hno (hpast.mpr hon))⟩

theorem step_inv {s₀ : Regs} {c d : Sys} {a : Act} (h : Inv s₀ c) (ha : Allowed c a)
    (hstep : step c a = some d) : Inv s₀ d := by
  cases hstep
  cases hw : a.wants with
  | some on => exact inv_of_wants h hw
  | none =>
    cases a with
    | «open» => cases hw
    | release => cases hw
    | ioctl cmd => exact inv_of_ioctl h hw (ha hw)
    | write buffer size => exact inv_of_write h hw

theorem step_bad {s₀ : Regs} {c : Sys} {a : Act} (ha : ¬ Allowed c a) :
    ¬ Good s₀ ⟨a.apply c.regs, c.past ++ [a]⟩ := by
  cases a with
  | ioctl cmd =>
    obtain ⟨hw, hon⟩ := Classical.not_imp.mp ha
    have hpast := on_append_of_none (a := .ioctl cmd) hw c.past
    intro hgood
    have hs := hgood.sounding.mpr (hpast.mpr (not_not.mp hon))
    rw [Act.apply, ioctl_of_invalid hw] at hs
    exact not_sounding_of_silent (off_silent _) hs
  | «open» | release | write => exact absurd trivial ha

theorem apply_kept {s₀ s : Regs} (h : Kept s₀ s) (a : Act) : Kept s₀ (a.apply s) := by
  cases hw : a.wants with
  | some on =>
    rw [apply_of_wants hw]
    cases on with
    | true => exact on_kept h
    | false => exact off_kept h
  | none =>
    cases a with
    | «open» => cases hw
    | release => cases hw
    | ioctl cmd =>
      rw [Act.apply, ioctl_of_invalid hw]
      exact off_kept h
    | write buffer size =>
      rw [Act.apply, write_of_none hw]
      exact h

/-- No run, with whatever commands, changes more than the low four bits of the two
registers. -/
theorem registers_kept (s₀ : Regs) (as : List Act) :
    Always step (fun c => Kept (fs4412BeepInit s₀) c.regs) (Sys.start s₀) as := by
  have hany : Meets step (fun _ _ => True) (Sys.start s₀) as :=
    meets_of_forall (fun _ _ => trivial) _ as
  refine always_of_meets ?_ (inv_start s₀).kept hany
  intro c a d h _ hstep
  cases hstep
  exact apply_kept h a

/-- The beeper sounds as the events say in a run exactly when no invalid command of
`ioctl` finds it on; and the two command paths differ in the invalid commands, unless
the beeper is off already. -/
theorem commands_agree_iff (s₀ : Regs) (as : List Act) (s : Regs) (cmd : BitVec 32) :
    (Always step (Good (fs4412BeepInit s₀)) (Sys.start s₀) as ↔
      Meets step Allowed (Sys.start s₀) as) ∧
    ((beepUnlockedIoctl cmd s).2 = (beepWrite (some cmd) 4 s).2 ↔
      command cmd ≠ none ∨ Silent s) := by
  constructor
  · exact always_iff_meets (fun _ => good_of_inv) (fun _ _ _ => step_inv)
      (fun _ _ _ ha => ⟨_, rfl, step_bad ha⟩) as (inv_start s₀)
  · cases h : command cmd with
    | none =>
      rw [ioctl_of_invalid h, write_of_invalid h, off_eq_self_iff]
      exact ⟨.inr, fun hor => hor.resolve_left (fun hne => hne rfl)⟩
    | some on =>
      rw [ioctl_of_command h, write_of_command h]
      exact ⟨fun _ => .inl (Option.some_ne_none on), fun _ => rfl⟩

/-- Command 2 turns the beeper off when it comes through `ioctl`, and not when it is
written. -/
theorem invalid_ioctl_stops_sound :
    (¬ ∀ s as, Always step (Good (fs4412BeepInit s)) (Sys.start s) as) ∧
    ¬ ∀ s cmd, (beepUnlockedIoctl cmd s).2 = (beepWrite (some cmd) 4 s).2 := by
  constructor
  · intro h
    have hgood := always_end (h (fun _ => 0) [.ioctl 1, .ioctl 2]) rfl
    have hs := hgood.sounding.mpr rfl
    exact not_sounding_of_silent (off_silent _) hs
  · intro h
    have heq := congrFun (h (fun _ => 0x9) 2) .tcon
    revert heq
    decide

end LinuxDriver.BeepRegs
