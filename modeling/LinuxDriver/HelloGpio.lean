import LinuxDriver.Holding
import LinuxDriver.Runs

namespace LinuxDriver.HelloGpio

open Runs Holding

def einval : Int := 22

inductive Bank
  | gpl2
  | gpk1
  | gpd0
  | gpx1
  | gpx3
  | gpx2
  | gpj1
  | gpl0
  | gpj0
  | gpk3
  | gpc1
deriving DecidableEq

structure Gpio where
  bank : Bank
  num : Nat
deriving DecidableEq

def ledGpios : List Gpio :=
  [⟨.gpl2, 0⟩, ⟨.gpk1, 1⟩,
   ⟨.gpd0, 0⟩,
   ⟨.gpx1, 0⟩, ⟨.gpx1, 3⟩, ⟨.gpx1, 5⟩, ⟨.gpx1, 6⟩,
   ⟨.gpx3, 0⟩, ⟨.gpx2, 6⟩, ⟨.gpx2, 7⟩, ⟨.gpx3, 5⟩,
   ⟨.gpj1, 3⟩, ⟨.gpl0, 1⟩, ⟨.gpl0, 3⟩, ⟨.gpj1, 0⟩,
   ⟨.gpj1, 2⟩, ⟨.gpj1, 1⟩, ⟨.gpj0, 7⟩, ⟨.gpj0, 6⟩,
   ⟨.gpj0, 5⟩, ⟨.gpj0, 4⟩, ⟨.gpj0, 0⟩, ⟨.gpj0, 3⟩,
   ⟨.gpj0, 1⟩, ⟨.gpj0, 2⟩,
   ⟨.gpk3, 6⟩, ⟨.gpk3, 1⟩, ⟨.gpk3, 4⟩, ⟨.gpk3, 0⟩,
   ⟨.gpk3, 3⟩, ⟨.gpk3, 5⟩, ⟨.gpc1, 1⟩]

def ledNum : Nat := ledGpios.length

inductive Resource
  | gpio (g : Gpio)
  | helloDev
deriving DecidableEq

structure State where
  holding : Resources Resource
  level : Gpio → Nat

def State.init : State := ⟨Resources.empty, fun _ => 0⟩

structure Outcome where
  request : Gpio → Int
  register : Int
  request_le : ∀ g, request g ≤ 0

def gpioSetValue (g : Gpio) (value : Nat) (s : State) : State :=
  ⟨s.holding.use (.gpio g), Function.update s.level g value⟩

/-- `gpio_set_value` of an element of `led_gpios`, which may not be there. -/
def setLed (i value : Nat) (s : State) : State :=
  match ledGpios[i]? with
  | some g => gpioSetValue g value s
  | none => { s with holding := { s.holding with misused := true } }

def requestLed (o : Outcome) (g : Gpio) (s : State) : Int × State :=
  if o.request g ≠ 0 then (o.request g, s)
  else (0, gpioSetValue g 1 { s with holding := s.holding.acquire (.gpio g) })

def requestLeds (o : Outcome) (gs : List Gpio) (ret : Int) (s : State) : Int × State :=
  gs.foldl (fun r g => requestLed o g r.2) (ret, s)

def miscRegister (o : Outcome) (s : State) : State :=
  if o.register = 0 then { s with holding := s.holding.acquire .helloDev } else s

def miscDeregister (s : State) : State := { s with holding := s.holding.release .helloDev }

def helloProbe (o : Outcome) (s : State) : Int × State :=
  let r := requestLeds o ledGpios 0 s
  let s := miscRegister o (setLed 2 0 r.2)
  if r.1 < 0 then (r.1, miscDeregister s) else (0, s)

def helloIoctl (cmd arg : Nat) (s : State) : Int × State :=
  if cmd = 0 ∨ cmd = 1 then
    if ledNum < arg then (-einval, s) else (0, setLed 2 0 (setLed arg cmd s))
  else (-einval, s)

def helloRemove (s : State) : State :=
  miscDeregister { s with holding := s.holding.releaseAll (ledGpios.map .gpio) }

/-- The driver, and whether its last probe succeeded and was not removed. -/
structure Sys where
  st : State
  bound : Bool

inductive Act
  | probe (o : Outcome)
  | ioctl (cmd arg : Nat)
  | remove

def step (c : Sys) : Act → Option Sys
  | .probe o =>
    if c.bound then none
    else
      let r := helloProbe o c.st
      some ⟨r.2, decide (r.1 = 0)⟩
  | .ioctl cmd arg => if c.bound then some { c with st := (helloIoctl cmd arg c.st).2 } else none
  | .remove => if c.bound then some ⟨helloRemove c.st, false⟩ else none

def Sys.start : Sys := ⟨State.init, false⟩

/-- No call was on a GPIO or a device that the driver did not hold, and it holds
none while it is not bound. -/
structure Owned (c : Sys) : Prop where
  clean : c.st.holding.misused = false
  free : c.bound = false → c.st.holding.held = []

def all : List Resource := ledGpios.map .gpio ++ [.helloDev]

def led2 : Gpio := ⟨.gpd0, 0⟩

def lastLed : Gpio := ⟨.gpc1, 1⟩

/-- The steps that keep the ownership: a probe is granted the third and the last
GPIO, a request sets one that was granted, and before a removal nothing was
refused. -/
def Allowed (c : Sys) : Act → Prop
  | .probe o => c.bound = false → o.request led2 = 0 ∧ o.request lastLed = 0
  | .ioctl cmd arg => c.bound = true → cmd = 0 ∨ cmd = 1 → ledNum < arg ∨
      ∃ g, ledGpios[arg]? = some g ∧ .gpio g ∈ c.st.holding.held
  | .remove => c.bound = true → ∀ r, r ∈ all → r ∈ c.st.holding.held

theorem all_nodup : all.Nodup := by decide

theorem led2_eq : ledGpios[2]? = some led2 := rfl

def granted (o : Outcome) (gs : List Gpio) : List Resource :=
  (gs.filter (fun g => o.request g = 0)).map .gpio

theorem requestLeds_holding (o : Outcome) (gs : List Gpio) (ret : Int) (s : State) :
    (requestLeds o gs ret s).2.holding =
      ⟨s.holding.held ++ granted o gs, s.holding.misused⟩ := by
  induction gs generalizing ret s with
  | nil => simp [requestLeds, granted]
  | cons g gs ih =>
    rw [requestLeds, List.foldl_cons, ← requestLeds, ih]
    by_cases hg : o.request g = 0
    · have hmem : .gpio g ∈ (s.holding.acquire (.gpio g)).held := by
        simp [Resources.acquire]
      simp only [requestLed, hg, ne_eq, not_true_eq_false, if_false, gpioSetValue, use_of_mem hmem]
      simp [Resources.acquire, granted, hg]
    · simp [requestLed, granted, hg]

theorem requestLeds_ret (o : Outcome) (ret : Int) (s : State) :
    (requestLeds o ledGpios ret s).1 = o.request lastLed := by
  have hsplit : ledGpios = ledGpios.dropLast ++ [lastLed] := rfl
  rw [requestLeds, hsplit, List.foldl_append, List.foldl_cons, List.foldl_nil, requestLed]
  split
  · rfl
  · rename_i h
    exact (not_not.mp h).symm

theorem setLed_granted {i : Nat} {g : Gpio} {s : State} (hi : ledGpios[i]? = some g)
    (hg : .gpio g ∈ s.holding.held) (value : Nat) : (setLed i value s).holding = s.holding := by
  simp only [setLed, hi, gpioSetValue, use_of_mem hg]

theorem setLed_misused {i : Nat} {s : State}
    (h : ¬ ∃ g, ledGpios[i]? = some g ∧ .gpio g ∈ s.holding.held) (value : Nat) :
    (setLed i value s).holding = ⟨s.holding.held, true⟩ := by
  rw [setLed]
  cases hi : ledGpios[i]? with
  | none => rfl
  | some g => exact use_of_not_mem (fun hg => h ⟨g, hi, hg⟩)

theorem granted_sublist (o : Outcome) (gs : List Gpio) : (granted o gs).Sublist (gs.map .gpio) :=
  List.filter_sublist.map _

theorem mem_granted {o : Outcome} {gs : List Gpio} {g : Gpio} :
    .gpio g ∈ granted o gs ↔ g ∈ gs ∧ o.request g = 0 := by
  simp [granted]

structure Inv (c : Sys) : Prop where
  owned : Owned c
  sub : c.st.holding.held.Sublist all
  led2 : c.bound = true → .gpio led2 ∈ c.st.holding.held

theorem inv_start : Inv Sys.start where
  owned := ⟨rfl, fun _ => rfl⟩
  sub := List.nil_sublist _
  led2 h := Bool.noConfusion h

theorem inv_of_holding {s t : State} (h : Inv ⟨s, true⟩) (heq : t.holding = s.holding) :
    Inv ⟨t, true⟩ where
  owned := ⟨(congrArg Resources.misused heq).trans h.owned.clean, fun hno => Bool.noConfusion hno⟩
  sub := by
    change t.holding.held.Sublist all
    rw [heq]
    exact h.sub
  led2 _ := by
    change .gpio led2 ∈ t.holding.held
    rw [heq]
    exact h.led2 rfl

theorem owned_free {s : State} : Owned ⟨s, false⟩ ↔ s.holding = Resources.empty := by
  constructor
  · intro h
    obtain ⟨⟨held, misused⟩, level⟩ := s
    have hfree : held = [] := h.free rfl
    have hclean : misused = false := h.clean
    rw [hfree, hclean]
    rfl
  · intro h
    refine ⟨?_, fun _ => ?_⟩
    · simp only [h, Resources.empty]
    · simp only [h, Resources.empty]

theorem miscRegister_holding (o : Outcome) (s : State) :
    (miscRegister o s).holding = ⟨s.holding.held ++ (if o.register = 0 then [.helloDev] else []),
      s.holding.misused⟩ := by
  rw [miscRegister]
  split
  · rfl
  · rw [List.append_nil]

theorem probe_before_end {o : Outcome} {s : State} (hs : s.holding = Resources.empty) :
    (miscRegister o (setLed 2 0 (requestLeds o ledGpios 0 s).2)).holding =
      ⟨granted o ledGpios ++ (if o.register = 0 then [.helloDev] else []),
        !decide (o.request led2 = 0)⟩ := by
  have hloop := requestLeds_holding o ledGpios 0 s
  rw [hs, Resources.empty, List.nil_append] at hloop
  rw [miscRegister_holding]
  by_cases h2 : o.request led2 = 0
  · have hmem : .gpio led2 ∈ (requestLeds o ledGpios 0 s).2.holding.held := by
      rw [hloop]
      exact mem_granted.mpr ⟨by decide, h2⟩
    rw [setLed_granted led2_eq hmem, hloop, h2]
    rfl
  · have hno : ¬ ∃ g, ledGpios[2]? = some g ∧
        .gpio g ∈ (requestLeds o ledGpios 0 s).2.holding.held := by
      rintro ⟨g, hg, hmem⟩
      rw [led2_eq] at hg
      cases hg
      rw [hloop] at hmem
      exact h2 (mem_granted.mp hmem).2
    rw [setLed_misused hno, hloop]
    simp [h2]

theorem probe_inv {o : Outcome} {s : State} (hs : s.holding = Resources.empty)
    (h2 : o.request led2 = 0) (hlast : o.request lastLed = 0) :
    Inv ⟨(helloProbe o s).2, decide ((helloProbe o s).1 = 0)⟩ := by
  have hend := probe_before_end (o := o) hs
  have hret : helloProbe o s =
      (0, miscRegister o (setLed 2 0 (requestLeds o ledGpios 0 s).2)) := by
    simp only [helloProbe, requestLeds_ret, hlast]
    exact if_neg (Int.lt_irrefl 0)
  rw [hret]
  refine ⟨⟨?_, fun hno => by simp at hno⟩, ?_, fun _ => ?_⟩
  · simp only [hend, h2]
    rfl
  · simp only [hend]
    refine (granted_sublist o ledGpios).append ?_
    split
    · exact List.Sublist.refl _
    · exact List.nil_sublist _
  · simp only [hend]
    exact List.mem_append_left _ (mem_granted.mpr ⟨by decide, h2⟩)

theorem probe_not_owned {o : Outcome} {s : State} (hs : s.holding = Resources.empty)
    (h : ¬ (o.request led2 = 0 ∧ o.request lastLed = 0)) :
    ¬ Owned ⟨(helloProbe o s).2, decide ((helloProbe o s).1 = 0)⟩ := by
  have hend := probe_before_end (o := o) hs
  intro howned
  have hclean := howned.clean
  have hfree := howned.free
  simp only [helloProbe, requestLeds_ret] at hclean hfree
  by_cases h2 : o.request led2 = 0
  · have hneg : o.request lastLed < 0 := by
      have := o.request_le lastLed
      have : o.request lastLed ≠ 0 := fun h0 => h ⟨h2, h0⟩
      omega
    have hmem : .gpio led2 ∈ (miscDeregister (miscRegister o
        (setLed 2 0 (requestLeds o ledGpios 0 s).2))).holding.held := by
      apply mem_release_of_ne _ Resource.noConfusion
      rw [hend]
      exact List.mem_append_left _ (mem_granted.mpr ⟨by decide, h2⟩)
    simp only [if_pos hneg] at hfree
    rw [hfree (by simp; omega)] at hmem
    cases hmem
  · have hbad : (miscRegister o (setLed 2 0 (requestLeds o ledGpios 0 s).2)).holding.misused =
        true := by
      rw [hend]
      simp [h2]
    split at hclean
    · have := misused_release (r := .helloDev) hbad
      exact Bool.noConfusion (hclean.symm.trans this)
    · exact Bool.noConfusion (hclean.symm.trans hbad)

theorem ioctl_inv {s : State} {cmd arg : Nat} (h : Inv ⟨s, true⟩) :
    (Allowed ⟨s, true⟩ (.ioctl cmd arg) → Inv ⟨(helloIoctl cmd arg s).2, true⟩) ∧
    (¬ Allowed ⟨s, true⟩ (.ioctl cmd arg) → ¬ Owned ⟨(helloIoctl cmd arg s).2, true⟩) := by
  have h2 : .gpio led2 ∈ s.holding.held := h.led2 rfl
  rw [helloIoctl, Allowed]
  by_cases hcmd : cmd = 0 ∨ cmd = 1
  · rw [if_pos hcmd]
    by_cases harg : ledNum < arg
    · rw [if_pos harg]
      exact ⟨fun _ => h, fun hno => absurd (fun _ _ => Or.inl harg) hno⟩
    · rw [if_neg harg]
      by_cases hled : ∃ g, ledGpios[arg]? = some g ∧ .gpio g ∈ s.holding.held
      · obtain ⟨g, hg, hmem⟩ := hled
        have hfirst := setLed_granted hg hmem cmd
        have hboth := setLed_granted led2_eq (s := setLed arg cmd s) (by rw [hfirst]; exact h2) 0
        exact ⟨fun _ => inv_of_holding h (hboth.trans hfirst),
          fun hno => absurd (fun _ _ => Or.inr ⟨g, hg, hmem⟩) hno⟩
      · have hfirst := setLed_misused hled cmd
        have hboth := setLed_granted led2_eq (s := setLed arg cmd s) (by rw [hfirst]; exact h2) 0
        refine ⟨fun hyes => absurd (hyes rfl hcmd) (fun hor => hor.elim harg hled),
          fun _ howned => ?_⟩
        have hclean : (setLed 2 0 (setLed arg cmd s)).holding.misused = false := howned.clean
        rw [hboth, hfirst] at hclean
        cases hclean
  · rw [if_neg hcmd]
    exact ⟨fun _ => h, fun hno => absurd (fun _ hyes => absurd hyes hcmd) hno⟩

/-- A removal releases just what is held exactly when nothing was refused. -/
theorem remove_owned {s : State} (h : Inv ⟨s, true⟩) :
    Owned ⟨helloRemove s, false⟩ ↔ ∀ r, r ∈ all → r ∈ s.holding.held := by
  have hrel : (helloRemove s).holding = s.holding.releaseAll all := by
    rw [all, releaseAll_append, releaseAll_cons, releaseAll_nil]
    simp only [helloRemove, miscDeregister]
  have hsub : s.holding.held.Sublist all := h.sub
  rw [owned_free, hrel, releaseAll_eq_empty]
  constructor
  · intro hperm r hr
    exact hperm.1.mem_iff.mpr hr
  · intro hall
    have hlen := (List.subperm_of_subset all_nodup hall).length_le
    rw [hsub.eq_of_length_le hlen]
    exact ⟨List.Perm.refl _, h.owned.clean⟩

theorem step_owned {c d : Sys} {a : Act} (h : Inv c) (hstep : step c a = some d) :
    (Allowed c a → Inv d) ∧ (¬ Allowed c a → ¬ Owned d) := by
  obtain ⟨s, bound⟩ := c
  cases bound with
  | false =>
    cases a with
    | probe o =>
      have hd : ⟨(helloProbe o s).2, decide ((helloProbe o s).1 = 0)⟩ = d :=
        Option.some.inj hstep
      have hs := owned_free.mp h.owned
      subst hd
      exact ⟨fun ha => probe_inv hs (ha rfl).1 (ha rfl).2,
        fun ha => probe_not_owned hs (fun hyes => ha (fun _ => hyes))⟩
    | ioctl cmd arg => cases hstep
    | remove => cases hstep
  | true =>
    cases a with
    | probe o => cases hstep
    | ioctl cmd arg =>
      have hd : ⟨(helloIoctl cmd arg s).2, true⟩ = d := Option.some.inj hstep
      subst hd
      exact ioctl_inv h
    | remove =>
      have hd : ⟨helloRemove s, false⟩ = d := Option.some.inj hstep
      subst hd
      refine ⟨fun ha => ?_, fun ha howned => ha (fun _ => (remove_owned h).mp howned)⟩
      have howned := (remove_owned h).mpr (ha rfl)
      refine ⟨howned, ?_, fun hno => Bool.noConfusion hno⟩
      rw [howned.free rfl]
      exact List.nil_sublist _

theorem step_of_not_allowed {c : Sys} {a : Act} (ha : ¬ Allowed c a) : ∃ d, step c a = some d := by
  obtain ⟨s, bound⟩ := c
  cases bound <;> cases a <;>
    first | exact ⟨_, rfl⟩ | exact absurd (fun hno => Bool.noConfusion hno) ha

/-- The ownership holds throughout a run exactly when no step of it meets a GPIO
that was refused, the element after the last one, or a device not registered. -/
theorem gpios_owned (as : List Act) :
    Always step Owned Sys.start as ↔ Meets step Allowed Sys.start as := by
  refine always_iff_meets (fun _ h => h.owned) ?_ ?_ as inv_start
  · intro c a d h ha hstep
    exact (step_owned h hstep).1 ha
  · intro c a h ha
    obtain ⟨d, hstep⟩ := step_of_not_allowed ha
    exact ⟨d, hstep, (step_owned h hstep).2 ha⟩

def allGranted : Outcome := ⟨fun _ => 0, 0, fun _ => Int.le_refl 0⟩

/-- The test of `hello_ioctl` lets the number of elements through. -/
theorem ioctl_past_the_end : ¬ ∀ as, Always step Owned Sys.start as := by
  intro h
  have hrun := h [.probe allGranted, .ioctl 1 32]
  have hlast := (hrun.2 _ rfl).2 _ rfl
  have hclean := hlast.clean
  revert hclean
  decide +kernel

end LinuxDriver.HelloGpio
