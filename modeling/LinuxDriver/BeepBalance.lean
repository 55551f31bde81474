import LinuxDriver.Beep
import LinuxDriver.Runs

namespace LinuxDriver.BeepBalance

open Runs Holding Beep

def HoldsAll (s : State) : Prop :=
  ∃ a b p d, s.virtAddr = some a ∧ s.virtAddrGpio = some b ∧ s.pMyCharDev = some p ∧
    s.data = some d ∧ s.holding.held.Perm [.mapping a, .mapping b, .node s.devNum, .myclass,
      .cdev p, .block d, .block p, .region s.devNum requestDevNum]

/-- The driver with the successful probes that are not yet removed, and whether
the last call was such a probe. -/
structure Sys where
  st : State
  probed : Nat
  bound : Bool

def Sys.start (devMajorNum devMinorNum : BitVec 32) : Sys :=
  ⟨State.init devMajorNum devMinorNum, 0, false⟩

inductive Act
  | probe (o : Outcome)
  | remove

def step (c : Sys) : Act → Option Sys
  | .probe o =>
    let r := beepProbe o c.st
    if r.1 = 0 then some ⟨r.2, c.probed + 1, true⟩ else some ⟨r.2, c.probed, false⟩
  | .remove => if c.probed = 0 then none else some ⟨beepRemove c.st, c.probed - 1, false⟩

/-- Nothing is held unless a probe has just succeeded, then each resource is held
once, and no call has released what was not held. -/
structure Balanced (c : Sys) : Prop where
  free : c.bound = false → c.st.holding.held = []
  all : c.bound = true → HoldsAll c.st
  clean : c.st.holding.misused = false

/-- A probe that fails at once, or the first one with no failure at all. -/
def CleanProbe (o : Outcome) (s : State) : Prop :=
  o.pwm = none ∨ s.devMajorNum = 0 ∧ o.gpio.isSome ∧ o.alloc = 0 ∧ o.kmallocDev.isSome ∧
    o.kmallocData.isSome ∧ o.cdevAdd = 0

def Allowed (c : Sys) : Act → Prop
  | .probe o => c.probed = 0 ∧ CleanProbe o c.st
  | .remove => True

instance (c : Sys) : (a : Act) → Decidable (Allowed c a)
  | .probe _ => inferInstanceAs (Decidable (_ ∧ (_ ∨ _)))
  | .remove => inferInstanceAs (Decidable True)

section Probe

variable {o : Outcome} {s : State}

def KeepsMappings (s t : State) : Prop :=
  ∀ a, .mapping a ∈ s.holding.held → .mapping a ∈ t.holding.held

theorem keepsMappings_acquire (r : Resource) (s : State) : KeepsMappings s (s.acquire r) :=
  fun _ ha => List.mem_append_left _ ha

theorem keepsMappings_kfree (addr : Option Nat) (s : State) : KeepsMappings s (kfree addr s) := by
  intro a ha
  cases addr with
  | none => exact ha
  | some b => exact mem_release_of_ne ha Resource.noConfusion

theorem keepsMappings_unregister (first count : BitVec 32) (s : State) :
    KeepsMappings s (unregisterChrdevRegion first count s) :=
  fun _ ha => mem_release_of_ne ha Resource.noConfusion

theorem failMallocData_keeps (s : State) : KeepsMappings s (failMallocData s).2 :=
  fun a ha => keepsMappings_unregister _ _ _ a (keepsMappings_kfree _ s a ha)

theorem mapRegisters_none (h : o.pwm = none) :
    mapRegisters o s = (true, { s with virtAddr := none }) := by
  simp only [mapRegisters, h]

theorem mapRegisters_some {a : Nat} (h : o.pwm = some a) :
    mapRegisters o s = (false, { s with
      virtAddr := some a
      virtAddrGpio := o.gpio
      holding := ⟨s.holding.held ++ .mapping a :: (o.gpio.map Resource.mapping).toList,
        s.holding.misused⟩ }) := by
  simp only [mapRegisters, h]
  cases o.gpio <;> simp [State.acquire, Resources.acquire]

def gotRegion (o : Outcome) (s : State) : List Resource :=
  if s.devMajorNum = 0 ∧ o.alloc = 0 then [.region o.allocDev requestDevNum] else []

structure GotDevNum (o : Outcome) (s t : State) : Prop where
  virtAddr : t.virtAddr = s.virtAddr
  virtAddrGpio : t.virtAddrGpio = s.virtAddrGpio
  held : t.holding.held = s.holding.held ++ gotRegion o s
  misused : t.holding.misused = s.holding.misused
  devNum : gotRegion o s ≠ [] → t.devNum = o.allocDev

theorem getDevNum_failed (h : (getDevNum o s).1 = true) : gotRegion o s = [] := by
  apply if_neg
  rintro ⟨hmajor, halloc⟩
  simp [getDevNum, hmajor, halloc] at h

theorem getDevNum_got (o : Outcome) (s : State) : GotDevNum o s (getDevNum o s).2 := by
  have halloc := o.alloc_le
  rw [getDevNum]
  split
  · rename_i hmajor
    have hno : gotRegion o s = [] := if_neg (fun h => hmajor h.1)
    split <;> constructor <;> simp [hno, registerChrdevRegion]
  · rename_i hmajor
    by_cases hneg : o.alloc < 0
    · have hno : gotRegion o s = [] := if_neg (fun h => by omega)
      simp only [if_pos hneg]
      split <;> constructor <;> simp [hno]
    · have h0 : o.alloc = 0 := by omega
      have hyes : gotRegion o s = [.region o.allocDev requestDevNum] :=
        if_pos ⟨not_not.mp hmajor, h0⟩
      have hone : requestDevNum ≠ 0 := by decide
      simp only [h0, registerChrdevRegion, if_neg hone]
      constructor <;> simp [hyes, State.acquire, Resources.acquire]

theorem createDev_cases (o : Outcome) (s : State) :
    ((createDev o s).1 = -1 ∧ KeepsMappings s (createDev o s).2 ∧
      ¬ (o.kmallocDev.isSome ∧ o.kmallocData.isSome ∧ o.cdevAdd = 0)) ∨
    ∃ p d, o.kmallocDev = some p ∧ o.kmallocData = some d ∧ o.cdevAdd = 0 ∧
      createDev o s = (0, { s with
        pMyCharDev := some p
        data := some d
        cdevDev := mkdev s.devMajorNum (s.devMinorNum + 0)
        holding := ⟨s.holding.held ++ [.block p, .block d, .cdev p, .myclass, .node s.devNum],
          s.holding.misused⟩ }) := by
  rw [createDev]
  cases hp : o.kmallocDev with
  | none => exact Or.inl ⟨rfl, keepsMappings_unregister _ _ _, by simp⟩
  | some p =>
    cases hd : o.kmallocData with
    | none =>
      refine Or.inl ⟨rfl, fun a ha => ?_, by simp⟩
      exact failMallocData_keeps _ a (keepsMappings_acquire (.block p) s a ha)
    | some d =>
      by_cases hc : o.cdevAdd = 0
      · refine Or.inr ⟨p, d, rfl, rfl, hc, ?_⟩
        simp [regInitCdev, hc, State.acquire, Resources.acquire]
      · refine Or.inl ?_
        simp only [regInitCdev, ne_eq, hc, not_false_eq_true, if_true]
        refine ⟨rfl, fun a ha => ?_, fun hall => hall.2.2⟩
        apply failMallocData_keeps
        apply keepsMappings_kfree
        exact List.mem_append_left _ (List.mem_append_left _ ha)

inductive ProbeStep (o : Outcome) (s : State) : Int × State → Prop
  | unmapped (hpwm : o.pwm = none) : ProbeStep o s (-1, { s with virtAddr := none })
  | failed {a : Nat} {t : State} (hpwm : o.pwm = some a)
      (hwhy : gotRegion o s = [] ∨
        ¬ (o.kmallocDev.isSome ∧ o.kmallocData.isSome ∧ o.cdevAdd = 0))
      (hkeep : KeepsMappings s t) (hmapped : .mapping a ∈ t.holding.held) : ProbeStep o s (-1, t)
  | done {a p d : Nat} {t : State} (hpwm : o.pwm = some a) (hdev : o.kmallocDev = some p)
      (hdata : o.kmallocData = some d) (hadd : o.cdevAdd = 0) (hva : t.virtAddr = some a)
      (hvg : t.virtAddrGpio = o.gpio) (hp : t.pMyCharDev = some p) (hd : t.data = some d)
      (hnum : gotRegion o s ≠ [] → t.devNum = o.allocDev)
      (hheld : t.holding = ⟨s.holding.held ++ .mapping a ::
        (o.gpio.map Resource.mapping).toList ++ gotRegion o s ++
        [.block p, .block d, .cdev p, .myclass, .node t.devNum], s.holding.misused⟩) :
      ProbeStep o s (0, t)

theorem beepProbe_step (o : Outcome) (s : State) : ProbeStep o s (beepProbe o s) := by
  rw [beepProbe]
  cases hpwm : o.pwm with
  | none =>
    rw [mapRegisters_none hpwm]
    exact .unmapped hpwm
  | some a =>
    rw [mapRegisters_some hpwm]
    simp only [Bool.false_eq_true, if_false]
    generalize hm : ({ s with
      virtAddr := some a
      virtAddrGpio := o.gpio
      holding := ⟨s.holding.held ++ .mapping a :: (o.gpio.map Resource.mapping).toList,
        s.holding.misused⟩ } : State) = m
    have hmajor : gotRegion o m = gotRegion o s := by rw [← hm]; rfl
    have hkeep : KeepsMappings s m := by
      rw [← hm]
      exact fun b hb => List.mem_append_left _ hb
    have hmapped : .mapping a ∈ m.holding.held := by simp [← hm]
    obtain ⟨hva, hvg, hheld, hmis, hnum⟩ := getDevNum_got o m
    have hmore : ∀ r, r ∈ m.holding.held → r ∈ (getDevNum o m).2.holding.held := by
      intro r hr
      rw [hheld]
      exact List.mem_append_left _ hr
    cases hfail : (getDevNum o m).1 with
    | true =>
      simp only [if_true]
      exact .failed hpwm (Or.inl (hmajor.symm.trans (getDevNum_failed hfail)))
        (fun b hb => hmore _ (hkeep b hb)) (hmore _ hmapped)
    | false =>
      simp only [Bool.false_eq_true, if_false]
      obtain ⟨hret, hk, hwhy⟩ | ⟨p, d, hp, hd, hc, heq⟩ := createDev_cases o (getDevNum o m).2
      · have hpair : createDev o (getDevNum o m).2 = (-1, (createDev o (getDevNum o m).2).2) := by
          rw [← hret]
        rw [hpair]
        exact .failed hpwm (Or.inr hwhy) (fun b hb => hk b (hmore _ (hkeep b hb)))
          (hk a (hmore _ hmapped))
      · rw [heq]
        refine .done hpwm hp hd hc (hva.trans (by rw [← hm])) (hvg.trans (by rw [← hm])) rfl rfl
          (fun hr => hnum (hmajor ▸ hr)) ?_
        simp only [hheld, hmis, hmajor]
        simp [← hm]

end Probe

theorem gotRegion_clean {o : Outcome} {s : State} (hmajor : s.devMajorNum = 0)
    (halloc : o.alloc = 0) : gotRegion o s = [.region o.allocDev requestDevNum] :=
  if_pos ⟨hmajor, halloc⟩

theorem clean_probe {o : Outcome} {s : State} (hclean : CleanProbe o s)
    (hheld : s.holding.held = []) {r : Int × State} (h : ProbeStep o s r) :
    (r.1 = 0 → HoldsAll r.2) ∧ (r.1 ≠ 0 → r.2.holding.held = []) ∧
      r.2.holding.misused = s.holding.misused := by
  cases h with
  | unmapped hpwm =>
    exact ⟨fun h0 => absurd h0 (show (-1 : Int) ≠ 0 by decide), fun _ => hheld, rfl⟩
  | @failed a t hpwm hwhy hkeep hmapped =>
    obtain hno | ⟨hmajor, _, halloc, hdev, hdata, hadd⟩ := hclean
    · simp [hpwm] at hno
    · obtain hreg | hcreate := hwhy
      · simp [gotRegion_clean hmajor halloc] at hreg
      · exact absurd ⟨hdev, hdata, hadd⟩ hcreate
  | @done a p d t hpwm hdev hdata hadd hva hvg hp hd hnum heq =>
    obtain hno | ⟨hmajor, hgpio, halloc, _⟩ := hclean
    · simp [hpwm] at hno
    · obtain ⟨b, hb⟩ := Option.isSome_iff_exists.mp hgpio
      have hregion := gotRegion_clean (o := o) hmajor halloc
      have hdevNum : t.devNum = o.allocDev := hnum (by simp [hregion])
      refine ⟨fun _ => ⟨a, b, p, d, hva, hvg.trans hb, hp, hd, ?_⟩, fun hne => absurd rfl hne, ?_⟩
      · rw [heq, hheld, hb, hregion, hdevNum]
        exact ((List.reverse_perm _).symm.cons _).cons _
      · rw [heq]

theorem unclean_probe {o : Outcome} {s : State} (hclean : ¬ CleanProbe o s)
    (hheld : s.holding.held = []) {r : Int × State} (h : ProbeStep o s r) :
    (r.1 = 0 → ¬ HoldsAll r.2) ∧ (r.1 ≠ 0 → r.2.holding.held ≠ []) := by
  cases h with
  | unmapped hpwm => exact absurd (Or.inl hpwm) hclean
  | failed hpwm hwhy hkeep hmapped =>
    exact ⟨fun h0 => absurd h0 (show (-1 : Int) ≠ 0 by decide), fun _ => List.ne_nil_of_mem hmapped⟩
  | @done a p d t hpwm hdev hdata hadd hva hvg hp hd hnum heq =>
    refine ⟨fun _ hall => ?_, fun hne => absurd rfl hne⟩
    obtain ⟨_, b, _, _, _, hb, _, _, hperm⟩ := hall
    have hgpio : o.gpio = some b := hvg.symm.trans hb
    have hregion : gotRegion o s = [] := by
      apply if_neg
      rintro ⟨hmajor, halloc⟩
      exact hclean (Or.inr ⟨hmajor, by simp [hgpio], halloc, by simp [hdev], by simp [hdata], hadd⟩)
    have hlen := hperm.length_eq
    simp [heq, hheld, hgpio, hregion] at hlen

theorem second_probe {o : Outcome} {s : State} (hall : HoldsAll s) {r : Int × State}
    (h : ProbeStep o s r) :
    (r.1 = 0 → ¬ HoldsAll r.2) ∧ (r.1 ≠ 0 → r.2.holding.held ≠ []) := by
  obtain ⟨a, b, p, d, _, _, _, _, hperm⟩ := hall
  have hmem : .mapping a ∈ s.holding.held := hperm.mem_iff.mpr List.mem_cons_self
  cases h with
  | unmapped hpwm =>
    exact ⟨fun h0 => absurd h0 (show (-1 : Int) ≠ 0 by decide), fun _ => List.ne_nil_of_mem hmem⟩
  | failed hpwm hwhy hkeep hmapped =>
    exact ⟨fun h0 => absurd h0 (show (-1 : Int) ≠ 0 by decide), fun _ => List.ne_nil_of_mem hmapped⟩
  | done hpwm hdev hdata hadd hva hvg hp hd hnum heq =>
    refine ⟨fun _ hnew => ?_, fun hne => absurd rfl hne⟩
    obtain ⟨_, _, _, _, _, _, _, _, hperm'⟩ := hnew
    have hlen := hperm.length_eq
    have hlen' := hperm'.length_eq
    simp only [heq, List.length_append, List.length_cons, List.length_nil] at hlen hlen'
    omega

theorem beepRemove_all {s : State} (h : HoldsAll s) (hclean : s.holding.misused = false) :
    (beepRemove s).holding = Resources.empty := by
  obtain ⟨a, b, p, d, hva, hvg, hp, hd, hperm⟩ := h
  have hall := (releaseAll_eq_empty _ _).mpr ⟨hperm, hclean⟩
  simp only [releaseAll_cons, releaseAll_nil] at hall
  simp only [beepRemove, fs4412BeepUnmap, iounmap, hva, hvg, hp, hd, cdevDel, kfree,
    unregisterChrdevRegion, release_holding, release_devNum, release_pMyCharDev, release_data]
  exact hall

structure Inv (c : Sys) : Prop where
  balanced : Balanced c
  probed : c.probed = c.bound.toNat

theorem inv_start (devMajorNum devMinorNum : BitVec 32) :
    Inv (Sys.start devMajorNum devMinorNum) where
  balanced := ⟨fun _ => rfl, fun h => Bool.noConfusion h, rfl⟩
  probed := rfl

theorem probe_allowed {c d : Sys} {o : Outcome} (h : Inv c) (h0 : c.probed = 0)
    (hclean : CleanProbe o c.st) (hstep : step c (.probe o) = some d) : Inv d := by
  obtain ⟨st, probed, bound⟩ := c
  obtain ⟨⟨hfree, _, hmis⟩, hprobed⟩ := h
  have hb : bound = false := by
    cases bound with
    | false => rfl
    | true => exact absurd (hprobed.symm.trans h0) (by simp)
  obtain ⟨hall, hnone, hkeep⟩ := clean_probe hclean (hfree hb) (beepProbe_step o st)
  simp only at h0
  simp only [step, h0] at hstep
  split at hstep
  · rename_i hret
    cases hstep
    exact ⟨⟨fun h => Bool.noConfusion h, fun _ => hall hret, hkeep.trans hmis⟩, rfl⟩
  · rename_i hret
    cases hstep
    exact ⟨⟨fun _ => hnone hret, fun h => Bool.noConfusion h, hkeep.trans hmis⟩, rfl⟩

theorem probe_not_allowed {c : Sys} {o : Outcome} (h : Inv c)
    (hno : ¬ (c.probed = 0 ∧ CleanProbe o c.st)) :
    ∃ d, step c (.probe o) = some d ∧ ¬ Balanced d := by
  obtain ⟨st, probed, bound⟩ := c
  obtain ⟨⟨hfree, hbound, _⟩, hprobed⟩ := h
  have hbad : ((beepProbe o st).1 = 0 → ¬ HoldsAll (beepProbe o st).2) ∧
      ((beepProbe o st).1 ≠ 0 → (beepProbe o st).2.holding.held ≠ []) := by
    cases bound with
    | true => exact second_probe (hbound rfl) (beepProbe_step o st)
    | false =>
      exact unclean_probe (fun hclean => hno ⟨hprobed, hclean⟩) (hfree rfl) (beepProbe_step o st)
  simp only [step]
  split
  · rename_i hret
    exact ⟨_, rfl, fun hd => hbad.1 hret (hd.all rfl)⟩
  · rename_i hret
    exact ⟨_, rfl, fun hd => hbad.2 hret (hd.free rfl)⟩

theorem remove_inv {c d : Sys} (h : Inv c) (hstep : step c .remove = some d) : Inv d := by
  obtain ⟨st, probed, bound⟩ := c
  obtain ⟨⟨hfree, hbound, hmis⟩, hprobed⟩ := h
  simp only [step] at hstep
  split at hstep
  · cases hstep
  · rename_i hpos
    cases hstep
    have hb : bound = true := by
      cases bound with
      | true => rfl
      | false => exact absurd hprobed hpos
    subst hb
    have hempty := beepRemove_all (hbound rfl) hmis
    simp only at hprobed
    rw [hprobed]
    refine ⟨⟨fun _ => ?_, fun h => Bool.noConfusion h, ?_⟩, rfl⟩
    · simp only
      rw [hempty]
      rfl
    · simp only
      rw [hempty]
      rfl

/-- The resources are balanced throughout a run exactly when every probe of it
either fails at once or is the first and has no failure, on a free driver. -/
theorem resources_balanced (devMajorNum devMinorNum : BitVec 32) (as : List Act) :
    Always step Balanced (Sys.start devMajorNum devMinorNum) as ↔
      Meets step Allowed (Sys.start devMajorNum devMinorNum) as := by
  refine always_iff_meets (fun _ h => h.balanced) ?_ ?_ as (inv_start devMajorNum devMinorNum)
  · intro c a d h ha hstep
    cases a with
    | probe o => exact probe_allowed h ha.1 ha.2 hstep
    | remove => exact remove_inv h hstep
  · intro c a h ha
    cases a with
    | probe o => exact probe_not_allowed h ha
    | remove => exact absurd trivial ha

def allWell : Outcome :=
  ⟨some 0x1000, some 0x2000, 0, 0, mkdev 250 0, some 0x3000, some 0x4000, 0, Int.le_refl 0,
    Int.le_refl 0⟩

/-- The driver is bound, removed and bound again: the second time it takes the
number it was given for one set by the user, and registers an empty region. -/
theorem second_bind_has_no_region :
    ¬ ∀ devMajorNum devMinorNum as,
      Always step Balanced (Sys.start devMajorNum devMinorNum) as := by
  intro h
  have hrun := h 0 0 [.probe allWell, .remove, .probe allWell]
  have hlast := ((hrun.2 _ rfl).2 _ rfl).2 _ rfl
  obtain ⟨a, b, p, d, _, _, _, _, hperm⟩ := hlast.all rfl
  have hlen : 7 = 8 := hperm.length_eq
  omega

end LinuxDriver.BeepBalance
