import LinuxDriver.SpiSelect

namespace LinuxDriver.SpiConfig

open Runs Holding SpiMaster SpiWork SpiStep SpiQueue SpiSelect

variable {sci : Info} {dev : Nat → Device} {s t : Spi} {a : Act}

def highSpeed (sci : Info) (c : Config) (xfer : Transfer) : Bool :=
  xfer.rxBuf && sci.highSpeed && decide (30000000 ≤ c.speed) && !c.mode.cpha

def datapath (sci : Info) (c : Config) (xfer : Transfer) : Datapath where
  hsEn := highSpeed sci c xfer
  rxChOn := if useDma sci xfer then xfer.rxBuf else true
  txChOn := xfer.txBuf
  rxDmaOn := useDma sci xfer && xfer.rxBuf
  txDmaOn := useDma sci xfer && xfer.txBuf

def configOf (dev : Nat → Device) (h : Handling) (xfer : Transfer) : Config :=
  wanted (dev h.msg.spi) (dev h.msg.spi).mode xfer

/-- The controller is set up for the transfer on the bus, and for nothing else. -/
def Configured (sci : Info) (s : Spi) : Prop :=
  ∀ h, onBus s.worker = some h → ∃ xfer rest, h.todo = xfer :: rest ∧
    s.hw = some (configOf s.dev h xfer) ∧ s.path = datapath sci (configOf s.dev h xfer) xfer

/-- The transfer on the bus has nothing else to be set up for. -/
def Kept (s : Spi) (dev : Nat → Device) : Prop :=
  ∀ h xfer rest, onBus s.worker = some h → h.todo = xfer :: rest →
    configOf dev h xfer = configOf s.dev h xfer

/-- A transfer starts with the mode that its device had when its message began, and
without the high speed of one that failed, unless it needs it again. What it uses of its
device does not change while it is on the bus, and the driver is not resumed. -/
def Settled (sci : Info) (s : Spi) : Act → Prop
  | .startXfer => ∀ h xfer rest, s.worker = .handling h → h.phase = .next → h.todo = xfer :: rest →
      xfer.len.toNat % (xfer.bpw (s.dev h.msg.spi) / 8) = 0 →
      s.cur.mode = (s.dev h.msg.spi).mode ∧
      (s.path.hsEn = true → highSpeed sci (configOf s.dev h xfer) xfer = true)
  | .assign d mode bitsPerWord maxSpeedHz => Kept s (assign d mode bitsPerWord maxSpeedHz s.dev)
  | .check d src => ∀ r, (d, Setup.check) ∈ s.setups → check sci src (s.dev d) = some r →
      Kept s (Function.update s.dev d r.2)
  | .resume => s.pm = .asleep → onBus s.worker = none
  | _ => True

/-- No client asks for a speed of zero, and the source clock can be divided by 255. -/
def Running : Act → Prop
  | .assign _ _ _ maxSpeedHz => maxSpeedHz ≠ 0
  | .check _ src => 510 ≤ src
  | _ => True

structure Inv (sci : Info) (s : Spi) : Prop where
  hw : s.hw = some s.cur ∨ s.hw = none ∧ s.cur.speed = 0
  speed : ∀ d, (s.dev d).maxSpeedHz ≠ 0
  busy : Busy s
  configured : Configured sci s

theorem check_ne {src : Nat} {d : Device} {r : Int × Device} (hsrc : 510 ≤ src)
    (hd : d.maxSpeedHz ≠ 0) (h : check sci src d = some r) : r.2.maxSpeedHz ≠ 0 := by
  rw [check] at h
  split at h
  · cases h
    exact hd
  · split at h
    · cases h
      exact hd
    · obtain ⟨q, hq, rfl⟩ := Option.map_eq_some_iff.mp h
      exact SpiClock.setupRate_ne hsrc hq

theorem configured_of_none (hnone : onBus s.worker = none) : Configured sci s := by
  intro h hh
  rw [hnone] at hh
  cases hh

theorem Inv.frame (hs : Inv sci s) (hbusy : Busy t) (hhw : t.hw = s.hw) (hcur : t.cur = s.cur)
    (hdev : t.dev = s.dev) (hconf : Configured sci t) : Inv sci t where
  hw := by
    rw [hhw, hcur]
    exact hs.hw
  speed := by
    rw [hdev]
    exact hs.speed
  busy := hbusy
  configured := hconf

theorem Inv.redevised (hs : Inv sci s) (hbusy : Busy t) (hhw : t.hw = s.hw) (hcur : t.cur = s.cur)
    (hpath : t.path = s.path) (hworker : t.worker = s.worker)
    (hspeed : ∀ d, (t.dev d).maxSpeedHz ≠ 0) (hkept : Kept s t.dev) : Inv sci t where
  hw := by
    rw [hhw, hcur]
    exact hs.hw
  speed := hspeed
  busy := hbusy
  configured := by
    intro h hh
    rw [hworker] at hh
    obtain ⟨xfer, rest, ht, hconf, hdata⟩ := hs.configured h hh
    refine ⟨xfer, rest, ht, ?_, ?_⟩
    · rw [hhw, hkept h xfer rest hh ht, hconf]
    · rw [hpath, hkept h xfer rest hh ht, hdata]

theorem update_speed {dev : Nat → Device} (hdev : ∀ d, (dev d).maxSpeedHz ≠ 0) {d : Nat}
    {new : Device} (hnew : new.maxSpeedHz ≠ 0) (c : Nat) :
    (Function.update dev d new c).maxSpeedHz ≠ 0 := by
  by_cases hcd : c = d
  · subst hcd
    rw [Function.update_self]
    exact hnew
  · rw [Function.update_of_ne hcd]
    exact hdev c

theorem hw_setConfig (hs : s.hw = some s.cur ∨ s.hw = none ∧ s.cur.speed = 0) {c : Config}
    (hc : c.speed ≠ 0) : (setConfig c s).hw = some c := by
  rw [setConfig]
  dsimp only
  split
  · rename_i heq
    rcases hs with hhw | ⟨-, hzero⟩
    · rw [hhw, heq]
    · rw [heq] at hzero
      exact absurd hzero hc
  · rfl

theorem enableDatapath_path (xfer : Transfer) (s : Spi) :
    (enableDatapath sci xfer s).path =
      { datapath sci s.cur xfer with hsEn := s.path.hsEn || highSpeed sci s.cur xfer } := rfl

theorem speed_ne {d : Device} (h : d.maxSpeedHz ≠ 0) (xfer : Transfer) : xfer.speed d ≠ 0 := by
  rw [Transfer.speed]
  split
  · assumption
  · exact h

theorem step_inv (hs : Inv sci s) (hrun : Running a) (ha : Settled sci s a)
    (hstep : Step sci s a t) : Inv sci t := by
  have hbusy := step_busy hs.busy hstep
  cases hstep with
  | assigned => exact hs.redevised hbusy rfl rfl rfl rfl (update_speed hs.speed hrun) ha
  | @checked d src r hd hr =>
    exact hs.redevised hbusy rfl rfl rfl rfl
      (update_speed hs.speed (check_ne hrun (hs.speed d) hr)) (ha r hd hr)
  | work => exact hs.frame hbusy rfl rfl rfl (configured_of_none rfl)
  | stopped => exact hs.frame hbusy rfl rfl rfl (configured_of_none rfl)
  | done => exact hs.frame hbusy rfl rfl rfl (configured_of_none rfl)
  | taken => exact hs.frame hbusy rfl rfl rfl (configured_of_none rfl)
  | @begun map h hw hp =>
    refine ⟨.inl (hw_setConfig hs.hw (hs.speed _)), hs.speed, hbusy, configured_of_none ?_⟩
    dsimp only
    split <;> rfl
  | finished => exact hs.frame hbusy rfl rfl rfl (configured_of_none rfl)
  | odd => exact hs.frame hbusy rfl rfl rfl (configured_of_none rfl)
  | @started h xfer rest hw hp ht hlen =>
    obtain ⟨hmode, hspeed⟩ := ha h xfer rest hw hp ht hlen
    have hconf : (setConfig (wanted (s.dev h.msg.spi) s.cur.mode xfer) s).hw =
        some (configOf s.dev h xfer) := by
      rw [hmode]
      exact hw_setConfig hs.hw (speed_ne (hs.speed _) xfer)
    refine ⟨.inl ?_, hs.speed, hbusy, ?_⟩
    · rw [hmode] at hconf ⊢
      exact hconf
    · rintro k hk
      cases hk
      refine ⟨xfer, rest, ht, hconf, ?_⟩
      have hor : (s.path.hsEn || highSpeed sci (configOf s.dev h xfer) xfer) =
          highSpeed sci (configOf s.dev h xfer) xfer := by
        cases hold : s.path.hsEn with
        | true => rw [hspeed hold, Bool.or_self]
        | false => rw [Bool.false_or]
      have hcur : (setConfig (wanted (s.dev h.msg.spi) s.cur.mode xfer) s).cur =
          configOf s.dev h xfer := by
        rw [hmode]
        rfl
      change (enableDatapath sci xfer _).path = datapath sci (configOf s.dev h xfer) xfer
      rw [enableDatapath_path, hcur]
      change { datapath sci (configOf s.dev h xfer) xfer with
        hsEn := s.path.hsEn || highSpeed sci (configOf s.dev h xfer) xfer } = _
      rw [hor]
      rfl
  | failed => exact hs.frame hbusy rfl rfl rfl (configured_of_none rfl)
  | @polled io h xfer rest hw hp ht =>
    refine hs.frame hbusy rfl rfl rfl ?_
    rintro k hk
    cases hk
    exact hs.configured h (by rw [hw]; exact onBus_of_phase (.inl hp))
  | waited => exact hs.frame hbusy rfl rfl rfl (configured_of_none rfl)
  | stored => exact hs.frame hbusy rfl rfl rfl (configured_of_none rfl)
  | suspended hpm hidle =>
    refine ⟨.inr ⟨rfl, rfl⟩, hs.speed, hbusy, fun h hh => ?_⟩
    have hbus := (onBus_eq.mp hh).1
    rw [hs.busy.busy (inFlight_ne hbus)] at hidle
    cases hidle
  | resume hpm => exact ⟨.inr ⟨rfl, rfl⟩, hs.speed, hbusy, configured_of_none (ha hpm)⟩
  | _ => exact hs.frame hbusy rfl rfl rfl hs.configured

end LinuxDriver.SpiConfig
