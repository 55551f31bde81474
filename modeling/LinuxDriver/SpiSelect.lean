import LinuxDriver.SpiDma

namespace LinuxDriver.SpiSelect

open Runs Holding SpiMaster SpiWork SpiStep SpiQueue

variable {sci : Info} {dev : Nat → Device} {s t : Spi} {a : Act}

/-- The handling of a message with a transfer between `S3C64XX_SPI_ACT` and
`S3C64XX_SPI_DEACT`. -/
def onBus : Worker → Option Handling
  | .handling h =>
    match h.phase with
    | .active => some h
    | .clearing _ => some h
    | _ => none
  | _ => none

theorem onBus_eq {w : Worker} {h : Handling} :
    onBus w = some h ↔
      w = .handling h ∧ (h.phase = .active ∨ ∃ saved, h.phase = .clearing saved) := by
  cases w with
  | handling k =>
    rw [onBus]
    split
    · rename_i hp
      simp only [Option.some.injEq, Worker.handling.injEq, iff_self_and]
      rintro rfl
      exact .inl hp
    · rename_i saved hp
      simp only [Option.some.injEq, Worker.handling.injEq, iff_self_and]
      rintro rfl
      exact .inr ⟨saved, hp⟩
    · rename_i hactive hclearing
      simp only [reduceCtorEq, Worker.handling.injEq, false_iff, not_and]
      rintro rfl hor
      exact hor.elim hactive (fun ⟨saved, hp⟩ => hclearing saved hp)
  | idle => simp [onBus]
  | looking => simp [onBus]

theorem not_onBus_looking {h : Handling} : onBus .looking ≠ some h := by
  rintro ⟨⟩

theorem not_onBus_idle {h : Handling} : onBus .idle ≠ some h := by
  rintro ⟨⟩

section Lines

/-- The line of the chip is at the level that selects it. -/
def Selected (dev : Nat → Device) (level : Nat → Bool) (d : Nat) : Prop :=
  level (dev d).line = (dev d).mode.csHigh

variable {level : Nat → Bool} {tgl : Option Nat} {c d : Nat}

theorem selected_disabled (hlines : Function.Injective (fun d => (dev d).line)) :
    Selected dev (disabled dev d level) c ↔ c ≠ d ∧ Selected dev level c := by
  by_cases hcd : c = d
  · subst hcd
    simp [Selected, disabled]
  · have hline : (dev c).line ≠ (dev d).line := fun h => hcd (hlines h)
    simp [Selected, disabled, hcd, hline]

theorem selected_update (hlines : Function.Injective (fun d => (dev d).line)) :
    Selected dev (Function.update level (dev d).line (dev d).mode.csHigh) c ↔
      c = d ∨ Selected dev level c := by
  by_cases hcd : c = d
  · subst hcd
    simp [Selected]
  · have hline : (dev c).line ≠ (dev d).line := fun h => hcd (hlines h)
    simp [Selected, hcd, hline]

theorem selected_enabled (hlines : Function.Injective (fun d => (dev d).line))
    (hlevel : ∀ c, Selected dev level c → tgl = some c ∨ c = d)
    (hmode : ∀ last, tgl = some last → last ≠ d → (dev last).mode.csHigh = (dev d).mode.csHigh)
    (c : Nat) : Selected dev (enabled dev d tgl level) c ↔ c = d := by
  cases tgl with
  | none =>
    rw [enabled_none, selected_update hlines, or_iff_left_iff_imp]
    intro hc
    exact (hlevel c hc).resolve_left (fun hno => by cases hno)
  | some last =>
    rw [enabled_some, selected_update hlines, or_iff_left_iff_imp]
    split
    · rename_i hne
      rw [← hmode last rfl hne]
      intro hc
      obtain ⟨hcl, hsel⟩ := (selected_disabled hlines).mp hc
      exact (hlevel c hsel).resolve_left (fun h => hcl (Option.some.inj h).symm)
    · rename_i heq
      intro hc
      rcases hlevel c hc with h | h
      · rw [← Option.some.inj h]
        exact not_not.mp heq
      · exact h

theorem selected_last (level : Nat → Bool)
    (hlines : Function.Injective (fun d => (dev d).line)) {last : Nat}
    (hne : last ≠ d) (hmode : (dev last).mode.csHigh ≠ (dev d).mode.csHigh) :
    Selected dev (enabled dev d (some last) level) last := by
  rw [enabled_some, selected_update hlines, if_pos hne]
  refine .inr ?_
  simp only [Selected, Function.update_self]
  cases hl : (dev last).mode.csHigh <;> cases hd : (dev d).mode.csHigh <;> simp [hl, hd] at hmode ⊢

theorem selected_other (hlines : Function.Injective (fun d => (dev d).line))
    (htgl : tgl ≠ some c) (hc : Selected dev level c) :
    Selected dev (enabled dev d tgl level) c := by
  cases tgl with
  | none =>
    rw [enabled_none, selected_update hlines]
    exact .inr hc
  | some last =>
    rw [enabled_some, selected_update hlines]
    refine .inr ?_
    split
    · have hline : (dev c).line ≠ (dev last).line :=
        fun h => htgl (congrArg some (hlines h).symm)
      simpa [Selected, hline] using hc
    · exact hc

end Lines

section Wiring

/-- `SPI_CS_HIGH` is what the chip needs. -/
def Wired (dev : Nat → Device) : Act → Prop
  | .assign d mode _ _ => mode.csHigh = (dev d).mode.csHigh
  | _ => True

def Alike (dev dev' : Nat → Device) : Prop :=
  ∀ d, (dev' d).line = (dev d).line ∧ (dev' d).mode.csHigh = (dev d).mode.csHigh

variable {dev' : Nat → Device}

theorem disabled_alike (h : Alike dev dev') (d : Nat) (level : Nat → Bool) :
    disabled dev' d level = disabled dev d level := by
  rw [disabled, disabled, (h d).1, (h d).2]

theorem enabled_alike (h : Alike dev dev') (d : Nat) (tgl : Option Nat) (level : Nat → Bool) :
    enabled dev' d tgl level = enabled dev d tgl level := by
  cases tgl with
  | none => rw [enabled_none, enabled_none, (h d).1, (h d).2]
  | some last => rw [enabled_some, enabled_some, (h d).1, (h d).2, (h last).1]

theorem alike_update (h : Alike dev dev') {d : Nat} {new : Device}
    (hline : new.line = (dev' d).line) (hmode : new.mode.csHigh = (dev d).mode.csHigh) :
    Alike dev (Function.update dev' d new) := by
  intro c
  by_cases hcd : c = d
  · subst hcd
    rw [Function.update_self]
    exact ⟨hline.trans (h c).1, hmode⟩
  · rw [Function.update_of_ne hcd]
    exact h c

theorem check_alike {src : Nat} {d : Device} {r : Int × Device} (h : check sci src d = some r) :
    r.2.line = d.line ∧ r.2.mode = d.mode := by
  rw [check] at h
  split at h
  · cases h
    exact ⟨rfl, rfl⟩
  · split at h
    · cases h
      exact ⟨rfl, rfl⟩
    · obtain ⟨q, -, rfl⟩ := Option.map_eq_some_iff.mp h
      exact ⟨rfl, rfl⟩

theorem step_alike (hs : Alike dev s.dev) (ha : Wired dev a) (hstep : Step sci s a t) :
    Alike dev t.dev := by
  cases hstep with
  | assigned => exact alike_update hs rfl ha
  | @checked d src r hd hr =>
    obtain ⟨hline, hmode⟩ := check_alike hr
    exact alike_update hs hline (hmode ▸ (hs d).2)
  | _ => exact hs

end Wiring

section Runs

/-- While a transfer is on the bus its device is selected, and no other is. -/
def Exclusive (dev : Nat → Device) (s : Spi) : Prop :=
  ∀ h, onBus s.worker = some h → ∀ c, Selected dev s.level c ↔ c = h.msg.spi

/-- No other device is left selected when a transfer starts, by a message that leaves its
device to one of the other polarity, or by a setup that has taken the hint away and not
yet driven the line; and none is deselected while it has a transfer on the bus. -/
def Apart (dev : Nat → Device) (s : Spi) : Act → Prop
  | .startXfer => ∀ h xfer rest, s.worker = .handling h → h.phase = .next →
      h.todo = xfer :: rest → xfer.len.toNat % (xfer.bpw (s.dev h.msg.spi) / 8) = 0 →
      ∀ c, c ≠ h.msg.spi →
        (s.tglSpi = some c → (dev c).mode.csHigh = (dev h.msg.spi).mode.csHigh) ∧
        (s.tglSpi ≠ some c → (c, Setup.setLevel) ∈ s.setups → ¬ Selected dev s.level c)
  | .setLevel d => (d, Setup.setLevel) ∈ s.setups → ∀ h, onBus s.worker = some h → h.msg.spi ≠ d
  | _ => True

structure Inv (dev : Nat → Device) (s : Spi) : Prop where
  alike : Alike dev s.dev
  selected : ∀ c, Selected dev s.level c →
    (s.tglSpi = some c ∨ ∃ h, s.worker = .handling h ∧ c = h.msg.spi) ∨
      (c, Setup.setLevel) ∈ s.setups
  bus : ∀ h, onBus s.worker = some h → s.tglSpi = none ∧ ∀ c, Selected dev s.level c ↔ c = h.msg.spi
  toggle : ∀ h, s.worker = .handling h → h.csToggle = true → s.tglSpi = none

theorem Inv.moved (hs : Inv dev s) (halike : Alike dev t.dev) (hlevel : t.level = s.level)
    (htgl : t.tglSpi = s.tglSpi) (hsetups : t.setups = s.setups) (hbus : onBus t.worker = none)
    (hcur : ∀ h, s.worker = .handling h → ∃ h', t.worker = .handling h' ∧ h'.msg = h.msg)
    (htoggle : ∀ h, t.worker = .handling h → h.csToggle = true → s.tglSpi = none) : Inv dev t where
  alike := halike
  selected c hc := by
    rw [hlevel] at hc
    rw [htgl, hsetups]
    refine (hs.selected c hc).imp_left (Or.imp_right (fun ⟨h, hw, hd⟩ => ?_))
    obtain ⟨h', hw', hmsg⟩ := hcur h hw
    exact ⟨h', hw', by rw [hmsg, hd]⟩
  bus h hh := by
    rw [hbus] at hh
    cases hh
  toggle h hw hh := by
    rw [htgl]
    exact htoggle h hw hh

theorem Inv.frame (hs : Inv dev s) (halike : Alike dev t.dev) (hlevel : t.level = s.level)
    (htgl : t.tglSpi = s.tglSpi) (hworker : t.worker = s.worker)
    (hsetups : ∀ c, (c, Setup.setLevel) ∈ s.setups → (c, Setup.setLevel) ∈ t.setups) :
    Inv dev t where
  alike := halike
  selected := by
    rw [hlevel, htgl, hworker]
    exact fun c hc => (hs.selected c hc).imp_right (hsetups c)
  bus := by
    rw [hlevel, htgl, hworker]
    exact hs.bus
  toggle := by
    rw [htgl, hworker]
    exact hs.toggle

theorem untoggled_none (d : Nat) : untoggled d none = none := by
  rw [untoggled, ite_self]

theorem untoggled_of_ne {d c : Nat} (h : c ≠ d) : untoggled d (some c) = some c :=
  if_neg (fun hno => h (Option.some.inj hno))

theorem mem_next {c d : Nat} {stage : Setup} {after : List Setup}
    (hne : (c, Setup.setLevel) ≠ (d, stage)) (hc : (c, Setup.setLevel) ∈ s.setups) :
    (c, Setup.setLevel) ∈ (next d stage after s).setups :=
  List.mem_append_left _ ((List.mem_erase_of_ne hne).mpr hc)

theorem onBus_of_phase {h : Handling}
    (hp : h.phase = .active ∨ ∃ saved, h.phase = .clearing saved) :
    onBus (.handling h) = some h := onBus_eq.mpr ⟨rfl, hp⟩

theorem Inv.ended (hs : Inv dev s) (halike : Alike dev t.dev)
    (hlines : Function.Injective (fun d => (dev d).line))
    {h : Handling} {xfer : Transfer} {rest : List Transfer} (hh : onBus s.worker = some h)
    (hlevel : t.level = if toggles xfer rest then disabled s.dev h.msg.spi s.level else s.level)
    (htgl : t.tglSpi = if toggles xfer rest then untoggled h.msg.spi s.tglSpi else s.tglSpi)
    (hworker : t.worker = .handling (ended xfer rest h)) : Inv dev t := by
  obtain ⟨hnone, hsel⟩ := hs.bus h hh
  rw [hnone, untoggled_none, ite_self] at htgl
  rw [disabled_alike hs.alike] at hlevel
  refine ⟨halike, fun c hc => .inl (.inr ⟨_, hworker, ?_⟩), fun k hk => ?_, fun _ _ _ => htgl⟩
  · rw [hlevel] at hc
    split at hc
    · exact (hsel c).mp ((selected_disabled hlines).mp hc).2
    · exact (hsel c).mp hc
  · rw [hworker] at hk
    cases hk

/-- Who is selected when `handle_msg` has a message: its device, or one that was left
selected. -/
theorem Inv.selected_handling (hs : Inv dev s) {h : Handling} (hw : s.worker = .handling h)
    {c : Nat} (hc : Selected dev s.level c) :
    (s.tglSpi = some c ∨ c = h.msg.spi) ∨ (c, Setup.setLevel) ∈ s.setups := by
  refine (hs.selected c hc).imp_left (Or.imp_right (fun ⟨k, hk, hd⟩ => ?_))
  rw [hw] at hk
  cases hk
  exact hd

theorem step_inv (hlines : Function.Injective (fun d => (dev d).line)) (hs : Inv dev s)
    (hwired : Wired dev a) (ha : Apart dev s a) (hstep : Step sci s a t) : Inv dev t := by
  have halike := step_alike hs.alike hwired hstep
  have hsame {h : Handling} (hw : s.worker = .handling h) (h' : Handling) (hmsg : h'.msg = h.msg) :
      ∀ k, s.worker = .handling k → ∃ k', Worker.handling h' = .handling k' ∧ k'.msg = k.msg := by
    intro k hk
    rw [hw] at hk
    cases hk
    exact ⟨h', rfl, hmsg⟩
  have htoggle {h : Handling} (hw : s.worker = .handling h) {h' : Handling}
      (hcs : h'.csToggle = h.csToggle) :
      ∀ k, Worker.handling h' = .handling k → k.csToggle = true → s.tglSpi = none := by
    rintro k ⟨⟩ hk
    exact hs.toggle h hw (hcs ▸ hk)
  cases hstep with
  | setup => exact hs.frame halike rfl rfl rfl (fun _ hc => List.mem_append_left _ hc)
  | checked => exact hs.frame halike rfl rfl rfl (fun _ => mem_next (fun hno => by cases hno))
  | @untoggled d hd =>
    refine ⟨halike, fun c hc => ?_, fun h hh => ?_, fun h hw hh => ?_⟩
    · by_cases hcd : c = d
      · rw [hcd]
        exact .inr (List.mem_append_right _ List.mem_cons_self)
      · rcases hs.selected c hc with (htgl | hcur) | hset
        · refine .inl (.inl ?_)
          change untoggled d s.tglSpi = some c
          rw [htgl, untoggled_of_ne hcd]
        · exact .inl (.inr hcur)
        · exact .inr (mem_next (s := { s with tglSpi := _ }) (fun hno => by cases hno) hset)
    · obtain ⟨hnone, hsel⟩ := hs.bus h hh
      refine ⟨?_, hsel⟩
      change untoggled d s.tglSpi = none
      rw [hnone, untoggled_none]
    · change untoggled d s.tglSpi = none
      rw [hs.toggle h hw hh, untoggled_none]
  | @leveled d hd =>
    refine ⟨halike, fun c hc => ?_, fun h hh => ⟨(hs.bus h hh).1, fun c => ?_⟩, hs.toggle⟩
    · change Selected dev (disabled s.dev d s.level) c at hc
      rw [disabled_alike hs.alike] at hc
      obtain ⟨hne, hsel⟩ := (selected_disabled hlines).mp hc
      refine (hs.selected c hsel).imp_right (mem_next (s := { s with level := _ }) (fun hno => ?_))
      exact hne (congrArg Prod.fst hno)
    · change Selected dev (disabled s.dev d s.level) c ↔ c = h.msg.spi
      rw [disabled_alike hs.alike, selected_disabled hlines, (hs.bus h hh).2 c,
        and_iff_right_iff_imp]
      rintro rfl
      exact ha hd h hh
  | work hw =>
    exact hs.moved halike rfl rfl rfl rfl
      (fun h hh => absurd (hw.symm.trans hh) Worker.noConfusion) (fun _ hh => Worker.noConfusion hh)
  | stopped hw =>
    exact hs.moved halike rfl rfl rfl rfl
      (fun h hh => absurd (hw.symm.trans hh) Worker.noConfusion) (fun _ hh => Worker.noConfusion hh)
  | taken hw =>
    refine hs.moved halike rfl rfl rfl rfl
      (fun h hh => absurd (hw.symm.trans hh) Worker.noConfusion) ?_
    rintro h ⟨⟩ hh
    cases hh
  | begun hw =>
    refine hs.moved halike rfl rfl rfl ?_ (hsame hw _ rfl) (htoggle hw rfl)
    dsimp only
    split <;> rfl
  | finished hw => exact hs.moved halike rfl rfl rfl rfl (hsame hw _ rfl) (htoggle hw rfl)
  | odd hw => exact hs.moved halike rfl rfl rfl rfl (hsame hw _ rfl) (htoggle hw rfl)
  | @started h xfer rest hw hp ht hlen =>
    have hapart := ha h xfer rest hw hp ht hlen
    have hcur (c : Nat) (hc : Selected dev s.level c) : s.tglSpi = some c ∨ c = h.msg.spi := by
      rcases hs.selected_handling hw hc with hcur | hset
      · exact hcur
      · by_contra hno
        obtain ⟨htgl, hne⟩ := not_or.mp hno
        exact (hapart c hne).2 htgl hset hc
    have hsel := selected_enabled hlines hcur (fun last htgl hne => (hapart last hne).1 htgl)
    rw [← enabled_alike hs.alike] at hsel
    refine ⟨halike, fun c hc => .inl (.inr ⟨_, rfl, (hsel c).mp hc⟩), ?_, fun _ _ _ => rfl⟩
    rintro k hk
    cases hk
    exact ⟨rfl, hsel⟩
  | failed hw => exact hs.moved halike rfl rfl rfl rfl (hsame hw _ rfl) (htoggle hw rfl)
  | @polled io h xfer rest hw hp ht =>
    obtain ⟨hnone, hsel⟩ := hs.bus h (by rw [hw]; exact onBus_of_phase (.inl hp))
    refine ⟨halike, fun c hc => .inl (.inr ⟨_, rfl, (hsel c).mp hc⟩), ?_, fun _ _ _ => hnone⟩
    rintro k hk
    cases hk
    exact ⟨hnone, hsel⟩
  | waited hw hp =>
    exact hs.ended halike hlines (by rw [hw]; exact onBus_of_phase (.inl hp)) rfl rfl rfl
  | stored hw hp =>
    exact hs.ended halike hlines (by rw [hw]; exact onBus_of_phase (.inr ⟨_, hp⟩)) rfl rfl rfl
  | @done h status hw hp =>
    refine ⟨halike, fun c hc => ?_, fun _ hk => absurd hk not_onBus_looking,
      fun _ hk => Worker.noConfusion hk⟩
    dsimp only at hc ⊢
    cases hk : keeps h status with
    | true =>
      rw [hk] at hc
      have hnone := hs.toggle h hw (Bool.and_eq_true_iff.mp hk).1
      rcases hs.selected_handling hw hc with (htgl | rfl) | hset
      · rw [hnone] at htgl
        cases htgl
      · exact .inl (.inl rfl)
      · exact .inr hset
    | false =>
      rw [hk] at hc
      change Selected dev (disabled s.dev h.msg.spi s.level) c at hc
      rw [disabled_alike hs.alike] at hc
      obtain ⟨hne, hsel⟩ := (selected_disabled hlines).mp hc
      rcases hs.selected_handling hw hsel with (htgl | heq) | hset
      · refine .inl (.inl ?_)
        rw [htgl]
        exact untoggled_of_ne hne
      · exact absurd heq hne
      · exact .inr hset
  | _ => exact hs.frame halike rfl rfl rfl (fun _ hc => hc)

/-- A step that is not allowed leaves two devices selected, or none. -/
theorem not_exclusive (hlines : Function.Injective (fun d => (dev d).line))
    (hs : Alike dev s.dev) (ha : ¬ Apart dev s a) (hstep : Step sci s a t) : ¬ Exclusive dev t := by
  intro hexcl
  have hsame {h k : Handling} (hw : s.worker = .handling h) (hk : s.worker = .handling k) :
      h = k := by
    rw [hw] at hk
    exact Worker.handling.inj hk
  cases hstep with
  | @leveled d hd =>
    apply ha
    intro _ h hh heq
    have hsel := (hexcl h hh d).mpr heq.symm
    change Selected dev (disabled s.dev d s.level) d at hsel
    rw [disabled_alike hs] at hsel
    exact ((selected_disabled hlines).mp hsel).1 rfl
  | finished hw _ hnil =>
    apply ha
    intro k xfer rest hk _ ht
    rw [← hsame hw hk, hnil] at ht
    cases ht
  | odd hw _ ht hodd =>
    apply ha
    intro k xfer rest hk _ ht' hlen
    obtain rfl := hsame hw hk
    rw [ht] at ht'
    cases ht'
    exact absurd hlen hodd
  | @started h xfer rest hw =>
    apply ha
    intro k _ _ hk _ _ _ c hne
    obtain rfl := hsame hw hk
    have hother : ¬ Selected dev (enabled dev h.msg.spi s.tglSpi s.level) c := by
      intro hsel
      rw [← enabled_alike hs] at hsel
      exact hne ((hexcl { h with phase := .active } rfl c).mp hsel)
    refine ⟨fun htgl => ?_, fun htgl _ hsel => hother (selected_other hlines htgl hsel)⟩
    by_contra hmode
    rw [htgl] at hother
    exact hother (selected_last s.level hlines hne hmode)
  | _ => exact ha trivial

/-- Exactly one device is selected while a transfer is on the bus, exactly when none is
left selected before it that has the other polarity or is in the middle of a setup, and
none is deselected by a setup during its own transfer. -/
theorem exclusive_iff (sci : Info) (hlines : Function.Injective (fun d => (dev d).line))
    {level : Nat → Bool} (hlevel : ∀ d, ¬ Selected dev level d) (as : List Act)
    (hwired : ∀ a ∈ as, Wired dev a) :
    Always (step sci) (Exclusive dev) (start dev level) as ↔
      Meets (step sci) (Apart dev) (start dev level) as := by
  have hstart : Inv dev (start dev level) :=
    ⟨fun _ => ⟨rfl, rfl⟩, fun c hc => absurd hc (hlevel c), fun _ hk => absurd hk not_onBus_idle,
      fun _ hk => Worker.noConfusion hk⟩
  refine always_iff_meets_of_mem (fun _ (h : Inv dev _) k hk => (h.bus k hk).2) ?_ ?_ as hwired
    hstart
  · intro s a t hs hw ha hstep
    exact step_inv hlines hs hw ha (step_spec hstep)
  · intro s a hs _ ha
    have hsome : ∃ t, step sci s a = some t := by
      cases a with
      | startXfer =>
        obtain ⟨h, xfer, rest, hw, hp, ht⟩ : ∃ h xfer rest, s.worker = .handling h ∧
            h.phase = .next ∧ h.todo = xfer :: rest := by
          by_contra hno
          exact ha (fun h xfer rest hw hp ht => absurd ⟨h, xfer, rest, hw, hp, ht⟩ hno)
        exact startXfer_some hw hp ht
      | setLevel d =>
        by_cases hd : (d, Setup.setLevel) ∈ s.setups
        · exact ⟨_, if_pos hd⟩
        · exact absurd (fun hyes => absurd hyes hd) ha
      | _ => exact absurd trivial ha
    obtain ⟨t, hstep⟩ := hsome
    exact ⟨t, hstep, not_exclusive hlines hs.alike ha (step_spec hstep)⟩

theorem exclusive_iff_slow :
    Always (step slowInfo) (Exclusive slowDev) (start slowDev fun _ => true) twoMessages ↔
      Meets (step slowInfo) (Apart slowDev) (start slowDev fun _ => true) twoMessages :=
  exclusive_iff slowInfo (fun _ _ h => h) (fun _ h => Bool.noConfusion h) twoMessages
    (by simp [twoMessages, Wired])

end Runs

end LinuxDriver.SpiSelect
