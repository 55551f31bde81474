import LinuxDriver.Buttons

namespace LinuxDriver.ButtonsLifetime

open Runs
open Buttons (Pin InputEvent buttonsDesc)

inductive Dev
  | null
  | allocated
  | registered
  | unregistered
  | freed
deriving DecidableEq

/-- The next call of `buttons_init` or `buttons_exit`; `todo` is what is left of
their `for` loops, and `oops` a `set_bit` through a NULL `buttons_dev`. -/
inductive Pc
  | allocate
  | register
  | initTimer
  | addTimer
  | request (todo : List (Fin 4))
  | live
  | free (todo : List (Fin 4))
  | delTimer
  | unregister
  | freeDev
  | done
  | oops

/-- The next step of a running `buttons_timer_function`; `event` has the level read. -/
inductive HandlerPc
  | getpin
  | event (val : Bool)
  | sync
deriving DecidableEq

/-- What a step of `buttons_timer_function` finds in the two globals it uses. -/
structure Seen where
  buttonsId : Option (Fin 4)
  buttonsDev : Dev

/-- `irqs` are the interrupts that are requested, `handlers` the calls of
`buttons_timer_function` that are running. -/
structure State where
  pc : Pc
  buttonsDev : Dev
  buttonsId : Option (Fin 4)
  irqs : Fin 4 → Bool
  pending : Bool
  handlers : List HandlerPc
  level : Pin → Bool
  events : List InputEvent
  seen : List Seen

def State.init : State :=
  ⟨.allocate, .null, none, fun _ => false, false, [], fun _ => true, [], []⟩

def moduleStep (ok : Bool) (s : State) : Option State :=
  match s.pc with
  | .allocate =>
    if ok then some { s with buttonsDev := .allocated, pc := .register }
    else some { s with pc := .oops }
  | .register =>
    some { s with buttonsDev := if ok then .registered else s.buttonsDev, pc := .initTimer }
  | .initTimer => some { s with pc := .addTimer }
  | .addTimer => some { s with pending := true, pc := .request (List.finRange 4) }
  | .request [] => some { s with pc := .live }
  | .request (i :: todo) =>
    some { s with irqs := Function.update s.irqs i ok, pc := .request todo }
  | .live => some { s with pc := .free (List.finRange 4) }
  | .free [] => some { s with pc := .delTimer }
  | .free (i :: todo) =>
    some { s with irqs := Function.update s.irqs i false, pc := .free todo }
  | .delTimer => some { s with pending := false, pc := .unregister }
  | .unregister => some { s with buttonsDev := .unregistered, pc := .freeDev }
  | .freeDev => some { s with buttonsDev := .freed, pc := .done }
  | .done | .oops => none

def buttonsIrq (devId : Fin 4) (s : State) : State :=
  { s with buttonsId := some devId, pending := true }

def edge (b : Fin 4) (s : State) : State :=
  let pin := (buttonsDesc b).pin
  let s := { s with level := Function.update s.level pin (!s.level pin) }
  if s.irqs b then buttonsIrq b s else s

def handlerStep (pc : HandlerPc) (s : State) : List HandlerPc × State :=
  let s := { s with seen := s.seen ++ [Seen.mk s.buttonsId s.buttonsDev] }
  match pc, s.buttonsId with
  | .getpin, some b => ([.event (s.level (buttonsDesc b).pin)], s)
  | .event val, some b =>
    let e := InputEvent.mk (buttonsDesc b).button (if val then 0 else 1)
    ([.sync], { s with events := s.events ++ [e] })
  | .sync, _ => ([], s)
  | _, none => ([], s)

inductive Act
  | module (ok : Bool)
  | edge (b : Fin 4)
  | expire
  | handler (n : Nat)

def step (s : State) : Act → Option State
  | .module ok => moduleStep ok s
  | .edge b => some (edge b s)
  | .expire =>
    if s.pending then some { s with pending := false, handlers := s.handlers ++ [.getpin] }
    else none
  | .handler n =>
    s.handlers[n]?.map (fun pc =>
      let r := handlerStep pc s
      { r.2 with handlers := s.handlers.take n ++ r.1 ++ s.handlers.drop (n + 1) })

def Seen.Good (x : Seen) : Prop := x.buttonsId.isSome = true ∧ x.buttonsDev = .registered

/-- Every step that the timer function has taken has found a button and a registered
device, and one that it can take now would find them. -/
structure Safe (s : State) : Prop where
  seen : ∀ x, x ∈ s.seen → x.Good
  running : s.handlers ≠ [] → Seen.Good ⟨s.buttonsId, s.buttonsDev⟩

/-- The timer does not run out before the first edge or with a device that could not
be registered, and the device is not unregistered while the timer function runs. -/
def Allowed (s : State) : Act → Prop
  | .expire => s.pending = true → s.buttonsId.isSome = true ∧ s.buttonsDev ≠ .allocated
  | .module _ =>
    match s.pc with
    | .unregister => s.handlers = []
    | _ => True
  | _ => True

def Pc.up : Pc → Bool
  | .register | .initTimer | .addTimer | .request _ | .live => true
  | .free _ | .delTimer | .unregister => true
  | .allocate | .freeDev | .done | .oops => false

def OnlyIrqs (s : State) (todo : List (Fin 4)) : Prop := ∀ i, s.irqs i = true → i ∈ todo

def Stage (s : State) : Prop :=
  match s.pc with
  | .free todo => OnlyIrqs s todo
  | .delTimer => OnlyIrqs s []
  | .request _ | .live => True
  | _ => OnlyIrqs s [] ∧ s.pending = false

structure Inv (s : State) : Prop where
  safe : Safe s
  dev : s.pc.up = true → s.buttonsDev = .allocated ∨ s.buttonsDev = .registered
  idle : s.pc.up = false → s.handlers = []
  stage : Stage s

theorem inv_init : Inv State.init where
  safe := ⟨List.forall_mem_nil _, fun h => absurd rfl h⟩
  dev h := by cases h
  idle _ := rfl
  stage := ⟨fun i hi => absurd hi Bool.noConfusion, rfl⟩

theorem safe_of_idle {s t : State} (h : Safe s) (hseen : t.seen = s.seen)
    (hidle : t.handlers = []) : Safe t where
  seen x hx := h.seen x (hseen ▸ hx)
  running hrun := absurd hidle hrun

theorem module_inv {s t : State} {ok : Bool} (h : Inv s) (ha : Allowed s (.module ok))
    (hstep : moduleStep ok s = some t) : Inv t := by
  obtain ⟨hsafe, hdev, hidle, hstage⟩ := h
  rw [moduleStep] at hstep
  rw [Stage] at hstage
  rw [Allowed] at ha
  generalize hpc : s.pc = pc at *
  cases pc with
  | allocate =>
    simp only at hstep
    split at hstep
    · cases hstep
      exact ⟨safe_of_idle hsafe rfl (hidle rfl), fun _ => .inl rfl, Bool.noConfusion, hstage⟩
    · cases hstep
      exact ⟨safe_of_idle hsafe rfl (hidle rfl), Bool.noConfusion, fun _ => hidle rfl, hstage⟩
  | register =>
    cases hstep
    cases ok with
    | false => exact ⟨⟨hsafe.1, hsafe.2⟩, fun _ => hdev rfl, Bool.noConfusion, hstage⟩
    | true =>
      exact ⟨⟨hsafe.1, fun hrun => ⟨(hsafe.2 hrun).1, rfl⟩⟩, fun _ => .inr rfl,
        Bool.noConfusion, hstage⟩
  | initTimer =>
    cases hstep
    exact ⟨⟨hsafe.1, hsafe.2⟩, fun _ => hdev rfl, Bool.noConfusion, hstage⟩
  | addTimer =>
    cases hstep
    exact ⟨⟨hsafe.1, hsafe.2⟩, fun _ => hdev rfl, Bool.noConfusion, trivial⟩
  | request todo =>
    cases todo <;> cases hstep <;>
      exact ⟨⟨hsafe.1, hsafe.2⟩, fun _ => hdev rfl, Bool.noConfusion, trivial⟩
  | live =>
    cases hstep
    exact ⟨⟨hsafe.1, hsafe.2⟩, fun _ => hdev rfl, Bool.noConfusion, fun i _ => List.mem_finRange i⟩
  | free todo =>
    cases todo with
    | nil =>
      cases hstep
      exact ⟨⟨hsafe.1, hsafe.2⟩, fun _ => hdev rfl, Bool.noConfusion, hstage⟩
    | cons i todo =>
      cases hstep
      refine ⟨⟨hsafe.1, hsafe.2⟩, fun _ => hdev rfl, Bool.noConfusion, fun j hj => ?_⟩
      change Function.update s.irqs i false j = true at hj
      have hne : j ≠ i := by
        rintro rfl
        rw [Function.update_self] at hj
        cases hj
      rw [Function.update_of_ne hne] at hj
      exact (List.mem_cons.mp (hstage j hj)).resolve_left hne
  | delTimer =>
    cases hstep
    exact ⟨⟨hsafe.1, hsafe.2⟩, fun _ => hdev rfl, Bool.noConfusion, hstage, rfl⟩
  | unregister =>
    cases hstep
    exact ⟨safe_of_idle hsafe rfl ha, Bool.noConfusion, fun _ => ha, hstage⟩
  | freeDev =>
    cases hstep
    exact ⟨safe_of_idle hsafe rfl (hidle rfl), Bool.noConfusion, fun _ => hidle rfl, hstage⟩
  | done => cases hstep
  | oops => cases hstep

theorem stage_irq {s t : State} {b : Fin 4} (h : Stage s) (hirq : s.irqs b = true)
    (hpc : t.pc = s.pc) (hirqs : t.irqs = s.irqs) : Stage t := by
  have hno : ¬ OnlyIrqs s [] := fun honly => List.not_mem_nil (honly b hirq)
  rw [Stage] at h ⊢
  rw [hpc]
  cases hs : s.pc <;> rw [hs] at h
  case free todo =>
    intro i hi
    rw [hirqs] at hi
    exact h i hi
  case request todo => trivial
  case live => trivial
  case delTimer => exact absurd h hno
  all_goals exact absurd h.1 hno

theorem stage_expire {s : State} (h : Stage s) (hp : s.pending = true) :
    s.pc.up = true ∧ ∀ handlers, Stage { s with pending := false, handlers := handlers } := by
  have hno : s.pending ≠ false := by simp [hp]
  rw [Stage] at h
  simp only [Stage]
  cases hs : s.pc <;> rw [hs] at h
  case free todo => exact ⟨rfl, fun _ => h⟩
  case request todo => exact ⟨rfl, fun _ => trivial⟩
  case live => exact ⟨rfl, fun _ => trivial⟩
  case delTimer => exact ⟨rfl, fun _ => h⟩
  all_goals exact absurd h.2 hno

theorem edge_inv {s : State} (h : Inv s) (b : Fin 4) : Inv (edge b s) := by
  obtain ⟨hsafe, hdev, hidle, hstage⟩ := h
  rw [edge]
  dsimp only
  split
  · rename_i hirq
    exact ⟨⟨hsafe.1, fun hrun => ⟨rfl, (hsafe.2 hrun).2⟩⟩, hdev, hidle,
      stage_irq hstage hirq rfl rfl⟩
  · exact ⟨⟨hsafe.1, hsafe.2⟩, hdev, hidle, hstage⟩

theorem expire_inv {s : State} (h : Inv s) (hp : s.pending = true)
    (ha : s.buttonsId.isSome = true ∧ s.buttonsDev ≠ .allocated) :
    Inv { s with pending := false, handlers := s.handlers ++ [.getpin] } := by
  obtain ⟨hsafe, hdev, hidle, hstage⟩ := h
  obtain ⟨hup, hstage⟩ := stage_expire hstage hp
  have hreg : s.buttonsDev = .registered := (hdev hup).resolve_left ha.2
  refine ⟨⟨hsafe.1, fun _ => ⟨ha.1, hreg⟩⟩, hdev, fun hdown => ?_, hstage _⟩
  change s.pc.up = false at hdown
  rw [hup] at hdown
  cases hdown

theorem handlerStep_frame (pc : HandlerPc) (s : State) :
    (handlerStep pc s).2 = { s with
      events := (handlerStep pc s).2.events
      seen := s.seen ++ [⟨s.buttonsId, s.buttonsDev⟩] } := by
  obtain ⟨_, _, buttonsId, _⟩ := s
  cases pc <;> cases buttonsId <;> rfl

theorem handler_inv {s : State} {n : Nat} {pc : HandlerPc} (h : Inv s)
    (hpc : s.handlers[n]? = some pc) :
    Inv { (handlerStep pc s).2 with
      handlers := s.handlers.take n ++ (handlerStep pc s).1 ++ s.handlers.drop (n + 1) } := by
  obtain ⟨hsafe, hdev, hidle, hstage⟩ := h
  have hrun : s.handlers ≠ [] := by
    intro hnil
    rw [hnil] at hpc
    cases hpc
  have hgood := hsafe.running hrun
  rw [handlerStep_frame]
  refine ⟨⟨fun x hx => ?_, fun _ => hgood⟩, hdev, fun hdown => ?_, hstage⟩
  · obtain hx | hx := List.mem_append.mp hx
    · exact hsafe.seen x hx
    · rw [List.mem_singleton.mp hx]
      exact hgood
  · exact absurd (hidle hdown) hrun

theorem step_inv {s t : State} {a : Act} (h : Inv s) (ha : Allowed s a)
    (hstep : step s a = some t) : Inv t := by
  cases a with
  | module ok => exact module_inv h ha hstep
  | edge b =>
    cases hstep
    exact edge_inv h b
  | expire =>
    simp only [step] at hstep
    split at hstep
    · rename_i hp
      cases hstep
      exact expire_inv h hp (ha hp)
    · cases hstep
  | handler n =>
    obtain ⟨pc, hpc, rfl⟩ := Option.map_eq_some_iff.mp hstep
    exact handler_inv h hpc

/-- A step that is not allowed can be taken, and leaves a timer function running
that has no button or no registered device. -/
theorem step_unsafe {s : State} {a : Act} (ha : ¬ Allowed s a) :
    ∃ t, step s a = some t ∧ ¬ Safe t := by
  cases a with
  | module ok =>
    simp only [Allowed] at ha
    split at ha
    · rename_i hpc
      have hstep : step s (.module ok) =
          some { s with buttonsDev := .unregistered, pc := .freeDev } := by
        simp only [step, moduleStep, hpc]
      refine ⟨_, hstep, fun hsafe => ?_⟩
      cases (hsafe.running ha).2
    · exact absurd trivial ha
  | edge b => exact absurd trivial ha
  | expire =>
    simp only [Allowed] at ha
    obtain ⟨hp, hno⟩ := Classical.not_imp.mp ha
    refine ⟨_, if_pos hp, fun hsafe => hno ?_⟩
    obtain ⟨hid, hdev⟩ := hsafe.running (by simp)
    change s.buttonsDev = .registered at hdev
    refine ⟨hid, fun halloc => ?_⟩
    rw [hdev] at halloc
    cases halloc
  | handler n => exact absurd trivial ha

/-- The timer function always has a button and a registered device exactly in the
runs that keep to the condition. -/
theorem timer_function_safe_iff (as : List Act) :
    Always step Safe State.init as ↔ Meets step Allowed State.init as := by
  apply always_iff_meets
  · intro s
    exact Inv.safe
  · intro s a t
    exact step_inv
  · intro s a _
    exact step_unsafe
  · exact inv_init

/-- The timer that `buttons_init` starts runs out before a key has been pressed. -/
theorem first_expiry_has_no_button : ¬ ∀ as, Always step Safe State.init as := by
  intro h
  have hrun := always_end (h [.module true, .module true, .module true, .module true,
    .expire, .handler 0]) rfl
  have hgood := hrun.seen ⟨none, .registered⟩ (List.mem_singleton.mpr rfl)
  cases hgood.1

theorem handler_undisturbed {s : State} {b : Fin 4} (hid : s.buttonsId = some b)
    (hrun : s.handlers = [.getpin]) :
    (run step s [.handler 0, .handler 0, .handler 0]).map State.events =
      some (Buttons.buttonsTimerFunction ⟨s.level, b, s.pending, s.events⟩).events := by
  obtain ⟨pc, dev, id, irqs, pending, handlers, level, events, seen⟩ := s
  cases hid
  cases hrun
  rfl

end LinuxDriver.ButtonsLifetime
