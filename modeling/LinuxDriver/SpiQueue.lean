import LinuxDriver.SpiStep
import Mathlib.Algebra.GroupWithZero.Nat

namespace LinuxDriver.SpiQueue

open Runs Holding SpiMaster SpiWork SpiStep

variable {sci : Info} {s t : Spi} {a : Act}

def inFlight : Worker → List Message
  | .handling h => [h.msg]
  | _ => []

@[simp]
theorem inFlight_idle : inFlight .idle = [] := rfl

@[simp]
theorem inFlight_looking : inFlight .looking = [] := rfl

@[simp]
theorem inFlight_handling (h : Handling) : inFlight (.handling h) = [h.msg] := rfl

section Order

def lens (xfers : List Transfer) : List Nat := xfers.map (fun xfer => xfer.len.toNat)

theorem mapTx_len (map : Nat → Option Nat) (n : Nat) (xfer : Transfer) (dma : Resources Mapping) :
    (mapTx map n xfer dma).2.2.1.len = xfer.len := by
  rw [mapTx]
  split
  · split <;> rfl
  · rfl

theorem mapRx_len (map : Nat → Option Nat) (n : Nat) (xfer : Transfer) (dma : Resources Mapping) :
    (mapRx map n xfer dma).2.2.1.len = xfer.len := by
  rw [mapRx]
  split
  · split <;> rfl
  · rfl

theorem mapXfer_len (map : Nat → Option Nat) (n : Nat) (xfer : Transfer)
    (dma : Resources Mapping) : (mapXfer map n xfer dma).2.2.1.len = xfer.len := by
  rw [mapXfer]
  split
  · rw [mapRx_len, mapTx_len]
  · exact mapTx_len map n xfer dma

theorem mapXfers_lens (sci : Info) (map : Nat → Option Nat) (xfers : List Transfer) :
    ∀ n dma, lens (mapXfers sci map n xfers dma).2.1 = lens xfers := by
  induction xfers with
  | nil => exact fun _ _ => rfl
  | cons xfer rest ih =>
    intro n dma
    rw [mapXfers]
    split
    · dsimp only
      split
      · exact congrArg₂ List.cons (congrArg BitVec.toNat (mapXfer_len map n xfer dma)) (ih _ _)
      · exact congrArg (·.toNat :: lens rest) (mapXfer_len map n xfer dma)
    · exact congrArg (xfer.len.toNat :: ·) (ih n dma)

theorem mapMssg_lens (sci : Info) (map : Nat → Option Nat) (msg : Message)
    (dma : Resources Mapping) : lens (mapMssg sci map msg dma).2.1 = lens msg.transfers := by
  rw [mapMssg]
  split
  · rfl
  · rw [mapXfers_lens, lens, lens, List.map_map]
    rfl

theorem mapMssg_nil {map : Nat → Option Nat} {msg : Message} {dma : Resources Mapping}
    (h : msg.transfers = []) : (mapMssg sci map msg dma).1 = true := by
  rw [mapMssg, h]
  split <;> rfl

/-- A message is over with this status and length: the lengths of its transfers
up to some point, which is the end exactly when there was no error. -/
def Accounted (msg : Message) (status : Int) (length : BitVec 32) : Prop :=
  ∃ pre post, lens msg.transfers = pre ++ post ∧ length = BitVec.ofNat 32 pre.sum ∧
    (status = 0 ↔ post = [])

def Reached (h : Handling) : Prop :=
  ∃ pre, lens h.msg.transfers = pre ++ lens h.todo ∧ h.actualLength = BitVec.ofNat 32 pre.sum

def Progress (h : Handling) : Prop :=
  match h.phase with
  | .taken => h.actualLength = 0
  | .out status => Accounted h.msg status h.actualLength
  | _ => Reached h

structure Ordered (s : Spi) : Prop where
  order : s.accepted = s.completed.map Prod.fst ++ inFlight s.worker ++ s.queue
  progress : ∀ h, s.worker = .handling h → Progress h
  accounted : ∀ c ∈ s.completed, Accounted c.1 c.2.1 c.2.2

theorem progress_out (status : Int) {h : Handling} {xfer : Transfer} {rest : List Transfer}
    (hp : Reached h) (ht : h.todo = xfer :: rest) (hstatus : status ≠ 0) :
    Progress { h with phase := .out status } := by
  obtain ⟨pre, hlens, hlength⟩ := hp
  refine ⟨pre, lens h.todo, hlens, hlength, ?_⟩
  rw [ht]
  exact ⟨fun h0 => absurd h0 hstatus, fun hnil => absurd hnil (List.cons_ne_nil _ _)⟩

theorem progress_end {h : Handling} {xfer : Transfer} {rest : List Transfer} (hp : Reached h)
    (ht : h.todo = xfer :: rest) : Progress (ended xfer rest h) := by
  obtain ⟨pre, hlens, hlength⟩ := hp
  rw [ht] at hlens
  refine ⟨pre ++ [xfer.len.toNat], ?_, ?_⟩
  · rw [List.append_assoc]
    exact hlens
  · rw [List.sum_append, List.sum_singleton, BitVec.ofNat_add, BitVec.ofNat_toNat, ← hlength]
    rfl

theorem progress_begun (sci : Info) {h : Handling} (hp : h.actualLength = 0)
    (map : Nat → Option Nat)
    (dma : Resources Mapping) : Progress { h with
      transfers := (mapMssg sci map h.msg dma).2.1
      todo := (mapMssg sci map h.msg dma).2.1
      phase := if (mapMssg sci map h.msg dma).1 then .next else .out (-enomem) } := by
  have hlens := mapMssg_lens sci map h.msg dma
  cases hok : (mapMssg sci map h.msg dma).1 with
  | true => exact ⟨[], hlens.symm, hp⟩
  | false =>
    refine ⟨[], lens h.msg.transfers, rfl, hp, fun hno => absurd hno (by decide), fun hnil => ?_⟩
    rw [mapMssg_nil (List.map_eq_nil_iff.mp hnil)] at hok
    cases hok

theorem progress_of_phase {h : Handling} (hp : Progress h)
    (hnext : h.phase = .next ∨ h.phase = .active ∨ ∃ saved, h.phase = .clearing saved) :
    Reached h := by
  rw [Progress] at hp
  rcases hnext with hn | hn | ⟨saved, hn⟩
  · rw [hn] at hp
    exact hp
  · rw [hn] at hp
    exact hp
  · rw [hn] at hp
    exact hp

theorem step_ordered (hs : Ordered s) (hstep : Step sci s a t) : Ordered t := by
  obtain ⟨horder, hprogress, haccounted⟩ := hs
  have hone {h : Handling} {w : Worker} (hw : w = .handling h) {k : Handling}
      (hk : w = .handling k) : k = h := by
    rw [hw] at hk
    cases hk
    rfl
  have hmoved {h h' : Handling} (hw : s.worker = .handling h) (hnext : Progress h')
      (hmsg : h'.msg = h.msg) : s.accepted =
        s.completed.map Prod.fst ++ inFlight (.handling h') ++ s.queue ∧
        ∀ k, Worker.handling h' = .handling k → Progress k := by
    rw [hw] at horder
    refine ⟨?_, fun k hk => hone rfl hk ▸ hnext⟩
    rw [horder, inFlight_handling, inFlight_handling, hmsg]
  cases hstep with
  | queued =>
    refine ⟨?_, hprogress, haccounted⟩
    dsimp only
    rw [horder, List.append_assoc]
  | work hw =>
    rw [hw] at horder
    exact ⟨horder, fun _ hk => Worker.noConfusion hk, haccounted⟩
  | stopped hw =>
    rw [hw] at horder
    exact ⟨horder, fun _ hk => Worker.noConfusion hk, haccounted⟩
  | @taken msg rest hw hq =>
    rw [hw, hq] at horder
    refine ⟨?_, fun k hk => hone rfl hk ▸ rfl, haccounted⟩
    dsimp only
    rw [horder, inFlight_looking, inFlight_handling, List.append_nil, List.append_assoc,
      List.singleton_append]
  | @begun map h hw hp =>
    have hzero := hprogress h hw
    rw [Progress, hp] at hzero
    obtain ⟨horder', hprogress'⟩ := hmoved hw (progress_begun sci hzero map s.dma) rfl
    exact ⟨horder', hprogress', haccounted⟩
  | @finished h hw hp ht =>
    obtain ⟨pre, hlens, hlength⟩ := progress_of_phase (hprogress h hw) (.inl hp)
    rw [ht] at hlens
    have hnext : Progress { h with phase := .out 0 } :=
      ⟨pre, [], hlens, hlength, fun _ => rfl, fun _ => rfl⟩
    obtain ⟨horder', hprogress'⟩ := hmoved hw hnext rfl
    exact ⟨horder', hprogress', haccounted⟩
  | @odd h _ _ hw hp ht =>
    obtain ⟨horder', hprogress'⟩ := hmoved hw
      (progress_out (-eio) (progress_of_phase (hprogress h hw) (.inl hp)) ht (by decide)) rfl
    exact ⟨horder', hprogress', haccounted⟩
  | @started h _ _ hw hp =>
    have hmid := progress_of_phase (hprogress h hw) (.inl hp)
    have hnext : Progress { h with phase := .active } := hmid
    obtain ⟨horder', hprogress'⟩ := hmoved hw hnext rfl
    exact ⟨horder', hprogress', haccounted⟩
  | @failed _ h _ _ _ hw hp ht =>
    obtain ⟨horder', hprogress'⟩ := hmoved hw
      (progress_out (-eio) (progress_of_phase (hprogress h hw) (.inr (.inl hp))) ht (by decide)) rfl
    exact ⟨horder', hprogress', haccounted⟩
  | @polled _ h _ _ hw hp =>
    have hmid := progress_of_phase (hprogress h hw) (.inr (.inl hp))
    have hnext : Progress { h with phase := .clearing s.state } := hmid
    obtain ⟨horder', hprogress'⟩ := hmoved hw hnext rfl
    exact ⟨horder', hprogress', haccounted⟩
  | @waited _ h _ _ _ hw hp ht =>
    obtain ⟨horder', hprogress'⟩ := hmoved hw
      (progress_end (progress_of_phase (hprogress h hw) (.inr (.inl hp))) ht) rfl
    exact ⟨horder', hprogress', haccounted⟩
  | @stored h _ _ saved _ hw hp ht =>
    obtain ⟨horder', hprogress'⟩ := hmoved hw
      (progress_end (progress_of_phase (hprogress h hw) (.inr (.inr ⟨saved, hp⟩))) ht) rfl
    exact ⟨horder', hprogress', haccounted⟩
  | @done h status hw hp =>
    have hover := hprogress h hw
    rw [Progress, hp] at hover
    rw [hw] at horder
    refine ⟨?_, fun _ hk => Worker.noConfusion hk, fun c hc => ?_⟩
    · dsimp only
      rw [horder, List.map_append, inFlight_handling, inFlight_looking, List.append_nil]
      rfl
    · rcases List.mem_append.mp hc with hc | hc
      · exact haccounted c hc
      · rw [List.mem_singleton.mp hc]
        exact hover
  | _ => exact ⟨horder, hprogress, haccounted⟩

/-- However clients, work queue, hardware and power management take turns, the
messages that were accepted are completed one after another in that order, each
once and with the length of what was transferred, in 32 bits. -/
theorem messages_complete_in_order (sci : Info) (dev : Nat → Device) (level : Nat → Bool)
    {as : List Act} (h : run (step sci) (start dev level) as = some s) :
    s.accepted = s.completed.map Prod.fst ++ inFlight s.worker ++ s.queue ∧
      ∀ c ∈ s.completed, Accounted c.1 c.2.1 c.2.2 := by
  have hstart : Ordered (start dev level) :=
    ⟨rfl, fun _ hk => Worker.noConfusion hk, fun _ hc => absurd hc List.not_mem_nil⟩
  have hmeets : Meets (step sci) (fun _ _ => True) (start dev level) as :=
    meets_of_forall (fun _ _ => trivial) _ as
  have hend := run_invariant (fun _ _ _ hinv _ hstep => step_ordered hinv (step_spec hstep)) hstart
    hmeets h
  exact ⟨hend.order, hend.accounted⟩

def slowDev (d : Nat) : Device := ⟨d, ⟨false, false, false⟩, 8, 1000000⟩

def slowInfo : Info := ⟨false, 127, false⟩

def twoMessages : List Act :=
  [.transfer ⟨0, [⟨true, false, 3, 0, 0, false, none, none⟩], false⟩, .work,
    .transfer ⟨1, [], false⟩, .look, .beginMsg fun _ => none, .startXfer, .wait ⟨[], true, true⟩,
    .store, .startXfer, .outMsg, .look]

theorem messages_complete_in_order_two :
    ∃ s, run (step slowInfo) (start slowDev fun _ => false) twoMessages = some s ∧
      s.completed.length = 1 ∧
      s.accepted = s.completed.map Prod.fst ++ inFlight s.worker ++ s.queue := by
  refine ⟨_, rfl, rfl, ?_⟩
  exact (messages_complete_in_order slowInfo slowDev (fun _ => false)
    (show run _ _ twoMessages = some _ from rfl)).1

end Order

section Serving

/-- If there are messages and the driver is not suspended, somebody will look. -/
def Served (s : Spi) : Prop :=
  s.queue ≠ [] → s.state.suspnd = false → s.pending = true ∨ s.worker ≠ .idle

/-- No message waits when the driver is resumed, or the work is still queued. -/
def Woken (s : Spi) : Act → Prop
  | .resume => s.pm = .asleep → s.queue ≠ [] → s.pending = true ∨ s.worker ≠ .idle
  | _ => True

theorem step_served (hs : Served s) (ha : Woken s a) (hstep : Step sci s a t) : Served t := by
  cases hstep with
  | queued => exact fun _ _ => .inl rfl
  | stopped hw hstop =>
    intro hq hno
    rcases hstop with hnil | hsuspnd
    · exact absurd hnil hq
    · exact absurd (hsuspnd.symm.trans hno) Bool.noConfusion
  | work => exact fun _ _ => .inr (fun hno => Worker.noConfusion hno)
  | taken => exact fun _ _ => .inr (fun hno => Worker.noConfusion hno)
  | begun => exact fun _ _ => .inr (fun hno => Worker.noConfusion hno)
  | finished => exact fun _ _ => .inr (fun hno => Worker.noConfusion hno)
  | odd => exact fun _ _ => .inr (fun hno => Worker.noConfusion hno)
  | started => exact fun _ _ => .inr (fun hno => Worker.noConfusion hno)
  | failed => exact fun _ _ => .inr (fun hno => Worker.noConfusion hno)
  | polled => exact fun _ _ => .inr (fun hno => Worker.noConfusion hno)
  | waited => exact fun _ _ => .inr (fun hno => Worker.noConfusion hno)
  | stored => exact fun _ _ => .inr (fun hno => Worker.noConfusion hno)
  | done => exact fun _ _ => .inr (fun hno => Worker.noConfusion hno)
  | suspend => exact fun _ hno => absurd hno (fun h => Bool.noConfusion h)
  | remove => exact fun _ hno => absurd hno (fun h => Bool.noConfusion h)
  | resume hpm => exact fun hq _ => ha hpm hq
  | _ => exact hs

/-- Messages are left lying exactly by a resume that finds them in the queue and
the work neither queued nor running, which `s3c64xx_spi_resume` does not queue. -/
theorem served_iff (sci : Info) (dev : Nat → Device) (level : Nat → Bool) (as : List Act) :
    Always (step sci) Served (start dev level) as ↔
      Meets (step sci) Woken (start dev level) as := by
  refine always_iff_meets (fun _ h => h) ?_ ?_ as (fun hno => absurd rfl hno)
  · intro s a t hs ha hstep
    exact step_served hs ha (step_spec hstep)
  · intro s a hs ha
    cases a with
    | resume =>
      simp only [Woken, Classical.not_imp] at ha
      obtain ⟨hpm, hq, hno⟩ := ha
      exact ⟨resume s, if_pos hpm, fun hserved => hno (hserved hq rfl)⟩
    | _ => exact absurd trivial ha

end Serving

section Suspending

theorem inFlight_ne {s : Spi} {h : Handling} (hw : s.worker = .handling h) :
    inFlight s.worker ≠ [] := by
  rw [hw]
  exact List.cons_ne_nil _ _

/-- `SPIBUSY` is set as long as there is a message, also in a state word that
was read to be written back. -/
structure Busy (s : Spi) : Prop where
  busy : inFlight s.worker ≠ [] → s.state.spiBusy = true
  saved : ∀ h state, s.worker = .handling h → h.phase = .clearing state → state.spiBusy = true

theorem Busy.frame (hs : Busy s) (hstate : t.state.spiBusy = s.state.spiBusy)
    (hworker : t.worker = s.worker) : Busy t where
  busy := by
    rw [hstate, hworker]
    exact hs.busy
  saved := by
    rw [hworker]
    exact hs.saved

theorem busy_of_none (hnone : inFlight t.worker = []) : Busy t where
  busy hno := absurd hnone hno
  saved _ _ hw _ := absurd hnone (inFlight_ne hw)

theorem busy_moved {h' : Handling} (hstate : t.state.spiBusy = true)
    (hworker : t.worker = .handling h')
    (hphase : ∀ state, h'.phase = .clearing state → state.spiBusy = true) : Busy t where
  busy _ := hstate
  saved k state hw hp := by
    rw [hworker] at hw
    cases hw
    exact hphase state hp

theorem step_busy (hs : Busy s) (hstep : Step sci s a t) : Busy t := by
  cases hstep with
  | work => exact busy_of_none rfl
  | stopped => exact busy_of_none rfl
  | done => exact busy_of_none rfl
  | taken => exact busy_moved rfl rfl (fun _ hp => by cases hp)
  | begun hw =>
    refine busy_moved (hs.busy (inFlight_ne hw)) rfl (fun state hp => ?_)
    dsimp only at hp
    split at hp <;> cases hp
  | finished hw => exact busy_moved (hs.busy (inFlight_ne hw)) rfl (fun _ hp => by cases hp)
  | odd hw => exact busy_moved (hs.busy (inFlight_ne hw)) rfl (fun _ hp => by cases hp)
  | started hw => exact busy_moved (hs.busy (inFlight_ne hw)) rfl (fun _ hp => by cases hp)
  | failed hw _ _ hstate =>
    obtain ⟨rx, tx, rfl⟩ := hstate
    exact busy_moved (hs.busy (inFlight_ne hw)) rfl (fun _ hp => by cases hp)
  | polled hw =>
    refine busy_moved (hs.busy (inFlight_ne hw)) rfl (fun state hp => ?_)
    cases hp
    exact hs.busy (inFlight_ne hw)
  | waited hw _ _ hstate =>
    obtain ⟨rx, tx, rfl⟩ := hstate
    exact busy_moved (hs.busy (inFlight_ne hw)) rfl (fun _ hp => by cases hp)
  | stored hw hp _ hstate =>
    have hsaved := hs.saved _ _ hw hp
    obtain ⟨rx, tx, rfl⟩ := hstate
    exact busy_moved hsaved rfl (fun _ hp => by cases hp)
  | _ => exact hs.frame rfl rfl

/-- From a suspend to the resume no message is taken, and none is in flight after the
wait of the suspend. -/
structure Quiet (s : Spi) : Prop where
  suspnd : s.pm ≠ .awake → s.state.suspnd = true
  idle : s.pm = .asleep ∨ s.pm = .gone → inFlight s.worker = []

/-- `SUSPND` is what it was when the state word was read that is now written back. -/
def Unraced (s : Spi) : Act → Prop
  | .store => ∀ h state xfer rest, s.worker = .handling h → h.phase = .clearing state →
      h.todo = xfer :: rest → state.suspnd = s.state.suspnd
  | _ => True

structure Inv (s : Spi) : Prop where
  quiet : Quiet s
  busy : Busy s
  awake : s.pm = .awake → s.state.suspnd = false
  saved : ∀ h state, s.worker = .handling h → h.phase = .clearing state →
    state.suspnd = true → s.state.suspnd = true

theorem inv_start (dev : Nat → Device) (level : Nat → Bool) : Inv (start dev level) where
  quiet := ⟨fun hno => absurd rfl hno, fun _ => rfl⟩
  busy := busy_of_none rfl
  awake _ := rfl
  saved _ _ hw := Worker.noConfusion hw

theorem Inv.frame (hs : Inv s) (hbusy : Busy t) (hstate : t.state.suspnd = s.state.suspnd)
    (hpm : t.pm = s.pm)
    (hflight : inFlight t.worker ≠ [] → inFlight s.worker ≠ [] ∨ s.pm = .awake)
    (hsaved : ∀ h state, t.worker = .handling h → h.phase = .clearing state →
      state.suspnd = true → s.state.suspnd = true) : Inv t where
  quiet := by
    constructor
    · rw [hpm, hstate]
      exact hs.quiet.suspnd
    · rw [hpm]
      intro hstopped
      by_contra hno
      rcases hflight hno with hf | hawake
      · exact hf (hs.quiet.idle hstopped)
      · rw [hawake] at hstopped
        exact hstopped.elim Pm.noConfusion Pm.noConfusion
  busy := hbusy
  awake := by
    rw [hpm, hstate]
    exact hs.awake
  saved := by
    rw [hstate]
    exact hsaved

theorem Inv.moved (hs : Inv s) (hbusy : Busy t) {h h' : Handling} (hw : s.worker = .handling h)
    (hw' : t.worker = .handling h') (hpm : t.pm = s.pm)
    (hstate : t.state.suspnd = s.state.suspnd)
    (hphase : ∀ state, h'.phase = .clearing state → state = s.state) : Inv t := by
  refine hs.frame hbusy hstate hpm (fun _ => .inl (inFlight_ne hw)) ?_
  intro k state hk hp hsuspnd
  rw [hw'] at hk
  cases hk
  rwa [← hphase state hp]

theorem Inv.leave (hs : Inv s) {pm : Pm}
    (hne : pm ≠ .awake ∧ pm ≠ .asleep ∧ pm ≠ .gone) :
    Inv { s with state := { s.state with suspnd := true }, pm := pm } where
  quiet := ⟨fun _ => rfl, fun hstopped => hstopped.elim (absurd · hne.2.1) (absurd · hne.2.2)⟩
  busy := hs.busy.frame rfl rfl
  awake hno := absurd hno hne.1
  saved _ _ _ _ _ := rfl

theorem inv_stop (hnone : inFlight t.worker = []) (hpm : t.pm ≠ .awake)
    (hsuspnd : t.state.suspnd = true) : Inv t where
  quiet := ⟨fun _ => hsuspnd, fun _ => hnone⟩
  busy := busy_of_none hnone
  awake hawake := absurd hawake hpm
  saved _ _ hw _ := absurd hnone (inFlight_ne hw)

theorem step_inv (hs : Inv s) (ha : Unraced s a) (hstep : Step sci s a t) : Inv t := by
  have hbusy := step_busy hs.busy hstep
  have hnothing {w : Worker} (hw : inFlight w = []) {p : Prop} (hno : inFlight w ≠ []) : p :=
    absurd hw hno
  cases hstep with
  | work =>
    exact hs.frame hbusy rfl rfl (hnothing rfl) (fun _ _ hw => Worker.noConfusion hw)
  | stopped =>
    exact hs.frame hbusy rfl rfl (hnothing rfl) (fun _ _ hw => Worker.noConfusion hw)
  | done => exact hs.frame hbusy rfl rfl (hnothing rfl) (fun _ _ hw => Worker.noConfusion hw)
  | taken hw hq hsuspnd =>
    have hawake : s.pm = .awake := by
      by_contra hno
      rw [hs.quiet.suspnd hno] at hsuspnd
      cases hsuspnd
    refine hs.frame hbusy rfl rfl (fun _ => .inr hawake) ?_
    rintro _ state ⟨⟩ hp
    cases hp
  | begun hw =>
    refine hs.moved hbusy hw rfl rfl rfl (fun state hp => ?_)
    dsimp only at hp
    split at hp <;> cases hp
  | finished hw => exact hs.moved hbusy hw rfl rfl rfl (fun _ hp => by cases hp)
  | odd hw => exact hs.moved hbusy hw rfl rfl rfl (fun _ hp => by cases hp)
  | started hw => exact hs.moved hbusy hw rfl rfl rfl (fun _ hp => by cases hp)
  | failed hw _ _ hstate =>
    obtain ⟨rx, tx, rfl⟩ := hstate
    exact hs.moved hbusy hw rfl rfl rfl (fun _ hp => by cases hp)
  | polled hw =>
    refine hs.moved hbusy hw rfl rfl rfl (fun state hp => ?_)
    cases hp
    rfl
  | waited hw _ _ hstate =>
    obtain ⟨rx, tx, rfl⟩ := hstate
    exact hs.moved hbusy hw rfl rfl rfl (fun _ hp => by cases hp)
  | stored hw hp ht hstate =>
    have hsame := ha _ _ _ _ hw hp ht
    obtain ⟨rx, tx, rfl⟩ := hstate
    exact hs.moved hbusy hw rfl rfl hsame (fun _ hp => by cases hp)
  | suspend => exact hs.leave ⟨Pm.noConfusion, Pm.noConfusion, Pm.noConfusion⟩
  | remove => exact hs.leave ⟨Pm.noConfusion, Pm.noConfusion, Pm.noConfusion⟩
  | suspended hpm hidle =>
    have hnone : inFlight s.worker = [] := by
      by_contra hno
      rw [hs.busy.busy hno] at hidle
      cases hidle
    exact inv_stop hnone Pm.noConfusion (hs.quiet.suspnd (by rw [hpm]; exact Pm.noConfusion))
  | resume hpm =>
    have hnone := hs.quiet.idle (.inl hpm)
    exact ⟨⟨fun hno => absurd rfl hno, fun _ => hnone⟩, hbusy, fun _ => rfl,
      fun h state hw _ => absurd hnone (inFlight_ne hw)⟩
  | removed hw hpm =>
    exact inv_stop (by rw [hw, inFlight_idle]) Pm.noConfusion
      (hs.quiet.suspnd (by rw [hpm]; exact Pm.noConfusion))
  | _ => exact hs.frame hbusy rfl rfl .inl hs.saved

/-- If a suspend came in between, the write-back loses its `SUSPND`. -/
theorem stored_not_quiet (hs : Inv s) (hraced : ¬ Unraced s .store)
    (hstep : Step sci s .store t) : ¬ Quiet t := by
  intro hquiet
  cases hstep with
  | @stored h xfer rest saved state hw hp ht hstate =>
    have hne : saved.suspnd ≠ s.state.suspnd := by
      intro hsame
      apply hraced
      intro h' state' _ _ hw' hp' _
      rw [hw] at hw'
      cases hw'
      rw [hp] at hp'
      cases hp'
      exact hsame
    have hpm : s.pm ≠ .awake := by
      intro hawake
      have hlater := hs.saved h saved hw hp
      rw [hs.awake hawake] at hne hlater
      exact absurd (hlater (eq_true_of_ne_false hne)) Bool.noConfusion
    obtain ⟨rx, tx, rfl⟩ := hstate
    exact hne ((hquiet.suspnd hpm).trans (hs.quiet.suspnd hpm).symm)

/-- `SUSPND` stays from a suspend to the resume, and from a remove on, and no message is
in flight while the driver is suspended or gone, exactly when neither a suspend nor a
remove comes between the read of the state word in `wait_for_xfer` and the write that
puts it back, which are not under the lock. -/
theorem quiet_iff (sci : Info) (dev : Nat → Device) (level : Nat → Bool) (as : List Act) :
    Always (step sci) Quiet (start dev level) as ↔
      Meets (step sci) Unraced (start dev level) as := by
  refine always_iff_meets (fun _ h => h.quiet) ?_ ?_ as (inv_start dev level)
  · intro s a t hs ha hstep
    exact step_inv hs ha (step_spec hstep)
  · intro s a hs ha
    cases a with
    | store =>
      obtain ⟨h, state, xfer, rest, hw, hp, ht, -⟩ : ∃ h state xfer rest, s.worker = .handling h ∧
          h.phase = .clearing state ∧ h.todo = xfer :: rest ∧ state.suspnd ≠ s.state.suspnd := by
        simpa only [Unraced, not_forall, exists_prop] using ha
      have hstep : step sci s .store = some (put (storeState state xfer rest h s)) := by
        simp only [step, hw, whileHandling, handle, hp, ht]
      exact ⟨_, hstep, stored_not_quiet hs ha (step_spec hstep)⟩
    | _ => exact absurd trivial ha

end Suspending

end LinuxDriver.SpiQueue
