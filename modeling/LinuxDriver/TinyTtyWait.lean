import LinuxDriver.Runs
import LinuxDriver.TinyTtyIoctl
import Mathlib.Algebra.GroupWithZero.Nat

namespace LinuxDriver.TinyTtyWait

open Runs TinyTtyIoctl

inductive Line
  | rng
  | dsr
  | dcd
  | cts
deriving DecidableEq

def Line.bit : Line → BitVec 64
  | .rng => tiocmRng
  | .dsr => tiocmDsr
  | .dcd => tiocmCd
  | .cts => tiocmCts

def Line.counter (c : AsyncIcount) : Line → BitVec 32
  | .rng => c.rng
  | .dsr => c.dsr
  | .dcd => c.dcd
  | .cts => c.cts

def Line.bump (c : AsyncIcount) : Line → AsyncIcount
  | .rng => { c with rng := c.rng + 1 }
  | .dsr => { c with dsr := c.dsr + 1 }
  | .dcd => { c with dcd := c.dcd + 1 }
  | .cts => { c with cts := c.cts + 1 }

def Selected (arg : BitVec 64) (l : Line) : Prop := arg &&& l.bit ≠ 0

instance (arg : BitVec 64) (l : Line) : Decidable (Selected arg l) :=
  inferInstanceAs (Decidable (_ ≠ _))

/-- The next step of `tiny_ioctl_tiocmiwait`. It is `asleep` inside of `schedule`, and
`compare` has the counters in `cnow`. -/
inductive Pc
  | snapshot
  | addWaitQueue
  | setCurrentState
  | schedule
  | asleep
  | removeWaitQueue
  | signalPending
  | reread
  | compare (cnow : AsyncIcount)
  | returned (ret : Int)

def Pc.done : Pc → Bool
  | .returned _ => true
  | _ => false

/-- The counters of the port, `tiny->wait` as far as this task is concerned, and the
task: whether it is `TASK_INTERRUPTIBLE`, and has a signal pending. -/
structure State where
  pc : Pc
  icount : AsyncIcount
  cprev : AsyncIcount
  queued : Bool
  interruptible : Bool
  signal : Bool

def update (l : Line) (s : State) : State :=
  { s with
    icount := l.bump s.icount
    interruptible := if s.queued then false else s.interruptible }

def kill (s : State) : State := { s with signal := true, interruptible := false }

/-- The two tests after the counters have been read; `none` is to wait again. -/
def compareCounts (arg : BitVec 64) (cprev cnow : AsyncIcount) : Option Int :=
  if cnow.rng = cprev.rng ∧ cnow.dsr = cprev.dsr ∧ cnow.dcd = cprev.dcd ∧
    cnow.cts = cprev.cts then some (-eio)
  else if (arg &&& tiocmRng ≠ 0 ∧ cnow.rng ≠ cprev.rng) ∨
    (arg &&& tiocmDsr ≠ 0 ∧ cnow.dsr ≠ cprev.dsr) ∨
    (arg &&& tiocmCd ≠ 0 ∧ cnow.dcd ≠ cprev.dcd) ∨
    (arg &&& tiocmCts ≠ 0 ∧ cnow.cts ≠ cprev.cts) then some 0
  else none

/-- One step of `tiny_ioctl_tiocmiwait`. `schedule` sleeps only in a task that is still
`TASK_INTERRUPTIBLE` and has no signal pending. -/
def taskStep (arg : BitVec 64) (s : State) : Option State :=
  match s.pc with
  | .snapshot => some { s with cprev := s.icount, pc := .addWaitQueue }
  | .addWaitQueue => some { s with queued := true, pc := .setCurrentState }
  | .setCurrentState => some { s with interruptible := true, pc := .schedule }
  | .schedule =>
    if s.interruptible && !s.signal then some { s with pc := .asleep }
    else some { s with interruptible := false, pc := .removeWaitQueue }
  | .asleep => if s.interruptible then none else some { s with pc := .removeWaitQueue }
  | .removeWaitQueue => some { s with queued := false, pc := .signalPending }
  | .signalPending =>
    some { s with pc := if s.signal then .returned (-erestartsys) else .reread }
  | .reread => some { s with pc := .compare s.icount }
  | .compare cnow =>
    match compareCounts arg s.cprev cnow with
    | some ret => some { s with pc := .returned ret }
    | none => some { s with cprev := cnow, pc := .addWaitQueue }
  | .returned _ => none

/-- One call with its history, which begins with the snapshot: the counters at that
time, all changes since then, those between the last two times that the counters were
read and those since the last time, and what the call has found when it woke up. -/
structure Call where
  st : State
  start : AsyncIcount
  changed : List Line
  between : List Line
  since : List Line
  wakeups : List Wakeup

/-- `stack` is what the local variables of the call find in their place. -/
def Call.init (icount stack : AsyncIcount) (signal : Bool) : Call :=
  ⟨⟨.snapshot, icount, stack, false, false, signal⟩, icount, [], [], [], []⟩

def Call.change (c : Call) (l : Line) : Call :=
  { c with st := update l c.st, changed := c.changed ++ [l], since := c.since ++ [l] }

def Call.advance (c : Call) (s : State) : Call :=
  match c.st.pc with
  | .snapshot => ⟨s, c.st.icount, [], [], [], []⟩
  | .signalPending =>
    if c.st.signal then { c with st := s, wakeups := c.wakeups ++ [⟨true, c.st.icount⟩] }
    else { c with st := s }
  | .reread =>
    { c with
      st := s
      between := c.since
      since := []
      wakeups := c.wakeups ++ [⟨false, c.st.icount⟩] }
  | _ => { c with st := s }

inductive Act
  | update (l : Line)
  | kill
  | task

def step (arg : BitVec 64) (c : Call) (a : Act) : Option Call :=
  if c.st.pc.done then none
  else
    match a with
    | .update l => some (c.change l)
    | .kill => some { c with st := kill c.st }
    | .task => (taskStep arg c.st).map c.advance

/-- The call is not asleep over a change of a selected line, returns 0 only after one,
and `-EIO` only if no line has changed. -/
structure NoLoss (arg : BitVec 64) (c : Call) : Prop where
  asleep : c.st.pc = .asleep → c.st.interruptible = true →
    ∀ l, Selected arg l → l.counter c.st.icount = l.counter c.start
  zero : c.st.pc = .returned 0 → ∃ l, Selected arg l ∧ l ∈ c.changed
  eio : c.st.pc = .returned (-eio) → ∀ l, l ∉ c.changed

/-- When the call goes to sleep, no selected line has changed since the counters were
read, and when it compares them, some line has changed in between: as far as the
32 bits of a counter can tell. -/
def Allowed (arg : BitVec 64) (c : Call) : Act → Prop
  | .task =>
    match c.st.pc with
    | .schedule => c.st.interruptible = true → c.st.signal = false →
        ∀ l, Selected arg l → 2 ^ 32 ∣ c.since.count l
    | .compare _ => ∃ l, ¬ 2 ^ 32 ∣ c.between.count l
    | _ => True
  | _ => True

/-- No selected line changes while the call is between reading the counters and
`set_current_state`, and no `2 ^ 32` changes come between two readings. -/
def Prompt (arg : BitVec 64) (c : Call) : Act → Prop
  | .update l =>
    match c.st.pc with
    | .snapshot => True
    | .addWaitQueue | .setCurrentState | .compare _ =>
      c.since.length + 1 < 2 ^ 32 ∧ ¬ Selected arg l
    | _ => c.since.length + 1 < 2 ^ 32
  | _ => True

theorem step_cases {arg : BitVec 64} {c d : Call} {a : Act} (h : step arg c a = some d) :
    c.st.pc.done = false ∧
      ((∃ l, a = .update l ∧ d = c.change l) ∨
        (a = .kill ∧ d = { c with st := kill c.st }) ∨
        ∃ s, a = .task ∧ taskStep arg c.st = some s ∧ d = c.advance s) := by
  simp only [step] at h
  split at h
  · cases h
  · rename_i hrun
    refine ⟨eq_false_of_ne_true hrun, ?_⟩
    cases a with
    | update l => exact .inl ⟨l, rfl, (Option.some.inj h).symm⟩
    | kill => exact .inr (.inl ⟨rfl, (Option.some.inj h).symm⟩)
    | task =>
      obtain ⟨s, hs, hd⟩ := Option.map_eq_some_iff.mp h
      exact .inr (.inr ⟨s, rfl, hs, hd.symm⟩)

theorem counter_bump_self (c : AsyncIcount) (l : Line) :
    l.counter (l.bump c) = l.counter c + 1 := by
  cases l <;> rfl

theorem counter_bump_of_ne (c : AsyncIcount) {l m : Line} (h : m ≠ l) :
    m.counter (l.bump c) = m.counter c := by
  cases l <;> cases m <;> first | rfl | exact absurd rfl h

def Counts (new old : AsyncIcount) (ls : List Line) : Prop :=
  ∀ l : Line, l.counter new = l.counter old + BitVec.ofNat 32 (ls.count l)

theorem counts_refl (c : AsyncIcount) : Counts c c [] := fun _ => (BitVec.add_zero _).symm

theorem counts_bump {new old : AsyncIcount} {ls : List Line} (h : Counts new old ls) (l : Line) :
    Counts (l.bump new) old (ls ++ [l]) := by
  intro m
  by_cases hm : m = l
  · subst hm
    rw [counter_bump_self, h m, List.count_append, List.count_singleton_self, BitVec.ofNat_add,
      BitVec.add_assoc]
    rfl
  · have hzero : [l].count m = 0 := List.count_eq_zero.mpr (by simpa using hm)
    rw [counter_bump_of_ne new hm, h m, List.count_append, hzero, Nat.add_zero]

/-- A counter has its old value again after any multiple of `2 ^ 32` changes. -/
theorem counts_eq_iff {new old : AsyncIcount} {ls : List Line} (h : Counts new old ls)
    (l : Line) : l.counter new = l.counter old ↔ 2 ^ 32 ∣ ls.count l := by
  rw [h l, Nat.dvd_iff_mod_eq_zero]
  constructor
  · intro he
    bv_omega
  · intro hd
    bv_omega

theorem same_iff (cprev cnow : AsyncIcount) :
    (cnow.rng = cprev.rng ∧ cnow.dsr = cprev.dsr ∧ cnow.dcd = cprev.dcd ∧
      cnow.cts = cprev.cts) ↔ ∀ l : Line, l.counter cnow = l.counter cprev := by
  constructor
  · rintro ⟨hrng, hdsr, hdcd, hcts⟩ l
    cases l
    · exact hrng
    · exact hdsr
    · exact hdcd
    · exact hcts
  · intro h
    exact ⟨h .rng, h .dsr, h .dcd, h .cts⟩

theorem moved_iff (arg : BitVec 64) (cprev cnow : AsyncIcount) :
    ((arg &&& tiocmRng ≠ 0 ∧ cnow.rng ≠ cprev.rng) ∨
      (arg &&& tiocmDsr ≠ 0 ∧ cnow.dsr ≠ cprev.dsr) ∨
      (arg &&& tiocmCd ≠ 0 ∧ cnow.dcd ≠ cprev.dcd) ∨
      (arg &&& tiocmCts ≠ 0 ∧ cnow.cts ≠ cprev.cts)) ↔
      ∃ l, Selected arg l ∧ l.counter cnow ≠ l.counter cprev := by
  constructor
  · rintro (h | h | h | h)
    · exact ⟨.rng, h⟩
    · exact ⟨.dsr, h⟩
    · exact ⟨.dcd, h⟩
    · exact ⟨.cts, h⟩
  · rintro ⟨l, h⟩
    cases l
    · exact .inl h
    · exact .inr (.inl h)
    · exact .inr (.inr (.inl h))
    · exact .inr (.inr (.inr h))

theorem compare_cases (arg : BitVec 64) (cprev cnow : AsyncIcount) :
    (∀ l : Line, l.counter cnow = l.counter cprev) ∧
      compareCounts arg cprev cnow = some (-eio) ∨
    (∃ l, Selected arg l ∧ l.counter cnow ≠ l.counter cprev) ∧
      compareCounts arg cprev cnow = some 0 ∨
    (∀ l, Selected arg l → l.counter cnow = l.counter cprev) ∧
      compareCounts arg cprev cnow = none := by
  rw [compareCounts]
  split
  · rename_i hsame
    exact .inl ⟨(same_iff cprev cnow).mp hsame, rfl⟩
  · split
    · rename_i hmoved
      exact .inr (.inl ⟨(moved_iff arg cprev cnow).mp hmoved, rfl⟩)
    · rename_i hmoved
      refine .inr (.inr ⟨fun l hl => ?_, rfl⟩)
      by_contra hne
      exact hmoved ((moved_iff arg cprev cnow).mpr ⟨l, hl, hne⟩)

theorem compare_of_same (arg : BitVec 64) {cprev cnow : AsyncIcount}
    (h : ∀ l : Line, l.counter cnow = l.counter cprev) :
    compareCounts arg cprev cnow = some (-eio) :=
  if_pos ((same_iff cprev cnow).mpr h)

def Sync (c : Call) : Prop :=
  match c.st.pc with
  | .snapshot | .returned _ => True
  | .compare cnow => Counts cnow c.st.cprev c.between ∧ Counts c.st.icount cnow c.since
  | _ => Counts c.st.icount c.st.cprev c.since

def Woken (c : Call) : Prop := c.st.signal = true ∨ c.since ≠ []

def Stage (arg : BitVec 64) (c : Call) : Prop :=
  match c.st.pc with
  | .snapshot | .addWaitQueue => True
  | .setCurrentState => c.st.queued = true
  | .schedule => c.st.queued = true ∧ (c.st.interruptible = false → Woken c)
  | .asleep =>
    c.st.queued = true ∧ (c.st.interruptible = false → Woken c) ∧
      (c.st.interruptible = true → ∀ l, Selected arg l → 2 ^ 32 ∣ c.since.count l)
  | .removeWaitQueue | .signalPending => Woken c
  | .reread => c.since ≠ []
  | .compare _ => c.between ≠ []
  | .returned _ => NoLoss arg c

structure Inv (arg : BitVec 64) (c : Call) : Prop where
  begun : c.st.pc ≠ .snapshot →
    ∀ l, Selected arg l → l.counter c.st.cprev = l.counter c.start
  past : ∀ l, l ∈ c.since ∨ l ∈ c.between → l ∈ c.changed
  sync : Sync c
  stage : Stage arg c

theorem inv_init (arg : BitVec 64) (icount stack : AsyncIcount) (signal : Bool) :
    Inv arg (Call.init icount stack signal) where
  begun h := absurd rfl h
  past l h := by simp [Call.init] at h
  sync := trivial
  stage := trivial

theorem noLoss_of_inv {arg : BitVec 64} {c : Call} (h : Inv arg c) : NoLoss arg c := by
  obtain ⟨hbegun, hpast, hsync, hstage⟩ := h
  rw [Sync] at hsync
  rw [Stage] at hstage
  refine ⟨fun hpc hint l hl => ?_, fun hpc => ?_, fun hpc => ?_⟩
  · rw [hpc] at hsync hstage hbegun
    have hsame := (counts_eq_iff hsync l).mpr (hstage.2.2 hint l hl)
    exact hsame.trans (hbegun Pc.noConfusion l hl)
  · rw [hpc] at hstage
    exact hstage.zero hpc
  · rw [hpc] at hstage
    exact hstage.eio hpc

theorem update_inv {arg : BitVec 64} {c : Call} (h : Inv arg c) (hrun : c.st.pc.done = false)
    (l : Line) : Inv arg (c.change l) := by
  obtain ⟨hbegun, hpast, hsync, hstage⟩ := h
  have hne : c.since ++ [l] ≠ [] := List.append_ne_nil_of_right_ne_nil _ (List.cons_ne_nil l [])
  have hwoken : ∀ {d : Call}, d.since = c.since ++ [l] → Woken d := fun hd => .inr (hd ▸ hne)
  refine ⟨hbegun, ?_, ?_, ?_⟩
  · intro m hm
    simp only [Call.change, List.mem_append] at hm ⊢
    obtain (hm | hm) | hm := hm
    · exact .inl (hpast m (.inl hm))
    · exact .inr hm
    · exact .inl (hpast m (.inr hm))
  · rw [Sync] at hsync ⊢
    simp only [Call.change, update]
    cases hpc : c.st.pc <;> rw [hpc] at hsync
    case compare cnow => exact ⟨hsync.1, counts_bump hsync.2 l⟩
    case snapshot => trivial
    case returned => trivial
    all_goals exact counts_bump hsync l
  · rw [Stage] at hstage ⊢
    simp only [Call.change, update]
    cases hpc : c.st.pc <;> rw [hpc] at hstage
    case snapshot => trivial
    case addWaitQueue => trivial
    case setCurrentState => exact hstage
    case schedule => exact ⟨hstage.1, fun _ => hwoken rfl⟩
    case asleep =>
      refine ⟨hstage.1, fun _ => hwoken rfl, fun hint => ?_⟩
      rw [if_pos hstage.1] at hint
      cases hint
    case removeWaitQueue => exact hwoken rfl
    case signalPending => exact hwoken rfl
    case reread => exact hne
    case compare => exact hstage
    case returned =>
      rw [hpc] at hrun
      cases hrun

theorem kill_inv {arg : BitVec 64} {c : Call} (h : Inv arg c) (hrun : c.st.pc.done = false) :
    Inv arg { c with st := kill c.st } := by
  obtain ⟨hbegun, hpast, hsync, hstage⟩ := h
  refine ⟨hbegun, hpast, hsync, ?_⟩
  rw [Stage] at hstage ⊢
  simp only [kill]
  cases hpc : c.st.pc <;> rw [hpc] at hstage
  case snapshot => trivial
  case addWaitQueue => trivial
  case setCurrentState => exact hstage
  case schedule => exact ⟨hstage.1, fun _ => .inl rfl⟩
  case asleep => exact ⟨hstage.1, fun _ => .inl rfl, fun hint => Bool.noConfusion hint⟩
  case removeWaitQueue => exact .inl rfl
  case signalPending => exact .inl rfl
  case reread => exact hstage
  case compare => exact hstage
  case returned =>
    rw [hpc] at hrun
    cases hrun

theorem schedule_inv {arg : BitVec 64} {c : Call} {s : State} (h : Inv arg c)
    (hpc : c.st.pc = .schedule) (ha : Allowed arg c .task)
    (hstep : taskStep arg c.st = some s) : Inv arg { c with st := s } := by
  obtain ⟨hbegun, hpast, hsync, hstage⟩ := h
  simp only [taskStep, hpc] at hstep
  simp only [Sync, hpc] at hsync
  simp only [Stage, hpc] at hstage
  simp only [Allowed, hpc] at ha
  have hbegun := hbegun (by rw [hpc]; exact Pc.noConfusion)
  split at hstep
  · rename_i hsleep
    cases hstep
    obtain ⟨hint, hsig⟩ := Bool.and_eq_true_iff.mp hsleep
    have hsig : c.st.signal = false := by simpa using hsig
    refine ⟨fun _ => hbegun, hpast, hsync, hstage.1, fun hno => ?_, fun _ => ha hint hsig⟩
    rw [hint] at hno
    cases hno
  · rename_i hawake
    cases hstep
    refine ⟨fun _ => hbegun, hpast, hsync, ?_⟩
    cases hint : c.st.interruptible with
    | false => exact hstage.2 hint
    | true =>
      rw [hint] at hawake
      exact .inl (by simpa using hawake)

theorem mem_of_moved {new old : AsyncIcount} {ls : List Line} (h : Counts new old ls) {l : Line}
    (hmoved : l.counter new ≠ l.counter old) : l ∈ ls := by
  by_contra hno
  apply hmoved
  apply (counts_eq_iff h l).mpr
  rw [List.count_eq_zero.mpr hno]
  exact Nat.dvd_zero _

theorem compare_inv {arg : BitVec 64} {c : Call} {s : State} {cnow : AsyncIcount}
    (h : Inv arg c) (hpc : c.st.pc = .compare cnow) (ha : Allowed arg c .task)
    (hstep : taskStep arg c.st = some s) : Inv arg { c with st := s } := by
  obtain ⟨hbegun, hpast, hsync, -⟩ := h
  simp only [taskStep, hpc] at hstep
  simp only [Sync, hpc] at hsync
  simp only [Allowed, hpc] at ha
  have hbegun := hbegun (by rw [hpc]; exact Pc.noConfusion)
  obtain ⟨hsame, -⟩ | ⟨⟨l, hl, hmoved⟩, hret⟩ | ⟨hsame, hret⟩ := compare_cases arg c.st.cprev cnow
  · obtain ⟨l, hl⟩ := ha
    exact absurd ((counts_eq_iff hsync.1 l).mp (hsame l)) hl
  · simp only [hret] at hstep
    cases hstep
    have hmem := hpast l (.inr (mem_of_moved hsync.1 hmoved))
    refine ⟨fun _ => hbegun, hpast, trivial, ?_⟩
    exact ⟨Pc.noConfusion, fun _ => ⟨l, hl, hmem⟩,
      fun hret => absurd (Pc.returned.inj hret) (by decide)⟩
  · simp only [hret] at hstep
    cases hstep
    exact ⟨fun _ l hl => (hsame l hl).trans (hbegun l hl), hpast, hsync.2, trivial⟩

theorem task_inv {arg : BitVec 64} {c : Call} {s : State} (h : Inv arg c)
    (ha : Allowed arg c .task) (hstep : taskStep arg c.st = some s) : Inv arg (c.advance s) := by
  have hschedule := fun hpc => schedule_inv h hpc ha hstep
  have hcompare := fun cnow (hpc : c.st.pc = .compare cnow) => compare_inv h hpc ha hstep
  obtain ⟨hbegun, hpast, hsync, hstage⟩ := h
  rw [taskStep] at hstep
  rw [Sync] at hsync
  rw [Stage] at hstage
  rw [Call.advance]
  cases hpc : c.st.pc <;> rw [hpc] at hstep hsync hstage hbegun
  case snapshot =>
    cases hstep
    exact ⟨fun _ _ _ => rfl, fun l hl => by simp at hl, counts_refl _, trivial⟩
  case addWaitQueue =>
    cases hstep
    exact ⟨fun _ => hbegun Pc.noConfusion, hpast, hsync, rfl⟩
  case setCurrentState =>
    cases hstep
    exact ⟨fun _ => hbegun Pc.noConfusion, hpast, hsync, hstage, fun hint => Bool.noConfusion hint⟩
  case schedule => exact hschedule hpc
  case asleep =>
    simp only at hstep
    split at hstep
    · cases hstep
    · rename_i hint
      cases hstep
      exact ⟨fun _ => hbegun Pc.noConfusion, hpast, hsync,
        hstage.2.1 (eq_false_of_ne_true hint)⟩
  case removeWaitQueue =>
    cases hstep
    exact ⟨fun _ => hbegun Pc.noConfusion, hpast, hsync, hstage⟩
  case signalPending =>
    cases hstep
    cases hsig : c.st.signal with
    | true =>
      refine ⟨fun _ => hbegun Pc.noConfusion, hpast, trivial, ?_⟩
      exact ⟨Pc.noConfusion, fun hret => absurd (Pc.returned.inj hret) (by decide),
        fun hret => absurd (Pc.returned.inj hret) (by decide)⟩
    | false =>
      refine ⟨fun _ => hbegun Pc.noConfusion, hpast, hsync, hstage.resolve_left ?_⟩
      rw [hsig]
      exact Bool.false_ne_true
  case reread =>
    cases hstep
    refine ⟨fun _ => hbegun Pc.noConfusion, fun l hl => ?_, ⟨hsync, counts_refl _⟩, hstage⟩
    exact hpast l (.inl (hl.resolve_left List.not_mem_nil))
  case compare cnow => exact hcompare cnow hpc
  case returned => cases hstep

theorem step_inv {arg : BitVec 64} {c d : Call} {a : Act} (h : Inv arg c) (ha : Allowed arg c a)
    (hstep : step arg c a = some d) : Inv arg d := by
  obtain ⟨hrun, ⟨l, rfl, rfl⟩ | ⟨rfl, rfl⟩ | ⟨s, rfl, hs, rfl⟩⟩ := step_cases hstep
  · exact update_inv h hrun l
  · exact kill_inv h hrun
  · exact task_inv h ha hs

/-- Going to sleep with a change unseen, and comparing after a change that cannot be
seen, are the two mistakes. -/
theorem step_loses {arg : BitVec 64} {c : Call} {a : Act} (h : Inv arg c)
    (ha : ¬ Allowed arg c a) : ∃ d, step arg c a = some d ∧ ¬ NoLoss arg d := by
  obtain ⟨hbegun, hpast, hsync, hstage⟩ := h
  cases a with
  | update l => exact absurd trivial ha
  | kill => exact absurd trivial ha
  | task =>
    rw [Sync] at hsync
    rw [Stage] at hstage
    rw [Allowed] at ha
    cases hpc : c.st.pc <;> rw [hpc] at hsync hstage hbegun ha
    case schedule =>
      obtain ⟨hint, ha⟩ := Classical.not_imp.mp ha
      obtain ⟨hsig, ha⟩ := Classical.not_imp.mp ha
      have hstep : step arg c .task = some (c.advance { c.st with pc := .asleep }) := by
        simp [step, taskStep, hpc, Pc.done, hint, hsig]
      refine ⟨_, hstep, fun hno => ha fun l hl => ?_⟩
      rw [Call.advance, hpc] at hno
      apply (counts_eq_iff hsync l).mp
      exact (hno.asleep rfl hint l hl).trans (hbegun Pc.noConfusion l hl).symm
    case compare cnow =>
      have hdvd : ∀ l, 2 ^ 32 ∣ c.between.count l := fun l => by
        by_contra hl
        exact ha ⟨l, hl⟩
      have hret := compare_of_same arg (fun l => (counts_eq_iff hsync.1 l).mpr (hdvd l))
      have hstep : step arg c .task = some (c.advance { c.st with pc := .returned (-eio) }) := by
        simp [step, taskStep, hpc, Pc.done, hret]
      refine ⟨_, hstep, fun hno => ?_⟩
      rw [Call.advance, hpc] at hno
      obtain ⟨l, hl⟩ := List.exists_mem_of_ne_nil c.between hstage
      exact hno.eio rfl l (hpast l (.inr hl))
    all_goals exact absurd trivial ha

def Untouched (arg : BitVec 64) (c : Call) : Prop :=
  match c.st.pc with
  | .snapshot | .returned _ => True
  | .addWaitQueue | .setCurrentState =>
    c.since.length < 2 ^ 32 ∧ ∀ l, Selected arg l → l ∉ c.since
  | .compare _ =>
    c.since.length < 2 ^ 32 ∧ c.between.length < 2 ^ 32 ∧ ∀ l, Selected arg l → l ∉ c.since
  | .schedule =>
    c.since.length < 2 ^ 32 ∧ (c.st.interruptible = true → ∀ l, Selected arg l → l ∉ c.since)
  | _ => c.since.length < 2 ^ 32

theorem allowed_of_untouched {arg : BitVec 64} {c : Call} {a : Act} (h : Inv arg c)
    (hu : Untouched arg c) : Allowed arg c a := by
  cases a with
  | update l => trivial
  | kill => trivial
  | task =>
    have hstage := h.stage
    rw [Stage] at hstage
    rw [Untouched] at hu
    rw [Allowed]
    cases hpc : c.st.pc <;> rw [hpc] at hu hstage
    case schedule =>
      intro hint _ l hl
      rw [List.count_eq_zero.mpr (hu.2 hint l hl)]
      exact Nat.dvd_zero _
    case compare cnow =>
      obtain ⟨l, hl⟩ := List.exists_mem_of_ne_nil c.between hstage
      refine ⟨l, fun hdvd => ?_⟩
      have hpos := List.count_pos_iff.mpr hl
      have hle := Nat.le_of_dvd hpos hdvd
      have hlen : c.between.count l ≤ c.between.length := List.count_le_length
      omega
    all_goals trivial

theorem update_untouched {arg : BitVec 64} {c : Call} {l : Line} (h : Inv arg c)
    (hu : Untouched arg c) (ha : Prompt arg c (.update l)) : Untouched arg (c.change l) := by
  have hstage := h.stage
  have hlen : (c.since ++ [l]).length = c.since.length + 1 := List.length_append
  have hnew : ¬ Selected arg l → (∀ m, Selected arg m → m ∉ c.since) →
      ∀ m, Selected arg m → m ∉ c.since ++ [l] := by
    intro hl hold m hm hmem
    obtain hmem | hmem := List.mem_append.mp hmem
    · exact hold m hm hmem
    · rw [List.mem_singleton.mp hmem] at hm
      exact hl hm
  rw [Stage] at hstage
  rw [Prompt] at ha
  rw [Untouched] at hu ⊢
  simp only [Call.change, update, hlen]
  cases hpc : c.st.pc <;> rw [hpc] at hu hstage ha
  case snapshot => trivial
  case addWaitQueue => exact ⟨ha.1, hnew ha.2 hu.2⟩
  case setCurrentState => exact ⟨ha.1, hnew ha.2 hu.2⟩
  case schedule =>
    refine ⟨ha, fun hint => ?_⟩
    rw [if_pos hstage.1] at hint
    cases hint
  case compare cnow => exact ⟨ha.1, hu.2.1, hnew ha.2 hu.2.2⟩
  case returned => trivial
  all_goals exact ha

theorem task_untouched {arg : BitVec 64} {c : Call} {s : State} (hu : Untouched arg c)
    (hstep : taskStep arg c.st = some s) : Untouched arg (c.advance s) := by
  rw [taskStep] at hstep
  rw [Untouched] at hu
  rw [Call.advance]
  cases hpc : c.st.pc <;> rw [hpc] at hstep hu
  case snapshot =>
    cases hstep
    exact ⟨Nat.two_pow_pos 32, fun _ _ => List.not_mem_nil⟩
  case addWaitQueue =>
    cases hstep
    exact hu
  case setCurrentState =>
    cases hstep
    exact ⟨hu.1, fun _ => hu.2⟩
  case schedule =>
    simp only at hstep
    split at hstep <;> cases hstep <;> exact hu.1
  case asleep =>
    simp only at hstep
    split at hstep <;> cases hstep
    exact hu
  case removeWaitQueue =>
    cases hstep
    exact hu
  case signalPending =>
    cases hstep
    cases c.st.signal with
    | true => trivial
    | false => exact hu
  case reread =>
    cases hstep
    exact ⟨Nat.two_pow_pos 32, hu, fun _ _ => List.not_mem_nil⟩
  case compare cnow =>
    simp only at hstep
    split at hstep <;> cases hstep
    · trivial
    · exact ⟨hu.1, hu.2.2⟩
  case returned => cases hstep

theorem kill_untouched {arg : BitVec 64} {c : Call} (hu : Untouched arg c) :
    Untouched arg { c with st := kill c.st } := by
  rw [Untouched] at hu ⊢
  simp only [kill]
  cases hpc : c.st.pc <;> rw [hpc] at hu
  case schedule => exact ⟨hu.1, fun hint => Bool.noConfusion hint⟩
  all_goals exact hu

theorem untouched_step {arg : BitVec 64} {c d : Call} {a : Act} (h : Inv arg c)
    (hu : Untouched arg c) (ha : Prompt arg c a) (hstep : step arg c a = some d) :
    Untouched arg d := by
  obtain ⟨-, ⟨l, rfl, rfl⟩ | ⟨rfl, rfl⟩ | ⟨s, rfl, hs, rfl⟩⟩ := step_cases hstep
  · exact update_untouched h hu ha
  · exact kill_untouched hu
  · exact task_untouched hu hs

/-- No change is lost in a run exactly when the call never goes to sleep over a
change of a selected line, and never compares the counters when all of them have come
round again. So it is in every prompt environment. -/
theorem miwait_loses_no_change_iff (arg : BitVec 64) (icount stack : AsyncIcount)
    (signal : Bool) (as : List Act) :
    (Always (step arg) (NoLoss arg) (Call.init icount stack signal) as ↔
      Meets (step arg) (Allowed arg) (Call.init icount stack signal) as) ∧
    (Meets (step arg) (Prompt arg) (Call.init icount stack signal) as →
      Meets (step arg) (Allowed arg) (Call.init icount stack signal) as) := by
  have hinit := inv_init arg icount stack signal
  constructor
  · apply always_iff_meets
    · intro c
      exact noLoss_of_inv
    · intro c a d
      exact step_inv
    · intro c a
      exact step_loses
    · exact hinit
  · have hstep : ∀ c a d, Inv arg c ∧ Untouched arg c → Prompt arg c a →
        step arg c a = some d → Inv arg d ∧ Untouched arg d := by
      rintro c a d ⟨h, hu⟩ ha hstep
      exact ⟨step_inv h (allowed_of_untouched h hu) hstep, untouched_step h hu ha hstep⟩
    have himp : ∀ c a, Inv arg c ∧ Untouched arg c → Prompt arg c a → Allowed arg c a :=
      fun c a h _ => allowed_of_untouched h.1 h.2
    exact meets_of_meets hstep himp ⟨hinit, trivial⟩

/-- A carrier change between the snapshot and `add_wait_queue` wakes nobody. -/
theorem early_change_is_slept_over : ¬ ∀ arg icount stack signal as,
    Always (step arg) (NoLoss arg) (Call.init icount stack signal) as := by
  intro h
  have hrun := h tiocmCd ⟨0, 0, 0, 0, 0, 0, 0, 0, 0, 0, 0⟩ ⟨0, 0, 0, 0, 0, 0, 0, 0, 0, 0, 0⟩ false
    [.task, .update .dcd, .task, .task, .task]
  have hend := always_end hrun rfl
  have hsame := hend.asleep rfl rfl .dcd (by decide)
  cases hsame

theorem waitLoop_cons (arg : BitVec 64) (cprev cnow : AsyncIcount) (ws : List Wakeup) :
    waitLoop arg cprev (⟨false, cnow⟩ :: ws) =
      (compareCounts arg cprev cnow).or (waitLoop arg cnow ws) := by
  simp only [waitLoop, compareCounts, Bool.false_eq_true, if_false]
  split
  · rfl
  · split <;> rfl

def Follows (arg : BitVec 64) (c : Call) : Prop :=
  match c.st.pc with
  | .snapshot => True
  | .compare cnow =>
    ∀ ws, waitLoop arg c.start (c.wakeups ++ ws) = waitLoop arg c.st.cprev (⟨false, cnow⟩ :: ws)
  | .returned ret => waitLoop arg c.start c.wakeups = some ret
  | _ => ∀ ws, waitLoop arg c.start (c.wakeups ++ ws) = waitLoop arg c.st.cprev ws

theorem task_follows {arg : BitVec 64} {c : Call} {s : State} (h : Follows arg c)
    (hstep : taskStep arg c.st = some s) : Follows arg (c.advance s) := by
  rw [taskStep] at hstep
  rw [Follows] at h
  rw [Call.advance]
  cases hpc : c.st.pc <;> rw [hpc] at hstep h
  case snapshot =>
    cases hstep
    exact fun _ => rfl
  case schedule =>
    simp only at hstep
    split at hstep <;> cases hstep <;> exact h
  case asleep =>
    simp only at hstep
    split at hstep <;> cases hstep
    exact h
  case signalPending =>
    cases hstep
    cases c.st.signal with
    | true => exact h [⟨true, c.st.icount⟩]
    | false => exact h
  case reread =>
    cases hstep
    intro ws
    exact (congrArg _ (List.append_assoc ..)).trans (h (⟨false, c.st.icount⟩ :: ws))
  case compare cnow =>
    simp only at hstep
    split at hstep
    · rename_i ret hret
      cases hstep
      have hws := h []
      rw [List.append_nil, waitLoop_cons, hret] at hws
      exact hws
    · rename_i hret
      cases hstep
      intro ws
      apply (h ws).trans
      rw [waitLoop_cons, hret]
      rfl
  case returned => cases hstep
  all_goals
    cases hstep
    exact h

theorem step_follows {arg : BitVec 64} {c d : Call} {a : Act} (h : Follows arg c)
    (hstep : step arg c a = some d) : Follows arg d := by
  obtain ⟨-, ⟨l, rfl, rfl⟩ | ⟨rfl, rfl⟩ | ⟨s, rfl, hs, rfl⟩⟩ := step_cases hstep
  · exact h
  · exact h
  · exact task_follows h hs

/-- Whatever comes between its steps, the call returns what `tinyIoctlTiocmiwait`
makes of the counters that it has read. -/
theorem call_returns_waitLoop (serial : SerialStruct) (arg : BitVec 64)
    (icount stack : AsyncIcount) (signal : Bool) (as : List Act) :
    Always (step arg)
      (fun c => ∀ ret, c.st.pc = .returned ret →
        tinyIoctlTiocmiwait ⟨serial, c.start⟩ tiocmiwait arg c.wakeups = some ⟨ret, []⟩)
      (Call.init icount stack signal) as := by
  have hinit : Follows arg (Call.init icount stack signal) := trivial
  have hstep : ∀ c a d, Follows arg c → True → step arg c a = some d → Follows arg d :=
    fun _ _ _ h _ hstep => step_follows h hstep
  have hfollows := always_of_meets hstep hinit (meets_of_forall (fun _ _ => trivial) _ as)
  refine always_mono (fun c h ret hret => ?_) hfollows
  rw [Follows, hret] at h
  have hloop : waitLoop arg c.start c.wakeups = some ret := h
  simp only [tinyIoctlTiocmiwait, if_true, hloop, Option.map_some]

end LinuxDriver.TinyTtyWait
