import LinuxDriver.TinyTty
import LinuxDriver.Runs

namespace LinuxDriver.TinyTtyPorts

open Runs TinyTty

/-- One minor with the opens that the tty core has still to close, those that
succeeded and those that did not. -/
structure Tty where
  line : Line
  opened : Nat
  failed : Nat

inductive TtyAct
  | open (kzalloc kmalloc : Bool)
  | close (ofFailed : Bool)
  | expire (accepts acceptsNewline : Bool)

def ttyStep (t : Tty) : TtyAct → Option Tty
  | .open kzalloc kmalloc =>
    let r := tinyOpen kzalloc kmalloc t.line
    if r.1 = 0 then some ⟨r.2, t.opened + 1, t.failed⟩ else some ⟨r.2, t.opened, t.failed + 1⟩
  | .close false =>
    if t.opened = 0 then none else some ⟨tinyClose t.line, t.opened - 1, t.failed⟩
  | .close true =>
    if t.failed = 0 then none else some ⟨tinyClose t.line, t.opened, t.failed - 1⟩
  | .expire accepts acceptsNewline =>
    if t.line.pending then some { t with line := tinyTimer accepts acceptsNewline t.line } else none

/-- Whether an open comes to the allocation of the timer. -/
def reachesKmalloc (kzalloc : Bool) (l : Line) : Bool :=
  match l.tiny with
  | none => kzalloc
  | some p => !p.timer && decide (p.openCount = 0)

/-- The steps after which the port and its timer still agree: the timer can be
allocated where it has to be, the counter does not overflow, and the close of a
failed open finds no port, or no opens to take away from others. -/
def TtyAllowed (t : Tty) : TtyAct → Prop
  | .open kzalloc kmalloc =>
    (reachesKmalloc kzalloc t.line = true → kmalloc = true) ∧ t.line.openCount.toNat < 2 ^ 31 - 1
  | .close true => t.line.driverData = false ∨ t.line.openCount = 0
  | _ => True

instance (t : Tty) : (a : TtyAct) → Decidable (TtyAllowed t a)
  | .open _ _ => inferInstanceAs (Decidable (_ ∧ _))
  | .close true => inferInstanceAs (Decidable (_ ∨ _))
  | .close false => inferInstanceAs (Decidable True)
  | .expire _ _ => inferInstanceAs (Decidable True)

/-- The calls made so far for one minor, `live` saying whether its port is there:
nothing was freed, and no NULL timer was handed to `del_timer`. -/
structure Ledger (trace : List Event) (live : Bool) : Prop where
  noNull : .delTimer true ∉ trace
  kzallocs : trace.count .kzalloc = live.toNat
  kmallocs : trace.count .kmalloc = live.toNat
  noKfreePort : trace.count .kfreePort = 0
  noKfreeTimer : trace.count (.kfreeTimer false) = 0

theorem Ledger.addTimer {trace : List Event} {live : Bool} (h : Ledger trace live) (b : Bool) :
    Ledger (trace ++ [.addTimer b]) live := by
  obtain ⟨hn, hz, hm, hp, ht⟩ := h
  constructor <;> simp [hn, hz, hm, hp, ht]

theorem Ledger.delTimer {trace : List Event} {live : Bool} (h : Ledger trace live) :
    Ledger (trace ++ [.delTimer false]) live := by
  obtain ⟨hn, hz, hm, hp, ht⟩ := h
  constructor <;> simp [hn, hz, hm, hp, ht]

theorem Ledger.alloc {trace : List Event} (h : Ledger trace false) :
    Ledger (trace ++ [.kzalloc, .kmalloc]) true := by
  obtain ⟨hn, hz, hm, hp, ht⟩ := h
  constructor <;> simp [hn, hz, hm, hp, ht]

structure LineOk (l : Line) (opened : Nat) : Prop where
  driverData : l.driverData = l.tiny.isSome
  timer : l.timer = l.tiny.isSome
  count : l.openCount.toNat = opened
  bound : opened < 2 ^ 31
  pending : l.pending = decide (0 < opened)
  ledger : Ledger l.trace l.tiny.isSome

theorem lineOk_init : LineOk Line.init 0 where
  driverData := rfl
  timer := rfl
  count := rfl
  bound := by decide
  pending := rfl
  ledger := by constructor <;> decide

theorem LineOk.openCount_eq_zero {l : Line} {opened : Nat} (h : LineOk l opened) :
    l.openCount = 0 ↔ opened = 0 := by
  rw [← h.count]
  exact ⟨fun h0 => by rw [h0]; rfl, fun h0 => BitVec.eq_of_toNat_eq h0⟩

theorem open_ok {l : Line} {opened : Nat} (h : LineOk l opened) (kzalloc kmalloc : Bool)
    (hk : reachesKmalloc kzalloc l = true → kmalloc = true) (hb : l.openCount.toNat < 2 ^ 31 - 1) :
    let r := tinyOpen kzalloc kmalloc l
    LineOk r.2 (if r.1 = 0 then opened + 1 else opened) := by
  have hcount := h.count
  have hpending := h.pending
  cases ht : l.tiny with
  | none =>
    have hl := h.ledger
    have h0 : opened = 0 := by
      rw [← hcount, Line.openCount, ht]
      rfl
    rw [ht] at hl
    cases kzalloc with
    | false =>
      rw [tinyOpen_noPort ht]
      exact ⟨by simp [ht], h.timer, hcount, h.bound, hpending, h.ledger⟩
    | true =>
      have hkm : kmalloc = true := hk (by simp [reachesKmalloc, ht])
      rw [hkm, tinyOpen_newPort ht, h0]
      refine ⟨rfl, rfl, rfl, by simp, rfl, ?_⟩
      have := hl.alloc.addTimer l.pending
      rwa [List.append_assoc] at this
  | some p =>
    have hl := h.ledger
    have htimer : p.timer = true := by
      have := h.timer
      rwa [Line.timer, ht] at this
    have hc : p.openCount.toNat = opened := by
      rw [← hcount, Line.openCount, ht]
      rfl
    rw [ht] at hl
    by_cases hzero : p.openCount = 0
    · rw [tinyOpen_first ht hzero htimer]
      have h0 : opened = 0 := by rw [← hc, hzero]; rfl
      subst h0
      exact ⟨rfl, htimer, rfl, by simp, rfl, hl.addTimer _⟩
    · rw [tinyOpen_again ht hzero]
      have hpos : 0 < opened := by bv_omega
      rw [Line.openCount, ht, Option.elim_some] at hb
      refine ⟨rfl, htimer, ?_, by simp; omega, ?_, hl⟩
      · simp [Line.openCount]
        bv_omega
      · rw [hpending]
        simp [hpos]

theorem doClose_ok {l : Line} {opened : Nat} (h : LineOk l opened) :
    LineOk (doClose l) (opened - 1) ∧ (doClose l).tiny.isSome = l.tiny.isSome := by
  by_cases hzero : l.openCount = 0
  · have h0 := h.openCount_eq_zero.mp hzero
    subst h0
    rw [doClose_zero hzero]
    exact ⟨h, rfl⟩
  · have hcount := h.count
    have hpending := h.pending
    have hbound := h.bound
    have hl := h.ledger
    have hd := h.driverData
    have htimer := h.timer
    cases ht : l.tiny with
    | none => simp [Line.openCount, ht] at hzero
    | some p =>
      simp only [Line.openCount, Line.timer, ht, Option.elim_some, Option.isSome_some]
        at hzero hcount htimer hd hl
      have hcnt : (p.openCount - 1).toNat = opened - 1 := by bv_omega
      have hint : (p.openCount - 1).toInt = (opened - 1 : Nat) := by
        rw [BitVec.toInt_eq_toNat_of_lt (by omega), hcnt]
      by_cases hlast : (p.openCount - 1).toInt ≤ 0
      · rw [doClose_last ht hzero hlast htimer]
        exact ⟨⟨hd, htimer, hcnt, by omega, by simp; omega, hl.delTimer⟩, rfl⟩
      · rw [doClose_more ht hzero hlast]
        exact ⟨⟨hd, htimer, hcnt, by omega, by simp [hpending]; omega, hl⟩, rfl⟩

theorem close_ok {l : Line} {opened : Nat} (h : LineOk l opened) (hpos : opened ≠ 0) :
    LineOk (tinyClose l) (opened - 1) := by
  have hsome : l.tiny.isSome = true := by
    cases ht : l.tiny with
    | none => exact absurd (h.openCount_eq_zero.mp (by rw [Line.openCount, ht]; rfl)) hpos
    | some p => rfl
  rw [tinyClose, h.driverData, hsome, if_pos rfl]
  exact (doClose_ok h).1

theorem tinyClose_failed {l : Line} (h : l.driverData = false ∨ l.openCount = 0) :
    tinyClose l = l := by
  rw [tinyClose]
  obtain hd | h0 := h
  · simp [hd]
  · rw [doClose_zero h0, ite_self]

theorem timer_ok {l : Line} {opened : Nat} (h : LineOk l opened) (hp : l.pending = true)
    (accepts acceptsNewline : Bool) : LineOk (tinyTimer accepts acceptsNewline l) opened := by
  have hpos : 0 < opened := of_decide_eq_true (h.pending.symm.trans hp)
  have hcount := h.count
  have htimer := h.timer
  have hl := h.ledger.addTimer false
  rw [tinyTimer_eq]
  cases ht : l.tiny with
  | none =>
    rw [Line.openCount, ht] at hcount
    exact absurd hcount hpos.ne
  | some p =>
    rw [ht] at hl
    rw [Line.openCount, ht] at hcount
    rw [Line.timer, ht] at htimer
    exact ⟨by rw [h.driverData, ht]; rfl, htimer, hcount, h.bound, by simp [hpos], hl⟩

/-- What is left of a minor when the module is gone: every block allocated for it
was freed once. -/
structure LineGone (l : Line) : Prop where
  tiny : l.tiny = none
  pending : l.pending = false
  noNull : .delTimer true ∉ l.trace
  ports : l.trace.count .kfreePort = l.trace.count .kzalloc
  timers : l.trace.count (.kfreeTimer false) = l.trace.count .kmalloc
  onePort : l.trace.count .kzalloc ≤ 1
  oneTimer : l.trace.count .kmalloc ≤ 1

theorem exitPort_gone {l : Line} {opened : Nat} (h : LineOk l opened) : LineGone (exitPort l) := by
  cases ht : l.tiny with
  | none =>
    obtain ⟨hnull, hz, hm, hp, hf⟩ := h.ledger
    have hopened : opened = 0 := by
      rw [← h.count, Line.openCount, ht]
      rfl
    rw [ht] at hz hm
    simp only [exitPort, ht]
    exact ⟨ht, by rw [h.pending, hopened]; rfl, hnull, by rw [hp, hz]; rfl, by rw [hf, hm]; rfl,
      by rw [hz]; decide, by rw [hm]; decide⟩
  | some p =>
    have hkeep : ∀ m, (∃ n, LineOk m n) ∧ m.tiny.isSome = true →
        (∃ n, LineOk (doClose m) n) ∧ (doClose m).tiny.isSome = true := by
      intro m hm
      obtain ⟨⟨n, hn⟩, hsome⟩ := hm
      obtain ⟨hok, heq⟩ := doClose_ok hn
      exact ⟨⟨_, hok⟩, heq.trans hsome⟩
    obtain ⟨⟨⟨n, hn⟩, hsome⟩, _⟩ := closeLoop_keeps hkeep l ⟨⟨_, h⟩, by rw [ht]; rfl⟩
    obtain ⟨hnull, hz, hm, hp, hf⟩ := hn.ledger
    rw [hsome] at hz hm
    simp only [exitPort, ht]
    rw [free_eq (hn.timer.trans hsome)]
    constructor <;> simp [hnull, hz, hm, hp, hf]

structure Sys where
  ttys : Fin tinyTtyMinors → Tty
  exited : Bool

def Sys.init : Sys := ⟨fun _ => ⟨Line.init, 0, 0⟩, false⟩

inductive Act
  | tty (i : Fin tinyTtyMinors) (a : TtyAct)
  | exit

def step (c : Sys) : Act → Option Sys
  | .tty i a =>
    if c.exited then none
    else (ttyStep (c.ttys i) a).map (fun t => { c with ttys := Function.update c.ttys i t })
  | .exit =>
    if c.exited then none
    else
      let lines := tinyExit (fun i => (c.ttys i).line)
      some ⟨fun i => { c.ttys i with line := lines i }, true⟩

def Allowed (c : Sys) : Act → Prop
  | .tty i a => TtyAllowed (c.ttys i) a
  | .exit => True

instance (c : Sys) : (a : Act) → Decidable (Allowed c a)
  | .tty i a => inferInstanceAs (Decidable (TtyAllowed (c.ttys i) a))
  | .exit => inferInstanceAs (Decidable True)

/-- What the ports and timers of the driver satisfy between two steps. -/
structure Good (c : Sys) : Prop where
  timer : ∀ i p, (c.ttys i).line.tiny = some p → 0 < p.openCount.toInt →
    p.timer = true ∧ (c.ttys i).line.pending = true
  idle : ∀ i p, (c.ttys i).line.tiny = some p → p.openCount = 0 →
    (c.ttys i).line.pending = false
  count : c.exited = false → ∀ i, (c.ttys i).failed = 0 →
    (c.ttys i).line.openCount.toInt = (c.ttys i).opened
  noNull : ∀ i, .delTimer true ∉ (c.ttys i).line.trace
  owned : c.exited = false → ∀ i,
    (c.ttys i).line.trace.count .kzalloc = (c.ttys i).line.tiny.isSome.toNat ∧
    (c.ttys i).line.trace.count .kmalloc = (c.ttys i).line.timer.toNat ∧
    (c.ttys i).line.trace.count .kfreePort = 0 ∧
    (c.ttys i).line.trace.count (.kfreeTimer false) = 0
  exit : c.exited = true → ∀ i, LineGone (c.ttys i).line

def Inv (c : Sys) : Prop :=
  if c.exited then ∀ i, LineGone (c.ttys i).line
  else ∀ i, LineOk (c.ttys i).line (c.ttys i).opened

theorem ttyStep_ok {t u : Tty} {a : TtyAct} (h : LineOk t.line t.opened) (ha : TtyAllowed t a)
    (hstep : ttyStep t a = some u) : LineOk u.line u.opened := by
  cases a with
  | «open» kzalloc kmalloc =>
    have hopen := open_ok h kzalloc kmalloc ha.1 ha.2
    simp only [ttyStep] at hstep
    split at hstep
    · rename_i hret
      cases hstep
      simp only [hret, if_true] at hopen
      exact hopen
    · rename_i hret
      cases hstep
      simp only [hret, if_false] at hopen
      exact hopen
  | close ofFailed =>
    cases ofFailed with
    | false =>
      simp only [ttyStep] at hstep
      split at hstep
      · cases hstep
      · rename_i hpos
        cases hstep
        exact close_ok h hpos
    | true =>
      simp only [ttyStep] at hstep
      split at hstep
      · cases hstep
      · cases hstep
        simp only
        rw [tinyClose_failed ha]
        exact h
  | expire accepts acceptsNewline =>
    simp only [ttyStep] at hstep
    split at hstep
    · rename_i hp
      cases hstep
      exact timer_ok h hp accepts acceptsNewline
    · cases hstep

theorem step_inv {c d : Sys} {a : Act} (h : Inv c) (ha : Allowed c a) (hstep : step c a = some d) :
    Inv d := by
  cases hexit : c.exited with
  | true => cases a <;> simp [step, hexit] at hstep
  | false =>
    simp only [Inv, hexit, Bool.false_eq_true, if_false] at h
    cases a with
    | tty i a =>
      simp only [step, hexit, Bool.false_eq_true, if_false] at hstep
      obtain ⟨t, ht, rfl⟩ := Option.map_eq_some_iff.mp hstep
      have hok := ttyStep_ok (h i) ha ht
      simp only [Inv, Bool.false_eq_true, if_false]
      intro j
      by_cases hji : j = i
      · subst hji
        rw [Function.update_self]
        exact hok
      · rw [Function.update_of_ne hji]
        exact h j
    | exit =>
      simp only [step, hexit, Bool.false_eq_true, if_false] at hstep
      cases hstep
      simp only [Inv, if_true]
      intro i
      rw [tinyExit_apply]
      exact exitPort_gone (h i)

theorem good_of_inv {c : Sys} (h : Inv c) : Good c := by
  cases hexit : c.exited with
  | true =>
    simp only [Inv, hexit, if_true] at h
    refine ⟨fun i p ht _ => ?_, fun i _ _ _ => (h i).pending, fun hno => by simp [hexit] at hno,
      fun i => (h i).noNull, fun hno => by simp [hexit] at hno, fun _ => h⟩
    rw [(h i).tiny] at ht
    cases ht
  | false =>
    simp only [Inv, hexit, Bool.false_eq_true, if_false] at h
    have hcount : ∀ i p, (c.ttys i).line.tiny = some p → p.openCount.toNat = (c.ttys i).opened := by
      intro i p ht
      rw [← (h i).count, Line.openCount, ht]
      rfl
    refine ⟨fun i p ht hpos => ⟨?_, ?_⟩, fun i p ht hzero => ?_, fun _ i _ => ?_,
      fun i => (h i).ledger.noNull, fun _ i => ?_, fun hyes => by simp [hexit] at hyes⟩
    · have := (h i).timer
      rw [Line.timer, ht] at this
      exact this
    · have hb := (h i).bound
      have hn := hcount i p ht
      rw [BitVec.toInt_eq_toNat_of_lt (by omega)] at hpos
      rw [(h i).pending]
      exact decide_eq_true (by omega)
    · have hn := hcount i p ht
      rw [(h i).pending, ← hn, hzero]
      rfl
    · have hb := (h i).bound
      rw [BitVec.toInt_eq_toNat_of_lt (by rw [(h i).count]; omega), (h i).count]
    · obtain ⟨_, hz, hm, hp, hf⟩ := (h i).ledger
      exact ⟨hz, by rw [hm, (h i).timer], hp, hf⟩

/-- Ports and timers agree in every state of every run in which no timer is
missing, no counter overflows and no failed open takes an open from another. -/
theorem ports_and_timers_agree (as : List Act) (h : Meets step Allowed Sys.init as) :
    Always step Good Sys.init as := by
  apply always_mono (fun _ => good_of_inv)
  refine always_of_meets (fun _ _ _ => step_inv) ?_ h
  intro i
  exact lineOk_init

def reopened : List Act := [.tty 0 (.open false false), .tty 0 (.close true),
  .tty 0 (.open true true), .tty 0 (.open true true), .tty 0 (.expire true false),
  .tty 0 (.close false), .tty 3 (.open true true), .tty 0 (.close false), .exit]

theorem ports_and_timers_agree_reopened :
    (run step Sys.init reopened).isSome ∧ Always step Good Sys.init reopened :=
  ⟨rfl, ports_and_timers_agree _ (by decide)⟩

/-- An open that cannot allocate the timer leaves the port open; its close then
hands a NULL timer to `del_timer`. -/
theorem failed_open_deletes_null_timer : ¬ ∀ as, Always step Good Sys.init as := by
  intro h
  have hrun := h [.tty 0 (.open true false), .tty 0 (.close true)]
  have hlast := (hrun.2 _ rfl).2 _ rfl
  exact hlast.noNull 0 (by decide)

end LinuxDriver.TinyTtyPorts
