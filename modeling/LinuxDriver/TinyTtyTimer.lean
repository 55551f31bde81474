import LinuxDriver.TinyTty
import LinuxDriver.Runs

namespace LinuxDriver.TinyTtyTimer

open Runs TinyTty

inductive HandlerPc
  | insert
  | push
  | expires
  | add
deriving DecidableEq

/-- Whether the step uses a port or a timer that `tiny_exit` has freed. -/
def isStray (l : Line) : HandlerPc → Bool
  | .insert => l.tiny.isNone
  | .push => false
  | .expires | .add => l.tiny.isNone || decide (.kfreeTimer false ∈ l.trace)

def handlerStep (accepts acceptsNewline : Bool) (pc : HandlerPc) (l : Line) :
    List HandlerPc × Line :=
  if isStray l pc then ([], l.log .stray)
  else
    match pc with
    | .insert => ([.push], insertData accepts acceptsNewline l)
    | .push => ([.expires], l)
    | .expires => ([.add], l)
    | .add => ([], addTimer l)

structure Racer where
  line : Line
  handlers : List HandlerPc

inductive TtyAct
  | open (kzalloc kmalloc : Bool)
  | close
  | expire
  | handler (n : Nat) (accepts acceptsNewline : Bool)

def ttyStep (r : Racer) : TtyAct → Option Racer
  | .open kzalloc kmalloc => some { r with line := (tinyOpen kzalloc kmalloc r.line).2 }
  | .close => some { r with line := tinyClose r.line }
  | .expire =>
    if r.line.pending then some ⟨{ r.line with pending := false }, r.handlers ++ [.insert]⟩
    else none
  | .handler n accepts acceptsNewline =>
    r.handlers[n]?.map (fun pc =>
      let h := handlerStep accepts acceptsNewline pc r.line
      ⟨h.2, r.handlers.take n ++ h.1 ++ r.handlers.drop (n + 1)⟩)

inductive ExitPc
  | close
  | del
  | freeTimer
  | freePort

structure Sys where
  racers : Fin tinyTtyMinors → Racer
  exit : Option (List (Fin tinyTtyMinors) × ExitPc)

def Sys.init : Sys := ⟨fun _ => ⟨Line.init, []⟩, none⟩

def Sys.set (c : Sys) (i : Fin tinyTtyMinors) (r : Racer) : Sys :=
  { c with racers := Function.update c.racers i r }

def Sys.at (c : Sys) (todo : List (Fin tinyTtyMinors)) (pc : ExitPc) : Sys :=
  { c with exit := some (todo, pc) }

def Sys.setLine (c : Sys) (i : Fin tinyTtyMinors) (l : Line) : Sys :=
  c.set i { c.racers i with line := l }

def exitStep (c : Sys) : Option Sys :=
  match c.exit with
  | none => some (c.at (List.finRange tinyTtyMinors) .close)
  | some ([], _) => none
  | some (i :: rest, .close) =>
    let l := (c.racers i).line
    if l.tiny.isNone then some (c.at rest .close)
    else if l.openCount = 0 then some (c.at (i :: rest) .del)
    else some (c.setLine i (doClose l))
  | some (i :: rest, .del) =>
    some ((c.setLine i (delTimer (c.racers i).line)).at (i :: rest) .freeTimer)
  | some (i :: rest, .freeTimer) =>
    some ((c.setLine i (kfreeTimer (c.racers i).line)).at (i :: rest) .freePort)
  | some (i :: rest, .freePort) =>
    some ((c.setLine i (kfreePort (c.racers i).line)).at rest .close)

inductive Act
  | tty (i : Fin tinyTtyMinors) (a : TtyAct)
  | exit

def fromTty : TtyAct → Bool
  | .open _ _ | .close => true
  | .expire | .handler _ _ _ => false

def step (c : Sys) : Act → Option Sys
  | .tty i a =>
    if c.exit.isSome && fromTty a then none
    else (ttyStep (c.racers i) a).map (c.set i)
  | .exit => exitStep c

def isLastClose (l : Line) : Bool :=
  decide (l.openCount ≠ 0) && decide ((l.openCount - 1).toInt ≤ 0)

/-- The steps that leave the timer to itself: the last close of a port, also that
of `tiny_exit`, finds no handler running, and the counter does not overflow. -/
def TtyAllowed (r : Racer) : TtyAct → Prop
  | .open _ _ => r.line.openCount.toNat < 2 ^ 31 - 1
  | .close => r.line.driverData = true → isLastClose r.line = true → r.handlers = []
  | _ => True

def ExitAllowed (c : Sys) : Option (List (Fin tinyTtyMinors) × ExitPc) → Prop
  | some (i :: _, .close) => isLastClose (c.racers i).line = true → (c.racers i).handlers = []
  | _ => True

def Allowed (c : Sys) : Act → Prop
  | .tty i a => TtyAllowed (c.racers i) a
  | .exit => ExitAllowed c c.exit

instance (r : Racer) : (a : TtyAct) → Decidable (TtyAllowed r a)
  | .open _ _ => inferInstanceAs (Decidable (_ < _))
  | .close => inferInstanceAs (Decidable (_ → _ → _))
  | .expire => inferInstanceAs (Decidable True)
  | .handler _ _ _ => inferInstanceAs (Decidable True)

instance (c : Sys) : (e : Option (List (Fin tinyTtyMinors) × ExitPc)) → Decidable (ExitAllowed c e)
  | some (_ :: _, .close) => inferInstanceAs (Decidable (_ → _))
  | none | some ([], _) | some (_ :: _, .del) | some (_ :: _, .freeTimer)
  | some (_ :: _, .freePort) => inferInstanceAs (Decidable True)

instance (c : Sys) : (a : Act) → Decidable (Allowed c a)
  | .tty i a => inferInstanceAs (Decidable (TtyAllowed (c.racers i) a))
  | .exit => inferInstanceAs (Decidable (ExitAllowed c c.exit))

/-- A timer is added only when it is not pending, it is not pending on a port
without opens once no handler runs, and no handler uses what was freed. -/
structure Safe (c : Sys) : Prop where
  added : ∀ i, .addTimer true ∉ (c.racers i).line.trace
  idle : ∀ i, (c.racers i).line.openCount = 0 → (c.racers i).handlers = [] →
    (c.racers i).line.pending = false
  alive : ∀ i, .stray ∉ (c.racers i).line.trace

/-- How often the timer is about, on the list of the kernel or in a handler. -/
def activity (r : Racer) : Nat := r.line.pending.toNat + r.handlers.length

structure RacerOk (r : Racer) : Prop where
  bound : r.line.openCount.toNat < 2 ^ 31
  single : activity r ≤ 1
  idle : r.line.openCount = 0 → activity r = 0
  timer : activity r ≠ 0 → r.line.timer = true
  freed : .kfreeTimer false ∈ r.line.trace → r.line.openCount = 0
  added : .addTimer true ∉ r.line.trace
  alive : .stray ∉ r.line.trace

theorem activity_eq_zero {r : Racer} :
    activity r = 0 ↔ r.line.pending = false ∧ r.handlers = [] := by
  rw [activity]
  cases r.line.pending <;> simp

theorem racerOk_init : RacerOk ⟨Line.init, []⟩ where
  bound := by decide
  single := by decide
  idle _ := rfl
  timer h := absurd rfl h
  freed _ := rfl
  added := List.not_mem_nil
  alive := List.not_mem_nil

theorem RacerOk.same {r : Racer} {l : Line} {hs : List HandlerPc} (h : RacerOk r)
    (hc : l.openCount = r.line.openCount) (ha : activity ⟨l, hs⟩ = activity r)
    (ht : l.timer = r.line.timer) (htr : l.trace = r.line.trace) : RacerOk ⟨l, hs⟩ where
  bound := by rw [hc]; exact h.bound
  single := by rw [ha]; exact h.single
  idle h0 := by rw [ha]; exact h.idle (hc ▸ h0)
  timer h0 := by rw [ht]; exact h.timer (ha ▸ h0)
  freed h0 := by rw [hc]; exact h.freed (htr ▸ h0)
  added := by rw [htr]; exact h.added
  alive := by rw [htr]; exact h.alive

theorem open_ok {r : Racer} (h : RacerOk r) (hfree : .kfreeTimer false ∉ r.line.trace)
    (hb : r.line.openCount.toNat < 2 ^ 31 - 1) (kzalloc kmalloc : Bool) :
    RacerOk ⟨(tinyOpen kzalloc kmalloc r.line).2, r.handlers⟩ := by
  obtain ⟨l, hs⟩ := r
  have hadded := h.added
  have halive := h.alive
  cases ht : l.tiny with
  | none =>
    obtain ⟨hp, hh⟩ := activity_eq_zero.mp (h.idle (by simp [Line.openCount, ht]))
    simp only at hp hh hadded halive hfree
    subst hh
    cases kzalloc with
    | false =>
      rw [tinyOpen_noPort ht]
      exact h.same rfl rfl rfl rfl
    | true =>
      cases kmalloc with
      | false =>
        rw [tinyOpen_newPort_noTimer ht, hp]
        constructor <;> simp [Line.openCount, activity, hadded, halive, hfree]
      | true =>
        rw [tinyOpen_newPort ht, hp]
        constructor <;> simp [Line.openCount, Line.timer, activity, hadded, halive, hfree]
  | some p =>
    by_cases hzero : p.openCount = 0
    · obtain ⟨hp, hh⟩ := activity_eq_zero.mp (h.idle (by simp [Line.openCount, ht, hzero]))
      simp only at hp hh hadded halive hfree
      subst hh
      cases htimer : p.timer with
      | true =>
        rw [tinyOpen_first ht hzero htimer, hp]
        constructor <;> simp [Line.openCount, Line.timer, activity, hadded, halive, hfree, htimer]
      | false =>
        cases kmalloc with
        | true =>
          rw [tinyOpen_first_newTimer ht hzero htimer, hp]
          constructor <;> simp [Line.openCount, Line.timer, activity, hadded, halive, hfree]
        | false =>
          rw [tinyOpen_first_noTimer ht hzero htimer, hp]
          constructor <;> simp [Line.openCount, activity, hadded, halive, hfree]
    · rw [tinyOpen_again ht hzero]
      have hne : p.openCount + 1 ≠ 0 := by
        simp only [Line.openCount, ht, Option.elim_some] at hb
        bv_omega
      have htm := h.timer
      simp only [Line.openCount, Line.timer, ht, Option.elim_some] at hb htm
      refine ⟨?_, h.single, fun h0 => absurd h0 hne, htm, fun hf => absurd hf hfree, hadded, halive⟩
      simp only [Line.openCount, Option.elim_some]
      bv_omega

theorem doClose_ok {r : Racer} (h : RacerOk r)
    (hlast : isLastClose r.line = true → r.handlers = []) :
    RacerOk ⟨doClose r.line, r.handlers⟩ := by
  obtain ⟨l, hs⟩ := r
  by_cases hzero : l.openCount = 0
  · rw [doClose_zero hzero]
    exact h
  · have hadded := h.added
    have halive := h.alive
    have htm := h.timer
    have hb := h.bound
    have hfree : .kfreeTimer false ∉ l.trace := fun hf => hzero (h.freed hf)
    cases ht : l.tiny with
    | none => simp [Line.openCount, ht] at hzero
    | some p =>
      simp only [isLastClose, Line.openCount, Line.timer, ht, Option.elim_some, Bool.and_eq_true,
        decide_eq_true_eq] at hlast hzero hb htm
      have hint : (p.openCount - 1).toInt = (p.openCount.toNat - 1 : Nat) := by
        have hcnt : (p.openCount - 1).toNat = p.openCount.toNat - 1 := by bv_omega
        rw [BitVec.toInt_eq_toNat_of_lt (by omega), hcnt]
      by_cases hle : (p.openCount - 1).toInt ≤ 0
      · have hh : hs = [] := hlast ⟨hzero, hle⟩
        have hone : p.openCount - 1 = 0 := by bv_omega
        subst hh
        cases htimer : p.timer with
        | true =>
          rw [doClose_last ht hzero hle htimer]
          constructor <;> simp_all [Line.openCount, activity]
        | false =>
          have hp : l.pending = false := by
            by_contra hp
            simp [activity, hp, htimer] at htm
          rw [doClose_last_noTimer ht hzero hle htimer]
          constructor <;> simp_all [Line.openCount, activity]
      · have hne : p.openCount - 1 ≠ 0 := by bv_omega
        rw [doClose_more ht hzero hle]
        refine ⟨?_, h.single, fun h0 => absurd h0 hne, htm, fun hf => absurd hf hfree, hadded,
          halive⟩
        simp only [Line.openCount, Option.elim_some]
        bv_omega

theorem tinyClose_ok {r : Racer} (h : RacerOk r)
    (hlast : r.line.driverData = true → isLastClose r.line = true → r.handlers = []) :
    RacerOk ⟨tinyClose r.line, r.handlers⟩ := by
  rw [tinyClose]
  cases hd : r.line.driverData with
  | false => exact h
  | true => exact doClose_ok h (hlast hd)

theorem expire_ok {r : Racer} (h : RacerOk r) (hp : r.line.pending = true) :
    RacerOk ⟨{ r.line with pending := false }, r.handlers ++ [.insert]⟩ := by
  refine h.same rfl ?_ rfl rfl
  simp only [activity, hp, Bool.toNat_true, Bool.toNat_false, List.length_append,
    List.length_singleton]
  omega

theorem handlerStep_ok {l : Line} {pc : HandlerPc} (h : RacerOk ⟨l, [pc]⟩)
    (accepts acceptsNewline : Bool) :
    RacerOk ⟨(handlerStep accepts acceptsNewline pc l).2,
      (handlerStep accepts acceptsNewline pc l).1⟩ := by
  have hsingle := h.single
  have hopen : l.openCount ≠ 0 := fun h0 => by simpa [activity] using h.idle h0
  have hfree : .kfreeTimer false ∉ l.trace := fun hf => hopen (h.freed hf)
  have hp : l.pending = false := by
    cases hp : l.pending with
    | false => rfl
    | true => simp [activity, hp] at hsingle
  have htimer : l.timer = true := h.timer (by simp [activity])
  have hsome : l.tiny.isNone = false := by
    cases ht : l.tiny with
    | none => simp [Line.openCount, ht] at hopen
    | some p => rfl
  have hstray : isStray l pc = false := by
    cases pc <;> simp [isStray, hsome, hfree]
  simp only [handlerStep]
  rw [hstray, if_neg Bool.false_ne_true]
  cases pc with
  | insert =>
    simp only
    rw [insertData_eq]
    refine h.same ?_ rfl ?_ rfl
    · cases ht : l.tiny <;> simp [Line.openCount, ht]
    · cases ht : l.tiny <;> simp [Line.timer, ht]
  | push => exact h.same rfl rfl rfl rfl
  | expires => exact h.same rfl rfl rfl rfl
  | add =>
    refine ⟨h.bound, ?_, fun h0 => absurd h0 hopen, fun _ => htimer, fun hf => ?_, ?_, ?_⟩
    · simp [addTimer, activity]
    · simp [addTimer, Line.log, hfree] at hf
    · simp [addTimer, Line.log, hp, h.added]
    · simp [addTimer, Line.log, h.alive]

theorem ttyStep_notFreed {r r' : Racer} {a : TtyAct} (h : .kfreeTimer false ∉ r.line.trace)
    (hstep : ttyStep r a = some r') : .kfreeTimer false ∉ r'.line.trace := by
  have hclose : .kfreeTimer false ∉ (doClose r.line).trace := by
    intro hmem
    obtain hold | hnew := mem_doClose_trace hmem
    · exact h hold
    · cases hnew
  cases a with
  | «open» kzalloc kmalloc =>
    cases hstep
    intro hmem
    obtain hold | hnew | hnew | hnew := mem_tinyOpen_trace hmem
    · exact h hold
    all_goals cases hnew
  | close =>
    cases hstep
    simp only [tinyClose]
    split
    · exact hclose
    · exact h
  | expire =>
    simp only [ttyStep] at hstep
    split at hstep
    · cases hstep
      exact h
    · cases hstep
  | handler n accepts acceptsNewline =>
    obtain ⟨pc, _, rfl⟩ := Option.map_eq_some_iff.mp hstep
    simp only [handlerStep]
    split
    · simp [Line.log, h]
    · cases pc with
      | insert =>
        simp only
        rw [insertData_eq]
        exact h
      | push => exact h
      | expires => exact h
      | add => simp [addTimer, Line.log, h]

theorem ttyStep_openCount {r r' : Racer} {a : TtyAct} (ha : fromTty a = false)
    (hstep : ttyStep r a = some r') : r'.line.openCount = r.line.openCount := by
  cases a with
  | «open» kzalloc kmalloc => cases ha
  | close => cases ha
  | expire =>
    simp only [ttyStep] at hstep
    split at hstep
    · cases hstep
      rfl
    · cases hstep
  | handler n accepts acceptsNewline =>
    obtain ⟨pc, _, rfl⟩ := Option.map_eq_some_iff.mp hstep
    simp only [handlerStep]
    split
    · rfl
    · cases pc with
      | insert =>
        simp only
        rw [insertData_eq]
        cases ht : r.line.tiny <;> simp [Line.openCount, ht]
      | push => rfl
      | expires => rfl
      | add => rfl

theorem ttyStep_ok {r r' : Racer} {a : TtyAct} (h : RacerOk r) (ha : TtyAllowed r a)
    (hfree : fromTty a = true → .kfreeTimer false ∉ r.line.trace) (hstep : ttyStep r a = some r') :
    RacerOk r' := by
  cases a with
  | «open» kzalloc kmalloc =>
    cases hstep
    exact open_ok h (hfree rfl) ha kzalloc kmalloc
  | close =>
    cases hstep
    exact tinyClose_ok h ha
  | expire =>
    simp only [ttyStep] at hstep
    split at hstep
    · rename_i hp
      cases hstep
      exact expire_ok h hp
    · cases hstep
  | handler n accepts acceptsNewline =>
    obtain ⟨pc, hpc, rfl⟩ := Option.map_eq_some_iff.mp hstep
    obtain ⟨l, hs⟩ := r
    have hlen : hs.length ≤ 1 := le_trans (Nat.le_add_left _ _) h.single
    obtain ⟨hn, rfl⟩ := List.getElem?_eq_some_iff.mp hpc
    have h0 : n = 0 := by
      have hn' : n < hs.length := hn
      omega
    subst h0
    obtain ⟨pc, rfl⟩ := List.length_eq_one_iff.mp (le_antisymm hlen hn)
    simpa using handlerStep_ok h accepts acceptsNewline

/-- A handler that nothing comes between is `tiny_timer` as one step. -/
theorem handler_undisturbed {l : Line} {p : Port} (ht : l.tiny = some p) (hp : l.pending = true)
    (hfree : .kfreeTimer false ∉ l.trace) (accepts acceptsNewline : Bool) :
    run ttyStep ⟨l, []⟩ (.expire :: List.replicate 4 (.handler 0 accepts acceptsNewline)) =
      some ⟨tinyTimer accepts acceptsNewline l, []⟩ := by
  obtain ⟨m, hm⟩ : ∃ m, m = insertData accepts acceptsNewline { l with pending := false } :=
    ⟨_, rfl⟩
  have hsome : m.tiny.isNone = false := by rw [hm, insertData_eq, ht]; rfl
  have htrace : .kfreeTimer false ∉ m.trace := by rw [hm, insertData_eq]; exact hfree
  have hexpire : ttyStep ⟨l, []⟩ .expire = some ⟨{ l with pending := false }, [.insert]⟩ :=
    if_pos hp
  have hinsert : ttyStep ⟨{ l with pending := false }, [.insert]⟩
      (.handler 0 accepts acceptsNewline) = some ⟨m, [.push]⟩ := by
    simp [ttyStep, handlerStep, isStray, ht, hm]
  have hpush : ttyStep ⟨m, [.push]⟩ (.handler 0 accepts acceptsNewline) =
      some ⟨m, [.expires]⟩ := rfl
  have hexpires : ttyStep ⟨m, [.expires]⟩ (.handler 0 accepts acceptsNewline) =
      some ⟨m, [.add]⟩ := by
    simp [ttyStep, handlerStep, isStray, hsome, htrace]
  have hadd : ttyStep ⟨m, [.add]⟩ (.handler 0 accepts acceptsNewline) =
      some ⟨addTimer m, []⟩ := by
    simp [ttyStep, handlerStep, isStray, hsome, htrace]
  rw [run_cons_of_step _ hexpire, List.replicate, run_cons_of_step _ hinsert, List.replicate,
    run_cons_of_step _ hpush, List.replicate, run_cons_of_step _ hexpires, List.replicate,
    run_cons_of_step _ hadd, tinyTimer, ← hm]
  rfl

theorem setLine_self (c : Sys) (i : Fin tinyTtyMinors) (l : Line) :
    (c.setLine i l).racers i = ⟨l, (c.racers i).handlers⟩ := Function.update_self ..

theorem setLine_line (c : Sys) (i : Fin tinyTtyMinors) : c.setLine i (c.racers i).line = c := by
  rw [Sys.setLine, Sys.set, Function.update_eq_self]

theorem setLine_setLine (c : Sys) (i : Fin tinyTtyMinors) (l l' : Line) :
    (c.setLine i l).setLine i l' = c.setLine i l' := by
  rw [Sys.setLine, setLine_self, Sys.set, Sys.setLine, Sys.set, Function.update_idem]
  rfl

theorem at_setLine (c : Sys) (i : Fin tinyTtyMinors) (l : Line) (todo : List (Fin tinyTtyMinors))
    (pc : ExitPc) : (c.at todo pc).setLine i l = (c.setLine i l).at todo pc := rfl

theorem at_self {c : Sys} {todo : List (Fin tinyTtyMinors)} {pc : ExitPc}
    (h : c.exit = some (todo, pc)) : c.at todo pc = c := by
  obtain ⟨racers, exit⟩ := c
  cases h
  rfl

theorem at_racers (c : Sys) (todo : List (Fin tinyTtyMinors)) (pc : ExitPc) :
    (c.at todo pc).racers = c.racers := rfl

theorem at_at (c : Sys) (todo todo' : List (Fin tinyTtyMinors)) (pc pc' : ExitPc) :
    (c.at todo pc).at todo' pc' = c.at todo' pc' := rfl

theorem closeLoop_undisturbed {c : Sys} {i : Fin tinyTtyMinors} {rest : List (Fin tinyTtyMinors)}
    (hexit : c.exit = some (i :: rest, .close)) :
    ∃ n, run step c (List.replicate n .exit) =
      some (c.setLine i (closeLoop (c.racers i).line)) := by
  generalize hl : (c.racers i).line = l
  induction l using closeLoop.induct generalizing c with
  | case1 l hzero =>
    rw [closeLoop, if_pos hzero, ← hl, setLine_line]
    exact ⟨0, rfl⟩
  | case2 l hpos ih =>
    have hstep : step c .exit = some (c.setLine i (doClose l)) := by
      have hsome : l.tiny.isNone = false := by
        cases ht : l.tiny with
        | none => simp [Line.openCount, ht] at hpos
        | some p => rfl
      simp only [step, exitStep, hexit, hl, hsome, if_neg hpos, Bool.false_eq_true, if_false]
    obtain ⟨n, hn⟩ := ih (c := c.setLine i (doClose l)) hexit (by rw [setLine_self])
    refine ⟨n + 1, ?_⟩
    rw [List.replicate, run_cons_of_step _ hstep, hn, setLine_setLine, closeLoop.eq_def l,
      if_neg hpos]

/-- The steps of `tiny_exit` for one port that nothing comes between. -/
theorem exit_undisturbed {c : Sys} {i : Fin tinyTtyMinors} {rest : List (Fin tinyTtyMinors)}
    (hexit : c.exit = some (i :: rest, .close)) :
    ∃ n, run step c (List.replicate n .exit) =
      some ((c.setLine i (exitPort (c.racers i).line)).at rest .close) := by
  cases ht : (c.racers i).line.tiny with
  | none =>
    refine ⟨1, ?_⟩
    simp only [exitPort, ht, setLine_line]
    simp [run, step, exitStep, hexit, ht]
  | some p =>
    obtain ⟨n, hn⟩ := closeLoop_undisturbed hexit
    obtain ⟨hsome, hzero⟩ := closeLoop_keeps (P := fun l => l.tiny.isSome = true)
      (fun l h => (doClose_isSome l).trans h) (c.racers i).line (by rw [ht]; rfl)
    refine ⟨n + 4, ?_⟩
    simp only [exitPort, ht]
    generalize closeLoop (c.racers i).line = m at hn hsome hzero ⊢
    have hnone : m.tiny.isNone = false := by
      cases hm : m.tiny with
      | none => simp [hm] at hsome
      | some q => rfl
    have hself : ((c.setLine i m).racers i).line = m := by rw [setLine_self]
    have hclose : step (c.setLine i m) .exit = some ((c.setLine i m).at (i :: rest) .del) := by
      have he : (c.setLine i m).exit = some (i :: rest, .close) := hexit
      simp only [step, exitStep, he, hself, hnone, hzero, Bool.false_eq_true, if_false, if_true]
    rw [← List.replicate_append_replicate, run_append, hn, Option.bind_some, List.replicate,
      run_cons_of_step _ hclose]
    change some (((((c.setLine i m).at (i :: rest) .del).setLine i _).at (i :: rest)
      .freeTimer).setLine i _ |>.at (i :: rest) .freePort |>.setLine i _ |>.at rest .close) = _
    simp only [at_setLine, at_at, at_racers, setLine_setLine, setLine_self]

/-- The invariant of the whole driver. While `tiny_exit` is past the closing of a
port, that port has no opens. -/
structure Inv (c : Sys) : Prop where
  racers : ∀ i, RacerOk (c.racers i)
  notFreed : c.exit = none → ∀ i, .kfreeTimer false ∉ (c.racers i).line.trace
  closed : ∀ i rest pc, c.exit = some (i :: rest, pc) → pc ≠ .close →
    (c.racers i).line.openCount = 0

theorem inv_init : Inv Sys.init where
  racers _ := racerOk_init
  notFreed _ _ := List.not_mem_nil
  closed i rest pc h := by cases h

theorem safe_of_inv {c : Sys} (h : Inv c) : Safe c where
  added i := (h.racers i).added
  idle i h0 _ := (activity_eq_zero.mp ((h.racers i).idle h0)).1
  alive i := (h.racers i).alive

theorem exit_call_ok {r : Racer} {l : Line} (h : RacerOk r) (h0 : r.line.openCount = 0)
    (hc : l.openCount = 0) (hp : l.pending = true → r.line.pending = true)
    (hadd : .addTimer true ∉ l.trace) (hstray : .stray ∉ l.trace) : RacerOk ⟨l, r.handlers⟩ := by
  obtain ⟨hpend, hh⟩ := activity_eq_zero.mp (h.idle h0)
  have hp' : l.pending = false := by
    cases hl : l.pending with
    | false => rfl
    | true => exact absurd (hp hl) (by simp [hpend])
  have hact : activity ⟨l, r.handlers⟩ = 0 := activity_eq_zero.mpr ⟨hp', hh⟩
  exact ⟨by rw [hc]; decide, by rw [hact]; exact Nat.zero_le 1, fun _ => hact,
    fun hne => absurd hact hne, fun _ => hc, hadd, hstray⟩

theorem set_all {P : Fin tinyTtyMinors → Racer → Prop} {c : Sys} {i : Fin tinyTtyMinors}
    {r : Racer} (hi : P i r) (h : ∀ j, j ≠ i → P j (c.racers j)) (j : Fin tinyTtyMinors) :
    P j ((c.set i r).racers j) := by
  by_cases hji : j = i
  · subst hji
    have hself : (c.set j r).racers j = r := Function.update_self ..
    rw [hself]
    exact hi
  · have hother : (c.set i r).racers j = c.racers j := Function.update_of_ne hji ..
    rw [hother]
    exact h j hji

theorem setLine_ok {c : Sys} {i : Fin tinyTtyMinors} {l : Line} (h : ∀ j, RacerOk (c.racers j))
    (hl : RacerOk ⟨l, (c.racers i).handlers⟩) (j : Fin tinyTtyMinors) :
    RacerOk ((c.setLine i l).racers j) :=
  set_all (P := fun _ => RacerOk) hl (fun j _ => h j) j

theorem inv_at {c : Sys} (h : ∀ j, RacerOk (c.racers j)) (todo : List (Fin tinyTtyMinors))
    (pc : ExitPc) (hc : pc ≠ .close → ∀ i, todo.head? = some i →
      (c.racers i).line.openCount = 0) : Inv (c.at todo pc) where
  racers := h
  notFreed hno := by cases hno
  closed i rest pc hi hpc := by
    cases hi
    exact hc hpc i rfl

theorem exitStep_ok {c d : Sys} (h : Inv c) (ha : Allowed c .exit) (hstep : exitStep c = some d) :
    Inv d := by
  rw [exitStep] at hstep
  cases hexit : c.exit with
  | none =>
    rw [hexit] at hstep
    cases hstep
    exact inv_at h.racers _ _ (fun hne => absurd rfl hne)
  | some e =>
    obtain ⟨todo, pc⟩ := e
    cases todo with
    | nil => simp [hexit] at hstep
    | cons i rest =>
      have hr := h.racers i
      have hclosed := h.closed i rest pc hexit
      simp only [Allowed, hexit, ExitAllowed] at ha
      rw [hexit] at hstep
      cases pc with
      | close =>
        simp only at hstep
        split at hstep
        · cases hstep
          exact inv_at h.racers _ _ (fun hne => absurd rfl hne)
        · split at hstep
          · rename_i h0
            cases hstep
            refine inv_at h.racers _ _ (fun _ j hj => ?_)
            cases hj
            exact h0
          · cases hstep
            have hset := inv_at (setLine_ok h.racers (doClose_ok hr ha)) (i :: rest) .close
              (fun hne => absurd rfl hne)
            rwa [← at_setLine, at_self hexit] at hset
      | del =>
        cases hstep
        have h0 := hclosed (by simp)
        have h0' : (delTimer (c.racers i).line).openCount = 0 := by
          rw [Line.openCount, delTimer_tiny]
          exact h0
        refine inv_at (setLine_ok h.racers (exit_call_ok hr h0 h0' pending_of_delTimer ?_ ?_)) _ _
          (fun _ j hj => ?_)
        · simp [hr.added]
        · simp [hr.alive]
        · cases hj
          rw [setLine_self]
          exact h0'
      | freeTimer =>
        cases hstep
        have h0 := hclosed (by simp)
        refine inv_at (setLine_ok h.racers (exit_call_ok (l := kfreeTimer (c.racers i).line) hr h0
          h0 id ?_ ?_)) _ _ (fun _ j hj => ?_)
        · simp [kfreeTimer, Line.log, hr.added]
        · simp [kfreeTimer, Line.log, hr.alive]
        · cases hj
          rw [setLine_self]
          exact h0
      | freePort =>
        cases hstep
        have h0 := hclosed (by simp)
        refine inv_at (setLine_ok h.racers (exit_call_ok (l := kfreePort (c.racers i).line) hr h0
          rfl id ?_ ?_)) _ _ (fun hne => absurd rfl hne)
        · simp [kfreePort, Line.log, hr.added]
        · simp [kfreePort, Line.log, hr.alive]

theorem step_inv {c d : Sys} {a : Act} (h : Inv c) (ha : Allowed c a) (hstep : step c a = some d) :
    Inv d := by
  cases a with
  | exit => exact exitStep_ok h ha hstep
  | tty i a =>
    simp only [step] at hstep
    split at hstep
    · cases hstep
    · rename_i hcan
      obtain ⟨r, hr, rfl⟩ := Option.map_eq_some_iff.mp hstep
      have hcall : fromTty a = true → c.exit = none := by
        intro hf
        simpa [hf] using hcan
      have hok := ttyStep_ok (h.racers i) ha (fun hf => h.notFreed (hcall hf) i) hr
      refine ⟨set_all (P := fun _ => RacerOk) hok (fun j _ => h.racers j), fun hnone => ?_,
        fun j rest pc hexit hpc => ?_⟩
      · exact set_all (P := fun _ r => .kfreeTimer false ∉ r.line.trace)
          (ttyStep_notFreed (h.notFreed hnone i) hr) (fun j _ => h.notFreed hnone j)
      · have hexit' : c.exit = some (j :: rest, pc) := hexit
        have hlocal : fromTty a = false := by
          cases hf : fromTty a with
          | false => rfl
          | true => rw [hcall hf] at hexit'; cases hexit'
        have hcount : ∀ j, ((c.set i r).racers j).line.openCount = (c.racers j).line.openCount :=
          set_all (P := fun j r => r.line.openCount = (c.racers j).line.openCount)
            (ttyStep_openCount hlocal hr) (fun _ _ => rfl)
        rw [hcount]
        exact h.closed j rest pc hexit' hpc

/-- In every run in which no last close, also of `tiny_exit`, meets a running
handler, the timers of the driver are safe. -/
theorem timers_safe (as : List Act) (h : Meets step Allowed Sys.init as) :
    Always step Safe Sys.init as := by
  apply always_mono (fun _ => safe_of_inv)
  exact always_of_meets (fun _ _ _ => step_inv) inv_init h

def undisturbed : List Act := [.tty 1 (.open true true), .tty 1 .expire,
  .tty 1 (.open true true), .tty 1 (.handler 0 true true), .tty 1 .close,
  .tty 1 (.handler 0 true true), .tty 1 (.handler 0 true true), .tty 1 (.handler 0 true true),
  .tty 1 .close, .tty 1 (.open true true), .exit, .exit, .exit, .exit, .exit, .exit, .exit]

theorem timers_safe_undisturbed :
    (run step Sys.init undisturbed).isSome ∧ Always step Safe Sys.init undisturbed :=
  ⟨by decide +kernel, timers_safe _ (by decide +kernel)⟩

/-- The last close comes while the handler runs, which then adds the timer of
the closed port again. -/
theorem close_meets_handler : ¬ ∀ as, Always step Safe Sys.init as := by
  intro h
  have hrun := h [.tty 0 (.open true true), .tty 0 .expire, .tty 0 (.handler 0 true true),
    .tty 0 (.handler 0 true true), .tty 0 (.handler 0 true true), .tty 0 .close,
    .tty 0 (.handler 0 true true)]
  have hlast := (((((((hrun.2 _ rfl).2 _ rfl).2 _ rfl).2 _ rfl).2 _ rfl).2 _ rfl).2 _ rfl)
  exact Bool.noConfusion (hlast.idle 0 rfl rfl)

end LinuxDriver.TinyTtyTimer
