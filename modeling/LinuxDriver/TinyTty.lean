import Mathlib.Algebra.GroupWithZero.Nat
import Mathlib.Tactic.Common
import Mathlib.Data.Fin.Basic

namespace LinuxDriver.TinyTty

abbrev tinyTtyMinors : Nat := 4

instance : NeZero tinyTtyMinors := ⟨by decide⟩

def enomem : Int := 12

def tinyDataCharacter : Char := 't'

/-- `struct tiny_serial`, of which `timer` says that the pointer is not NULL. -/
structure Port where
  openCount : BitVec 32
  timer : Bool
  rxCount : BitVec 32
deriving DecidableEq

/-- The kernel calls whose order matters. `addTimer` carries whether the timer
was pending, `delTimer` and `kfreeTimer` whether the pointer was NULL. -/
inductive Event
  | kzalloc
  | kmalloc
  | addTimer (wasPending : Bool)
  | delTimer (null : Bool)
  | kfreeTimer (null : Bool)
  | kfreePort
  | stray
deriving DecidableEq

/-- What there is for one minor: its entry of `tiny_table`, whether
`tty->driver_data` points to that port, whether the kernel has the timer of the
port on its list, the characters that the flip buffer took, the calls made. -/
structure Line where
  tiny : Option Port
  driverData : Bool
  pending : Bool
  flip : List Char
  trace : List Event
deriving DecidableEq

def Line.init : Line := ⟨none, false, false, [], []⟩

def Line.log (l : Line) (e : Event) : Line := { l with trace := l.trace ++ [e] }

def Line.openCount (l : Line) : BitVec 32 := l.tiny.elim 0 Port.openCount

def Line.timer (l : Line) : Bool := l.tiny.elim false Port.timer

def addTimer (l : Line) : Line := { l.log (.addTimer l.pending) with pending := true }

def delTimer (l : Line) : Line :=
  if l.timer then { l.log (.delTimer false) with pending := false } else l.log (.delTimer true)

def ttyInsertFlipChar (accepts : Bool) (c : Char) (l : Line) : Line :=
  if accepts then { l with flip := l.flip ++ [c] } else l

def insertData (accepts acceptsNewline : Bool) (l : Line) : Line :=
  match l.tiny with
  | none => l
  | some p =>
    let p' := { p with rxCount := p.rxCount + 1 }
    let l' := { ttyInsertFlipChar accepts tinyDataCharacter l with tiny := some p' }
    if p'.rxCount.toNat % 10 = 0 then ttyInsertFlipChar acceptsNewline '\n' l' else l'

def tinyTimer (accepts acceptsNewline : Bool) (l : Line) : Line :=
  addTimer (insertData accepts acceptsNewline { l with pending := false })

def newPort : Port := ⟨0, false, 0⟩

def getPort (kzalloc : Bool) (l : Line) : Option (Port × Line) :=
  match l.tiny with
  | some p => some (p, l)
  | none => if kzalloc then some (newPort, l.log .kzalloc) else none

/-- `tiny_open`; the two flags say whether an allocation succeeds, if it is made. -/
def tinyOpen (kzalloc kmalloc : Bool) (l : Line) : Int × Line :=
  let l := { l with driverData := false }
  match getPort kzalloc l with
  | none => (-enomem, l)
  | some (p, l) =>
    let p := { p with openCount := p.openCount + 1 }
    let l := { l with tiny := some p, driverData := true }
    if p.openCount = 1 then
      if p.timer then (0, addTimer l)
      else if kmalloc then
        (0, addTimer { l.log .kmalloc with tiny := some { p with timer := true } })
      else (-enomem, l)
    else (0, l)

def doClose (l : Line) : Line :=
  match l.tiny with
  | none => l
  | some p =>
    if p.openCount = 0 then l
    else
      let p := { p with openCount := p.openCount - 1 }
      let l := { l with tiny := some p }
      if p.openCount.toInt ≤ 0 then delTimer l else l

def tinyClose (l : Line) : Line := if l.driverData then doClose l else l

section Open

variable {l : Line} {p : Port}

theorem tinyOpen_noPort (h : l.tiny = none) (kmalloc : Bool) :
    tinyOpen false kmalloc l = (-enomem, { l with driverData := false }) := by
  simp [tinyOpen, getPort, h]

theorem tinyOpen_newPort (h : l.tiny = none) :
    tinyOpen true true l = (0, ⟨some ⟨1, true, 0⟩, true, true, l.flip,
      l.trace ++ [.kzalloc, .kmalloc, .addTimer l.pending]⟩) := by
  simp [tinyOpen, getPort, h, newPort, addTimer, Line.log]

theorem tinyOpen_newPort_noTimer (h : l.tiny = none) :
    tinyOpen true false l = (-enomem, ⟨some ⟨1, false, 0⟩, true, l.pending, l.flip,
      l.trace ++ [.kzalloc]⟩) := by
  simp [tinyOpen, getPort, h, newPort, Line.log]

theorem tinyOpen_again (h : l.tiny = some p) (hc : p.openCount ≠ 0) (kzalloc kmalloc : Bool) :
    tinyOpen kzalloc kmalloc l = (0, ⟨some { p with openCount := p.openCount + 1 }, true,
      l.pending, l.flip, l.trace⟩) := by
  have hne : p.openCount + 1 ≠ 1 := by bv_omega
  simp only [tinyOpen, getPort, h, if_neg hne]

theorem tinyOpen_first (h : l.tiny = some p) (hc : p.openCount = 0) (ht : p.timer = true)
    (kzalloc kmalloc : Bool) :
    tinyOpen kzalloc kmalloc l = (0, ⟨some { p with openCount := 1 }, true, true, l.flip,
      l.trace ++ [.addTimer l.pending]⟩) := by
  simp [tinyOpen, getPort, h, hc, ht, addTimer, Line.log]

theorem tinyOpen_first_newTimer (h : l.tiny = some p) (hc : p.openCount = 0)
    (ht : p.timer = false) (kzalloc : Bool) :
    tinyOpen kzalloc true l = (0, ⟨some { p with openCount := 1, timer := true }, true, true,
      l.flip, l.trace ++ [.kmalloc, .addTimer l.pending]⟩) := by
  simp [tinyOpen, getPort, h, hc, ht, addTimer, Line.log]

theorem tinyOpen_first_noTimer (h : l.tiny = some p) (hc : p.openCount = 0)
    (ht : p.timer = false) (kzalloc : Bool) :
    tinyOpen kzalloc false l = (-enomem, ⟨some { p with openCount := 1 }, true, l.pending, l.flip,
      l.trace⟩) := by
  simp [tinyOpen, getPort, h, hc, ht]

theorem mem_tinyOpen_trace {kzalloc kmalloc : Bool} {e : Event}
    (he : e ∈ (tinyOpen kzalloc kmalloc l).2.trace) :
    e ∈ l.trace ∨ e = .kzalloc ∨ e = .kmalloc ∨ e = .addTimer l.pending := by
  cases ht : l.tiny with
  | none =>
    cases kzalloc with
    | false =>
      rw [tinyOpen_noPort ht] at he
      exact Or.inl he
    | true =>
      cases kmalloc with
      | false =>
        simp only [tinyOpen_newPort_noTimer ht, List.mem_append, List.mem_singleton] at he
        tauto
      | true =>
        simp only [tinyOpen_newPort ht, List.mem_append, List.mem_cons, List.not_mem_nil,
          or_false] at he
        exact he
  | some p =>
    by_cases hzero : p.openCount = 0
    · cases htimer : p.timer with
      | true =>
        simp only [tinyOpen_first ht hzero htimer, List.mem_append, List.mem_singleton] at he
        tauto
      | false =>
        cases kmalloc with
        | true =>
          simp only [tinyOpen_first_newTimer ht hzero htimer, List.mem_append, List.mem_cons,
            List.not_mem_nil, or_false] at he
          tauto
        | false =>
          rw [tinyOpen_first_noTimer ht hzero htimer] at he
          exact Or.inl he
    · rw [tinyOpen_again ht hzero] at he
      exact Or.inl he

end Open

theorem doClose_zero {l : Line} (h : l.openCount = 0) : doClose l = l := by
  rw [Line.openCount] at h
  rw [doClose]
  cases ht : l.tiny with
  | none => rfl
  | some p =>
    simp only [ht, Option.elim_some] at h
    simp only [h, if_true]

section Close

variable {l : Line} {p : Port}

theorem doClose_more (h : l.tiny = some p) (hc : p.openCount ≠ 0)
    (hmore : ¬ (p.openCount - 1).toInt ≤ 0) :
    doClose l = { l with tiny := some { p with openCount := p.openCount - 1 } } := by
  simp only [doClose, h, if_neg hc, if_neg hmore]

theorem doClose_last (h : l.tiny = some p) (hc : p.openCount ≠ 0)
    (hlast : (p.openCount - 1).toInt ≤ 0) (ht : p.timer = true) :
    doClose l = ⟨some { p with openCount := p.openCount - 1 }, l.driverData, false, l.flip,
      l.trace ++ [.delTimer false]⟩ := by
  simp only [doClose, h, if_neg hc, if_pos hlast, delTimer, Line.timer, Option.elim_some, ht,
    if_true, Line.log]

theorem doClose_last_noTimer (h : l.tiny = some p) (hc : p.openCount ≠ 0)
    (hlast : (p.openCount - 1).toInt ≤ 0) (ht : p.timer = false) :
    doClose l = ⟨some { p with openCount := p.openCount - 1 }, l.driverData, l.pending, l.flip,
      l.trace ++ [.delTimer true]⟩ := by
  simp only [doClose, h, if_neg hc, if_pos hlast, delTimer, Line.timer, Option.elim_some, ht,
    Bool.false_eq_true, if_false, Line.log]

end Close

theorem insertData_eq (accepts acceptsNewline : Bool) (l : Line) :
    insertData accepts acceptsNewline l =
      ⟨l.tiny.map (fun p => { p with rxCount := p.rxCount + 1 }), l.driverData, l.pending,
        (insertData accepts acceptsNewline l).flip, l.trace⟩ := by
  obtain ⟨tiny, driverData, pending, flip, trace⟩ := l
  cases tiny with
  | none => rfl
  | some p =>
    rw [insertData]
    simp only
    split
    · cases accepts <;> cases acceptsNewline <;> rfl
    · cases accepts <;> rfl

theorem tinyTimer_eq (accepts acceptsNewline : Bool) (l : Line) :
    tinyTimer accepts acceptsNewline l =
      ⟨l.tiny.map (fun p => { p with rxCount := p.rxCount + 1 }), l.driverData, true,
        (insertData accepts acceptsNewline { l with pending := false }).flip,
        l.trace ++ [.addTimer false]⟩ := by
  rw [tinyTimer, insertData_eq]
  rfl

@[simp]
theorem delTimer_tiny (l : Line) : (delTimer l).tiny = l.tiny := by
  rw [delTimer]
  split <;> rfl

@[simp]
theorem delTimer_trace (l : Line) : (delTimer l).trace = l.trace ++ [.delTimer (!l.timer)] := by
  rw [delTimer]
  cases l.timer <;> rfl

theorem pending_of_delTimer {l : Line} (h : (delTimer l).pending = true) : l.pending = true := by
  rw [delTimer] at h
  split at h
  · cases h
  · exact h

theorem mem_doClose_trace {l : Line} {e : Event} (he : e ∈ (doClose l).trace) :
    e ∈ l.trace ∨ e = .delTimer (!l.timer) := by
  rw [doClose] at he
  cases ht : l.tiny with
  | none =>
    rw [ht] at he
    exact Or.inl he
  | some p =>
    simp only [ht] at he
    split at he
    · exact Or.inl he
    · split at he
      · simpa [Line.timer, ht] using he
      · exact Or.inl he

@[simp]
theorem doClose_isSome (l : Line) : (doClose l).tiny.isSome = l.tiny.isSome := by
  rw [doClose]
  cases ht : l.tiny with
  | none => simp [ht]
  | some p =>
    simp only
    split
    · simp [ht]
    · split <;> simp

theorem openCount_doClose (l : Line) (h : l.openCount ≠ 0) :
    (doClose l).openCount = l.openCount - 1 := by
  simp only [Line.openCount] at h ⊢
  rw [doClose]
  cases ht : l.tiny with
  | none => simp [ht] at h
  | some p =>
    simp only [ht, Option.elim_some] at h ⊢
    rw [if_neg h]
    split <;> simp

theorem openCount_doClose_lt (l : Line) (h : l.openCount ≠ 0) :
    (doClose l).openCount.toNat < l.openCount.toNat := by
  rw [openCount_doClose l h]
  bv_omega

def closeLoop (l : Line) : Line :=
  if l.openCount = 0 then l else closeLoop (doClose l)
termination_by l.openCount.toNat
decreasing_by exact openCount_doClose_lt l (by assumption)

def kfreeTimer (l : Line) : Line := l.log (.kfreeTimer (!l.timer))

def kfreePort (l : Line) : Line := { l.log .kfreePort with tiny := none }

def exitPort (l : Line) : Line :=
  match l.tiny with
  | none => l
  | some _ => kfreePort (kfreeTimer (delTimer (closeLoop l)))

def tinyExit (lines : Fin tinyTtyMinors → Line) : Fin tinyTtyMinors → Line :=
  (List.finRange tinyTtyMinors).foldl (fun ls i => Function.update ls i (exitPort (ls i))) lines

theorem closeLoop_keeps {P : Line → Prop} (hP : ∀ l, P l → P (doClose l)) (l : Line) (h : P l) :
    P (closeLoop l) ∧ (closeLoop l).openCount = 0 := by
  induction l using closeLoop.induct with
  | case1 l hzero =>
    rw [closeLoop, if_pos hzero]
    exact ⟨h, hzero⟩
  | case2 l hpos ih =>
    rw [closeLoop, if_neg hpos]
    exact ih (hP l h)

theorem free_eq {l : Line} (ht : l.timer = true) :
    kfreePort (kfreeTimer (delTimer l)) = ⟨none, l.driverData, false, l.flip,
      l.trace ++ [.delTimer false, .kfreeTimer false, .kfreePort]⟩ := by
  have ht' : (delTimer l).timer = true := by
    rw [Line.timer, delTimer_tiny]
    exact ht
  rw [kfreePort, kfreeTimer, ht', delTimer, if_pos ht]
  simp [Line.log]

/-- `tiny_exit` treats each port on its own. -/
theorem tinyExit_apply (lines : Fin tinyTtyMinors → Line) (i : Fin tinyTtyMinors) :
    tinyExit lines i = exitPort (lines i) := by
  have hgen : ∀ (todo : List (Fin tinyTtyMinors)) (ls : Fin tinyTtyMinors → Line), todo.Nodup →
      todo.foldl (fun ls i => Function.update ls i (exitPort (ls i))) ls i =
        if i ∈ todo then exitPort (ls i) else ls i := by
    intro todo
    induction todo with
    | nil => intro ls _; rfl
    | cons j todo ih =>
      intro ls hnodup
      obtain ⟨hj, hnodup⟩ := List.nodup_cons.mp hnodup
      rw [List.foldl_cons, ih _ hnodup]
      by_cases hij : i = j
      · subst hij
        rw [if_neg hj, if_pos List.mem_cons_self, Function.update_self]
      · simp only [Function.update_of_ne hij, List.mem_cons, hij, false_or]
  rw [tinyExit, hgen _ _ (List.nodup_finRange _), if_pos (List.mem_finRange i)]

end LinuxDriver.TinyTty
