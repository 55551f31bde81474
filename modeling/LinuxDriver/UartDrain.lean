import LinuxDriver.UartIrq

namespace LinuxDriver.UartDrain

open Runs Circ Uart UartWork UartTx UartIrq

variable {k : Nat}

/-- What happens without a new call of the uart core: the interrupts, the loops of the
driver, the hardware and what is left of a call of the console. -/
def Unattended : Act → Prop
  | .txIrq | .rxIrq | .turn | .shift | .consolePut => True
  | _ => False

def weight : Cpu → Nat
  | .idle => 2
  | .txChars n => if n = 256 then 1 else 3
  | .rxChars n => if n = 64 then 1 else 3
  | .rxEnable n => 3 + n

def xWork (x : UInt8) : Nat := if x ≠ 0 then 3 else 0

def txWork (t : Tx k) : Nat := 6 * t.xmit.cnt + t.txFifo.length + xWork t.xChar

def portWork (p : Port k) : Nat :=
  txWork (tx p) + (if p.txEnabled then 10003 else 0) + 3 * p.rxFifo.length + weight p.cpu

/-- What is left to do. -/
def work (s : Sys k) : Nat := portWork s.port + 2 * s.cons.length

structure Kept (s t : Sys k) : Prop where
  opened : t.opened = s.opened
  stopped : t.port.stopped = s.port.stopped

def Sending (p : Port k) : Prop := p.xChar ≠ 0 → p.txEnabled = true

/-- What went out with what is still to go, for each kind of character. -/
structure Load where
  chars : List UInt8
  console : List UInt8
  xchars : List UInt8

def load (s : Sys k) : Load where
  chars := (out (tx s.port)).filterMap char ++ (tx s.port).xmit.pending
  console := (out (tx s.port)).filterMap console ++ s.cons
  xchars := (out (tx s.port)).filterMap xchar ++ xPending (tx s.port)

/-- Where nothing more happens by itself, all has gone out. -/
theorem ended {u : Sys k} (hinv : Inv u) (hfifo : 0 < u.port.fifosize)
    (hopen : u.opened = true) (hstop : u.port.stopped = false)
    (hend : ∀ a, Unattended a → step u a = none) :
    u.port.line.filterMap char = (load u).chars ∧
      u.port.line.filterMap console = (load u).console ∧
      (Sending u.port → u.port.line.filterMap xchar = (load u).xchars) := by
  have hidle : u.port.cpu = .idle := by
    have hturn := hend .turn trivial
    cases hcpu : u.port.cpu with
    | idle => rfl
    | txChars n | rxChars n | rxEnable n =>
      simp only [step, turn, hcpu, Option.map_some] at hturn
      cases hturn
  have hempty : u.port.txFifo = [] := by
    have hshift := hend .shift trivial
    cases hfifo : u.port.txFifo with
    | nil => rfl
    | cons o os =>
      simp only [step, hfifo] at hshift
      cases hshift
  have hroom : u.port.txFifo.length < u.port.fifosize := hempty ▸ hfifo
  have hput : u.cons = [] := by
    have hput := hend .consolePut trivial
    cases hc : u.cons with
    | nil => rfl
    | cons c cs =>
      simp only [step, hc] at hput
      rw [if_pos ⟨hidle, hroom⟩] at hput
      cases hput
  have hoff : u.port.txEnabled = false := by
    by_contra hon
    have hirq := hend .txIrq trivial
    have hdepth : u.port.txIrq.depth = if u.port.txEnabled then 0 else 1 :=
      (hinv.opened hopen).depth
    rw [if_pos (Bool.eq_true_of_not_eq_false hon)] at hdepth
    have hlive : u.port.txIrq.live = true :=
      Bool.and_eq_true_iff.mpr ⟨(hinv.opened hopen).txInstalled, decide_eq_true hdepth⟩
    simp only [step] at hirq
    rw [if_pos ⟨hidle, hlive, hroom⟩] at hirq
    cases hirq
  have hpending : u.port.xmit.pending = [] := by
    rw [pending_eq_nil]
    by_contra hne
    have hon := hinv.enabled hopen hstop (Bool.eq_false_of_not_eq_true hne)
    exact Bool.noConfusion (hon.symm.trans hoff)
  have hout : out (tx u.port) = u.port.line := by
    change u.port.line ++ u.port.txFifo = u.port.line
    rw [hempty, List.append_nil]
  have hring : (tx u.port).xmit.pending = [] := hpending
  refine ⟨?_, ?_, fun hsending => ?_⟩
  · rw [load, hout, hring, List.append_nil]
  · rw [load, hout, hput, List.append_nil]
  · have hx : ¬ (tx u.port).xChar ≠ 0 :=
      fun hx => Bool.noConfusion ((hsending hx).symm.trans hoff)
    rw [load, hout, xPending, if_neg hx, List.append_nil]

structure Good (fifosize : Nat) (s : Sys k) : Prop where
  inv : Inv s
  size : s.port.fifosize = fifosize

variable {buf : Nat → UInt8} {fifosize : Nat} {consFlow : Bool} {read ignore : BitVec 32}

theorem Kept.trans {s t u : Sys k} (h : Kept s t) (h' : Kept t u) : Kept s u where
  opened := h'.opened.trans h.opened
  stopped := h'.stopped.trans h.stopped

end LinuxDriver.UartDrain
