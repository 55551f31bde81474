import LinuxDriver.Circ
import LinuxDriver.Runs

namespace LinuxDriver.TinySerial

open Circ

def wakeupChars : Nat := 256

def tinyDataCharacter : Char := 't'

def kaCount : Nat := 0

inductive Event
  | wrote (c : UInt8)
  | wroteXChar (c : UInt8)
  | stopTx
  | writeWakeup
  | insertFlip (c : Char)
  | flipBufferPush
  | addTimer
deriving DecidableEq

/-- `struct uart_port` with the `xmit` buffer of its state. `stopped` is
`uart_tx_stopped`, and `tty` says that the port has a tty. -/
structure UartPort (k : Nat) where
  xmit : CircBuf UInt8 k
  xChar : UInt8
  icountTx : BitVec 32
  fifosize : BitVec 32
  stopped : Bool
  tty : Bool
  trace : List Event

variable {k : Nat}

def UartPort.log (p : UartPort k) (e : Event) : UartPort k := { p with trace := p.trace ++ [e] }

def tinyStopTx (p : UartPort k) : UartPort k := p.log .stopTx

def sendOne (p : UartPort k) : UartPort k :=
  let p' := p.log (.wrote (p.xmit.buf p.xmit.tail))
  { p' with xmit := p.xmit.advance, icountTx := p.icountTx + 1 }

def txLoop (count : BitVec 32) (p : UartPort k) : UartPort k :=
  let p' := sendOne p
  if p'.xmit.isEmpty then p'
  else if 0 < (count - 1).toInt then txLoop (count - 1) p'
  else p'
termination_by count.toNat
decreasing_by
  rename_i h
  by_cases h0 : count = 0
  · subst h0
    exact absurd h (by decide)
  · bv_omega

def tinyTxChars (p : UartPort k) : UartPort k :=
  if p.xChar ≠ 0 then
    let p' := p.log (.wroteXChar p.xChar)
    { p' with icountTx := p.icountTx + 1, xChar := 0 }
  else if p.xmit.isEmpty || p.stopped then tinyStopTx p
  else
    let p' := txLoop p.fifosize p
    let p'' := if p'.xmit.cnt < wakeupChars then p'.log .writeWakeup else p'
    if p''.xmit.isEmpty then tinyStopTx p'' else p''

/-- The loop of `tiny_start_tx`, which only moves the tail. -/
def tinyStartTx (p : UartPort k) : UartPort k :=
  if p.xmit.isEmpty then p else tinyStartTx { p with xmit := p.xmit.advance }
termination_by p.xmit.cnt
decreasing_by
  rename_i h
  have hcnt := cnt_advance p.xmit (Bool.eq_false_of_not_eq_true h)
  omega

def tinyTimer (p : UartPort k) : UartPort k :=
  if !p.tty then p
  else
    let p := p.log (.insertFlip tinyDataCharacter)
    let p := if kaCount % 5 = 0 then p.log (.insertFlip '\n') else p
    tinyTxChars ((p.log .flipBufferPush).log .addTimer)

/-- How often the loop body runs if the buffer does not get empty. -/
def turns (count : BitVec 32) : Nat := if count.toNat ≤ 2 ^ 31 then max 1 count.toNat else 1

theorem toInt_pred_pos {count : BitVec 32} :
    0 < (count - 1).toInt ↔ 2 ≤ count.toNat ∧ count.toNat ≤ 2 ^ 31 := by
  rw [BitVec.toInt_eq_toNat_cond]
  constructor
  · intro h
    split at h <;> bv_omega
  · intro h
    split <;> bv_omega

theorem turns_next {count : BitVec 32} (h : 0 < (count - 1).toInt) :
    turns count = turns (count - 1) + 1 := by
  obtain ⟨h2, hle⟩ := toInt_pred_pos.mp h
  have hpred : (count - 1).toNat = count.toNat - 1 := by bv_omega
  simp only [turns, hpred]
  rw [if_pos hle, if_pos (by omega)]
  omega

theorem turns_last {count : BitVec 32} (h : ¬ 0 < (count - 1).toInt) : turns count = 1 := by
  rw [toInt_pred_pos] at h
  rw [turns]
  split <;> omega

def send (n : Nat) (p : UartPort k) : UartPort k :=
  { p with
    xmit := p.xmit.skip n
    icountTx := p.icountTx + BitVec.ofNat 32 n
    trace := p.trace ++ (p.xmit.pending.take n).map .wrote }

theorem sendOne_eq {p : UartPort k} (h : p.xmit.isEmpty = false) : sendOne p = send 1 p := by
  simp [sendOne, send, UartPort.log, skip_one, pending_advance p.xmit h]

theorem send_send {p : UartPort k} (h : p.xmit.isEmpty = false) (n : Nat) :
    send n (send 1 p) = send (n + 1) p := by
  have hcount : p.icountTx + 1#32 + BitVec.ofNat 32 n =
      p.icountTx + BitVec.ofNat 32 (n + 1) := by
    rw [BitVec.add_assoc, Nat.add_comm n 1, BitVec.ofNat_add]
  simp [send, skip_one, advance_skip, pending_advance p.xmit h, hcount]

theorem turns_pos (count : BitVec 32) : 1 ≤ turns count := by
  rw [turns]
  split <;> omega

theorem txLoop_eq (count : BitVec 32) (p : UartPort k) (h : p.xmit.isEmpty = false) :
    txLoop count p = send (min p.xmit.cnt (turns count)) p := by
  have hfirst := sendOne_eq h
  have hcnt := cnt_advance p.xmit h
  have hxmit : (sendOne p).xmit = p.xmit.advance := rfl
  induction count, p using txLoop.induct with
  | case1 count p p' hempty =>
    have h0 : p.xmit.advance.cnt = 0 := (isEmpty_iff _).mp hempty
    have hmin : min p.xmit.cnt (turns count) = 1 := by
      have := turns_pos count
      omega
    rw [txLoop, if_pos hempty, hfirst, hmin]
  | case2 count p p' hempty hmore ih =>
    have hne : (sendOne p).xmit.isEmpty = false := Bool.eq_false_of_not_eq_true hempty
    have hrest := ih hne (sendOne_eq hne) (cnt_advance _ hne) rfl
    have hmin : min p.xmit.cnt (turns count) =
        min p.xmit.advance.cnt (turns (count - 1)) + 1 := by
      rw [turns_next hmore]
      omega
    rw [txLoop, if_neg hempty, if_pos hmore, hrest, hmin, ← send_send h, ← hfirst]
    rfl
  | case3 count p p' hempty hlast =>
    have hmin : min p.xmit.cnt (turns count) = 1 := by
      rw [turns_last hlast]
      omega
    rw [txLoop, if_neg hempty, if_neg hlast, hfirst, hmin]

theorem tinyStartTx_eq (p : UartPort k) :
    ∃ xmit : CircBuf UInt8 k, xmit.isEmpty = true ∧ tinyStartTx p = { p with xmit := xmit } := by
  induction p using tinyStartTx.induct with
  | case1 p hempty =>
    rw [tinyStartTx, if_pos hempty]
    exact ⟨p.xmit, hempty, rfl⟩
  | case2 p hne ih =>
    rw [tinyStartTx, if_neg hne]
    exact ih

theorem tinyStartTx_of_isEmpty {p : UartPort k} (h : p.xmit.isEmpty = true) :
    tinyStartTx p = p := by
  rw [tinyStartTx, if_pos h]

end LinuxDriver.TinySerial
