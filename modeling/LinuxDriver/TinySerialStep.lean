import LinuxDriver.TinySerial

namespace LinuxDriver.TinySerialStep

open Circ TinySerial

variable {k : Nat}

theorem turns_fifosize {count : BitVec 32} (hpos : 1 ≤ count.toNat)
    (hle : count.toNat ≤ 2 ^ 31 - 1) : turns count = count.toNat := by
  rw [turns, if_pos (by omega)]
  omega

def wake (p : UartPort k) : List Event :=
  (if p.xmit.cnt < wakeupChars then [.writeWakeup] else []) ++
    (if p.xmit.cnt = 0 then [.stopTx] else [])

theorem wake_eq (p : UartPort k) :
    (let p' := if p.xmit.cnt < wakeupChars then p.log .writeWakeup else p
      if p'.xmit.isEmpty then tinyStopTx p' else p') = { p with trace := p.trace ++ wake p } := by
  have hempty := Circ.isEmpty_iff p.xmit
  have hlog : (p.log .writeWakeup).xmit = p.xmit := rfl
  dsimp only
  rw [wake]
  by_cases hlow : p.xmit.cnt < wakeupChars
  · simp only [if_pos hlow, hlog, hempty]
    by_cases hnone : p.xmit.cnt = 0
    · simp [hnone, tinyStopTx, UartPort.log]
    · simp [hnone, UartPort.log]
  · have hsome : p.xmit.cnt ≠ 0 := fun h => hlow (by rw [h]; decide)
    simp [hlow, hempty, hsome]

theorem txChars_sends {p : UartPort k} (hx : p.xChar = 0) (hne : p.xmit.isEmpty = false)
    (hrun : p.stopped = false) :
    let q := send (min p.xmit.cnt (turns p.fifosize)) p
    tinyTxChars p = { q with trace := q.trace ++ wake q } := by
  dsimp only
  rw [← wake_eq]
  simp only [tinyTxChars, hx, ne_eq, not_true_eq_false, if_false, hne, hrun, Bool.or_false,
    Bool.false_eq_true, txLoop_eq p.fifosize p hne]

/-- One call of `tiny_tx_chars`. -/
theorem tx_chars_step (p : UartPort k) (hpos : 1 ≤ p.fifosize.toNat)
    (hle : p.fifosize.toNat ≤ 2 ^ 31 - 1) :
    let r := tinyTxChars p
    let pending := (((p.xmit.head : Int) - p.xmit.tail) % (2 ^ k : Nat)).toNat
    let n := min pending p.fifosize.toNat
    (p.xChar ≠ 0 → r = { p with
      xChar := 0
      icountTx := p.icountTx + 1
      trace := p.trace ++ [.wroteXChar p.xChar] }) ∧
    (p.xChar = 0 → p.xmit.head = p.xmit.tail ∨ p.stopped = true →
      r = { p with trace := p.trace ++ [.stopTx] }) ∧
    (p.xChar = 0 → p.xmit.head ≠ p.xmit.tail → p.stopped = false →
      r.trace = p.trace ++
          (List.range n).map (fun i => .wrote (p.xmit.buf ((p.xmit.tail + i) % 2 ^ k))) ++
          (if pending - n < wakeupChars then [.writeWakeup] else []) ++
          (if pending - n = 0 then [.stopTx] else []) ∧
        r.xmit.buf = p.xmit.buf ∧ r.xmit.head = p.xmit.head ∧
        r.xmit.tail = (p.xmit.tail + n) % 2 ^ k ∧
        r.icountTx.toNat = (p.icountTx.toNat + n) % 2 ^ 32 ∧
        r.xChar = 0 ∧ r.fifosize = p.fifosize ∧ r.stopped = false ∧ r.tty = p.tty) := by
  intro r pending n
  have hpend : pending = p.xmit.cnt := rfl
  refine ⟨fun hx => ?_, fun hx hstop => ?_, fun hx hne hrun => ?_⟩
  · change tinyTxChars p = _
    simp only [tinyTxChars, if_pos hx, UartPort.log]
  · change tinyTxChars p = _
    have hor : (p.xmit.isEmpty || p.stopped) = true := by simpa [CircBuf.isEmpty] using hstop
    simp only [tinyTxChars, hx, ne_eq, not_true_eq_false, if_false, hor, if_true, tinyStopTx,
      UartPort.log]
  · have hempty : p.xmit.isEmpty = false := by simpa [CircBuf.isEmpty] using hne
    have hn : min p.xmit.cnt (turns p.fifosize) = n := by rw [turns_fifosize hpos hle, ← hpend]
    have hr : r = { send n p with trace := (send n p).trace ++ wake (send n p) } := by
      rw [← hn]
      exact txChars_sends hx hempty hrun
    have hle : n ≤ p.xmit.cnt := Nat.min_le_left _ _
    have hleft : (send n p).xmit.cnt = pending - n := cnt_skip p.xmit hle
    rw [hr]
    refine ⟨?_, rfl, rfl, rfl, ?_, hx, rfl, hrun, rfl⟩
    · rw [wake, hleft, ← List.append_assoc]
      simp only [send, pending_take p.xmit hle, List.map_map]
      rfl
    · change (p.icountTx + BitVec.ofNat 32 n).toNat = _
      rw [BitVec.toNat_add, BitVec.toNat_ofNat, Nat.add_mod_mod]

def wrapped : UartPort 12 where
  xmit := (CircBuf.skip 4095 ⟨fun i => UInt8.ofNat i, 0, 0, Nat.two_pow_pos 12,
    Nat.two_pow_pos 12⟩).push 7
  xChar := 0
  icountTx := 0xffffffff
  fifosize := 8
  stopped := false
  tty := true
  trace := []

theorem tx_chars_step_wrapped :
    (tinyTxChars wrapped).trace = [.wrote 255, .wrote 7, .writeWakeup, .stopTx] ∧
      (tinyTxChars wrapped).xmit.tail = 1 ∧ (tinyTxChars wrapped).icountTx.toNat = 1 := by
  obtain ⟨-, -, h⟩ := tx_chars_step wrapped (by decide +kernel) (by decide +kernel)
  obtain ⟨htrace, -, -, htail, hcount, -⟩ := h rfl (by decide +kernel) rfl
  exact ⟨htrace.trans (by decide +kernel), htail.trans (by decide +kernel),
    hcount.trans (by decide +kernel)⟩

end LinuxDriver.TinySerialStep
