import LinuxDriver.TinySerial

namespace LinuxDriver.TinySerialTx

open Runs Circ TinySerial

variable {k : Nat}

def char : Event → Option UInt8
  | .wrote c => some c
  | _ => none

def isXChar : Event → Bool
  | .wroteXChar _ => true
  | _ => false

def emitted (p : UartPort k) : List UInt8 := p.trace.filterMap char

def xSent (p : UartPort k) : Nat := p.trace.countP isXChar

structure Sys (k : Nat) where
  port : UartPort k
  appended : List UInt8

inductive Act
  | append (c : UInt8)
  | startTx
  | expire
  | xChar (c : UInt8)
  | stop (stopped : Bool)

def step (c : Sys k) : Act → Option (Sys k)
  | .append x =>
    if c.port.xmit.hasSpace then
      some ⟨{ c.port with xmit := c.port.xmit.push x }, c.appended ++ [x]⟩
    else none
  | .startTx => some { c with port := tinyStartTx c.port }
  | .expire => some { c with port := tinyTimer c.port }
  | .xChar x => some { c with port := { c.port with xChar := x } }
  | .stop stopped => some { c with port := { c.port with stopped := stopped } }

def Sys.start (k : Nat) (buf : Nat → UInt8) (fifosize : BitVec 32) (tty : Bool) : Sys k :=
  ⟨⟨⟨buf, 0, 0, Nat.two_pow_pos k, Nat.two_pow_pos k⟩, 0, 0, fifosize, false, tty, []⟩, []⟩

/-- What was appended was emitted or is pending, in order, and `icount.tx` counts
what was sent. -/
structure Conserved (c : Sys k) : Prop where
  chars : emitted c.port ++ c.port.xmit.pending = c.appended
  count : c.port.icountTx.toNat = (emitted c.port).length + xSent c.port

def sends (p : UartPort k) : Nat × Nat :=
  if !p.tty then (0, 0)
  else if p.xChar ≠ 0 then (0, 1)
  else if p.xmit.isEmpty || p.stopped then (0, 0)
  else (min p.xmit.cnt (turns p.fifosize), 0)

/-- `tiny_start_tx` finds nothing to drop, and `icount.tx` does not overflow. -/
def Allowed (c : Sys k) : Act → Prop
  | .startTx => c.port.xmit.isEmpty = true
  | .expire => c.port.icountTx.toNat + (sends c.port).1 + (sends c.port).2 < 2 ^ 32
  | _ => True

structure Sent (p q : UartPort k) (n x : Nat) : Prop where
  le : n ≤ p.xmit.cnt
  emitted : emitted q = emitted p ++ p.xmit.pending.take n
  pending : q.xmit.pending = p.xmit.pending.drop n
  xSent : xSent q = xSent p + x
  icountTx : q.icountTx = p.icountTx + BitVec.ofNat 32 (n + x)

theorem emitted_log (p : UartPort k) {e : Event} (h : char e = none) :
    emitted (p.log e) = emitted p := by
  simp [emitted, UartPort.log, h]

theorem xSent_log (p : UartPort k) {e : Event} (h : isXChar e = false) :
    xSent (p.log e) = xSent p := by
  simp [xSent, UartPort.log, h]

theorem Sent.refl (p : UartPort k) : Sent p p 0 0 := by
  constructor <;> simp

theorem Sent.log {p q : UartPort k} {n x : Nat} (h : Sent p q n x) {e : Event}
    (hc : char e = none) (hx : isXChar e = false) : Sent p (q.log e) n x where
  le := h.le
  emitted := (emitted_log q hc).trans h.emitted
  pending := h.pending
  xSent := (xSent_log q hx).trans h.xSent
  icountTx := h.icountTx

theorem Sent.log_if {p q : UartPort k} {n x : Nat} (h : Sent p q n x) (b : Prop) [Decidable b]
    {e : Event} (hc : char e = none) (hx : isXChar e = false) :
    Sent p (if b then q.log e else q) n x := by
  split
  · exact h.log hc hx
  · exact h

theorem filterMap_wrote (cs : List UInt8) : (cs.map Event.wrote).filterMap char = cs := by
  induction cs with
  | nil => rfl
  | cons c cs ih =>
    have hc : char (.wrote c) = some c := rfl
    rw [List.map_cons, List.filterMap_cons_some hc, ih]

theorem countP_wrote (cs : List UInt8) : (cs.map Event.wrote).countP isXChar = 0 := by
  rw [List.countP_map]
  exact List.countP_eq_zero.mpr (fun _ _ => Bool.false_ne_true)

theorem send_sent {p : UartPort k} {n : Nat} (hn : n ≤ p.xmit.cnt) : Sent p (send n p) n 0 where
  le := hn
  emitted := by rw [emitted, send, List.filterMap_append, filterMap_wrote]; rfl
  pending := pending_skip p.xmit n hn
  xSent := by rw [xSent, send, List.countP_append, countP_wrote]; rfl
  icountTx := rfl

theorem tinyTxChars_sent (p : UartPort k) (ht : p.tty = true) :
    Sent p (tinyTxChars p) (sends p).1 (sends p).2 := by
  have htty : (!p.tty) = false := by simp [ht]
  rw [tinyTxChars, sends]
  rw [htty, if_neg Bool.false_ne_true]
  split
  · constructor <;> simp [emitted, xSent, UartPort.log, char, isXChar]
  · split
    · exact (Sent.refl p).log rfl rfl
    · rename_i hbusy
      have hne : p.xmit.isEmpty = false := by
        by_contra hno
        simp [hno] at hbusy
      have hsent := send_sent (Nat.min_le_left p.xmit.cnt (turns p.fifosize))
      rw [← txLoop_eq p.fifosize p hne] at hsent
      have hwakeup := hsent.log_if ((txLoop p.fifosize p).xmit.cnt < wakeupChars)
        (e := .writeWakeup) rfl rfl
      exact hwakeup.log_if _ rfl rfl

theorem Sent.of_log {p q : UartPort k} {n x : Nat} {e : Event} (h : Sent (p.log e) q n x)
    (hc : char e = none) (hx : isXChar e = false) : Sent p q n x where
  le := h.le
  emitted := by
    rw [h.emitted, emitted_log p hc]
    rfl
  pending := h.pending
  xSent := by rw [h.xSent, xSent_log p hx]
  icountTx := h.icountTx

theorem sends_log (p : UartPort k) (e : Event) : sends (p.log e) = sends p := rfl

theorem tinyTimer_sent (p : UartPort k) : Sent p (tinyTimer p) (sends p).1 (sends p).2 := by
  cases ht : p.tty with
  | false =>
    have h0 : sends p = (0, 0) := by simp [sends, ht]
    simp only [tinyTimer, ht, h0, Bool.not_false, if_true]
    exact Sent.refl p
  | true =>
    have h := tinyTxChars_sent ((((p.log (.insertFlip tinyDataCharacter)).log
      (.insertFlip '\n')).log .flipBufferPush).log .addTimer) ht
    simp only [sends_log] at h
    simp only [tinyTimer, ht, Bool.not_true, Bool.false_eq_true, if_false, kaCount, Nat.zero_mod,
      if_true]
    exact (((h.of_log rfl rfl).of_log rfl rfl).of_log rfl rfl).of_log rfl rfl

/-- What was appended was emitted or is pending, in order. -/
def CharsKept (c : Sys k) : Prop := emitted c.port ++ c.port.xmit.pending = c.appended

theorem Sent.charsKept {c : Sys k} {q : UartPort k} {n x : Nat} (hs : Sent c.port q n x)
    (h : CharsKept c) : CharsKept ⟨q, c.appended⟩ := by
  rw [CharsKept, hs.emitted, hs.pending, List.append_assoc, List.take_append_drop]
  exact h

theorem append_charsKept {c d : Sys k} {x : UInt8} (h : CharsKept c)
    (hstep : step c (.append x) = some d) : CharsKept d := by
  simp only [step] at hstep
  split at hstep
  · rename_i hspace
    cases hstep
    rw [CharsKept] at h ⊢
    rw [← h, List.append_assoc]
    exact congrArg _ (pending_push c.port.xmit x hspace)
  · cases hstep

/-- `tiny_start_tx` keeps the characters exactly when it has none to drop. -/
theorem startTx_charsKept {c : Sys k} (h : CharsKept c) :
    CharsKept ⟨tinyStartTx c.port, c.appended⟩ ↔ c.port.xmit.isEmpty = true := by
  constructor
  · intro hq
    obtain ⟨xmit, hempty, heq⟩ := tinyStartTx_eq c.port
    rw [CharsKept, heq] at hq
    have hnil : xmit.pending = [] := (pending_eq_nil xmit).mpr hempty
    have hpending : c.port.xmit.pending = [] := by
      have hsame : emitted c.port ++ c.port.xmit.pending = emitted c.port ++ [] := by
        rw [CharsKept] at h
        rw [h, ← hq]
        simp only [hnil]
        rfl
      exact List.append_cancel_left hsame
    exact (pending_eq_nil c.port.xmit).mp hpending
  · intro hempty
    rw [tinyStartTx_of_isEmpty hempty]
    exact h

def StartsEmpty (c : Sys k) : Act → Prop
  | .startTx => c.port.xmit.isEmpty = true
  | _ => True

theorem charsKept_start (k : Nat) (buf : Nat → UInt8) (fifosize : BitVec 32) (tty : Bool) :
    CharsKept (Sys.start k buf fifosize tty) := by
  change ([] : List UInt8) ++ _ = []
  exact (pending_eq_nil _).mpr rfl

/-- Whatever the counter does, the characters are neither lost, repeated nor reordered
exactly when `tiny_start_tx` is only called on an empty buffer. -/
theorem chars_kept_iff (buf : Nat → UInt8) (fifosize : BitVec 32) (tty : Bool)
    (as : List Act) :
    Always step CharsKept (Sys.start k buf fifosize tty) as ↔
      Meets step StartsEmpty (Sys.start k buf fifosize tty) as := by
  refine always_iff_meets (fun _ h => h) ?_ ?_ as (charsKept_start k buf fifosize tty)
  · intro c a d h ha hstep
    cases a with
    | append x => exact append_charsKept h hstep
    | startTx =>
      cases hstep
      exact (startTx_charsKept h).mpr ha
    | expire =>
      cases hstep
      exact (tinyTimer_sent c.port).charsKept h
    | xChar x | stop stopped =>
      cases hstep
      exact h
  · intro c a h ha
    cases a with
    | startTx => exact ⟨_, rfl, fun hgood => ha ((startTx_charsKept h).mp hgood)⟩
    | append x | expire | xChar x | stop stopped => exact absurd trivial ha

theorem sent_conserved {c : Sys k} {q : UartPort k} {n x : Nat} (h : Conserved c)
    (hs : Sent c.port q n x) :
    Conserved ⟨q, c.appended⟩ ↔ c.port.icountTx.toNat + n + x < 2 ^ 32 := by
  have hlen : (emitted q).length = (emitted c.port).length + n := by
    rw [hs.emitted, List.length_append, List.length_take, length_pending, Nat.min_eq_left hs.le]
  have hcount : q.icountTx.toNat = (c.port.icountTx.toNat + n + x) % 2 ^ 32 := by
    rw [hs.icountTx, BitVec.toNat_add, BitVec.toNat_ofNat, Nat.add_mod_mod, Nat.add_assoc]
  have hold := h.count
  constructor
  · intro hq
    have hnew := hq.count
    rw [hcount, hlen, hs.xSent] at hnew
    have := Nat.mod_lt (c.port.icountTx.toNat + n + x) (Nat.two_pow_pos 32)
    omega
  · intro hlt
    refine ⟨?_, ?_⟩
    · exact hs.charsKept h.chars
    · rw [hcount, hlen, hs.xSent, Nat.mod_eq_of_lt hlt]
      omega

theorem startTx_conserved {c : Sys k} (h : Conserved c) :
    Conserved ⟨tinyStartTx c.port, c.appended⟩ ↔ c.port.xmit.isEmpty = true := by
  constructor
  · intro hq
    exact (startTx_charsKept h.chars).mp hq.chars
  · intro hempty
    rw [tinyStartTx_of_isEmpty hempty]
    exact h

theorem conserved_start (k : Nat) (buf : Nat → UInt8) (fifosize : BitVec 32) (tty : Bool) :
    Conserved (Sys.start k buf fifosize tty) where
  chars := charsKept_start k buf fifosize tty
  count := rfl

/-- A run neither loses, repeats nor reorders characters, and counts them right,
exactly when `tiny_start_tx` is only called on an empty buffer and the counter
does not overflow. -/
theorem transmit_conserves (buf : Nat → UInt8) (fifosize : BitVec 32) (tty : Bool)
    (as : List Act) :
    Always step Conserved (Sys.start k buf fifosize tty) as ↔
      Meets step Allowed (Sys.start k buf fifosize tty) as := by
  refine always_iff_meets (fun _ h => h) ?_ ?_ as (conserved_start k buf fifosize tty)
  · intro c a d h ha hstep
    cases a with
    | append x =>
      have hchars := append_charsKept h.chars hstep
      simp only [step] at hstep
      split at hstep
      · cases hstep
        exact ⟨hchars, h.count⟩
      · cases hstep
    | startTx =>
      cases hstep
      exact (startTx_conserved h).mpr ha
    | expire =>
      cases hstep
      exact (sent_conserved h (tinyTimer_sent c.port)).mpr ha
    | xChar x =>
      cases hstep
      exact ⟨h.chars, h.count⟩
    | stop stopped =>
      cases hstep
      exact ⟨h.chars, h.count⟩
  · intro c a h ha
    cases a with
    | startTx => exact ⟨_, rfl, fun hgood => ha ((startTx_conserved h).mp hgood)⟩
    | expire =>
      exact ⟨_, rfl, fun hgood => ha ((sent_conserved h (tinyTimer_sent c.port)).mp hgood)⟩
    | append x => exact absurd trivial ha
    | xChar x => exact absurd trivial ha
    | stop stopped => exact absurd trivial ha

/-- The character that `write` has put into the buffer is dropped by
`tiny_start_tx`. -/
theorem start_tx_drops :
    ¬ ∀ k buf fifosize tty as, Always step Conserved (Sys.start k buf fifosize tty) as := by
  intro h
  have hrun := h 12 (fun _ => 0) 8 true [.append 65, .startTx]
  have happended := always_start (hrun.2 _ rfl)
  have hempty := (startTx_conserved happended).mp (always_start ((hrun.2 _ rfl).2 _ rfl))
  revert hempty
  decide

end LinuxDriver.TinySerialTx
