import LinuxDriver.Uart
import LinuxDriver.Runs

namespace LinuxDriver.UartWork

open Circ Uart

variable {k : Nat}

def clear (b : CircBuf UInt8 k) : CircBuf UInt8 k :=
  ⟨b.buf, 0, 0, Nat.two_pow_pos k, Nat.two_pow_pos k⟩

/-- What `uart_write` copies while there is space, with what it has copied. -/
def fill : List UInt8 → CircBuf UInt8 k → List UInt8 × CircBuf UInt8 k
  | [], b => ([], b)
  | c :: cs, b =>
    if b.hasSpace then
      let r := fill cs (b.push c)
      (c :: r.1, r.2)
    else ([], b)

def uartStart (p : Port k) : Port k := if !p.xmit.isEmpty && !p.stopped then startTx p else p

def newline : UInt8 := 10
def carriageReturn : UInt8 := 13

/-- The characters that `s3c24xx_serial_console_write` writes for a string. -/
def consoleChars (s : List UInt8) : List UInt8 :=
  s.flatMap (fun c => if c = newline then [c, carriageReturn] else [c])

/-- What was written to a port while it was open, and what its ring still held when it
was shut down. -/
structure Session where
  written : List UInt8
  discarded : List UInt8

/-- The port with the uart core: whether it is open, and what is left of the call of
the console; then what was written to it since it was opened, the earlier sessions,
what the console was given and which `x_char`s were requested, each with whether the
one before was still waiting. -/
structure Sys (k : Nat) where
  port : Port k
  opened : Bool
  cons : List UInt8
  written : List UInt8
  sessions : List Session
  consoled : List UInt8
  requested : List (UInt8 × Bool)

inductive Act
  | startup (rxRet txRet : Int)
  | shutdown
  | write (cs : List UInt8)
  | sendXchar (c : UInt8)
  | stop
  | start
  | stopRx
  | console (s : List UInt8)
  | consolePut
  | txIrq
  | rxIrq
  | turn
  | shift
  | receive (c : RxChar)

def whenOpen (s t : Sys k) : Option (Sys k) :=
  if s.opened = true ∧ s.port.cpu = .idle then some t else none

def write (cs : List UInt8) (s : Sys k) : Sys k :=
  let r := fill cs s.port.xmit
  { s with port := uartStart { s.port with xmit := r.2 }, written := s.written ++ r.1 }

def sendXchar (c : UInt8) (s : Sys k) : Sys k :=
  let s := { s with requested := s.requested ++ [(c, decide (s.port.xChar ≠ 0))] }
  if c ≠ 0 then { s with port := startTx { s.port with xChar := c } }
  else { s with port := { s.port with xChar := c } }

def close (s : Sys k) : Sys k :=
  { s with
    port := { shutdown s.port with xmit := clear s.port.xmit }
    opened := false
    written := []
    sessions := s.sessions ++ [⟨s.written, s.port.xmit.pending⟩] }

def openPort (rxRet txRet : Int) (s : Sys k) : Sys k :=
  let r := startup rxRet txRet { s.port with xmit := clear s.port.xmit, stopped := false }
  { s with port := r.2, opened := decide (r.1 = 0) }

def turn (p : Port k) : Option (Port k) :=
  match p.cpu with
  | .idle => none
  | .txChars count => some (txCharsTurn count p)
  | .rxChars maxCount => some (rxCharsTurn maxCount p)
  | .rxEnable count => some (rxEnableTurn count p)

def TxReady (p : Port k) : Prop :=
  p.cpu = .idle ∧ p.txIrq.live = true ∧ p.txFifo.length < p.fifosize

def RxReady (p : Port k) : Prop :=
  p.cpu = .idle ∧ p.rxIrq.live = true ∧ p.rxIrqMode = true ∧ p.rxFifo ≠ []

instance (p : Port k) : Decidable (TxReady p) := inferInstanceAs (Decidable (_ ∧ _))
instance (p : Port k) : Decidable (RxReady p) := inferInstanceAs (Decidable (_ ∧ _))

def receive (c : RxChar) (p : Port k) : Port k :=
  if p.rxIrqMode = true ∧ p.rxFifo.length < p.fifosize then { p with rxFifo := p.rxFifo ++ [c] }
  else p

def step (s : Sys k) : Act → Option (Sys k)
  | .startup rxRet txRet =>
    if s.opened = false ∧ s.port.cpu = .idle then some (openPort rxRet txRet s) else none
  | .shutdown => whenOpen s (close s)
  | .write cs => whenOpen s (write cs s)
  | .sendXchar c => whenOpen s (sendXchar c s)
  | .stop => whenOpen s { s with port := stopTx { s.port with stopped := true } }
  | .start => whenOpen s { s with port := uartStart { s.port with stopped := false } }
  | .stopRx => whenOpen s { s with port := stopRx s.port }
  | .console str =>
    if s.cons = [] then
      some { s with cons := consoleChars str, consoled := s.consoled ++ consoleChars str }
    else none
  | .consolePut =>
    match s.cons with
    | [] => none
    | c :: cs =>
      if s.port.cpu = .idle ∧ s.port.txFifo.length < s.port.fifosize then
        some { s with port := writeUtxh (.console c) s.port, cons := cs }
      else none
  | .txIrq => if TxReady s.port then some { s with port := txChars s.port } else none
  | .rxIrq =>
    if RxReady s.port then some { s with port := { s.port with cpu := .rxChars 64 } } else none
  | .turn => (turn s.port).map (fun p => { s with port := p })
  | .shift =>
    match s.port.txFifo with
    | [] => none
    | o :: os => some { s with port := { s.port with txFifo := os, line := s.port.line ++ [o] } }
  | .receive c => some { s with port := receive c s.port }

def start (buf : Nat → UInt8) (fifosize : Nat) (consFlow : Bool)
    (readStatusMask ignoreStatusMask : BitVec 32) : Sys k where
  port :=
    { fifosize := fifosize
      consFlow := consFlow
      txEnabled := false
      rxEnabled := false
      txClaimed := false
      rxClaimed := false
      txIrq := ⟨false, 0, false⟩
      rxIrq := ⟨false, 0, false⟩
      rxIrqMode := true
      xmit := ⟨buf, 0, 0, Nat.two_pow_pos k, Nat.two_pow_pos k⟩
      xChar := 0
      stopped := false
      readStatusMask := readStatusMask
      ignoreStatusMask := ignoreStatusMask
      icount := ⟨0, 0, 0, 0, 0⟩
      txFifo := []
      rxFifo := []
      line := []
      flip := []
      pushed := 0
      cpu := .idle }
  opened := false
  cons := []
  written := []
  sessions := []
  consoled := []
  requested := []

section Steps

/-- What each step can do. -/
inductive Step (s : Sys k) : Act → Sys k → Prop
  | opened {rxRet txRet : Int} (hclosed : s.opened = false) (hidle : s.port.cpu = .idle) :
      Step s (.startup rxRet txRet) (openPort rxRet txRet s)
  | closed (hopen : s.opened = true) (hidle : s.port.cpu = .idle) : Step s .shutdown (close s)
  | wrote {cs : List UInt8} (hopen : s.opened = true) (hidle : s.port.cpu = .idle) :
      Step s (.write cs) (write cs s)
  | requested {c : UInt8} (hopen : s.opened = true) (hidle : s.port.cpu = .idle) :
      Step s (.sendXchar c) (sendXchar c s)
  | stopped (hopen : s.opened = true) (hidle : s.port.cpu = .idle) :
      Step s .stop { s with port := stopTx { s.port with stopped := true } }
  | restarted (hopen : s.opened = true) (hidle : s.port.cpu = .idle) :
      Step s .start { s with port := uartStart { s.port with stopped := false } }
  | muted (hopen : s.opened = true) (hidle : s.port.cpu = .idle) :
      Step s .stopRx { s with port := stopRx s.port }
  | called {str : List UInt8} (hcons : s.cons = []) :
      Step s (.console str)
        { s with cons := consoleChars str, consoled := s.consoled ++ consoleChars str }
  | put {c : UInt8} {cs : List UInt8} (hcons : s.cons = c :: cs) (hidle : s.port.cpu = .idle)
      (hroom : s.port.txFifo.length < s.port.fifosize) :
      Step s .consolePut { s with port := writeUtxh (.console c) s.port, cons := cs }
  | sending (hready : TxReady s.port) : Step s .txIrq { s with port := txChars s.port }
  | reading (hready : RxReady s.port) :
      Step s .rxIrq { s with port := { s.port with cpu := .rxChars 64 } }
  | turned {p : Port k} (hturn : turn s.port = some p) : Step s .turn { s with port := p }
  | shifted {o : Out} {os : List Out} (hfifo : s.port.txFifo = o :: os) :
      Step s .shift { s with port := { s.port with txFifo := os, line := s.port.line ++ [o] } }
  | received {c : RxChar} : Step s (.receive c) { s with port := receive c s.port }

theorem whenOpen_some {s t u : Sys k} (h : whenOpen s t = some u) :
    s.opened = true ∧ s.port.cpu = .idle ∧ u = t := by
  rw [whenOpen] at h
  split at h
  · rename_i hopen
    cases h
    exact ⟨hopen.1, hopen.2, rfl⟩
  · cases h

theorem step_spec {s t : Sys k} {a : Act} (h : step s a = some t) : Step s a t := by
  cases a with
  | startup rxRet txRet =>
    simp only [step] at h
    split at h
    · rename_i hclosed
      cases h
      exact .opened hclosed.1 hclosed.2
    · cases h
  | shutdown =>
    obtain ⟨hopen, hidle, rfl⟩ := whenOpen_some h
    exact .closed hopen hidle
  | write cs =>
    obtain ⟨hopen, hidle, rfl⟩ := whenOpen_some h
    exact .wrote hopen hidle
  | sendXchar c =>
    obtain ⟨hopen, hidle, rfl⟩ := whenOpen_some h
    exact .requested hopen hidle
  | stop =>
    obtain ⟨hopen, hidle, rfl⟩ := whenOpen_some h
    exact .stopped hopen hidle
  | start =>
    obtain ⟨hopen, hidle, rfl⟩ := whenOpen_some h
    exact .restarted hopen hidle
  | stopRx =>
    obtain ⟨hopen, hidle, rfl⟩ := whenOpen_some h
    exact .muted hopen hidle
  | console str =>
    simp only [step] at h
    split at h
    · rename_i hcons
      cases h
      exact .called hcons
    · cases h
  | consolePut =>
    simp only [step] at h
    split at h
    · cases h
    · rename_i c cs hcons
      split at h
      · rename_i hready
        cases h
        exact .put hcons hready.1 hready.2
      · cases h
  | txIrq =>
    simp only [step] at h
    split at h
    · rename_i hready
      cases h
      exact .sending hready
    · cases h
  | rxIrq =>
    simp only [step] at h
    split at h
    · rename_i hready
      cases h
      exact .reading hready
    · cases h
  | turn =>
    obtain ⟨p, hturn, rfl⟩ := Option.map_eq_some_iff.mp h
    exact .turned hturn
  | shift =>
    simp only [step] at h
    split at h
    · cases h
    · rename_i o os hfifo
      cases h
      exact .shifted hfifo
  | receive c =>
    cases h
    exact .received

end Steps

theorem clear_isEmpty (b : CircBuf UInt8 k) : (clear b).isEmpty = true := decide_eq_true rfl

structure Tx (k : Nat) where
  fifosize : Nat
  xmit : CircBuf UInt8 k
  xChar : UInt8
  stopped : Bool
  txFifo : List Out
  line : List Out

def tx (p : Port k) : Tx k := ⟨p.fifosize, p.xmit, p.xChar, p.stopped, p.txFifo, p.line⟩

theorem tx_stopTx (p : Port k) : tx (stopTx p) = tx p := by
  rw [stopTx]
  split <;> rfl

theorem tx_startTx (p : Port k) : tx (startTx p) = tx p := by
  rw [startTx]
  split
  · split <;> rfl
  · rfl

theorem tx_uartStart (p : Port k) : tx (uartStart p) = tx p := by
  rw [uartStart]
  split
  · exact tx_startTx p
  · rfl

theorem tx_stopRx (p : Port k) : tx (stopRx p) = tx p := by
  rw [stopRx]
  split <;> rfl

theorem tx_rxEnableTurn (count : Nat) (p : Port k) : tx (rxEnableTurn count p) = tx p := by
  rw [rxEnableTurn]
  split <;> rfl

theorem tx_shutdown (p : Port k) : tx (shutdown p) = tx p := by
  rw [shutdown]
  split <;> split <;> rfl

theorem tx_startup (rxRet txRet : Int) (p : Port k) : tx (startup rxRet txRet p).2 = tx p := by
  rw [startup]
  split
  · rfl
  · split
    · exact tx_shutdown _
    · rfl

theorem tx_insertChar (c : RxChar) (p : Port k) : tx (insertChar c p) = tx p := by
  obtain ⟨_, _, heq⟩ := insertChar_eq c p
  rw [heq]
  rfl

theorem tx_flowControl (p : Port k) : tx (flowControl p).2 = tx p := by
  rw [flowControl]
  split
  · split
    · split <;> rfl
    · split <;> rfl
  · rfl

theorem tx_rxCharsTurn (maxCount : Nat) (p : Port k) : tx (rxCharsTurn maxCount p) = tx p := by
  rw [rxCharsTurn]
  split
  · rfl
  · split
    · rfl
    · dsimp only
      split
      · exact (tx_insertChar _ _).trans (tx_flowControl _)
      · exact tx_flowControl _

end LinuxDriver.UartWork
