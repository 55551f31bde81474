import LinuxDriver.Circ

namespace LinuxDriver.Uart

open Circ

def uerstatOverrun : BitVec 32 := 0x1
def uerstatFrame : BitVec 32 := 0x4
def uerstatBreak : BitVec 32 := 0x8
def uerstatAny : BitVec 32 := uerstatOverrun ||| uerstatFrame ||| uerstatBreak

def uerstatParity : BitVec 32 := 0x1000

def rxstatDummyRead : BitVec 32 := 0x10000000

inductive Flag
  | normal
  | brk
  | parity
  | frame
  | overrun
deriving DecidableEq

/-- A character in the receive FIFO with its `UERSTAT`, and what `uart_handle_break`
and `uart_handle_sysrq_char` will say to it. -/
structure RxChar where
  ch : UInt8
  uerstat : BitVec 32
  handleBreak : Bool
  handleSysrq : Bool
deriving DecidableEq

def RxChar.plain (ch : UInt8) (uerstat : BitVec 32) : RxChar := ⟨ch, uerstat, false, false⟩

inductive Out
  | char (c : UInt8)
  | xchar (c : UInt8)
  | console (c : UInt8)
deriving DecidableEq

/-- `struct irq_desc`, with the warning of an `enable_irq` that is not balanced. -/
structure Irq where
  installed : Bool
  depth : Nat
  warned : Bool
deriving DecidableEq

/-- The first handler of a line resets the depth. -/
def requestIrq (ret : Int) (irq : Irq) : Irq :=
  if ret = 0 then { irq with installed := true, depth := 0 } else irq

def freeIrq (irq : Irq) : Irq := { irq with installed := false }

def disableIrq (irq : Irq) : Irq := { irq with depth := irq.depth + 1 }

def enableIrq (irq : Irq) : Irq :=
  if irq.depth = 0 then { irq with warned := true } else { irq with depth := irq.depth - 1 }

def Irq.live (irq : Irq) : Bool := irq.installed && decide (irq.depth = 0)

/-- Which loop of the driver the processor is in, with what is left of its count. -/
inductive Cpu
  | idle
  | txChars (count : Nat)
  | rxChars (maxCount : Nat)
  | rxEnable (count : Nat)
deriving DecidableEq

structure Icount where
  rx : BitVec 32
  tx : BitVec 32
  brk : BitVec 32
  frame : BitVec 32
  overrun : BitVec 32
deriving DecidableEq

/-- `struct s3c24xx_uart_port` with its hardware. `stopped` is `uart_tx_stopped`;
`line` is what has left the transmitter; `flip` is what `tty_insert_flip_char` was
called with, of which `pushed` have been pushed. -/
structure Port (k : Nat) where
  fifosize : Nat
  consFlow : Bool
  txEnabled : Bool
  rxEnabled : Bool
  txClaimed : Bool
  rxClaimed : Bool
  txIrq : Irq
  rxIrq : Irq
  rxIrqMode : Bool
  xmit : CircBuf UInt8 k
  xChar : UInt8
  stopped : Bool
  readStatusMask : BitVec 32
  ignoreStatusMask : BitVec 32
  icount : Icount
  txFifo : List Out
  rxFifo : List RxChar
  line : List Out
  flip : List (UInt8 × Flag)
  pushed : Nat
  cpu : Cpu

variable {k : Nat}

/-- A write to `UTXH`, which is lost when the FIFO is full. -/
def writeUtxh (o : Out) (p : Port k) : Port k :=
  if p.txFifo.length < p.fifosize then { p with txFifo := p.txFifo ++ [o] } else p

def txemptyNofifo (p : Port k) : Bool := p.txFifo.isEmpty

def rxEnableEnd (p : Port k) : Port k :=
  { p with rxFifo := [], rxIrqMode := true, rxEnabled := true, cpu := .idle }

def rxEnableTurn (count : Nat) (p : Port k) : Port k :=
  let count := count - 1
  if count ≠ 0 ∧ !txemptyNofifo p then { p with cpu := .rxEnable count } else rxEnableEnd p

def rxDisable (p : Port k) : Port k := { p with rxIrqMode := false, rxEnabled := false }

def stopTx (p : Port k) : Port k :=
  if p.txEnabled then
    let p := { p with txIrq := disableIrq p.txIrq, txEnabled := false }
    { p with cpu := if p.consFlow then .rxEnable 10000 else .idle }
  else { p with cpu := .idle }

def startTx (p : Port k) : Port k :=
  if !p.txEnabled then
    let p := if p.consFlow then rxDisable p else p
    { p with txIrq := enableIrq p.txIrq, txEnabled := true }
  else p

def stopRx (p : Port k) : Port k :=
  if p.rxEnabled then { p with rxIrq := disableIrq p.rxIrq, rxEnabled := false } else p

def rxFifocnt (p : Port k) : Nat :=
  if p.rxFifo.length = p.fifosize then p.fifosize else p.rxFifo.length

def insertFlipChar (ch : UInt8) (flag : Flag) (p : Port k) : Port k :=
  { p with flip := p.flip ++ [(ch, flag)] }

def uartInsertChar (status overrun : BitVec 32) (ch : UInt8) (flag : Flag) (p : Port k) : Port k :=
  let p :=
    if status &&& p.ignoreStatusMask &&& ~~~overrun = 0 then insertFlipChar ch flag p else p
  if status &&& ~~~p.ignoreStatusMask &&& overrun ≠ 0 then insertFlipChar 0 .overrun p else p

def errFlag (uerstat : BitVec 32) : Flag :=
  if uerstat &&& uerstatBreak ≠ 0 then .brk
  else if uerstat &&& uerstatParity ≠ 0 then .parity
  else if uerstat &&& (uerstatFrame ||| uerstatOverrun) ≠ 0 then .frame
  else .normal

def countBreak (uerstat : BitVec 32) (icount : Icount) : Icount :=
  if uerstat &&& uerstatBreak ≠ 0 then { icount with brk := icount.brk + 1 } else icount

def countErrors (uerstat : BitVec 32) (icount : Icount) : Icount :=
  let icount :=
    if uerstat &&& uerstatFrame ≠ 0 then { icount with frame := icount.frame + 1 } else icount
  if uerstat &&& uerstatOverrun ≠ 0 then { icount with overrun := icount.overrun + 1 } else icount

def insertUnlessSysrq (c : RxChar) (uerstat : BitVec 32) (flag : Flag) (p : Port k) : Port k :=
  if c.handleSysrq then p else uartInsertChar uerstat uerstatOverrun c.ch flag p

def insertChar (c : RxChar) (p : Port k) : Port k :=
  let p := { p with icount := { p.icount with rx := p.icount.rx + 1 } }
  if c.uerstat &&& uerstatAny ≠ 0 then
    let p := { p with icount := countBreak c.uerstat p.icount }
    if c.uerstat &&& uerstatBreak ≠ 0 ∧ c.handleBreak = true then p
    else
      let p := { p with icount := countErrors c.uerstat p.icount }
      let uerstat := c.uerstat &&& p.readStatusMask
      insertUnlessSysrq c uerstat (errFlag uerstat) p
  else insertUnlessSysrq c c.uerstat .normal p

def flipBufferPush (p : Port k) : Port k := { p with pushed := p.flip.length }

/-- A turn of the loop of `s3c24xx_serial_rx_chars` with the character it has read,
up to the insertion: whether that is done. -/
def flowControl (p : Port k) : Bool × Port k :=
  if p.consFlow then
    if p.rxEnabled then
      if !txemptyNofifo p then (false, { p with rxEnabled := false }) else (true, p)
    else if txemptyNofifo p then
      (false, { p with rxFifo := [], rxEnabled := true, cpu := .idle })
    else (false, p)
  else (true, p)

def rxCharsTurn (maxCount : Nat) (p : Port k) : Port k :=
  if maxCount = 0 ∨ rxFifocnt p = 0 then { flipBufferPush p with cpu := .idle }
  else
    match p.rxFifo with
    | [] => p
    | c :: cs =>
      let r := flowControl { p with rxFifo := cs, cpu := .rxChars (maxCount - 1) }
      if r.1 then insertChar c r.2 else r.2

def txChars (p : Port k) : Port k :=
  if p.xChar ≠ 0 then
    let p := writeUtxh (.xchar p.xChar) p
    { p with icount := { p.icount with tx := p.icount.tx + 1 }, xChar := 0 }
  else if p.xmit.isEmpty || p.stopped then stopTx p
  else { p with cpu := .txChars 256 }

def txCharsEnd (p : Port k) : Port k := if p.xmit.isEmpty then stopTx p else { p with cpu := .idle }

def txCharsTurn (count : Nat) (p : Port k) : Port k :=
  if p.xmit.isEmpty = false ∧ 0 < count then
    if p.fifosize ≤ p.txFifo.length then txCharsEnd p
    else
      let p := writeUtxh (.char (p.xmit.buf p.xmit.tail)) p
      { p with
        xmit := p.xmit.advance
        icount := { p.icount with tx := p.icount.tx + 1 }
        cpu := .txChars (count - 1) }
  else txCharsEnd p

def shutdown (p : Port k) : Port k :=
  let p :=
    if p.txClaimed then { p with txIrq := freeIrq p.txIrq, txEnabled := false, txClaimed := false }
    else p
  if p.rxClaimed then { p with rxIrq := freeIrq p.rxIrq, rxClaimed := false, rxEnabled := false }
  else p

/-- `s3c24xx_serial_startup`, where its two calls of `request_irq` return `rxRet`
and `txRet`. -/
def startup (rxRet txRet : Int) (p : Port k) : Int × Port k :=
  let p := { p with rxEnabled := true, rxIrq := requestIrq rxRet p.rxIrq }
  if rxRet ≠ 0 then (rxRet, p)
  else
    let p := { p with rxClaimed := true, txEnabled := true, txIrq := requestIrq txRet p.txIrq }
    if txRet ≠ 0 then (txRet, shutdown p) else (txRet, { p with txClaimed := true })

theorem uartInsertChar_eq (status overrun : BitVec 32) (ch : UInt8) (flag : Flag) (p : Port k) :
    ∃ flip, uartInsertChar status overrun ch flag p = { p with flip := flip } := by
  rw [uartInsertChar]
  split <;> split <;> exact ⟨_, rfl⟩

theorem insertUnlessSysrq_eq (c : RxChar) (uerstat : BitVec 32) (flag : Flag) (p : Port k) :
    ∃ flip, insertUnlessSysrq c uerstat flag p = { p with flip := flip } := by
  rw [insertUnlessSysrq]
  split
  · exact ⟨p.flip, rfl⟩
  · exact uartInsertChar_eq _ _ _ _ p

theorem insertChar_eq (c : RxChar) (p : Port k) :
    ∃ icount flip, insertChar c p = { p with icount := icount, flip := flip } := by
  rw [insertChar]
  split
  · dsimp only
    split
    · exact ⟨_, p.flip, rfl⟩
    · obtain ⟨flip, heq⟩ := insertUnlessSysrq_eq c (c.uerstat &&& p.readStatusMask)
        (errFlag (c.uerstat &&& p.readStatusMask)) { p with icount := _ }
      exact ⟨_, flip, heq⟩
  · obtain ⟨flip, heq⟩ := insertUnlessSysrq_eq c c.uerstat .normal { p with icount := _ }
    exact ⟨_, flip, heq⟩

end LinuxDriver.Uart
