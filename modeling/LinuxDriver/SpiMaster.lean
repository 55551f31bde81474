import LinuxDriver.Holding
import Mathlib.Logic.Function.Basic

namespace LinuxDriver.SpiMaster

open Holding

def eio : Int := 5
def enomem : Int := 12

structure Mode where
  cpol : Bool
  cpha : Bool
  csHigh : Bool
deriving DecidableEq

/-- `struct spi_device` and the line of its `struct s3c64xx_spi_csinfo`. -/
structure Device where
  line : Nat
  mode : Mode
  bitsPerWord : Nat
  maxSpeedHz : Nat
deriving DecidableEq

structure Info where
  clkFromCmu : Bool
  fifoLvlMask : Nat
  highSpeed : Bool

/-- `struct spi_transfer`, of which a DMA address is `none` for
`XFER_DMAADDR_INVALID`. -/
structure Transfer where
  txBuf : Bool
  rxBuf : Bool
  len : BitVec 32
  bitsPerWord : Nat
  speedHz : Nat
  csChange : Bool
  txDma : Option Nat
  rxDma : Option Nat
deriving DecidableEq

structure Message where
  spi : Nat
  transfers : List Transfer
  isDmaMapped : Bool
deriving DecidableEq

structure Flags where
  suspnd : Bool
  spiBusy : Bool
  rxBusy : Bool
  txBusy : Bool
deriving DecidableEq

structure Config where
  mode : Mode
  bpw : Nat
  speed : Nat
deriving DecidableEq

structure Datapath where
  hsEn : Bool
  rxChOn : Bool
  txChOn : Bool
  rxDmaOn : Bool
  txDmaOn : Bool
deriving DecidableEq

inductive Dir
  | toDevice
  | fromDevice
deriving DecidableEq

structure Mapping where
  addr : Nat
  dir : Dir
deriving DecidableEq

def useDma (sci : Info) (xfer : Transfer) : Bool :=
  !decide (xfer.len.toNat ≤ sci.fifoLvlMask / 2 + 1)

section Mapping

def dmaUnmap (addr : Option Nat) (dir : Dir) (dma : Resources Mapping) : Resources Mapping :=
  match addr with
  | some a => dma.release ⟨a, dir⟩
  | none => { dma with misused := true }

/-- The first half of the loop of `s3c64xx_spi_map_mssg`. `map` is what the call
of that number to `dma_map_single` returns, unless it fails. -/
def mapTx (map : Nat → Option Nat) (n : Nat) (xfer : Transfer) (dma : Resources Mapping) :
    Bool × Nat × Transfer × Resources Mapping :=
  if xfer.txBuf then
    match map n with
    | none => (false, n + 1, { xfer with txDma := none }, dma)
    | some a => (true, n + 1, { xfer with txDma := some a }, dma.acquire ⟨a, .toDevice⟩)
  else (true, n, xfer, dma)

def mapRx (map : Nat → Option Nat) (n : Nat) (xfer : Transfer) (dma : Resources Mapping) :
    Bool × Nat × Transfer × Resources Mapping :=
  if xfer.rxBuf then
    match map n with
    | none => (false, n + 1, { xfer with txDma := none, rxDma := none },
        dmaUnmap xfer.txDma .toDevice dma)
    | some a => (true, n + 1, { xfer with rxDma := some a }, dma.acquire ⟨a, .fromDevice⟩)
  else (true, n, xfer, dma)

def mapXfer (map : Nat → Option Nat) (n : Nat) (xfer : Transfer) (dma : Resources Mapping) :
    Bool × Nat × Transfer × Resources Mapping :=
  let r := mapTx map n xfer dma
  if r.1 then mapRx map r.2.1 r.2.2.1 r.2.2.2 else r

def mapXfers (sci : Info) (map : Nat → Option Nat) :
    Nat → List Transfer → Resources Mapping → Bool × List Transfer × Resources Mapping
  | _, [], dma => (true, [], dma)
  | n, xfer :: rest, dma =>
    if useDma sci xfer then
      let r := mapXfer map n xfer dma
      if r.1 then
        let q := mapXfers sci map r.2.1 rest r.2.2.2
        (q.1, r.2.2.1 :: q.2.1, q.2.2)
      else (false, r.2.2.1 :: rest, r.2.2.2)
    else
      let q := mapXfers sci map n rest dma
      (q.1, xfer :: q.2.1, q.2.2)

def mapMssg (sci : Info) (map : Nat → Option Nat) (msg : Message) (dma : Resources Mapping) :
    Bool × List Transfer × Resources Mapping :=
  if msg.isDmaMapped then (true, msg.transfers, dma)
  else
    mapXfers sci map 0 (msg.transfers.map (fun xfer => { xfer with rxDma := none, txDma := none }))
      dma

def unmapXfer (sci : Info) (dma : Resources Mapping) (xfer : Transfer) : Resources Mapping :=
  if useDma sci xfer then
    let dma := if xfer.rxBuf && xfer.rxDma.isSome then dmaUnmap xfer.rxDma .fromDevice dma else dma
    if xfer.txBuf && xfer.txDma.isSome then dmaUnmap xfer.txDma .toDevice dma else dma
  else dma

def unmapMssg (sci : Info) (msg : Message) (transfers : List Transfer) (dma : Resources Mapping) :
    Resources Mapping :=
  if msg.isDmaMapped then dma else transfers.foldl (unmapXfer sci) dma

end Mapping

inductive Phase
  | taken
  | next
  | active
  | clearing (state : Flags)
  | out (status : Int)
deriving DecidableEq

/-- The variables of `handle_msg`: the transfers with their DMA addresses, those
of them that are still to come, and the bytes of those that are over. -/
structure Handling where
  msg : Message
  transfers : List Transfer
  todo : List Transfer
  csToggle : Bool
  actualLength : BitVec 32
  phase : Phase

inductive Worker
  | idle
  | looking
  | handling (h : Handling)

inductive Pm
  | awake
  | suspending
  | asleep
  | removing
  | gone
deriving DecidableEq

/-- What a call of `s3c64xx_spi_setup` that has given up the lock does next: check the
word size and the rate, and then the two writes of its `disable_cs`. -/
inductive Setup
  | check
  | untoggle
  | setLevel
deriving DecidableEq

/-- The devices as their clients have them, `struct s3c64xx_spi_driver_data`, what the
registers and the chip select lines have, and what is mapped; whether the work is queued
and where it is; the calls of `s3c64xx_spi_setup` that are past the lock; and the messages
that were accepted and completed, with their status and length. -/
structure Spi where
  dev : Nat → Device
  state : Flags
  queue : List Message
  tglSpi : Option Nat
  cur : Config
  hw : Option Config
  path : Datapath
  level : Nat → Bool
  dma : Resources Mapping
  pending : Bool
  worker : Worker
  pm : Pm
  setups : List (Nat × Setup)
  accepted : List Message
  completed : List (Message × Int × BitVec 32)

section Handling

variable (sci : Info)

def setLevel (d : Nat) (value : Bool) (s : Spi) : Spi :=
  { s with level := Function.update s.level (s.dev d).line value }

/-- The last toggled device is deselected with the polarity of the new one. -/
def enableCs (d : Nat) (s : Spi) : Spi :=
  let s := match s.tglSpi with
    | none => s
    | some last =>
      let s := if last ≠ d then setLevel last (!(s.dev d).mode.csHigh) s else s
      { s with tglSpi := none }
  setLevel d (s.dev d).mode.csHigh s

def untoggle (d : Nat) (s : Spi) : Spi :=
  if s.tglSpi = some d then { s with tglSpi := none } else s

def disableCs (d : Nat) (s : Spi) : Spi :=
  setLevel d (!(s.dev d).mode.csHigh) (untoggle d s)

/-- What `s3c64xx_spi_config` leaves in the registers. -/
def config (s : Spi) : Spi := { s with hw := some s.cur }

def flushFifo (s : Spi) : Spi := { s with path := ⟨false, false, false, false, false⟩ }

def Transfer.bpw (d : Device) (xfer : Transfer) : Nat :=
  if xfer.bitsPerWord ≠ 0 then xfer.bitsPerWord else d.bitsPerWord

def Transfer.speed (d : Device) (xfer : Transfer) : Nat :=
  if xfer.speedHz ≠ 0 then xfer.speedHz else d.maxSpeedHz

/-- `RXBUSY` and `TXBUSY` are for what is to be done, and what the transfer
needs is switched on. -/
def enableDatapath (xfer : Transfer) (s : Spi) : Spi :=
  let dma := useDma sci xfer
  { s with
    state := { s.state with rxBusy := xfer.rxBuf, txBusy := xfer.txBuf }
    path :=
      { hsEn := s.path.hsEn || (xfer.rxBuf && sci.highSpeed &&
          decide (30000000 ≤ s.cur.speed) && !s.cur.mode.cpha)
        rxChOn := if dma then xfer.rxBuf else true
        txChOn := xfer.txBuf
        rxDmaOn := dma && xfer.rxBuf
        txDmaOn := dma && xfer.txBuf } }

/-- The start of `handle_msg`, up to the mapping of its buffers. -/
def beginMsg (map : Nat → Option Nat) (h : Handling) (s : Spi) : Handling × Spi :=
  let d := s.dev h.msg.spi
  let s := if s.cur ≠ ⟨d.mode, d.bitsPerWord, d.maxSpeedHz⟩ then
      config { s with cur := ⟨d.mode, d.bitsPerWord, d.maxSpeedHz⟩ }
    else s
  let r := mapMssg sci map h.msg s.dma
  ({ h with transfers := r.2.1, todo := r.2.1, phase := if r.1 then .next else .out (-enomem) },
    { s with dma := r.2.2 })

def startXfer (xfer : Transfer) (h : Handling) (s : Spi) : Handling × Spi :=
  let d := s.dev h.msg.spi
  if xfer.len.toNat % (xfer.bpw d / 8) ≠ 0 then ({ h with phase := .out (-eio) }, s)
  else
    let s := if xfer.bpw d ≠ s.cur.bpw ∨ xfer.speed d ≠ s.cur.speed then
        config { s with cur := { s.cur with bpw := xfer.bpw d, speed := xfer.speed d } }
      else s
    ({ h with phase := .active }, enableCs h.msg.spi (enableDatapath sci xfer s))

def endXfer (xfer : Transfer) (rest : List Transfer) (h : Handling) (s : Spi) : Handling × Spi :=
  ({ h with
      todo := rest
      csToggle := h.csToggle || (xfer.csChange && rest.isEmpty)
      actualLength := h.actualLength + xfer.len
      phase := .next },
    flushFifo (if xfer.csChange && !rest.isEmpty then disableCs h.msg.spi s else s))

/-- A call of `s3c64xx_spi_dma_rxcb` or `s3c64xx_spi_dma_txcb`, and whether the
result is `S3C2410_RES_OK`. -/
inductive DmaCb
  | rx (ok : Bool)
  | tx (ok : Bool)

def dmaCb (state : Flags) : DmaCb → Flags × Bool
  | .rx ok => ({ state with rxBusy := state.rxBusy && !ok }, !state.txBusy)
  | .tx ok => ({ state with txBusy := state.txBusy && !ok }, !state.rxBusy)

def dmaCbs : List DmaCb → Flags → Flags × Bool
  | [], state => (state, false)
  | cb :: rest, state =>
    let r := dmaCbs rest (dmaCb state cb).1
    (r.1, (dmaCb state cb).2 || r.2)

/-- What becomes of a transfer in time: the calls of its DMA channels, whether
the FIFO has what it is to receive, and whether what was sent is out of it. -/
structure Io where
  cbs : List DmaCb
  rxFifoLvl : Bool
  txDone : Bool

/-- `wait_for_xfer`, which clears the bit of a transfer without DMA itself, and
not under the lock. -/
def waitForXfer (io : Io) (xfer : Transfer) (rest : List Transfer) (h : Handling) (s : Spi) :
    Handling × Spi :=
  if useDma sci xfer then
    let r := dmaCbs io.cbs s.state
    if r.2 && (xfer.rxBuf || io.txDone) then endXfer xfer rest h { s with state := r.1 }
    else ({ h with phase := .out (-eio) }, { s with state := r.1 })
  else if io.rxFifoLvl then ({ h with phase := .clearing s.state }, s)
  else ({ h with phase := .out (-eio) }, s)

def storeState (state : Flags) (xfer : Transfer) (rest : List Transfer) (h : Handling) (s : Spi) :
    Handling × Spi :=
  endXfer xfer rest h { s with
    state := if xfer.rxBuf then { state with rxBusy := false } else { state with txBusy := false } }

/-- From the label `out` of `handle_msg` on. -/
def outMsg (status : Int) (h : Handling) (s : Spi) : Spi :=
  let s := if h.csToggle = false ∨ status ≠ 0 then disableCs h.msg.spi s
    else { s with tglSpi := some h.msg.spi }
  { s with
    dma := unmapMssg sci h.msg h.transfers s.dma
    completed := s.completed ++ [(h.msg, status, h.actualLength)] }

end Handling

end LinuxDriver.SpiMaster
