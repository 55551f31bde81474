import LinuxDriver.I2cBus

namespace LinuxDriver.I2cMaster

open I2cBus

def eio : Int := 5
def enxio : Int := 6
def eagain : Int := 11
def einval : Int := 22
def etimedout : Int := 110
def econnrefused : Int := 111
def eremoteio : Int := 121

inductive State
  | idle
  | start
  | read
  | write
  | stop
deriving DecidableEq

/-- `struct i2c_msg`, with those of its flags that the driver tests. -/
structure I2cMsg where
  addr : BitVec 16
  rd : Bool
  noStart : Bool
  revDirAddr : Bool
  ignoreNak : Bool
  buf : List UInt8
deriving DecidableEq

abbrev I2cMsg.len (m : I2cMsg) : Nat := m.buf.length

structure Iiccon where
  ackEn : Bool
  irqEn : Bool
  irqPend : Bool
deriving DecidableEq

inductive Mode
  | slave
  | masterRx
  | masterTx
deriving DecidableEq

structure Iicstat where
  mode : Mode
  txRxEn : Bool
  start : Bool
deriving DecidableEq

/-- `struct s3c24xx_i2c` and its registers. `msg` points to an entry of `msgs`,
the array that the caller passed; `restat` is what was written to `IICSTAT`
since the last interrupt. -/
structure I2c where
  clkOn : Bool
  suspended : Bool
  msgs : List I2cMsg
  msg : Option Nat
  msgNum : BitVec 32
  msgIdx : BitVec 32
  msgPtr : Nat
  state : State
  con : Iiccon
  stat : Iicstat
  restat : Option Iicstat
  ds : UInt8
deriving DecidableEq

def I2c.writeStat (stat : Iicstat) (i2c : I2c) : I2c :=
  { i2c with stat := stat, restat := some stat }

/-- `*i2c->msg`, for which the pointer has to be into the array. -/
def I2c.cur (i2c : I2c) : Option I2cMsg := i2c.msg.bind (fun k => i2c.msgs[k]?)

def masterComplete (ret : Int) (i2c : I2c) : I2c :=
  { i2c with
    msgPtr := 0
    msg := none
    msgNum := 0
    msgIdx := if ret ≠ 0 then BitVec.ofInt 32 ret else i2c.msgIdx + 1 }

def disableAck (i2c : I2c) : I2c := { i2c with con := { i2c.con with ackEn := false } }

def enableAck (i2c : I2c) : I2c := { i2c with con := { i2c.con with ackEn := true } }

def disableIrq (i2c : I2c) : I2c := { i2c with con := { i2c.con with irqEn := false } }

def enableIrq (i2c : I2c) : I2c := { i2c with con := { i2c.con with irqEn := true } }

def ackIrq (i2c : I2c) : I2c := { i2c with con := { i2c.con with irqPend := false } }

def I2cMsg.addrByte (m : I2cMsg) : UInt8 :=
  let addr := UInt8.ofBitVec ((m.addr &&& 0x7f).truncate 8) <<< 1
  let addr := if m.rd then addr ||| 1 else addr
  if m.revDirAddr then addr ^^^ 1 else addr

def messageStart (m : I2cMsg) (i2c : I2c) : I2c :=
  let stat : Iicstat := ⟨if m.rd then .masterRx else .masterTx, true, false⟩
  let i2c := enableAck i2c
  let iiccon := i2c.con
  let i2c := { i2c.writeStat stat with ds := m.addrByte }
  let i2c := { i2c with con := iiccon }
  i2c.writeStat { stat with start := true }

def stop (ret : Int) (i2c : I2c) : I2c :=
  let i2c := i2c.writeStat { i2c.stat with start := false }
  disableIrq (masterComplete ret { i2c with state := .stop })

def isLastmsg (i2c : I2c) : Bool := decide (i2c.msgNum - 1 ≤ i2c.msgIdx)

def isMsglast (i2c : I2c) (m : I2cMsg) : Bool := decide (i2c.msgPtr + 1 = m.len)

def isMsgend (i2c : I2c) (m : I2cMsg) : Bool := decide (m.len ≤ i2c.msgPtr)

def nextMsg (i2c : I2c) : I2c :=
  { i2c with msgPtr := 0, msgIdx := i2c.msgIdx + 1, msg := i2c.msg.map (· + 1) }

def I2c.left (i2c : I2c) : Nat := i2c.msg.elim 0 (fun k => i2c.msgs.length + 1 - k)

theorem left_nextMsg {i2c : I2c} {m : I2cMsg} (h : i2c.cur = some m) :
    (nextMsg i2c).left < i2c.left := by
  obtain ⟨k, hk, hm⟩ := Option.bind_eq_some_iff.mp h
  have hlt := (List.getElem?_eq_some_iff.mp hm).1
  simp only [I2c.left, nextMsg, hk, Option.map_some, Option.elim_some]
  omega

def putByte (byte : UInt8) (i2c : I2c) : I2c :=
  { i2c with ds := byte, msgPtr := i2c.msgPtr + 1 }

/-- From the label `retry_write`. `none` is an access through a pointer that is
not to a message: after `stop`, which leaves it NULL, the jump back fails. -/
def retryWrite (i2c : I2c) : Option I2c :=
  match _h : i2c.cur with
  | none => none
  | some m =>
    if !isMsgend i2c m then
      m.buf[i2c.msgPtr]?.map (fun byte => putByte byte i2c)
    else if !isLastmsg i2c then
      match (nextMsg i2c).cur with
      | none => none
      | some m' =>
        if m'.noStart then
          if m'.rd then retryWrite (stop (-einval) (nextMsg i2c)) else retryWrite (nextMsg i2c)
        else some { messageStart m' (nextMsg i2c) with state := .start }
    else some (stop 0 i2c)
termination_by i2c.left
decreasing_by
  · have := left_nextMsg _h
    change 0 < _
    omega
  · exact left_nextMsg _h

theorem retryWrite_of_cur {i2c : I2c} {m : I2cMsg} (h : i2c.cur = some m) :
    retryWrite i2c =
      if !isMsgend i2c m then
        m.buf[i2c.msgPtr]?.map (fun byte => putByte byte i2c)
      else if !isLastmsg i2c then
        match (nextMsg i2c).cur with
        | none => none
        | some m' =>
          if m'.noStart then
            if m'.rd then retryWrite (stop (-einval) (nextMsg i2c)) else retryWrite (nextMsg i2c)
          else some { messageStart m' (nextMsg i2c) with state := .start }
      else some (stop 0 i2c) := by
  rw [retryWrite]
  split
  · rename_i hnone
    rw [h] at hnone
    cases hnone
  · rename_i m' hsome
    rw [h] at hsome
    cases hsome
    rfl

def prepareRead (i2c : I2c) : Option I2c :=
  i2c.cur.map (fun m =>
    if isMsglast i2c m then if isLastmsg i2c then disableAck i2c else i2c
    else if isMsgend i2c m then if isLastmsg i2c then stop 0 i2c else nextMsg i2c
    else i2c)

def I2cMsg.store (p : Nat) (byte : UInt8) (m : I2cMsg) : I2cMsg :=
  { m with buf := m.buf.set p byte }

@[simp]
theorem len_store (p : Nat) (byte : UInt8) (m : I2cMsg) : (m.store p byte).len = m.len :=
  List.length_set

def storeByte (byte : UInt8) (i2c : I2c) : Option I2c :=
  match i2c.msg, i2c.cur with
  | some k, some m =>
    if i2c.msgPtr < m.len then
      some { i2c with
        msgs := i2c.msgs.set k (m.store i2c.msgPtr byte)
        msgPtr := i2c.msgPtr + 1 }
    else none
  | _, _ => none

def irqWrite (lastbit : Bool) (i2c : I2c) : Option I2c :=
  match i2c.cur with
  | none => none
  | some m => if !m.ignoreNak && lastbit then some (stop (-econnrefused) i2c) else retryWrite i2c

def turn (m : I2cMsg) (i2c : I2c) : I2c :=
  { i2c with state := if m.rd then .read else .write }

def irqStart (lastbit : Bool) (i2c : I2c) : Option I2c :=
  match i2c.cur with
  | none => none
  | some m =>
    if lastbit && !m.ignoreNak then some (stop (-enxio) i2c)
    else
      let i2c := turn m i2c
      if isLastmsg i2c && decide (m.len = 0) then some (stop 0 i2c)
      else if m.rd then prepareRead i2c
      else irqWrite lastbit i2c

def irqNextbyte (lastbit : Bool) (i2c : I2c) : Option I2c :=
  match i2c.state with
  | .idle => some i2c
  | .stop => some (ackIrq (disableIrq i2c))
  | .start => (irqStart lastbit i2c).map ackIrq
  | .write => (irqWrite lastbit i2c).map ackIrq
  | .read => ((storeByte i2c.ds i2c).bind prepareRead).map ackIrq

def irq (lastbit : Bool) (i2c : I2c) : Option I2c :=
  if i2c.state = .idle then some (ackIrq i2c) else irqNextbyte lastbit i2c

/-- The part of `s3c24xx_i2c_doxfer` under the lock. -/
def begin (msgs : List I2cMsg) (i2c : I2c) : Option I2c :=
  let i2c := { i2c with
    msgs := msgs
    msg := some 0
    msgNum := BitVec.ofNat 32 msgs.length
    msgPtr := 0
    msgIdx := 0
    state := .start }
  msgs.head?.map (fun m => messageStart m (enableIrq i2c))

def init : I2c :=
  { clkOn := false, suspended := false, msgs := [], msg := none, msgNum := 0, msgIdx := 0
    msgPtr := 0, state := .idle, con := ⟨true, true, false⟩, stat := ⟨.slave, false, false⟩, restat := none
    ds := 0 }

end LinuxDriver.I2cMaster
