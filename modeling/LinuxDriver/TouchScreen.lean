import LinuxDriver.I2cXfer
import Mathlib.Tactic.IntervalCases

namespace LinuxDriver.TouchScreen

open I2cBus I2cMaster I2cTransfer I2cRefine I2cXfer

/-- What a transfer meets: the polls of the bus, and how many interrupts come in
time. -/
structure Call where
  busy : Nat → Bool
  interrupts : Nat

variable {σ : Type} {t : Target σ}

def masterXfer (t : Target σ) (c : Call) (msgs : List I2cMsg) (s : Sys σ) :
    Option (Int × List I2cMsg × Sys σ) :=
  xfer t false c.busy c.interrupts 2 msgs s

/-- `i2c_transfer` of the kernel, which gets a `master_xfer`. -/
abbrev Core (σ : Type) :=
  (List I2cMsg → Sys σ → Option (Int × List I2cMsg × Sys σ)) →
    List I2cMsg → Sys σ → Option (Int × List I2cMsg × Sys σ)

/-- It calls `master_xfer`, and only again if that returns `-EAGAIN`. -/
def Passes (core : Core σ) : Prop :=
  ∀ masterXfer msgs s r, masterXfer msgs s = some r → r.1 ≠ -eagain →
    core masterXfer msgs s = some r

def writeMsg (addr : BitVec 16) (buf : List UInt8) : I2cMsg :=
  ⟨addr, false, false, false, false, buf⟩

def readMsg (addr : BitVec 16) (buf : List UInt8) : I2cMsg :=
  ⟨addr, true, false, false, false, buf⟩

section Client

variable (core : Core σ)

def touchScreenWriteByte (t : Target σ) (addr : BitVec 16) (c : Call) (reg val : UInt8)
    (s : Sys σ) : Option (Sys σ) :=
  (core (masterXfer t c) [writeMsg addr [reg, val]] s).map (fun r => r.2.2)

/-- `touch_screen_read_byte`, which returns `rxbuf[0]` whatever the transfer did. -/
def touchScreenReadByte (t : Target σ) (addr : BitVec 16) (c : Call) (reg : UInt8) (s : Sys σ) :
    Option (UInt8 × Sys σ) :=
  (core (masterXfer t c) [writeMsg addr [reg], readMsg addr [0]] s).bind (fun r =>
    (r.2.1[1]?).bind (fun m => (m.buf[0]?).map (fun byte => (byte, r.2.2))))

end Client

inductive Op
  | write (reg val : UInt8)
  | read (reg : UInt8)

def Op.call (core : Core σ) (t : Target σ) (addr : BitVec 16) (c : Call) (s : Sys σ) :
    Op → Option (List UInt8 × Sys σ)
  | .write reg val => (touchScreenWriteByte core t addr c reg val s).map (fun s => ([], s))
  | .read reg => (touchScreenReadByte core t addr c reg s).map (fun r => ([r.1], r.2))

def calls (core : Core σ) (t : Target σ) (addr : BitVec 16) :
    List (Op × Call) → Sys σ → Option (List UInt8 × Sys σ)
  | [], s => some ([], s)
  | (op, c) :: rest, s =>
    (op.call core t addr c s).bind (fun r =>
      (calls core t addr rest r.2).map (fun q => (r.1 ++ q.1, q.2)))

section Spec

/-- The byte that a call has read, and the registers after it, when it gets
through to the device and when it does not. -/
def Op.value (through : Bool) (regs : UInt8 → UInt8) : Op → List UInt8
  | .write _ _ => []
  | .read reg => [if through then regs reg else 0]

def Op.regs (through : Bool) (regs : UInt8 → UInt8) : Op → UInt8 → UInt8
  | .write reg val => if through then fun r => if r = reg then val else regs r else regs
  | .read _ => regs

def slaveAddr (addr : BitVec 16) : UInt8 := UInt8.ofBitVec ((addr &&& 0x7f).truncate 8)

/-- The bus is free within the polls of a transfer, and there is a device at the address. -/
def Call.through (addr : BitVec 16) (device : UInt8) (c : Call) : Bool :=
  (List.range 800).any (fun j => !c.busy j) && decide (slaveAddr addr = device)

def values (addr : BitVec 16) (device : UInt8) :
    List (Op × Call) → (UInt8 → UInt8) → List UInt8
  | [], _ => []
  | (op, c) :: rest, regs =>
    op.value (c.through addr device) regs ++
      values addr device rest (op.regs (c.through addr device) regs)

def finals (addr : BitVec 16) (device : UInt8) :
    List (Op × Call) → (UInt8 → UInt8) → UInt8 → UInt8
  | [], regs => regs
  | (op, c) :: rest, regs => finals addr device rest (op.regs (c.through addr device) regs)

end Spec

section Address

theorem low_bit {w : Nat} (h : 6 < w) : (0x7f : BitVec 16).getLsbD w = false := by
  rcases Nat.lt_or_ge w 16 with hw | hw
  · interval_cases w <;> rfl
  · simp [hw]

theorem shift_addr (a : BitVec 16) {b : BitVec 8} (hb : b = 0 ∨ b = 1) :
    ((a &&& 0x7f).truncate 8 <<< 1 ||| b) >>> 1 = (a &&& 0x7f).truncate 8 := by
  ext i hi
  rcases hb with rfl | rfl
  · have hlow := @low_bit i
    grind
  · interval_cases i <;> simp

theorem direction (a b : BitVec 8) (hb : b = 0 ∨ b = 1) : (a <<< 1 ||| b) &&& 1 = b := by
  ext i hi
  rcases hb with rfl | rfl
  · interval_cases i <;> simp
  · interval_cases i <;> simp

theorem addrByte_eq {m : I2cMsg} (h : m.revDirAddr = false) :
    m.addrByte.toBitVec = (m.addr &&& 0x7f).truncate 8 <<< 1 ||| (if m.rd then 1 else 0) := by
  cases hrd : m.rd with
  | true => simp [I2cMsg.addrByte, h, hrd]
  | false => simp [I2cMsg.addrByte, h, hrd]

theorem addrByte_addr {m : I2cMsg} (h : m.revDirAddr = false) :
    m.addrByte >>> 1 = slaveAddr m.addr := by
  apply UInt8.toBitVec_inj.mp
  have hshift : (m.addrByte >>> 1).toBitVec = m.addrByte.toBitVec >>> 1 := by simp
  rw [hshift, addrByte_eq h, shift_addr m.addr (by cases m.rd <;> simp)]
  rfl

theorem addrByte_dir {m : I2cMsg} (h : m.revDirAddr = false) :
    m.addrByte &&& 1 = if m.rd then 1 else 0 := by
  apply UInt8.toBitVec_inj.mp
  have hand : (m.addrByte &&& 1).toBitVec = m.addrByte.toBitVec &&& 1 := by simp
  rw [hand, addrByte_eq h, direction _ _ (by cases m.rd <;> simp)]
  cases m.rd <;> rfl

end Address

section Transfers

variable {core : Core σ} {c : Call} {s : Sys σ} {ms : List I2cMsg}

theorem core_free (hcore : Passes core) (hs : AtRest s) (hne : ms ≠ []) (hlen : ms.length < 2 ^ 31)
    (hsafe : Safe true ms) (hn : cost ms ≤ c.interrupts) (hfree : ∃ j < 800, c.busy j = false) :
    let o := transfer t true ms s.target
    ∃ r, core (masterXfer t c) ms s = some (Outcome.ret o, o.msgs, r) ∧ AtRest r ∧
      r.target = o.target := by
  intro o
  obtain ⟨ret, msgs, r, hxfer, hclk, hwaited⟩ := @xfer_ends _ _ t false c.busy s hs.toReady hne hlen
    hsafe c.interrupts 2 hfree
  rcases hwaited with ⟨rfl, rfl, hfinal⟩ | ⟨hearly, -, -⟩
  · have hagain := Outcome.ret_ne (transfer_sound t ms true s.target)
    exact ⟨r, hcore _ _ _ _ hxfer hagain, ⟨Final.ready hfinal, hclk⟩, hfinal.target⟩
  · omega

theorem core_busy (hcore : Passes core) (hs : AtRest s) (hbusy : ∀ j < 800, c.busy j = true) :
    core (masterXfer t c) ms s = some (-eremoteio, ms, s) := by
  have hagain : (-eremoteio, ms, s).1 ≠ -eagain := by
    change (-121 : Int) ≠ -11
    decide
  exact hcore _ _ _ _ (xfer_busy t hs c.interrupts 2 hbusy) hagain

end Transfers

section Registers

variable {addr : BitVec 16} {device : UInt8} {c : Call} {s : RegFile}

theorem start_write (h : slaveAddr addr = device) (buf : List UInt8) :
    (regFile device).start s (writeMsg addr buf).addrByte =
      (true, { s with phase := .pointer }) := by
  have hdir : (writeMsg addr buf).addrByte &&& 1 = 0 := addrByte_dir rfl
  rw [regFile_start ((addrByte_addr rfl).trans h), hdir]
  rfl

theorem start_read (h : slaveAddr addr = device) (buf : List UInt8) :
    (regFile device).start s (readMsg addr buf).addrByte =
      (true, { s with phase := .reading }) := by
  have hdir : (readMsg addr buf).addrByte &&& 1 = 1 := addrByte_dir rfl
  rw [regFile_start ((addrByte_addr rfl).trans h), hdir]
  rfl

theorem transfer_write (h : slaveAddr addr = device) (reg val : UInt8) :
    transfer (regFile device) true [writeMsg addr [reg, val]] s =
      ⟨0, [writeMsg addr [reg, val]],
        ⟨fun r => if r = reg then val else s.regs r, reg + 1, .idle⟩⟩ := by
  rw [transfer]
  simp only [if_true, start_write h]
  rfl

theorem transfer_read (h : slaveAddr addr = device) (reg : UInt8) :
    transfer (regFile device) true [writeMsg addr [reg], readMsg addr [0]] s =
      ⟨0, [writeMsg addr [reg], readMsg addr [s.regs reg]], ⟨s.regs, reg + 1, .idle⟩⟩ := by
  rw [transfer]
  simp only [if_true, start_write h]
  change Outcome.after _ (transfer (regFile device) true [readMsg addr [0]]
    { s with ptr := reg, phase := .data }) = _
  rw [transfer]
  simp only [if_true, start_read h]
  rfl

theorem transfer_absent (h : slaveAddr addr ≠ device) (buf : List UInt8) (rest : List I2cMsg) :
    transfer (regFile device) true (writeMsg addr buf :: rest) s =
      ⟨-enxio, writeMsg addr buf :: rest, { s with phase := .idle }⟩ := by
  have hstart : (regFile device).start s (writeMsg addr buf).addrByte =
      (false, { s with phase := .idle }) :=
    if_neg (fun hno => h ((addrByte_addr rfl).symm.trans hno))
  rw [transfer]
  simp only [if_true, hstart]
  rfl

end Registers

section Calls

variable {core : Core RegFile} {addr : BitVec 16} {device : UInt8} {c : Call} {s : Sys RegFile}

def Op.msgs (addr : BitVec 16) : Op → List I2cMsg
  | .write reg val => [writeMsg addr [reg, val]]
  | .read reg => [writeMsg addr [reg], readMsg addr [0]]

def Op.result (op : Op) (r : Int × List I2cMsg × Sys σ) : Option (List UInt8 × Sys σ) :=
  match op with
  | .write _ _ => some ([], r.2.2)
  | .read _ => (r.2.1[1]?).bind (fun m => (m.buf[0]?).map (fun byte => ([byte], r.2.2)))

theorem call_eq (core : Core σ) (t : Target σ) (addr : BitVec 16) (c : Call) (s : Sys σ) (op : Op) :
    op.call core t addr c s = (core (masterXfer t c) (op.msgs addr) s).bind op.result := by
  cases op with
  | write reg val =>
    simp only [Op.call, touchScreenWriteByte, Op.msgs, Option.map_map]
    cases core (masterXfer t c) [writeMsg addr [reg, val]] s <;> rfl
  | read reg =>
    simp only [Op.call, touchScreenReadByte, Op.msgs]
    cases core (masterXfer t c) [writeMsg addr [reg], readMsg addr [0]] s with
    | none => rfl
    | some r => simp [Op.result, Option.map_bind, Function.comp_def]

theorem msgs_safe (op : Op) (addr : BitVec 16) :
    op.msgs addr ≠ [] ∧ (op.msgs addr).length < 2 ^ 31 ∧ Safe true (op.msgs addr) ∧
      cost (op.msgs addr) ≤ 4 := by
  cases op with
  | write reg val => simp [Op.msgs, Safe, cost, writeMsg, I2cMsg.len]
  | read reg => simp [Op.msgs, Safe, cost, writeMsg, readMsg, restarts, I2cMsg.len]

theorem result_not_through (addr : BitVec 16) (op : Op) (err : Int) (r : Sys σ)
    (regs : UInt8 → UInt8) :
    op.result (err, op.msgs addr, r) = some (op.value false regs, r) ∧
      op.regs false regs = regs := by
  cases op with
  | write reg val => exact ⟨rfl, rfl⟩
  | read reg => exact ⟨rfl, rfl⟩

theorem through_iff : c.through addr device = true ↔
    (∃ j < 800, c.busy j = false) ∧ slaveAddr addr = device := by
  simp [Call.through]

theorem call_ends (hcore : Passes core) (addr : BitVec 16) (device : UInt8) (hs : AtRest s)
    (hn : 4 ≤ c.interrupts) (op : Op) :
    let through := c.through addr device
    ∃ r, op.call core (regFile device) addr c s = some (op.value through s.target.regs, r) ∧
      AtRest r ∧ r.target.regs = op.regs through s.target.regs := by
  intro through
  obtain ⟨hne, hlen, hsafe, hcost⟩ := msgs_safe op addr
  by_cases hfree : ∃ j < 800, c.busy j = false
  · obtain ⟨r, htransfer, hready, htarget⟩ := core_free (t := regFile device) hcore hs hne hlen
      hsafe (Nat.le_trans hcost hn) hfree
    rw [call_eq, htransfer, Option.bind_some]
    refine ⟨r, ?_⟩
    by_cases haddr : slaveAddr addr = device
    · have hthrough : through = true := through_iff.mpr ⟨hfree, haddr⟩
      cases op with
      | write reg val =>
        rw [Op.msgs, transfer_write haddr] at htarget
        exact ⟨by rw [hthrough]; rfl, hready, by rw [htarget, hthrough]; rfl⟩
      | read reg =>
        rw [Op.msgs, transfer_read haddr] at htarget
        rw [Op.msgs, transfer_read haddr]
        exact ⟨by rw [hthrough]; rfl, hready, by rw [htarget]; rfl⟩
    · have hthrough : through = false :=
        eq_false_of_ne_true (fun h => haddr (through_iff.mp h).2)
      have habsent : transfer (regFile device) true (op.msgs addr) s.target =
          ⟨-enxio, op.msgs addr, { s.target with phase := .idle }⟩ := by
        cases op with
        | write reg val => exact transfer_absent haddr [reg, val] []
        | read reg => exact transfer_absent haddr [reg] [readMsg addr [0]]
      rw [habsent] at htarget ⊢
      have hresult := result_not_through addr op (Outcome.ret (⟨-enxio, op.msgs addr,
        { s.target with phase := .idle }⟩ : Outcome RegFile)) r s.target.regs
      rw [hthrough, hresult.2]
      exact ⟨hresult.1, hready, by rw [htarget]⟩
  · have hthrough : through = false :=
      eq_false_of_ne_true (fun h => hfree (through_iff.mp h).1)
    have hresult := result_not_through addr op (-eremoteio) s s.target.regs
    rw [call_eq,
      core_busy hcore hs (fun j hj => eq_true_of_ne_false (fun h => hfree ⟨j, hj, h⟩)),
      Option.bind_some, hthrough, hresult.2]
    exact ⟨s, hresult.1, hs, rfl⟩

/-- Through the driver, its interrupts and the bus, the calls of a client read
and write registers: each read returns what was last written, or was there
before, and zero if it does not get through. -/
theorem calls_are_registers {core : Core RegFile} (hcore : Passes core) (addr : BitVec 16)
    (device : UInt8) (ops : List (Op × Call)) {s : Sys RegFile} (hs : AtRest s)
    (hn : ∀ op ∈ ops, 4 ≤ op.2.interrupts) :
    ∃ r, calls core (regFile device) addr ops s = some (values addr device ops s.target.regs, r) ∧
      AtRest r ∧ r.target.regs = finals addr device ops s.target.regs := by
  induction ops generalizing s with
  | nil => exact ⟨s, rfl, hs, rfl⟩
  | cons head rest ih =>
    obtain ⟨op, c⟩ := head
    obtain ⟨r, hcall, hready, hregs⟩ := call_ends hcore addr device hs
      (hn (op, c) List.mem_cons_self) op
    obtain ⟨r', hrest, hready', hregs'⟩ := ih hready (fun x hx => hn x (List.mem_cons_of_mem _ hx))
    refine ⟨r', ?_, hready', ?_⟩
    · rw [calls, hcall, Option.bind_some, hrest, Option.map_some, values, hregs]
    · rw [hregs', finals, hregs]

def coreTwice : Core σ := fun masterXfer msgs s =>
  (masterXfer msgs s).bind (fun r =>
    if r.1 = -eagain then masterXfer r.2.1 r.2.2 else some r)

theorem coreTwice_passes : Passes (coreTwice : Core σ) := by
  intro masterXfer msgs s r hr hne
  rw [coreTwice, hr, Option.bind_some, if_neg hne]

theorem calls_are_registers_at_5 :
    ∃ r, calls coreTwice (regFile 0x38) 0x38 [(.write 5 7, ⟨fun i => decide (i < 3), 4⟩),
      (.read 5, ⟨fun _ => false, 9⟩)] ⟨init, true, ⟨fun _ => 0, 0, .idle⟩⟩ = some ([7], r) := by
  obtain ⟨r, hcalls, -⟩ := calls_are_registers coreTwice_passes 0x38 0x38
    [(.write 5 7, ⟨fun i => decide (i < 3), 4⟩), (.read 5, ⟨fun _ => false, 9⟩)]
    (s := ⟨init, true, ⟨fun _ => 0, 0, .idle⟩⟩) ⟨⟨rfl, rfl⟩, rfl⟩ (by decide)
  have hwrite : Call.through 0x38 0x38 ⟨fun i => decide (i < 3), 4⟩ = true :=
    through_iff.mpr ⟨⟨3, by decide, rfl⟩, rfl⟩
  have hread : Call.through 0x38 0x38 ⟨fun _ => false, 9⟩ = true :=
    through_iff.mpr ⟨⟨0, by decide, rfl⟩, rfl⟩
  refine ⟨r, ?_⟩
  rw [hcalls, values, values, values, hwrite, hread]
  rfl

end Calls

end LinuxDriver.TouchScreen
