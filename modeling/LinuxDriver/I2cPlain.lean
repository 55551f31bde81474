import LinuxDriver.I2cRefine

namespace LinuxDriver.I2cPlain

open I2cBus I2cMaster I2cTransfer I2cRefine

variable {σ : Type}

/-- A message with a seven bit address and none of the flags that bend the protocol. -/
structure Unflagged (m : I2cMsg) : Prop where
  addr : m.addr.toNat < 128
  noStart : m.noStart = false
  revDirAddr : m.revDirAddr = false
  ignoreNak : m.ignoreNak = false

/-- Such messages of which only the last may be read. -/
def Plain : List I2cMsg → Prop
  | [] => True
  | m :: rest => Unflagged m ∧ (m.rd = true → rest = []) ∧ Plain rest

def addressByte (m : I2cMsg) : UInt8 := UInt8.ofNat (2 * m.addr.toNat + if m.rd then 1 else 0)

/-- A transaction on the bus. Each message begins with a start condition and the address
byte. Its bytes are written up to the first that is not acknowledged, or they are read,
where the master acknowledges all but the last. A stop condition is the end. -/
def transact (t : Target σ) : List I2cMsg → σ → Outcome σ
  | [], s => ⟨0, [], t.stop s⟩
  | m :: rest, s =>
    let a := t.start s (addressByte m)
    if !a.1 then ⟨-enxio, m :: rest, t.stop a.2⟩
    else if m.rd then
      let r := t.readAll (acks true m.len) a.2
      (transact t rest r.2).after { m with buf := r.1 }
    else
      let w := t.writeAll false m.buf a.2
      if w.1 then (transact t rest w.2).after m
      else ⟨-econnrefused, m :: rest, t.stop w.2⟩

theorem addr_bits : ∀ a < 128,
    UInt8.ofBitVec ((BitVec.ofNat 16 a &&& 0x7f).truncate 8) <<< 1 = UInt8.ofNat (2 * a) ∧
      UInt8.ofBitVec ((BitVec.ofNat 16 a &&& 0x7f).truncate 8) <<< 1 ||| 1 =
        UInt8.ofNat (2 * a + 1) := by decide

theorem addrByte_eq {m : I2cMsg} (h : Unflagged m) : m.addrByte = addressByte m := by
  have hbits := addr_bits m.addr.toNat h.addr
  rw [BitVec.ofNat_toNat, BitVec.setWidth_eq] at hbits
  simp only [I2cMsg.addrByte, addressByte, h.revDirAddr, Bool.false_eq_true, if_false]
  split
  · exact hbits.2
  · exact hbits.1

theorem restarts_plain {ms : List I2cMsg} (h : Plain ms) : restarts ms = true := by
  cases ms with
  | nil => rfl
  | cons m rest => rw [restarts, h.1.noStart, Bool.not_false]

theorem plain_safe {ms : List I2cMsg} (h : Plain ms) : Safe true ms := by
  induction ms with
  | nil => trivial
  | cons m rest ih =>
    obtain ⟨-, hlast, hrest⟩ := h
    rw [Safe, restarts_plain hrest]
    split
    · rename_i hrd
      rw [hlast hrd]
      exact fun _ hmem => absurd hmem List.not_mem_nil
    · exact ih hrest

/-- What the driver makes of such messages is a transaction. -/
theorem transfer_plain (t : Target σ) {ms : List I2cMsg} (h : Plain ms) (s : σ) :
    transfer t true ms s = transact t ms s := by
  induction ms generalizing s with
  | nil => rfl
  | cons m rest ih =>
    obtain ⟨hm, hlast, hrest⟩ := h
    have hnak (ack : Bool) : (!ack && !m.ignoreNak) = !ack := by
      rw [hm.ignoreNak, Bool.not_false, Bool.and_true]
    rw [transfer_true, addressed, hnak, transact, addrByte_eq hm]
    dsimp only
    split
    · rfl
    · split
      · rename_i hrd
        rw [hlast hrd]
        rfl
      · rw [sent, restarts_plain hrest, hm.ignoreNak, ih hrest]

end LinuxDriver.I2cPlain
