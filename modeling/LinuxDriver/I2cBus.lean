import Mathlib.Data.List.Basic

namespace LinuxDriver.I2cBus

variable {σ : Type}

/-- What a master meets on a two-wire bus. `start` and `write` say whether the
byte is acknowledged; `read` is told whether the master will acknowledge. -/
structure Target (σ : Type) where
  start : σ → UInt8 → Bool × σ
  write : σ → UInt8 → Bool × σ
  read : σ → Bool → UInt8 × σ
  stop : σ → σ

/-- Send bytes one after another, up to the first that is not acknowledged
unless that is to be ignored. -/
def Target.writeAll (t : Target σ) (ignore : Bool) : List UInt8 → σ → Bool × σ
  | [], s => (true, s)
  | b :: bs, s =>
    if (t.write s b).1 || ignore then t.writeAll ignore bs (t.write s b).2
    else (false, (t.write s b).2)

def Target.readAll (t : Target σ) : List Bool → σ → List UInt8 × σ
  | [], s => ([], s)
  | a :: acks, s =>
    ((t.read s a).1 :: (t.readAll acks (t.read s a).2).1, (t.readAll acks (t.read s a).2).2)

theorem writeAll_cons_of_ack {t : Target σ} {ignore : Bool} {s : σ} {b : UInt8}
    (h : ((t.write s b).1 || ignore) = true) (bs : List UInt8) :
    t.writeAll ignore (b :: bs) s = t.writeAll ignore bs (t.write s b).2 := if_pos h

theorem writeAll_cons_of_nak {t : Target σ} {ignore : Bool} {s : σ} {b : UInt8}
    (h : ((t.write s b).1 || ignore) = false) (bs : List UInt8) :
    t.writeAll ignore (b :: bs) s = (false, (t.write s b).2) :=
  if_neg (ne_true_of_eq_false h)

def acks (nack : Bool) : Nat → List Bool
  | 0 => []
  | n + 1 => (!(nack && decide (n = 0))) :: acks nack n

/-- Where a device with registers is in a transfer: the next byte written
is the number of a register, or goes into one, or it is being read. -/
inductive Phase
  | idle
  | pointer
  | data
  | reading
deriving DecidableEq

/-- Registers that are reached through a pointer, which moves on with each byte. -/
structure RegFile where
  regs : UInt8 → UInt8
  ptr : UInt8
  phase : Phase

def regFile (addr : UInt8) : Target RegFile where
  start s b :=
    if b >>> 1 = addr then
      (true, { s with phase := if b &&& 1 = 1 then .reading else .pointer })
    else (false, { s with phase := .idle })
  write s b :=
    match s.phase with
    | .pointer => (true, { s with ptr := b, phase := .data })
    | .data => (true, ⟨fun r => if r = s.ptr then b else s.regs r, s.ptr + 1, .data⟩)
    | _ => (false, s)
  read s _ :=
    match s.phase with
    | .reading => (s.regs s.ptr, { s with ptr := s.ptr + 1 })
    | _ => (0xff, s)
  stop s := { s with phase := .idle }

theorem regFile_start {addr b : UInt8} (h : b >>> 1 = addr) (s : RegFile) :
    (regFile addr).start s b =
      (true, { s with phase := if b &&& 1 = 1 then .reading else .pointer }) := if_pos h

end LinuxDriver.I2cBus
