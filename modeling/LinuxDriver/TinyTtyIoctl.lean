import LinuxDriver.Blit

namespace LinuxDriver.TinyTtyIoctl

open Blit

def tiocgserial : BitVec 32 := 0x541E
def tiocmiwait : BitVec 32 := 0x545C
def tiocgicount : BitVec 32 := 0x545D

def tiocmCts : BitVec 64 := 0x020
def tiocmCd : BitVec 64 := 0x040
def tiocmRng : BitVec 64 := 0x080
def tiocmDsr : BitVec 64 := 0x100

def eio : Int := 5
def efault : Int := 14
def erestartsys : Int := 512
def enoioctlcmd : Int := 515

def serialFlags : BitVec 32 := 0x40 ||| 0x80

structure SerialStruct where
  type : BitVec 32
  line : BitVec 32
  port : BitVec 32
  irq : BitVec 32
  xmitFifoSize : BitVec 32
  baudBase : BitVec 32
  customDivisor : BitVec 32
  hub6 : BitVec 32
  ioType : BitVec 8

structure AsyncIcount where
  cts : BitVec 32
  dsr : BitVec 32
  rng : BitVec 32
  dcd : BitVec 32
  tx : BitVec 32
  rx : BitVec 32
  frame : BitVec 32
  parity : BitVec 32
  overrun : BitVec 32
  brk : BitVec 32
  bufOverrun : BitVec 32

structure TinySerial where
  serial : SerialStruct
  icount : AsyncIcount

def bytes {w : Nat} (x : BitVec w) (n : Nat) : List UInt8 :=
  (List.range n).map (fun i => UInt8.ofBitVec (x.extractLsb' (8 * i) 8))

theorem bytes_length {w : Nat} (x : BitVec w) (n : Nat) : (bytes x n).length = n := by
  simp [bytes]

structure Reply where
  ret : Int
  copied : List UInt8

/-- `copy_to_user` of the `size` bytes at `mem`, of which the user can take the
first `writable`. -/
def copyToUser (mem : Nat → UInt8) (size writable : Nat) : Reply :=
  ⟨if writable < size then -efault else 0, slice mem 0 (min writable size)⟩

def sizeofSerialStruct : Nat := 72
def sizeofIcounterStruct : Nat := 80

def serialFields (hz : BitVec 32) (t : SerialStruct) : List (Nat × List UInt8) :=
  [(0, bytes t.type 4), (4, bytes t.line 4), (8, bytes t.port 4), (12, bytes t.irq 4),
    (16, bytes serialFlags 4), (20, bytes t.xmitFifoSize 4), (28, bytes t.baudBase 4),
    (32, bytes (5 * hz) 2), (40, bytes (30 * hz) 2), (24, bytes t.customDivisor 4),
    (36, bytes t.hub6 4), (34, bytes t.ioType 1)]

def icounterFields (c : AsyncIcount) : List (Nat × List UInt8) :=
  [(0, bytes c.cts 4), (4, bytes c.dsr 4), (8, bytes c.rng 4), (12, bytes c.dcd 4),
    (16, bytes c.rx 4), (20, bytes c.tx 4), (24, bytes c.frame 4), (28, bytes c.overrun 4),
    (32, bytes c.parity 4), (36, bytes c.brk 4), (40, bytes c.bufOverrun 4)]

/-- `stack` is what the local variable of the call finds in its place. -/
def tinyIoctlTiocgserial (hz : BitVec 32) (tiny : TinySerial) (cmd : BitVec 32) (arg : BitVec 64)
    (writable : Nat) (stack : Nat → UInt8) : Reply :=
  if cmd = tiocgserial then
    if arg = 0 then ⟨-efault, []⟩
    else
      let tmp := blit stack 0 (fun _ => 0) 0 sizeofSerialStruct
      copyToUser (storeAll tmp (serialFields hz tiny.serial)) sizeofSerialStruct writable
  else ⟨-enoioctlcmd, []⟩

structure Wakeup where
  signalPending : Bool
  icount : AsyncIcount

/-- The loop of `tiny_ioctl_tiocmiwait`; `none` as long as it sleeps. -/
def waitLoop (arg : BitVec 64) : AsyncIcount → List Wakeup → Option Int
  | _, [] => none
  | cprev, w :: ws =>
    let cnow := w.icount
    if w.signalPending then some (-erestartsys)
    else if cnow.rng = cprev.rng ∧ cnow.dsr = cprev.dsr ∧ cnow.dcd = cprev.dcd ∧
      cnow.cts = cprev.cts then some (-eio)
    else if (arg &&& tiocmRng ≠ 0 ∧ cnow.rng ≠ cprev.rng) ∨
      (arg &&& tiocmDsr ≠ 0 ∧ cnow.dsr ≠ cprev.dsr) ∨
      (arg &&& tiocmCd ≠ 0 ∧ cnow.dcd ≠ cprev.dcd) ∨
      (arg &&& tiocmCts ≠ 0 ∧ cnow.cts ≠ cprev.cts) then some 0
    else waitLoop arg cnow ws

def tinyIoctlTiocmiwait (tiny : TinySerial) (cmd : BitVec 32) (arg : BitVec 64)
    (wakeups : List Wakeup) : Option Reply :=
  if cmd = tiocmiwait then (waitLoop arg tiny.icount wakeups).map (fun ret => ⟨ret, []⟩)
  else some ⟨-enoioctlcmd, []⟩

def tinyIoctlTiocgicount (tiny : TinySerial) (cmd : BitVec 32) (writable : Nat)
    (stack : Nat → UInt8) : Reply :=
  if cmd = tiocgicount then
    copyToUser (storeAll stack (icounterFields tiny.icount)) sizeofIcounterStruct writable
  else ⟨-enoioctlcmd, []⟩

def tinyIoctl (hz : BitVec 32) (tiny : TinySerial) (cmd : BitVec 32) (arg : BitVec 64)
    (wakeups : List Wakeup) (writable : Nat) (stack : Nat → UInt8) : Option Reply :=
  if cmd = tiocgserial then some (tinyIoctlTiocgserial hz tiny cmd arg writable stack)
  else if cmd = tiocmiwait then tinyIoctlTiocmiwait tiny cmd arg wakeups
  else if cmd = tiocgicount then some (tinyIoctlTiocgicount tiny cmd writable stack)
  else some ⟨-enoioctlcmd, []⟩

theorem icounter_covers (c : AsyncIcount) (i : Nat) : Covers (icounterFields c) i ↔ i < 44 := by
  simp only [Covers, icounterFields, List.mem_cons, List.not_mem_nil, or_false, exists_eq_or_imp,
    exists_eq_left, bytes_length]
  omega

theorem serial_same (hz : BitVec 32) (tiny : TinySerial) (cmd : BitVec 32) (arg : BitVec 64)
    (writable : Nat) (σ τ : Nat → UInt8) :
    tinyIoctlTiocgserial hz tiny cmd arg writable σ =
      tinyIoctlTiocgserial hz tiny cmd arg writable τ := by
  have hslice : ∀ fs : List (Nat × List UInt8),
      slice (storeAll (blit σ 0 (fun _ => 0) 0 sizeofSerialStruct) fs) 0
          (min writable sizeofSerialStruct) =
        slice (storeAll (blit τ 0 (fun _ => 0) 0 sizeofSerialStruct) fs) 0
          (min writable sizeofSerialStruct) := by
    intro fs
    apply slice_congr
    intro i hi
    by_cases hcov : Covers fs (0 + i)
    · exact storeAll_inside _ _ hcov
    · rw [storeAll_outside _ hcov, storeAll_outside _ hcov,
        blit_inside _ _ _ _ _ _ (by omega), blit_inside _ _ _ _ _ _ (by omega)]
  simp only [tinyIoctlTiocgserial, copyToUser, hslice]

theorem icounter_same_iff (tiny : TinySerial) (writable : Nat) (σ τ : Nat → UInt8) :
    (tinyIoctlTiocgicount tiny tiocgicount writable σ).copied =
        (tinyIoctlTiocgicount tiny tiocgicount writable τ).copied ↔
      ∀ i, 44 ≤ i → i < min writable sizeofIcounterStruct → σ i = τ i := by
  simp only [tinyIoctlTiocgicount, if_true, copyToUser]
  constructor
  · intro h i hge hlt
    have hi : ¬ Covers (icounterFields tiny.icount) i := by
      rw [icounter_covers]
      omega
    have hsame := slice_inj 0 0 _ h i hlt
    rwa [Nat.zero_add, storeAll_outside _ hi, storeAll_outside _ hi] at hsame
  · intro h
    apply slice_congr
    intro i hlt
    rw [Nat.zero_add]
    by_cases hi : Covers (icounterFields tiny.icount) i
    · exact storeAll_inside _ _ hi
    · rw [storeAll_outside _ hi, storeAll_outside _ hi]
      rw [icounter_covers] at hi
      exact h i (by omega) hlt

/-- Two runs that differ in the stack only copy the same bytes, unless the counters
are asked for and the reserved words among the bytes copied differ. -/
theorem ioctl_leaks_iff (hz : BitVec 32) (tiny : TinySerial) (cmd : BitVec 32) (arg : BitVec 64)
    (wakeups : List Wakeup) (writable : Nat) :
    let copied := fun stack =>
      (tinyIoctl hz tiny cmd arg wakeups writable stack).map Reply.copied
    (∀ σ τ, copied σ = copied τ ↔ cmd ≠ tiocgicount ∨
      ∀ i, 44 ≤ i → i < min writable sizeofIcounterStruct → σ i = τ i) ∧
    ((∀ σ τ, copied σ = copied τ) ↔ cmd ≠ tiocgicount ∨ writable ≤ 44) := by
  intro copied
  have hpair : ∀ σ τ, copied σ = copied τ ↔ cmd ≠ tiocgicount ∨
      ∀ i, 44 ≤ i → i < min writable sizeofIcounterStruct → σ i = τ i := by
    intro σ τ
    change Option.map _ (tinyIoctl hz tiny cmd arg wakeups writable σ) =
      Option.map _ (tinyIoctl hz tiny cmd arg wakeups writable τ) ↔ _
    by_cases hcmd : cmd = tiocgicount
    · subst hcmd
      have hser : tiocgicount ≠ tiocgserial := by decide
      have hwait : tiocgicount ≠ tiocmiwait := by decide
      simp only [tinyIoctl, if_neg hser, if_neg hwait, if_true, Option.map_some,
        Option.some.injEq, icounter_same_iff, ne_eq, not_true_eq_false, false_or]
    · simp only [tinyIoctl, serial_same hz tiny cmd arg writable σ τ, hcmd, if_false, ne_eq,
        not_false_eq_true, true_or]
  refine ⟨hpair, ?_⟩
  constructor
  · intro h
    by_contra hno
    obtain ⟨hcmd, hlt⟩ := not_or.mp hno
    obtain hcmd' | hsame := (hpair (fun _ => 0) (fun _ => 1)).mp (h _ _)
    · exact hcmd hcmd'
    · have h44 := hsame 44 (Nat.le_refl 44) (by rw [sizeofIcounterStruct]; omega)
      exact absurd h44 (by decide)
  · intro h σ τ
    apply (hpair σ τ).mpr
    apply h.imp_right
    intro hle i hge hlt
    omega

def TinySerial.new : TinySerial :=
  ⟨⟨0, 0, 0, 0, 0, 0, 0, 0, 0⟩, ⟨0, 0, 0, 0, 0, 0, 0, 0, 0, 0, 0⟩⟩

/-- The nine reserved words are those of the stack. -/
theorem icount_shows_stack :
    let copied := fun stack =>
      (tinyIoctl 100 TinySerial.new tiocgicount 0x7fff0000 [] 80 stack).map Reply.copied
    copied (fun _ => 0) ≠ copied (fun _ => 0x5a) ∧
      copied (fun _ => 0x5a) = some (List.replicate 44 0 ++ List.replicate 36 0x5a) := by
  constructor <;> decide +kernel

end LinuxDriver.TinyTtyIoctl
