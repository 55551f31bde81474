import LinuxDriver.I2cMaster
import Mathlib.Tactic.Common

namespace LinuxDriver.I2cTransfer

open I2cBus I2cMaster

variable {σ : Type}

/-- The driver with the acknowledge bit in `IICSTAT` (set if there was none) and
what is on the bus. -/
structure Sys (σ : Type) where
  i2c : I2c
  lastbit : Bool
  target : σ

def raise (i2c : I2c) : I2c := { i2c with con := { i2c.con with irqPend := true } }

/-- What the controller does once `IRQPEND` is clear: the condition that a write
to `IICSTAT` asked for, or the next byte. All but the stop raise an interrupt. -/
def resume (t : Target σ) (s : Sys σ) : Sys σ :=
  if s.i2c.con.irqPend then s
  else match s.i2c.restat, s.i2c.stat.mode with
    | some stat, _ =>
      if stat.start then
        ⟨raise s.i2c, !(t.start s.target s.i2c.ds).1, (t.start s.target s.i2c.ds).2⟩
      else { s with target := t.stop s.target }
    | none, .masterTx =>
      if s.i2c.stat.start then
        ⟨raise s.i2c, !(t.write s.target s.i2c.ds).1, (t.write s.target s.i2c.ds).2⟩
      else s
    | none, .masterRx =>
      if s.i2c.stat.start then
        let r := t.read s.target s.i2c.con.ackEn
        ⟨raise { s.i2c with ds := r.1 }, !s.i2c.con.ackEn, r.2⟩
      else s
    | none, .slave => s

def Sys.pending (s : Sys σ) : Bool := s.i2c.con.irqEn && s.i2c.con.irqPend

/-- Up to `n` interrupts, as long as they come. -/
def interrupts (t : Target σ) : Nat → Sys σ → Option (Sys σ)
  | 0, s => some s
  | n + 1, s =>
    if s.pending then
      (irq s.lastbit { s.i2c with restat := none }).bind (fun i2c =>
        interrupts t n (resume t { s with i2c := i2c }))
    else some s

structure Outcome (σ : Type) where
  err : Int
  msgs : List I2cMsg
  target : σ

def Outcome.after (m : I2cMsg) (o : Outcome σ) : Outcome σ := { o with msgs := m :: o.msgs }

def receive (t : Target σ) : Bool → List I2cMsg → σ → Outcome σ
  | _, [], s => ⟨0, [], t.stop s⟩
  | first, m :: rest, s =>
    let r := t.readAll (acks (rest.isEmpty && (first || decide (2 ≤ m.len))) m.len) s
    (receive t false rest r.2).after { m with buf := r.1 }

def restarts : List I2cMsg → Bool
  | [] => true
  | m :: _ => !m.noStart

/-- What the interrupts of the driver come to, message by message: each is addressed
unless it only goes on with the one before, written messages are sent byte by byte, and
the first byte that is not acknowledged ends it. Once it reads, it does so to the end. -/
def transfer (t : Target σ) : Bool → List I2cMsg → σ → Outcome σ
  | _, [], s => ⟨0, [], t.stop s⟩
  | restart, m :: rest, s =>
    let a := if restart then t.start s m.addrByte else (true, s)
    if !a.1 && !m.ignoreNak then ⟨-enxio, m :: rest, t.stop a.2⟩
    else if restart && m.rd then receive t true (m :: rest) a.2
    else
      let w := t.writeAll m.ignoreNak m.buf a.2
      if w.1 then (transfer t (restarts rest) rest w.2).after m
      else ⟨-econnrefused, m :: rest, t.stop w.2⟩

/-- No read goes on with a write, and nothing empty comes after a read. -/
def Safe : Bool → List I2cMsg → Prop
  | _, [] => True
  | true, m :: rest => if m.rd then ∀ m' ∈ rest, m'.buf ≠ [] else Safe (restarts rest) rest
  | false, m :: rest => m.rd = false ∧ Safe (restarts rest) rest

/-- How many bytes a transfer can put on the bus. -/
def cost : List I2cMsg → Nat
  | [] => 0
  | m :: rest => m.len + 1 + cost rest

structure Final (s : Sys σ) (ms : List I2cMsg) (err : Int) (target : σ) : Prop where
  suspended : s.i2c.suspended = false
  msgs : s.i2c.msgs = ms
  msg : s.i2c.msg = none
  msgNum : s.i2c.msgNum = 0
  msgIdx : s.i2c.msgIdx = if err ≠ 0 then BitVec.ofInt 32 err else BitVec.ofNat 32 ms.length
  state : s.i2c.state = .stop
  irqEn : s.i2c.con.irqEn = false
  irqPend : s.i2c.con.irqPend = false
  target : s.target = target

/-- Within `n` interrupts the transfer is over, with this outcome for the
messages after those of `done`. -/
def Ends (t : Target σ) (n : Nat) (s : Sys σ) (done : List I2cMsg) (o : Outcome σ) : Prop :=
  ∃ r, interrupts t n s = some r ∧ Final r (done ++ o.msgs) o.err o.target

theorem interrupts_of_not_pending (t : Target σ) {s : Sys σ} (h : s.pending = false) (n : Nat) :
    interrupts t n s = some s := by
  cases n with
  | zero => rfl
  | succ n => rw [interrupts, h, if_neg Bool.false_ne_true]

theorem Final.not_pending {s : Sys σ} {ms : List I2cMsg} {err : Int} {target : σ}
    (h : Final s ms err target) : s.pending = false := by
  rw [Sys.pending, h.irqEn, Bool.false_and]

theorem Ends.of_final {t : Target σ} {s : Sys σ} {done : List I2cMsg} {o : Outcome σ}
    (h : Final s (done ++ o.msgs) o.err o.target) (n : Nat) : Ends t n s done o :=
  ⟨s, interrupts_of_not_pending t h.not_pending n, h⟩

theorem Ends.of_irq {t : Target σ} {n : Nat} {s : Sys σ} {done : List I2cMsg} {o : Outcome σ}
    (i2c : I2c) (hp : s.pending = true)
    (hirq : irq s.lastbit { s.i2c with restat := none } = some i2c)
    (h : Ends t n (resume t { s with i2c := i2c }) done o) : Ends t (n + 1) s done o := by
  obtain ⟨r, hr, hfinal⟩ := h
  refine ⟨r, ?_, hfinal⟩
  rw [interrupts, if_pos hp, hirq, Option.bind_some, hr]

theorem interrupts_mono {t : Target σ} {n : Nat} {s r : Sys σ} (h : interrupts t n s = some r)
    (hr : r.pending = false) {k : Nat} (hk : n ≤ k) : interrupts t k s = some r := by
  induction n generalizing s k with
  | zero =>
    cases h
    exact interrupts_of_not_pending t hr k
  | succ n ih =>
    obtain ⟨k, rfl⟩ : ∃ k', k = k' + 1 := ⟨k - 1, by omega⟩
    rw [interrupts] at h ⊢
    split at h
    · rename_i hp
      obtain ⟨i2c, hirq, hrest⟩ := Option.bind_eq_some_iff.mp h
      rw [if_pos hp, hirq, Option.bind_some]
      exact ih hrest (by omega)
    · rename_i hp
      rw [if_neg hp]
      exact h

theorem Ends.mono {t : Target σ} {n k : Nat} {s : Sys σ} {done : List I2cMsg} {o : Outcome σ}
    (h : Ends t n s done o) (hk : n ≤ k) : Ends t k s done o := by
  obtain ⟨r, hr, hfinal⟩ := h
  exact ⟨r, interrupts_mono hr hfinal.not_pending hk, hfinal⟩

theorem Ends.after {t : Target σ} {n : Nat} {s : Sys σ} {done : List I2cMsg} {m : I2cMsg}
    {o : Outcome σ} (h : Ends t n s (done ++ [m]) o) : Ends t n s done (o.after m) := by
  obtain ⟨r, hr, hfinal⟩ := h
  rw [List.append_assoc] at hfinal
  exact ⟨r, hr, hfinal⟩

end LinuxDriver.I2cTransfer
