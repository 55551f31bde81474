import LinuxDriver.UartWork
import Mathlib.Data.List.Forall2

namespace LinuxDriver.UartTx

open Runs Circ Uart UartWork

variable {k : Nat}

def char : Out → Option UInt8
  | .char c => some c
  | _ => none

def xchar : Out → Option UInt8
  | .xchar c => some c
  | _ => none

def console : Out → Option UInt8
  | .console c => some c
  | _ => none

/-- Everything that was written to `UTXH`, in order. -/
def out (t : Tx k) : List Out := t.line ++ t.txFifo

def xPending (t : Tx k) : List UInt8 := if t.xChar ≠ 0 then [t.xChar] else []

/-- Of each earlier session what its ring did not hold in the end went out, and of this
one what is not pending, one session after another. -/
def Sent (sessions : List Session) (written went pending : List UInt8) : Prop :=
  ∃ sents cur, List.Forall₂ (fun sent s => sent ++ s.discarded = s.written) sents sessions ∧
    cur ++ pending = written ∧ went = sents.flatten ++ cur

def renew (log : List UInt8) (r : UInt8 × Bool) : List UInt8 :=
  (if r.2 then log.dropLast else log) ++ if r.1 ≠ 0 then [r.1] else []

def standing (requested : List (UInt8 × Bool)) : List UInt8 := requested.foldl renew []

/-- The characters that were written, those of the console and the `x_char`s went out or
are waiting, each kind in order and none twice. -/
structure Conserved (s : Sys k) : Prop where
  chars : Sent s.sessions s.written ((out (tx s.port)).filterMap char) (tx s.port).xmit.pending
  console : (out (tx s.port)).filterMap console ++ s.cons = s.consoled
  xchars : (out (tx s.port)).filterMap xchar ++ xPending (tx s.port) = standing s.requested
  closed : s.opened = false → (tx s.port).xmit.isEmpty = true ∧ s.written = []

theorem sent_nil : Sent [] [] [] [] := ⟨[], [], List.Forall₂.nil, rfl, rfl⟩

theorem Conserved.frame {s : Sys k} {p : Port k} (h : Conserved s) (heq : tx p = tx s.port) :
    Conserved { s with port := p } where
  chars := heq ▸ h.chars
  console := heq ▸ h.console
  xchars := heq ▸ h.xchars
  closed := heq ▸ h.closed

theorem writeUtxh_room {o : Out} {p : Port k} (h : p.txFifo.length < p.fifosize) :
    writeUtxh o p = { p with txFifo := p.txFifo ++ [o] } := if_pos h

variable {buf : Nat → UInt8} {fifosize : Nat} {consFlow : Bool} {read ignore : BitVec 32}

theorem conserved_start : Conserved (start (k := k) buf fifosize consFlow read ignore) where
  chars := by
    have hempty : (tx (start (k := k) buf fifosize consFlow read ignore).port).xmit.pending = [] :=
      (pending_eq_nil _).mpr (decide_eq_true rfl)
    rw [hempty]
    exact sent_nil
  console := rfl
  xchars := rfl
  closed _ := ⟨decide_eq_true rfl, rfl⟩

end LinuxDriver.UartTx
