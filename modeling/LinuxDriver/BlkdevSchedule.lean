import LinuxDriver.BlkdevThreads
import Mathlib.Algebra.BigOperators.Group.Finset.Basic
import Mathlib.Algebra.Order.BigOperators.Group.Finset
import Mathlib.Tactic.FinCases

namespace LinuxDriver.BlkdevSchedule

open Blit Runs BlkdevState BlkdevTrans BlkdevFind BlkdevTransfer BlkdevRequest BlkdevDisk
open BlkdevThreads

def moved (b : Bio) : Pc → Nat
  | .entry => 0
  | .vec _ _ filled _ => vecsLen filled
  | .seg _ _ filled _ _ doneCnt _ _ => vecsLen filled + doneCnt
  | .finished _ _ => b.biSize

structure Sys (ι : Type) where
  pcs : ι → Pc
  st : State

def Sys.init {ι : Type} (s : State) : Sys ι := ⟨fun _ => .entry, s⟩

variable {ι : Type} [DecidableEq ι]

end LinuxDriver.BlkdevSchedule
