import LinuxDriver.Blit
import Mathlib.Algebra.GroupWithZero.Nat
import Mathlib.Data.Finmap
import Mathlib.Order.Lattice.Nat

namespace LinuxDriver.BlkdevState

open Blit

def pageShift : Nat := 12
def pageSize : Nat := 1 <<< pageShift
def simpBlkdevSectorshift : Nat := 9
def simpBlkdevDatasegorder : Nat := 2
def simpBlkdevDatasegshift : Nat := pageShift + simpBlkdevDatasegorder
def simpBlkdevDatasegsize : Nat := pageSize <<< simpBlkdevDatasegorder

def lnot (x : Nat) : Nat := 2 ^ 64 - 1 - x

def pageMask : Nat := lnot (pageSize - 1)
def simpBlkdevDatasegmask : Nat := lnot (simpBlkdevDatasegsize - 1)

theorem pageSize_pos : 0 < pageSize := by decide

theorem datasegsize_pos : 0 < simpBlkdevDatasegsize := by decide

theorem and_not_pageMask (x : Nat) : x &&& lnot pageMask = x % pageSize :=
  Nat.and_two_pow_sub_one_eq_mod x 12

theorem and_not_datasegmask (x : Nat) :
    x &&& lnot simpBlkdevDatasegmask = x % simpBlkdevDatasegsize :=
  Nat.and_two_pow_sub_one_eq_mod x 14

theorem shiftRight_pageShift (x : Nat) : x >>> pageShift = x / pageSize :=
  Nat.shiftRight_eq_div_pow x 12

theorem shiftRight_datasegshift (x : Nat) :
    x >>> simpBlkdevDatasegshift = x / simpBlkdevDatasegsize :=
  Nat.shiftRight_eq_div_pow x 14

def eio : Int := 5
def enomem : Int := 12
def eexist : Int := 17

/-- `IS_ERR_VALUE`: the value lies in the last 4095 of an `unsigned long`. -/
def isErrValue (ret : Int) : Bool := decide (-4095 ≤ ret ∧ ret < 0)

/-- A page that can be kmapped: a page of a bio, or page `i` of the segment that
starts at `first`. -/
inductive Page
  | bio (bvPage : Nat)
  | seg (first i : Nat)
  deriving DecidableEq

/-- What the driver asks of the kernel, in the order of the calls. `touch` is a
`memcpy` or `memset` in a page; `insert` records whether the key was in use. -/
inductive Event
  | lock
  | unlock
  | kmap (page : Page) (mapped : Bool)
  | kunmap (page : Page)
  | touch (page : Page)
  | alloc (first : Nat)
  | insert (key : Nat) (occupied : Bool)
  | free (first : Nat)
  deriving DecidableEq

/-- The kernel as the driver sees it: which of its calls fail, counted over the
whole run, and which free pages the allocator hands out. `lowMem` is what a
pointer built from a failed `kmap` would read. -/
structure Kernel where
  allocPages : Nat → Finset Nat → Option Nat
  allocPages_fresh : ∀ n live p, allocPages n live = some p → p ∉ live
  insertFails : Nat → Bool
  kmapFails : Nat → Page → Bool
  lowMem : Nat → UInt8

structure Kernel.NeverFails (k : Kernel) : Prop where
  alloc : ∀ n live, (k.allocPages n live).isSome
  insert : ∀ n, k.insertFails n = false
  kmap : ∀ n page, k.kmapFails n page = false

def Kernel.MapsBios (k : Kernel) : Prop := ∀ n page, k.kmapFails n (.bio page) = false

theorem Kernel.NeverFails.mapsBios {k : Kernel} (hk : k.NeverFails) : k.MapsBios :=
  fun n page => hk.kmap n (.bio page)

/-- A kernel that never fails and hands out the page after the last one in use. -/
def Kernel.willing : Kernel where
  allocPages _ live := some (live.sup id + 1)
  allocPages_fresh n live p h hp := by
    have hle := Finset.le_sup (f := id) hp
    simp only [Option.some.injEq] at h
    simp only [id_eq] at hle
    omega
  insertFails _ := false
  kmapFails _ _ := false
  lowMem _ := 0

theorem willing_neverFails : Kernel.willing.NeverFails where
  alloc _ _ := rfl
  insert _ := rfl
  kmap _ _ := rfl

def Kernel.shortOfMaps : Kernel where
  allocPages := Kernel.willing.allocPages
  allocPages_fresh := Kernel.willing.allocPages_fresh
  insertFails _ := false
  kmapFails _ page := match page with
    | .bio _ => false
    | .seg _ i => i != 0
  lowMem _ := 0

/-- `simpBlkdevData` maps a key to the first page of its segment, `index` is the
`page->index` of first pages, `mem p i` the bytes of page `i` of the segment at
`p`, and `live` the segments obtained from `alloc_pages` and not yet freed. -/
structure State where
  simpBlkdevData : Finmap (fun _ : Nat => Nat)
  index : Nat → Nat
  mem : Nat → Nat → Nat → UInt8
  live : Finset Nat
  datalock : Bool
  calls : Nat
  trace : List Event

def State.init : State := ⟨∅, fun _ => 0, fun _ _ _ => 0, ∅, false, 0, []⟩

def mutexLock (s : State) : State := { s with datalock := true, trace := s.trace ++ [.lock] }

def mutexUnlock (s : State) : State := { s with datalock := false, trace := s.trace ++ [.unlock] }

def touch (s : State) (page : Page) : State := { s with trace := s.trace ++ [.touch page] }

def kmap (k : Kernel) (s : State) (page : Page) : Bool × State :=
  let mapped := !k.kmapFails s.calls page
  (mapped, { s with calls := s.calls + 1, trace := s.trace ++ [.kmap page mapped] })

theorem kmap_fst (k : Kernel) (s : State) (page : Page) :
    (kmap k s page).1 = !k.kmapFails s.calls page := rfl

def kunmap (s : State) (page : Page) : State := { s with trace := s.trace ++ [.kunmap page] }

def allocPages (k : Kernel) (s : State) : Option Nat × State :=
  match k.allocPages s.calls s.live with
  | none => (none, { s with calls := s.calls + 1 })
  | some p =>
    (some p, { s with
      calls := s.calls + 1
      live := insert p s.live
      mem := Function.update s.mem p (fun _ _ => 0)
      trace := s.trace ++ [.alloc p] })

def freePages (s : State) (p : Nat) : State :=
  { s with live := s.live.erase p, trace := s.trace ++ [.free p] }

def setIndex (s : State) (p key : Nat) : State :=
  { s with index := Function.update s.index p key }

def radixTreeLookup (s : State) (key : Nat) : Option Nat := s.simpBlkdevData.lookup key

/-- `radix_tree_insert` runs out of memory, or refuses a key that is in use. -/
def radixTreeInsert (k : Kernel) (s : State) (key p : Nat) : Int × State :=
  let occupied := decide (key ∈ s.simpBlkdevData)
  let t := { s with calls := s.calls + 1, trace := s.trace ++ [.insert key occupied] }
  if k.insertFails s.calls then (-enomem, t)
  else if occupied then (-eexist, t)
  else (0, { t with simpBlkdevData := s.simpBlkdevData.insert key p })

def radixTreeDelete (s : State) (key : Nat) : State :=
  { s with simpBlkdevData := s.simpBlkdevData.erase key }

def writePage (s : State) (p i off : Nat) (src : Nat → UInt8) (soff n : Nat) : State :=
  let page := blit (s.mem p i) off src soff n
  { s with mem := Function.update s.mem p (Function.update (s.mem p) i page) }

def segmentBytes (s : State) (key : Nat) : Nat → UInt8 :=
  match s.simpBlkdevData.lookup key with
  | none => fun _ => 0
  | some p => flat pageSize (s.mem p)

/-- The disk as its users see it: one flat memory of bytes. -/
def disk (s : State) : Nat → UInt8 := flat simpBlkdevDatasegsize (segmentBytes s)

/-- The segments held are those stored in the tree, each under its `page->index`. -/
structure Owned (s : State) : Prop where
  live_iff : ∀ p, p ∈ s.live ↔ ∃ key, s.simpBlkdevData.lookup key = some p
  index_eq : ∀ key p, s.simpBlkdevData.lookup key = some p → s.index p = key
  key_lt : ∀ key, key ∈ s.simpBlkdevData → key < 2 ^ 64

theorem owned_init : Owned State.init where
  live_iff p := by simp [State.init]
  index_eq key p h := by simp [State.init] at h
  key_lt key h := absurd h Finmap.notMem_empty

theorem owned_inj {s : State} (h : Owned s) {key key' p : Nat}
    (hk : s.simpBlkdevData.lookup key = some p) (hk' : s.simpBlkdevData.lookup key' = some p) :
    key = key' := by
  rw [← h.index_eq key p hk, h.index_eq key' p hk']

/-- A state that differs only in the lock, the call count and the trace. -/
structure SameStore (s t : State) : Prop where
  data : t.simpBlkdevData = s.simpBlkdevData
  index : t.index = s.index
  mem : t.mem = s.mem
  live : t.live = s.live

theorem SameStore.owned {s t : State} (h : SameStore s t) (hs : Owned s) : Owned t where
  live_iff p := by rw [h.live, h.data]; exact hs.live_iff p
  index_eq key p hk := by rw [h.index]; rw [h.data] at hk; exact hs.index_eq key p hk
  key_lt key hk := by rw [h.data] at hk; exact hs.key_lt key hk

theorem SameStore.segmentBytes {s t : State} (h : SameStore s t) :
    segmentBytes t = segmentBytes s := by
  funext key
  simp only [BlkdevState.segmentBytes, h.data, h.mem]

theorem SameStore.disk {s t : State} (h : SameStore s t) : disk t = disk s := by
  simp only [BlkdevState.disk, h.segmentBytes]

theorem sameStore_mutexLock (s : State) : SameStore s (mutexLock s) := ⟨rfl, rfl, rfl, rfl⟩

theorem sameStore_mutexUnlock (s : State) : SameStore s (mutexUnlock s) := ⟨rfl, rfl, rfl, rfl⟩

theorem sameStore_touch (s : State) (page : Page) : SameStore s (touch s page) :=
  ⟨rfl, rfl, rfl, rfl⟩

theorem sameStore_kmap (k : Kernel) (s : State) (page : Page) : SameStore s (kmap k s page).2 :=
  ⟨rfl, rfl, rfl, rfl⟩

theorem sameStore_kunmap (s : State) (page : Page) : SameStore s (kunmap s page) :=
  ⟨rfl, rfl, rfl, rfl⟩

end LinuxDriver.BlkdevState
