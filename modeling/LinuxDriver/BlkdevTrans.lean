import LinuxDriver.BlkdevState

namespace LinuxDriver.BlkdevTrans

open Blit BlkdevState

structure Buf where
  page : Page
  bytes : Nat → UInt8

structure Xfer where
  ret : Int
  buf : Buf
  st : State

def copyPage (startPage thisPage thisOff boff thisCnt : Nat) (dir : Bool) (buf : Buf)
    (s : State) : Buf × State :=
  let s := touch (touch s (.seg startPage thisPage)) buf.page
  if !dir then
    ({ buf with bytes := blit buf.bytes boff (s.mem startPage thisPage) thisOff thisCnt },
      kunmap s (.seg startPage thisPage))
  else
    (buf, kunmap (writePage s startPage thisPage thisOff buf.bytes boff thisCnt)
      (.seg startPage thisPage))

/-- `simp_blkdev_trans_oneseg` from the loop test on; `boff` is where its `buf`
lies in the buffer of the caller. -/
def simpBlkdevTransOneseg (k : Kernel) (startPage offset boff len : Nat) (dir : Bool)
    (doneCnt : Nat) (buf : Buf) (s : State) : Xfer :=
  if _h : doneCnt < len then
    let thisPage := (offset + doneCnt) >>> pageShift
    let thisOff := (offset + doneCnt) &&& lnot pageMask
    let thisCnt := min (len - doneCnt) (pageSize - thisOff)
    let m := kmap k s (.seg startPage thisPage)
    if !m.1 then ⟨-enomem, buf, m.2⟩
    else
      let c := copyPage startPage thisPage thisOff (boff + doneCnt) thisCnt dir buf m.2
      simpBlkdevTransOneseg k startPage offset boff len dir (doneCnt + thisCnt) c.1 c.2
  else ⟨0, buf, s⟩
termination_by len - doneCnt
decreasing_by
  have hc := chunk_pos pageSize_pos offset _h
  simp only [chunk, ← and_not_pageMask] at hc
  omega

inductive Found
  | hole
  | page (p : Nat)
  | err (ret : Int)

/-- The part of the loop of `simp_blkdev_trans` that finds or makes the segment. -/
def findSegment (k : Kernel) (key : Nat) (dir : Bool) (s : State) : Found × State :=
  match radixTreeLookup s key with
  | some p => (.page p, s)
  | none =>
    if !dir then (.hole, s)
    else
      match allocPages k s with
      | (none, s) => (.err (-enomem), s)
      | (some p, s) =>
        let s := setIndex s p key
        let i := radixTreeInsert k s (s.index p) p
        if isErrValue i.1 then (.err (-eio), freePages i.2 p) else (.page p, i.2)

def thisOff (dskOffset doneCnt : Nat) : Nat :=
  ((dskOffset + doneCnt) % 2 ^ 64) &&& lnot simpBlkdevDatasegmask

def thisCnt (dskOffset len doneCnt : Nat) : Nat :=
  min (len - doneCnt) (simpBlkdevDatasegsize - thisOff dskOffset doneCnt)

def thisKey (dskOffset doneCnt : Nat) : Nat :=
  ((dskOffset + doneCnt) % 2 ^ 64) >>> simpBlkdevDatasegshift

def memsetZero (buf : Buf) (doneCnt n : Nat) : Buf :=
  { buf with bytes := blit buf.bytes doneCnt (fun _ => 0) 0 n }

/-- One turn of the loop of `simp_blkdev_trans`: everything it does between
`mutex_lock` and `mutex_unlock`. -/
def transSegment (k : Kernel) (dskOffset len : Nat) (dir : Bool) (doneCnt : Nat) (buf : Buf)
    (s : State) : Xfer :=
  let cnt := thisCnt dskOffset len doneCnt
  let f := findSegment k (thisKey dskOffset doneCnt) dir (mutexLock s)
  match f.1 with
  | .hole => ⟨0, memsetZero buf doneCnt cnt, mutexUnlock (touch f.2 buf.page)⟩
  | .err ret => ⟨ret, buf, mutexUnlock f.2⟩
  | .page p =>
    let r := simpBlkdevTransOneseg k p (thisOff dskOffset doneCnt) doneCnt cnt dir 0 buf f.2
    if isErrValue r.ret then ⟨-eio, r.buf, mutexUnlock r.st⟩ else ⟨0, r.buf, mutexUnlock r.st⟩

theorem thisCnt_eq (dskOffset len doneCnt : Nat) :
    thisCnt dskOffset len doneCnt =
      min (len - doneCnt) (simpBlkdevDatasegsize -
        (dskOffset + doneCnt) % 2 ^ 64 % simpBlkdevDatasegsize) := by
  simp only [thisCnt, thisOff, and_not_datasegmask]

theorem thisCnt_pos (dskOffset : Nat) {len doneCnt : Nat} (h : doneCnt < len) :
    0 < thisCnt dskOffset len doneCnt := by
  have := Nat.mod_lt ((dskOffset + doneCnt) % 2 ^ 64) datasegsize_pos
  rw [thisCnt_eq]
  omega

theorem thisCnt_le (dskOffset len doneCnt : Nat) :
    thisCnt dskOffset len doneCnt ≤ len - doneCnt := Nat.min_le_left _ _

def simpBlkdevTrans (k : Kernel) (dskOffset len : Nat) (dir : Bool) (doneCnt : Nat) (buf : Buf)
    (s : State) : Xfer :=
  if _h : doneCnt < len then
    let r := transSegment k dskOffset len dir doneCnt buf s
    if r.ret = 0 then
      simpBlkdevTrans k dskOffset len dir (doneCnt + thisCnt dskOffset len doneCnt) r.buf r.st
    else r
  else ⟨0, buf, s⟩
termination_by len - doneCnt
decreasing_by
  have hc := thisCnt_pos dskOffset _h
  omega

theorem trans_next {k : Kernel} {dskOffset len : Nat} {dir : Bool} {doneCnt : Nat} {buf : Buf}
    {s : State} (hlt : doneCnt < len)
    (hret : (transSegment k dskOffset len dir doneCnt buf s).ret = 0) :
    simpBlkdevTrans k dskOffset len dir doneCnt buf s =
      simpBlkdevTrans k dskOffset len dir (doneCnt + thisCnt dskOffset len doneCnt)
        (transSegment k dskOffset len dir doneCnt buf s).buf
        (transSegment k dskOffset len dir doneCnt buf s).st := by
  rw [simpBlkdevTrans, dif_pos hlt]
  exact if_pos hret

theorem trans_stop {k : Kernel} {dskOffset len : Nat} {dir : Bool} {doneCnt : Nat} {buf : Buf}
    {s : State} (hlt : doneCnt < len)
    (hret : (transSegment k dskOffset len dir doneCnt buf s).ret ≠ 0) :
    simpBlkdevTrans k dskOffset len dir doneCnt buf s =
      transSegment k dskOffset len dir doneCnt buf s := by
  rw [simpBlkdevTrans, dif_pos hlt]
  exact if_neg hret

theorem trans_done {k : Kernel} {dskOffset len : Nat} {dir : Bool} {doneCnt : Nat} {buf : Buf}
    {s : State} (hlt : ¬ doneCnt < len) :
    simpBlkdevTrans k dskOffset len dir doneCnt buf s = ⟨0, buf, s⟩ := by
  rw [simpBlkdevTrans, dif_neg hlt]

/-- A property of the state that no call of the kernel other than those of
`findSegment` disturbs. -/
structure Stable (k : Kernel) (P : State → Prop) : Prop where
  lock : ∀ s, P s → P (mutexLock s)
  unlock : ∀ s, P s → P (mutexUnlock s)
  touch : ∀ s page, P s → P (touch s page)
  kmap : ∀ s page, P s → P (kmap k s page).2
  kunmap : ∀ s page, P s → P (kunmap s page)
  write : ∀ s p i off src soff n, P s → P (writePage s p i off src soff n)

theorem oneseg_keeps {k : Kernel} {P : State → Prop} (hP : Stable k P)
    (startPage offset boff len : Nat) (dir : Bool) (doneCnt : Nat) (buf : Buf) (s : State)
    (hs : P s) : P (simpBlkdevTransOneseg k startPage offset boff len dir doneCnt buf s).st := by
  induction hm : len - doneCnt using Nat.strong_induction_on generalizing doneCnt buf s with
  | _ m ih =>
    rw [simpBlkdevTransOneseg]
    by_cases hlt : doneCnt < len
    · rw [dif_pos hlt]
      have hc := chunk_pos pageSize_pos offset hlt
      simp only [chunk, ← and_not_pageMask] at hc
      dsimp only
      split
      · exact hP.kmap _ _ hs
      · refine ih _ ?_ _ _ _ ?_ rfl
        · omega
        · have ht := hP.touch _ buf.page (hP.touch _ (.seg startPage
            ((offset + doneCnt) >>> pageShift)) (hP.kmap s (.seg startPage
              ((offset + doneCnt) >>> pageShift)) hs))
          cases dir with
          | false => exact hP.kunmap _ _ ht
          | true => exact hP.kunmap _ _ (hP.write _ _ _ _ _ _ _ ht)
    · rw [dif_neg hlt]
      exact hs

theorem segment_keeps {k : Kernel} {P : State → Prop} (hP : Stable k P) {dskOffset len : Nat}
    {dir : Bool} {doneCnt : Nat}
    (hfind : ∀ s, P s → P (findSegment k (thisKey dskOffset doneCnt) dir s).2) (buf : Buf)
    (s : State) (hs : P s) : P (transSegment k dskOffset len dir doneCnt buf s).st := by
  have hf := hfind _ (hP.lock s hs)
  rw [transSegment]
  dsimp only
  split
  · exact hP.unlock _ (hP.touch _ _ hf)
  · exact hP.unlock _ hf
  · rename_i p _
    have ho := oneseg_keeps hP p (thisOff dskOffset doneCnt) doneCnt
      (thisCnt dskOffset len doneCnt) dir 0 buf _ hf
    split <;> exact hP.unlock _ ho

/-- A property of the state that every turn of the loop keeps is kept by the loop. -/
theorem trans_keeps (k : Kernel) (dskOffset len : Nat) (dir : Bool) {P : State → Prop}
    (hP : ∀ doneCnt buf s, doneCnt < len → P s →
      P (transSegment k dskOffset len dir doneCnt buf s).st)
    (doneCnt : Nat) (buf : Buf) (s : State) (hs : P s) :
    P (simpBlkdevTrans k dskOffset len dir doneCnt buf s).st := by
  induction doneCnt, buf, s using simpBlkdevTrans.induct k dskOffset len dir with
  | case1 doneCnt buf s hlt r hret ih =>
    rw [trans_next hlt hret]
    exact ih (hP doneCnt buf s hlt hs)
  | case2 doneCnt buf s hlt r hret =>
    rw [trans_stop hlt hret]
    exact hP doneCnt buf s hlt hs
  | case3 doneCnt buf s hlt =>
    rw [trans_done hlt]
    exact hs

end LinuxDriver.BlkdevTrans
