import LinuxDriver.BlkdevTrans
import LinuxDriver.Holding

namespace LinuxDriver.BlkdevLedger

open Holding Blit BlkdevState BlkdevTrans

def op : Event → Option (Op Page)
  | .kmap page true => some (.acquire page)
  | .kunmap page => some (.release page)
  | .touch page => some (.use page)
  | _ => none

def ledger (h : Resources Page) (es : List Event) : Resources Page :=
  h.applyAll (es.filterMap op)

theorem ledger_append (h : Resources Page) (es fs : List Event) :
    ledger h (es ++ fs) = ledger (ledger h es) fs := by
  rw [ledger, List.filterMap_append]
  exact applyAll_append _ _ _

def NoSegs (h : Resources Page) : Prop := ∀ p i, Page.seg p i ∉ h.held

theorem noSegs_use {h : Resources Page} (hn : NoSegs h) (r : Page) : NoSegs (h.use r) := by
  intro p i
  rw [Resources.use]
  split <;> exact hn p i

def Books (page : Page) (touched : Bool) (s t : State) : Prop :=
  ∃ es, t.trace = s.trace ++ es ∧
    ∀ h, NoSegs h → ledger h es = if touched then h.use page else h

theorem books_refl (page : Page) (s : State) : Books page false s s :=
  ⟨[], (List.append_nil _).symm, fun _ _ => rfl⟩

theorem books_trans {page : Page} {c d : Bool} {s t u : State} (hst : Books page c s t)
    (htu : Books page d t u) : Books page (c || d) s u := by
  obtain ⟨es, ht, hes⟩ := hst
  obtain ⟨fs, hu, hfs⟩ := htu
  refine ⟨es ++ fs, by rw [hu, ht, List.append_assoc], ?_⟩
  intro h hn
  rw [ledger_append, hes h hn]
  cases c with
  | false => exact hfs h hn
  | true =>
    simp only [if_true, Bool.true_or]
    rw [hfs _ (noSegs_use hn page)]
    split
    · exact use_use page h
    · rfl

theorem books_quiet {page : Page} {s t : State} (es : List Event)
    (ht : t.trace = s.trace ++ es) (hes : es.filterMap op = []) : Books page false s t := by
  refine ⟨es, ht, ?_⟩
  intro h _
  rw [ledger, hes]
  rfl

theorem books_touch (page : Page) (s : State) : Books page true s (touch s page) :=
  ⟨[.touch page], rfl, fun _ _ => rfl⟩

theorem books_not {page : Page} {c : Bool} {s t : State} (h : Books page (!c) s t) :
    c = true ∧ Books page false s t ∨ ¬ c = true ∧ Books page true s t := by
  cases c with
  | true => exact Or.inl ⟨rfl, h⟩
  | false => exact Or.inr ⟨Bool.noConfusion, h⟩

theorem use_between {p i : Nat} {r : Page} (hr : r ≠ .seg p i) {h : Resources Page}
    (hn : NoSegs h) :
    ledger h [.kmap (.seg p i) true, .touch (.seg p i), .touch r, .kunmap (.seg p i)] =
      h.use r := by
  have hseg : Page.seg p i ∈ h.held ++ [.seg p i] := by simp
  have herase : (h.held ++ [Page.seg p i]).erase (.seg p i) = h.held := by
    rw [List.erase_append_right _ (hn p i), List.erase_cons_head, List.append_nil]
  change (((h.acquire (.seg p i)).use (.seg p i)).use r).release (.seg p i) = _
  rw [use_of_mem (h := h.acquire (.seg p i)) hseg]
  by_cases hmem : r ∈ h.held
  · have hmem' : r ∈ (h.acquire (.seg p i)).held := List.mem_append_left _ hmem
    rw [use_of_mem hmem, use_of_mem hmem', release_of_mem (h := h.acquire (.seg p i)) hseg]
    simp only [Resources.acquire, herase]
  · have hmem' : r ∉ (h.acquire (.seg p i)).held := by simp [Resources.acquire, hmem, hr]
    rw [use_of_not_mem hmem, use_of_not_mem hmem']
    exact (release_of_mem (h := ⟨_, true⟩) hseg).trans (by rw [herase])

theorem copyPage_page (startPage thisPage thisOff boff thisCnt : Nat) (dir : Bool) (buf : Buf)
    (s : State) :
    (copyPage startPage thisPage thisOff boff thisCnt dir buf s).1.page = buf.page := by
  cases dir <;> rfl

theorem copyPage_calls (startPage thisPage thisOff boff thisCnt : Nat) (dir : Bool) (buf : Buf)
    (s : State) :
    (copyPage startPage thisPage thisOff boff thisCnt dir buf s).2.calls = s.calls := by
  cases dir <;> rfl

theorem copyPage_books {k : Kernel} {buf : Buf} (hb : ∀ p i, buf.page ≠ .seg p i) {s : State}
    {p i : Nat} (hm : k.kmapFails s.calls (.seg p i) = false) (thisOff boff thisCnt : Nat)
    (dir : Bool) :
    Books buf.page true s
      (copyPage p i thisOff boff thisCnt dir buf (kmap k s (.seg p i)).2).2 := by
  refine ⟨[.kmap (.seg p i) true, .touch (.seg p i), .touch buf.page, .kunmap (.seg p i)], ?_,
    fun h hn => use_between (hb p i) hn⟩
  cases dir <;> simp [copyPage, kmap, kunmap, touch, writePage, hm]

def PagesMap (k : Kernel) (p lo hi n : Nat) : Prop :=
  lo < hi → ∀ i, lo / pageSize ≤ i → i * pageSize < hi →
    k.kmapFails (n + (i - lo / pageSize)) (.seg p i) = false

theorem pagesMap_step (k : Kernel) (p n lo hi : Nat) {c : Nat} (hlt : lo < hi)
    (hc : c = min (hi - lo) (pageSize - lo % pageSize)) :
    PagesMap k p lo hi n ↔
      k.kmapFails n (.seg p (lo / pageSize)) = false ∧ PagesMap k p (lo + c) hi (n + 1) := by
  have hmod := Nat.mod_lt lo pageSize_pos
  have hdiv := Nat.div_add_mod lo pageSize
  have hfirst : lo / pageSize * pageSize < hi := by
    rw [Nat.mul_comm]
    omega
  constructor
  · intro h
    refine ⟨by simpa using h hlt _ le_rfl hfirst, ?_⟩
    intro hlt' i hi' hend
    have hnext : lo + c = pageSize * (lo / pageSize + 1) := by
      rw [Nat.mul_add]
      omega
    rw [hnext, Nat.mul_div_cancel_left _ pageSize_pos] at hi' ⊢
    have hk := h hlt i (by omega) hend
    rwa [show n + 1 + (i - (lo / pageSize + 1)) = n + (i - lo / pageSize) by omega]
  · rintro ⟨h0, hrest⟩ _ i hi' hend
    obtain rfl | hgt := Nat.eq_or_lt_of_le hi'
    · simpa using h0
    · have hge : pageSize * (lo / pageSize + 1) ≤ i * pageSize := by
        rw [Nat.mul_comm i]
        exact Nat.mul_le_mul_left _ hgt
      have hnext : lo + c = pageSize * (lo / pageSize + 1) := by
        rw [Nat.mul_add] at hge ⊢
        omega
      have hk := hrest (by omega) i
      rw [hnext, Nat.mul_div_cancel_left _ pageSize_pos] at hk
      rw [← hk hgt hend]
      congr 1
      omega

/-- The page loop touches the buffer unless its first `kmap` fails, and returns 0
exactly when every `kmap` succeeds. -/
theorem oneseg_books {k : Kernel} (p offset boff len : Nat) (dir : Bool) (doneCnt : Nat)
    {buf : Buf} (hb : ∀ p i, buf.page ≠ .seg p i) (s : State) :
    let r := simpBlkdevTransOneseg k p offset boff len dir doneCnt buf s
    r.buf.page = buf.page ∧
      Books buf.page (decide (doneCnt < len) &&
        !k.kmapFails s.calls (.seg p ((offset + doneCnt) / pageSize))) s r.st ∧
      (r.ret = 0 ∧ PagesMap k p (offset + doneCnt) (offset + len) s.calls ∨
        isErrValue r.ret = true ∧ ¬ PagesMap k p (offset + doneCnt) (offset + len) s.calls) := by
  induction hm : len - doneCnt using Nat.strong_induction_on generalizing doneCnt buf s with
  | _ m ih =>
    dsimp only
    rw [simpBlkdevTransOneseg]
    by_cases hlt : doneCnt < len
    · rw [dif_pos hlt]
      simp only [and_not_pageMask, shiftRight_pageShift, decide_eq_true hlt, Bool.true_and]
      have hpos : 0 < min (len - doneCnt) (pageSize - (offset + doneCnt) % pageSize) :=
        chunk_pos pageSize_pos offset hlt
      generalize hn : min (len - doneCnt) (pageSize - (offset + doneCnt) % pageSize) = n at *
      have hmap := pagesMap_step k p s.calls (offset + doneCnt) (offset + len) (c := n)
        (by omega) (by rw [← hn]; congr 1; omega)
      cases hf : k.kmapFails s.calls (.seg p ((offset + doneCnt) / pageSize)) with
      | true =>
        simp only [kmap_fst, hf, Bool.not_true, Bool.not_false, if_true]
        refine ⟨trivial, books_quiet _ rfl ?_, Or.inr ⟨rfl, ?_⟩⟩
        · simp [op, hf]
        · rw [hmap, hf]
          exact fun h => Bool.noConfusion h.1
      | false =>
        simp only [kmap_fst, hf, Bool.not_false, Bool.not_true, Bool.false_eq_true, if_false]
        have hcopy := copyPage_books hb hf ((offset + doneCnt) % pageSize) (boff + doneCnt) n dir
        have hpage := copyPage_page p ((offset + doneCnt) / pageSize)
          ((offset + doneCnt) % pageSize) (boff + doneCnt) n dir buf
          (kmap k s (.seg p ((offset + doneCnt) / pageSize))).2
        have hcalls := copyPage_calls p ((offset + doneCnt) / pageSize)
          ((offset + doneCnt) % pageSize) (boff + doneCnt) n dir buf
          (kmap k s (.seg p ((offset + doneCnt) / pageSize))).2
        generalize copyPage p ((offset + doneCnt) / pageSize) ((offset + doneCnt) % pageSize)
          (boff + doneCnt) n dir buf (kmap k s (.seg p ((offset + doneCnt) / pageSize))).2 = c at *
        obtain ⟨hbuf, hbooks, hret⟩ := ih (len - (doneCnt + n)) (by omega) (doneCnt + n)
          (by rw [hpage]; exact hb) c.2 rfl
        rw [hpage] at hbuf hbooks
        have hnext : (kmap k s (.seg p ((offset + doneCnt) / pageSize))).2.calls = s.calls + 1 :=
          rfl
        rw [hcalls, hnext, ← Nat.add_assoc] at hret
        refine ⟨hbuf, books_trans hcopy hbooks, ?_⟩
        rw [hmap, hf]
        simpa using hret
    · rw [dif_neg hlt, decide_eq_false hlt]
      refine ⟨rfl, books_refl _ s, Or.inl ⟨rfl, ?_⟩⟩
      intro h
      omega

/-- The segment under `key` is there or can be made, if one is needed, and its
bytes from `off` on can be mapped. -/
def SegmentFine (k : Kernel) (key : Nat) (dir : Bool) (off cnt : Nat) (s : State) : Prop :=
  match radixTreeLookup s key with
  | some p => PagesMap k p off (off + cnt) s.calls
  | none => dir = false ∨ ∃ p, k.allocPages s.calls s.live = some p ∧
      k.insertFails (s.calls + 1) = false ∧ PagesMap k p off (off + cnt) (s.calls + 2)

/-- Nothing is copied, as the segment cannot be made or its first page not mapped. -/
def FailsAtOnce (k : Kernel) (key : Nat) (dir : Bool) (off : Nat) (s : State) : Prop :=
  match radixTreeLookup s key with
  | some p => k.kmapFails s.calls (.seg p (off / pageSize)) = true
  | none => dir = true ∧ ∀ p, k.allocPages s.calls s.live = some p →
      k.insertFails (s.calls + 1) = true ∨
        k.kmapFails (s.calls + 2) (.seg p (off / pageSize)) = true

inductive Finds (k : Kernel) (key : Nat) (dir : Bool) (s : State) : Found → State → Prop
  | stored (p : Nat) (h : radixTreeLookup s key = some p) : Finds k key dir s (.page p) s
  | hole (h : radixTreeLookup s key = none) (hd : dir = false) : Finds k key dir s .hole s
  | refused (ret : Int) (t : State) (h : radixTreeLookup s key = none) (hd : dir = true)
      (hret : isErrValue ret = true)
      (hno : ∀ p, k.allocPages s.calls s.live = some p → k.insertFails (s.calls + 1) = true)
      (ht : ∀ page, Books page false s t) : Finds k key dir s (.err ret) t
  | made (p : Nat) (t : State) (h : radixTreeLookup s key = none) (hd : dir = true)
      (ha : k.allocPages s.calls s.live = some p) (hi : k.insertFails (s.calls + 1) = false)
      (hcalls : t.calls = s.calls + 2) (ht : ∀ page, Books page false s t) :
      Finds k key dir s (.page p) t

theorem findSegment_finds (k : Kernel) (key : Nat) (dir : Bool) (s : State) :
    Finds k key dir s (findSegment k key dir s).1 (findSegment k key dir s).2 := by
  rw [findSegment]
  cases hl : radixTreeLookup s key with
  | some p => exact .stored p hl
  | none =>
    cases dir with
    | false => exact .hole hl rfl
    | true =>
      have habsent : key ∉ s.simpBlkdevData := Finmap.lookup_eq_none.mp hl
      rw [allocPages]
      cases ha : k.allocPages s.calls s.live with
      | none =>
        refine .refused _ _ hl rfl rfl (fun p hp => ?_) (fun page => ?_)
        · rw [ha] at hp
          cases hp
        · exact books_quiet [] (List.append_nil _).symm rfl
      | some p =>
        simp only [Bool.not_true, Bool.false_eq_true, if_false, radixTreeInsert, setIndex,
          Function.update_self, decide_eq_false habsent]
        cases hi : k.insertFails (s.calls + 1) with
        | true =>
          have herr : isErrValue (-enomem) = true := rfl
          refine .refused _ _ hl rfl rfl (fun _ _ => hi) (fun page => ?_)
          apply books_quiet [.alloc p, .insert key false, .free p]
          · simp [freePages, herr]
          · rfl
        | false =>
          have hok : isErrValue 0 = false := rfl
          refine .made p _ hl rfl ha hi rfl (fun page => ?_)
          apply books_quiet [.alloc p, .insert key false]
          · simp [hok]
          · rfl

theorem found_books {k : Kernel} (p off boff cnt : Nat) (dir : Bool) (hpos : 0 < cnt) {buf : Buf}
    (hb : ∀ p i, buf.page ≠ .seg p i) {s t : State} (hst : Books buf.page false s t) :
    let r := simpBlkdevTransOneseg k p off boff cnt dir 0 buf t
    let r' : Xfer := if isErrValue r.ret then ⟨-eio, r.buf, mutexUnlock r.st⟩
      else ⟨0, r.buf, mutexUnlock r.st⟩
    r'.buf.page = buf.page ∧
      Books buf.page (!k.kmapFails t.calls (.seg p (off / pageSize))) s r'.st ∧
      (r'.ret = 0 ∧ PagesMap k p off (off + cnt) t.calls ∨
        isErrValue r'.ret = true ∧ ¬ PagesMap k p off (off + cnt) t.calls) := by
  dsimp only
  obtain ⟨hbuf, hbooks, hret⟩ := oneseg_books (k := k) p off boff cnt dir 0 hb t
  have hend := books_trans (books_trans hst hbooks) (books_quiet [.unlock]
    (t := mutexUnlock (simpBlkdevTransOneseg k p off boff cnt dir 0 buf t).st) rfl rfl)
  simp only [decide_eq_true hpos, Bool.true_and, Bool.false_or, Bool.or_false, Nat.add_zero]
    at hend hret
  obtain ⟨h0, hmap⟩ | ⟨herr, hmap⟩ := hret
  · have hok : isErrValue (simpBlkdevTransOneseg k p off boff cnt dir 0 buf t).ret = false := by
      rw [h0]
      rfl
    simp only [hok, Bool.false_eq_true, if_false]
    exact ⟨hbuf, hend, Or.inl ⟨trivial, hmap⟩⟩
  · simp only [herr, if_true]
    exact ⟨hbuf, hend, Or.inr ⟨rfl, hmap⟩⟩

/-- One turn of the loop of `simp_blkdev_trans` touches the buffer unless it fails
at once. -/
theorem segment_books (k : Kernel) (dskOffset : Nat) {len : Nat} (dir : Bool) {doneCnt : Nat}
    (hlt : doneCnt < len) {buf : Buf} (hb : ∀ p i, buf.page ≠ .seg p i) (s : State) :
    let r := transSegment k dskOffset len dir doneCnt buf s
    let key := thisKey dskOffset doneCnt
    let off := thisOff dskOffset doneCnt
    let cnt := thisCnt dskOffset len doneCnt
    r.buf.page = buf.page ∧
      (FailsAtOnce k key dir off s ∧ Books buf.page false s r.st ∨
        ¬ FailsAtOnce k key dir off s ∧ Books buf.page true s r.st) ∧
      (r.ret = 0 ∧ SegmentFine k key dir off cnt s ∨
        isErrValue r.ret = true ∧ ¬ SegmentFine k key dir off cnt s) := by
  have hpos := thisCnt_pos dskOffset hlt
  have hlock : Books buf.page false s (mutexLock s) := books_quiet [.lock] rfl rfl
  have hunlock : ∀ t, Books buf.page false t (mutexUnlock t) :=
    fun t => books_quiet [.unlock] rfl rfl
  have hf := findSegment_finds k (thisKey dskOffset doneCnt) dir (mutexLock s)
  dsimp only
  rw [transSegment, FailsAtOnce, SegmentFine]
  generalize findSegment k (thisKey dskOffset doneCnt) dir (mutexLock s) = f at *
  obtain ⟨f, t⟩ := f
  change Finds k _ dir (mutexLock s) f t at hf
  cases hf with
  | stored p h =>
    have hs : radixTreeLookup s (thisKey dskOffset doneCnt) = some p := h
    obtain ⟨hbuf, hbooks, hret⟩ := found_books (k := k) p (thisOff dskOffset doneCnt) doneCnt
      (thisCnt dskOffset len doneCnt) dir hpos hb hlock
    simp only [hs]
    exact ⟨hbuf, books_not hbooks, hret⟩
  | hole h hd =>
    have hs : radixTreeLookup s (thisKey dskOffset doneCnt) = none := h
    simp only [hs, hd]
    refine ⟨rfl, Or.inr ⟨fun hno => Bool.noConfusion hno.1, ?_⟩, Or.inl ⟨trivial, Or.inl trivial⟩⟩
    exact books_trans (books_trans hlock (books_touch buf.page _)) (hunlock _)
  | refused ret t h hd hret hno ht =>
    have hs : radixTreeLookup s (thisKey dskOffset doneCnt) = none := h
    have hnone : ∀ p, k.allocPages s.calls s.live = some p → k.insertFails (s.calls + 1) = true :=
      hno
    simp only [hs]
    refine ⟨trivial, Or.inl ⟨⟨hd, fun p hp => Or.inl (hnone p hp)⟩, ?_⟩, Or.inr ⟨hret, ?_⟩⟩
    · exact books_trans (books_trans hlock (ht _)) (hunlock _)
    · rintro (hread | ⟨p, hp, hi, -⟩)
      · rw [hd] at hread
        cases hread
      · rw [hnone p hp] at hi
        cases hi
  | made p t h hd ha hi hcalls ht =>
    have hs : radixTreeLookup s (thisKey dskOffset doneCnt) = none := h
    have hsa : k.allocPages s.calls s.live = some p := ha
    have hsi : k.insertFails (s.calls + 1) = false := hi
    have hsc : t.calls = s.calls + 2 := hcalls
    obtain ⟨hbuf, hbooks, hret⟩ := found_books (k := k) p (thisOff dskOffset doneCnt) doneCnt
      (thisCnt dskOffset len doneCnt) dir hpos hb (books_trans hlock (ht _))
    rw [hsc] at hbooks hret
    simp only [hs, hsa, hsi, hd, Option.some.injEq, forall_eq', exists_eq_left', Bool.false_eq_true,
      false_or, true_and, reduceCtorEq]
    rw [hd] at hbuf hbooks hret
    exact ⟨hbuf, books_not hbooks, hret⟩

theorem pagesMap_first {k : Kernel} {p lo c n : Nat} (hpos : 0 < c)
    (h : PagesMap k p lo (lo + c) n) : k.kmapFails n (.seg p (lo / pageSize)) = false :=
  ((pagesMap_step k p n _ _ (by omega) rfl).mp h).1

theorem not_failsAtOnce {k : Kernel} {key : Nat} {dir : Bool} {off cnt : Nat} {s : State}
    (hpos : 0 < cnt) (h : SegmentFine k key dir off cnt s) : ¬ FailsAtOnce k key dir off s := by
  rw [SegmentFine] at h
  rw [FailsAtOnce]
  cases hl : radixTreeLookup s key with
  | some p =>
    rw [hl] at h
    simp [pagesMap_first hpos h]
  | none =>
    rw [hl] at h
    rintro ⟨hd, hno⟩
    obtain hread | ⟨p, hp, hi, hmap⟩ := h
    · rw [hd] at hread
      cases hread
    · obtain hi' | hk := hno p hp
      · rw [hi] at hi'
        cases hi'
      · rw [pagesMap_first hpos hmap] at hk
        cases hk

def TransFine (k : Kernel) (dskOffset len : Nat) (dir : Bool) (doneCnt : Nat) (buf : Buf)
    (s : State) : Prop :=
  if _h : doneCnt < len then
    SegmentFine k (thisKey dskOffset doneCnt) dir (thisOff dskOffset doneCnt)
        (thisCnt dskOffset len doneCnt) s ∧
      TransFine k dskOffset len dir (doneCnt + thisCnt dskOffset len doneCnt)
        (transSegment k dskOffset len dir doneCnt buf s).buf
        (transSegment k dskOffset len dir doneCnt buf s).st
  else True
termination_by len - doneCnt
decreasing_by
  have hc := thisCnt_pos dskOffset _h
  omega

/-- `simp_blkdev_trans` touches the buffer unless there is nothing to do or its
first turn fails at once. -/
theorem trans_books (k : Kernel) (dskOffset len : Nat) (dir : Bool) (doneCnt : Nat) (buf : Buf)
    (hb : ∀ p i, buf.page ≠ .seg p i) (s : State) :
    let r := simpBlkdevTrans k dskOffset len dir doneCnt buf s
    (∃ c, Books buf.page c s r.st ∧ (c = true ↔ doneCnt < len ∧
        ¬ FailsAtOnce k (thisKey dskOffset doneCnt) dir (thisOff dskOffset doneCnt) s)) ∧
      (r.ret = 0 ∧ TransFine k dskOffset len dir doneCnt buf s ∨
        isErrValue r.ret = true ∧ ¬ TransFine k dskOffset len dir doneCnt buf s) := by
  dsimp only
  induction doneCnt, buf, s using simpBlkdevTrans.induct k dskOffset len dir with
  | case1 doneCnt buf s hlt r hret ih =>
    obtain ⟨hbuf, hbooks, hfine⟩ := segment_books k dskOffset dir hlt hb s
    have hret0 : (transSegment k dskOffset len dir doneCnt buf s).ret = 0 := hret
    have hok : isErrValue (transSegment k dskOffset len dir doneCnt buf s).ret = false := by
      rw [hret0]
      rfl
    rw [hok] at hfine
    obtain ⟨-, hseg⟩ | ⟨herr, -⟩ := hfine
    · have hno := not_failsAtOnce (thisCnt_pos dskOffset hlt) hseg
      obtain ⟨⟨c, hrest, -⟩, hend⟩ := ih (by rw [hbuf]; exact hb)
      rw [hbuf] at hrest
      rw [trans_next hlt hret0, TransFine, dif_pos hlt]
      obtain ⟨hyes, -⟩ | ⟨-, hfirst⟩ := hbooks
      · exact absurd hyes hno
      · refine ⟨⟨true, books_trans hfirst hrest, by simp [hlt, hno]⟩, ?_⟩
        simpa only [hseg, true_and] using hend
    · cases herr
  | case2 doneCnt buf s hlt r hret =>
    obtain ⟨hbuf, hbooks, hfine⟩ := segment_books k dskOffset dir hlt hb s
    rw [trans_stop hlt hret, TransFine, dif_pos hlt]
    obtain ⟨h0, -⟩ | ⟨herr, hseg⟩ := hfine
    · exact absurd h0 hret
    · refine ⟨?_, Or.inr ⟨herr, fun h => hseg h.1⟩⟩
      obtain ⟨hyes, hfirst⟩ | ⟨hno, hfirst⟩ := hbooks
      · exact ⟨false, hfirst, by simp [hyes]⟩
      · exact ⟨true, hfirst, by simp [hlt, hno]⟩
  | case3 doneCnt buf s hlt =>
    rw [trans_done hlt, TransFine, dif_neg hlt]
    refine ⟨⟨false, books_refl _ s, ?_⟩, Or.inl ⟨rfl, trivial⟩⟩
    simp [hlt]

end LinuxDriver.BlkdevLedger
