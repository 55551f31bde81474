import LinuxDriver.BlkdevTransfer

namespace LinuxDriver.BlkdevRequest

open Blit BlkdevState BlkdevTrans BlkdevFind BlkdevTransfer

/-- A `bio_vec` whose bytes, those behind `kmap(bv_page) + bv_offset`, belong to no
other. `BlkdevMemory.walk_views` relates it to vectors in one memory. -/
structure BioVec where
  bvPage : Nat
  bvLen : Nat
  bvOffset : Nat
  bytes : Nat → UInt8

inductive BioRw
  | read
  | readA
  | write
  | other (rw : Nat)
  deriving DecidableEq

/-- A `bio` as the block layer builds it: `bi_sector` has 64 bits, `bi_size` has
32 and is the sum of the lengths of the vectors. -/
structure Bio where
  bioRw : BioRw
  biSector : Nat
  biSector_lt : biSector < 2 ^ 64
  biSize : Nat
  biSize_lt : biSize < 2 ^ 32
  biIoVec : List BioVec
  biSize_eq : (biIoVec.map BioVec.bvLen).sum = biSize

/-- What `simp_blkdev_make_request` has done when it returns: `endio` lists the
errors of its `bio_endio` calls, `vecs` the vectors as they are left. -/
structure Completion where
  ret : Int
  endio : List Int
  vecs : List BioVec
  st : State

structure Walk where
  ok : Bool
  vecs : List BioVec
  st : State

def iovecMem (k : Kernel) (mapped : Bool) (v : BioVec) : Buf :=
  { page := .bio v.bvPage
    bytes := if mapped then v.bytes else fun i => k.lowMem (v.bvOffset + i) }

/-- The null test sees a failed `kmap` only where `bv_offset` is 0. -/
def iovecNull (mapped : Bool) (v : BioVec) : Bool := !mapped && v.bvOffset == 0

def BioVec.refill (v : BioVec) (mapped : Bool) (b : Buf) : BioVec :=
  { v with bytes := if mapped then b.bytes else v.bytes }

/-- The `bio_for_each_segment` loop. It is left early on an error, with the
page of the failing vector still mapped. -/
def bioForEachSegment (k : Kernel) (dir : Bool) : Nat → List BioVec → State → Walk
  | _, [], s => ⟨true, [], s⟩
  | dskOffset, v :: rest, s =>
    let m := kmap k s (.bio v.bvPage)
    if iovecNull m.1 v then ⟨false, v :: rest, m.2⟩
    else
      let r := simpBlkdevTrans k dskOffset v.bvLen dir 0 (iovecMem k m.1 v) m.2
      if isErrValue r.ret then ⟨false, v.refill m.1 r.buf :: rest, r.st⟩
      else
        let w := bioForEachSegment k dir ((dskOffset + v.bvLen) % 2 ^ 64) rest
          (kunmap r.st (.bio v.bvPage))
        ⟨w.ok, v.refill m.1 r.buf :: w.vecs, w.st⟩

def BioRw.dir : BioRw → Option Bool
  | .read | .readA => some false
  | .write => some true
  | .other _ => none

/-- `bio->bi_sector << SIMP_BLKDEV_SECTORSHIFT`, a `sector_t` of 64 bits. -/
def dskOffset (b : Bio) : Nat := (b.biSector <<< simpBlkdevSectorshift) % 2 ^ 64

/-- The range check, true for a request that is turned down. -/
def badRequest (simpBlkdevBytes : Nat) (b : Bio) : Bool :=
  decide (simpBlkdevBytes < (dskOffset b + b.biSize) % 2 ^ 64)

def simpBlkdevMakeRequest (k : Kernel) (simpBlkdevBytes : Nat) (b : Bio) (s : State) :
    Completion :=
  match b.bioRw.dir with
  | none => ⟨0, [-eio], b.biIoVec, s⟩
  | some dir =>
    if badRequest simpBlkdevBytes b then ⟨0, [-eio], b.biIoVec, s⟩
    else
      let w := bioForEachSegment k dir (dskOffset b) b.biIoVec s
      if w.ok then ⟨0, [0], w.vecs, w.st⟩ else ⟨0, [-eio], w.vecs, w.st⟩

def requests (k : Kernel) (simpBlkdevBytes : Nat) (s : State) (bios : List Bio) : State :=
  bios.foldl (fun s b => (simpBlkdevMakeRequest k simpBlkdevBytes b s).st) s

def payload (vs : List BioVec) : List UInt8 := vs.flatMap (fun v => slice v.bytes 0 v.bvLen)

def vecsLen (vs : List BioVec) : Nat := (vs.map BioVec.bvLen).sum

theorem payload_length (vs : List BioVec) : (payload vs).length = vecsLen vs := by
  simp [payload, vecsLen, List.length_flatMap]

theorem vecsLen_cons (v : BioVec) (vs : List BioVec) :
    vecsLen (v :: vs) = v.bvLen + vecsLen vs := by
  simp [vecsLen]

theorem payload_cons (v : BioVec) (vs : List BioVec) :
    payload (v :: vs) = slice v.bytes 0 v.bvLen ++ payload vs := by
  simp [payload]

theorem walk_keeps {k : Kernel} {dir : Bool} {P : State → Prop} (hP : Stable k P) (off : Nat)
    (vs : List BioVec)
    (hfind : ∀ j s, j < vecsLen vs → P s →
      P (findSegment k (thisKey off j) dir s).2) (s : State) (hs : P s) :
    P (bioForEachSegment k dir off vs s).st := by
  induction vs generalizing off s with
  | nil => exact hs
  | cons v vs ih =>
    rw [vecsLen_cons] at hfind
    have hm := hP.kmap s (.bio v.bvPage) hs
    have ht := trans_keeps k off v.bvLen dir
      (fun j buf s hj h => segment_keeps hP (fun s => hfind j s (by omega)) buf s h) 0
      (iovecMem k (kmap k s (.bio v.bvPage)).1 v) _ hm
    simp only [bioForEachSegment]
    split
    · exact hm
    · split
      · exact ht
      · refine ih _ (fun j s hj h => ?_) _ (hP.kunmap _ _ ht)
        have hkey : thisKey ((off + v.bvLen) % 2 ^ 64) j = thisKey off (v.bvLen + j) := by
          simp only [thisKey, Nat.mod_add_mod, Nat.add_assoc]
        rw [hkey]
        exact hfind _ s (by omega) h

theorem makeRequest_keeps {k : Kernel} {bytes : Nat} {P : State → Prop} (hP : Stable k P)
    (b : Bio)
    (hfind : badRequest bytes b = false → ∀ dir j s, j < b.biSize → P s →
      P (findSegment k (thisKey (dskOffset b) j) dir s).2) (s : State) (hs : P s) :
    P (simpBlkdevMakeRequest k bytes b s).st := by
  rw [simpBlkdevMakeRequest]
  cases b.bioRw.dir with
  | none => exact hs
  | some dir =>
    by_cases hbad : badRequest bytes b = true
    · simp only [hbad, if_true]
      exact hs
    · have hok : badRequest bytes b = false := by simpa using hbad
      have hw := walk_keeps hP (dskOffset b) b.biIoVec (fun j s hj h =>
        hfind hok dir j s (by rw [← b.biSize_eq]; exact hj) h) s hs
      simp only [hok, Bool.false_eq_true, if_false]
      split <;> exact hw

theorem requests_keeps {k : Kernel} {bytes : Nat} {P : State → Prop} (hP : Stable k P)
    (bios : List Bio)
    (hfind : ∀ b, b ∈ bios → badRequest bytes b = false → ∀ dir j s, j < b.biSize → P s →
      P (findSegment k (thisKey (dskOffset b) j) dir s).2) (s : State) (hs : P s) :
    P (requests k bytes s bios) := by
  induction bios generalizing s with
  | nil => exact hs
  | cons b bios ih =>
    exact ih (fun x hx => hfind x (by simp [hx])) _
      (makeRequest_keeps hP b (hfind b (by simp)) s hs)

theorem makeRequest_owned (k : Kernel) (bytes : Nat) (b : Bio) (s : State) (hs : Owned s) :
    Owned (simpBlkdevMakeRequest k bytes b s).st :=
  makeRequest_keeps (owned_stable k) b
    (fun _ dir j s _ h => findSegment_owned k (dskOffset b) j dir s h) s hs

theorem requests_owned (k : Kernel) (bytes : Nat) (s : State) (bios : List Bio) (hs : Owned s) :
    Owned (requests k bytes s bios) :=
  requests_keeps (owned_stable k) bios
    (fun b _ _ dir j s _ h => findSegment_owned k (dskOffset b) j dir s h) s hs

theorem walk_cons {k : Kernel} (hk : k.MapsBios) (dir : Bool) (off : Nat) (v : BioVec)
    (vs : List BioVec) (s : State) :
    bioForEachSegment k dir off (v :: vs) s =
      let r := simpBlkdevTrans k off v.bvLen dir 0 ⟨.bio v.bvPage, v.bytes⟩
        (kmap k s (.bio v.bvPage)).2
      if isErrValue r.ret then ⟨false, { v with bytes := r.buf.bytes } :: vs, r.st⟩
      else
        let w := bioForEachSegment k dir ((off + v.bvLen) % 2 ^ 64) vs
          (kunmap r.st (.bio v.bvPage))
        ⟨w.ok, { v with bytes := r.buf.bytes } :: w.vecs, w.st⟩ := by
  have hm : (kmap k s (.bio v.bvPage)).1 = true := by
    rw [kmap_fst, hk s.calls v.bvPage, Bool.not_false]
  simp only [bioForEachSegment, hm, iovecNull, iovecMem, BioVec.refill, Bool.not_true,
    Bool.false_and, Bool.false_eq_true, if_false, if_true]

/-- A write that stops early has stored the first bytes of its data. -/
theorem walk_write {k : Kernel} (hk : k.MapsBios) (off : Nat) (vs : List BioVec) (s : State)
    (hs : Owned s) (hwrap : off + vecsLen vs < 2 ^ 64) :
    ∃ c, c ≤ vecsLen vs ∧
      disk (bioForEachSegment k true off vs s).st = store (disk s) off ((payload vs).take c) ∧
      (bioForEachSegment k true off vs s).vecs = vs ∧
      ((bioForEachSegment k true off vs s).ok = true ∧ c = vecsLen vs ∨
        (bioForEachSegment k true off vs s).ok = false ∧ ¬ k.NeverFails) := by
  induction vs generalizing off s with
  | nil => exact ⟨0, le_rfl, (store_nil _ _).symm, rfl, Or.inl ⟨rfl, rfl⟩⟩
  | cons v vs ih =>
    rw [vecsLen_cons] at hwrap ⊢
    have hm := sameStore_kmap k s (.bio v.bvPage)
    obtain ⟨c, hc, hmv, hend⟩ := trans_moved k off v.bvLen true 0 ⟨.bio v.bvPage, v.bytes⟩
      (kmap k s (.bio v.bvPage)).2 (hm.owned hs) (Nat.zero_le _) (by omega)
    have ho := trans_owned k off v.bvLen true 0 ⟨.bio v.bvPage, v.bytes⟩ _ (hm.owned hs)
    obtain ⟨hbuf, hdisk⟩ := hmv.write rfl
    rw [Nat.add_zero, blit_eq_store, hm.disk] at hdisk
    rw [walk_cons hk, payload_cons]
    generalize hr : simpBlkdevTrans k off v.bvLen true 0 ⟨.bio v.bvPage, v.bytes⟩
      (kmap k s (.bio v.bvPage)).2 = r at *
    rw [Nat.zero_add] at hc hend
    obtain ⟨h0, rfl⟩ | ⟨herr, hfail⟩ := hend
    · have hne : isErrValue r.ret = false := by simp [h0, isErrValue]
      have hu := sameStore_kunmap r.st (.bio v.bvPage)
      obtain ⟨d, hd, hdisk', hvecs, hend'⟩ := ih (off + v.bvLen) (kunmap r.st (.bio v.bvPage))
        (hu.owned ho) (by omega)
      simp only [hne, Bool.false_eq_true, if_false,
        Nat.mod_eq_of_lt (by omega : off + v.bvLen < 2 ^ 64)]
      refine ⟨v.bvLen + d, by omega, ?_, ?_, ?_⟩
      · have htake := @List.take_length_add_append _ (slice v.bytes 0 v.bvLen) (payload vs) d
        rw [slice_length] at htake
        rw [hdisk', hu.disk, hdisk, htake, store_append, slice_length]
      · rw [hvecs, hbuf]
      · simpa only [Nat.add_left_cancel_iff] using hend'
    · simp only [herr, if_true]
      refine ⟨c, by omega, ?_, by rw [hbuf], Or.inr ⟨trivial, hfail⟩⟩
      rw [hdisk, List.take_append_of_le_length (by simpa using hc), slice_take _ _ _ _ hc]

/-- A read leaves the tree alone; run to its end it has filled every vector. -/
theorem walk_read {k : Kernel} (hk : k.MapsBios) (off : Nat) (vs : List BioVec) (s : State)
    (hs : Owned s) (hwrap : off + vecsLen vs < 2 ^ 64) :
    (bioForEachSegment k false off vs s).st.simpBlkdevData = s.simpBlkdevData ∧
      disk (bioForEachSegment k false off vs s).st = disk s ∧
      ((bioForEachSegment k false off vs s).ok = true ∧
          payload (bioForEachSegment k false off vs s).vecs = slice (disk s) off (vecsLen vs) ∧
          (bioForEachSegment k false off vs s).vecs.map BioVec.bvLen = vs.map BioVec.bvLen ∨
        (bioForEachSegment k false off vs s).ok = false ∧ ¬ k.NeverFails) := by
  induction vs generalizing off s with
  | nil => exact ⟨rfl, rfl, Or.inl ⟨rfl, rfl, rfl⟩⟩
  | cons v vs ih =>
    rw [vecsLen_cons] at hwrap ⊢
    have hm := sameStore_kmap k s (.bio v.bvPage)
    obtain ⟨c, hc, hmv, hend⟩ := trans_moved k off v.bvLen false 0 ⟨.bio v.bvPage, v.bytes⟩
      (kmap k s (.bio v.bvPage)).2 (hm.owned hs) (Nat.zero_le _) (by omega)
    have ho := trans_owned k off v.bvLen false 0 ⟨.bio v.bvPage, v.bytes⟩ _ (hm.owned hs)
    obtain ⟨hdata, hdisk, hbuf⟩ := hmv.read rfl
    rw [hm.data] at hdata
    rw [hm.disk] at hdisk
    rw [Nat.add_zero, hm.disk] at hbuf
    rw [walk_cons hk]
    generalize hr : simpBlkdevTrans k off v.bvLen false 0 ⟨.bio v.bvPage, v.bytes⟩
      (kmap k s (.bio v.bvPage)).2 = r at *
    rw [Nat.zero_add] at hc hend
    obtain ⟨h0, rfl⟩ | ⟨herr, hfail⟩ := hend
    · have hne : isErrValue r.ret = false := by simp [h0, isErrValue]
      have hu := sameStore_kunmap r.st (.bio v.bvPage)
      obtain ⟨hdata', hdisk', hend'⟩ := ih (off + v.bvLen) (kunmap r.st (.bio v.bvPage))
        (hu.owned ho) (by omega)
      simp only [hne, Bool.false_eq_true, if_false,
        Nat.mod_eq_of_lt (by omega : off + v.bvLen < 2 ^ 64)]
      refine ⟨hdata'.trans (hu.data.trans hdata), hdisk'.trans (hu.disk.trans hdisk), ?_⟩
      obtain ⟨hok, hpay, hlen⟩ | hbad := hend'
      · refine Or.inl ⟨hok, ?_, by simp only [List.map_cons, hlen]⟩
        rw [payload_cons, hpay, hu.disk, hdisk, slice_add, hbuf]
        simp only [slice_blit]
      · exact Or.inr hbad
    · simp only [herr, if_true]
      exact ⟨hdata, hdisk, Or.inr ⟨trivial, hfail⟩⟩

end LinuxDriver.BlkdevRequest
