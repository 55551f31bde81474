import LinuxDriver.BlkdevDisk

namespace LinuxDriver.BlkdevMemory

open Blit BlkdevState BlkdevTrans BlkdevTransfer BlkdevMoved BlkdevDisk
open BlkdevRequest hiding bioForEachSegment simpBlkdevMakeRequest requests Walk Completion

abbrev Memory := Nat → UInt8

structure MemVec where
  bvPage : Nat
  bvLen : Nat
  bvOffset : Nat

/-- The address `kmap(bv_page) + bv_offset`, the pages lying one after another. -/
def MemVec.addr (v : MemVec) : Nat := v.bvPage <<< pageShift + v.bvOffset

/-- The vector with the bytes that the memory now holds for it. -/
def MemVec.view (ram : Memory) (v : MemVec) : BioVec :=
  ⟨v.bvPage, v.bvLen, v.bvOffset, fun i => ram (v.addr + i)⟩

@[simp] theorem view_bvPage (ram : Memory) (v : MemVec) : (v.view ram).bvPage = v.bvPage := rfl

@[simp] theorem view_bvLen (ram : Memory) (v : MemVec) : (v.view ram).bvLen = v.bvLen := rfl

structure MemBio where
  bioRw : BioRw
  biSector : Nat
  biSector_lt : biSector < 2 ^ 64
  biSize : Nat
  biSize_lt : biSize < 2 ^ 32
  biIoVec : List MemVec
  biSize_eq : (biIoVec.map MemVec.bvLen).sum = biSize

def views (ram : Memory) (vs : List MemVec) : List BioVec := vs.map (MemVec.view ram)

theorem views_len (ram : Memory) (vs : List MemVec) :
    (views ram vs).map BioVec.bvLen = vs.map MemVec.bvLen := by
  rw [views, List.map_map]
  rfl

def MemVec.Holds (v : MemVec) (i : Nat) : Prop := v.addr ≤ i ∧ i < v.addr + v.bvLen

def MemVec.Apart (v w : MemVec) : Prop := ∀ i, v.Holds i → ¬ w.Holds i

def MemBio.view (ram : Memory) (b : MemBio) : Bio :=
  ⟨b.bioRw, b.biSector, b.biSector_lt, b.biSize, b.biSize_lt, views ram b.biIoVec,
    by rw [views_len, b.biSize_eq]⟩

def MemVec.putBack (v : MemVec) (mapped : Bool) (b : Buf) (ram : Memory) : Memory :=
  if mapped then fun a => if v.addr ≤ a then b.bytes (a - v.addr) else ram a else ram

structure Walk where
  ok : Bool
  ram : Memory
  st : State

structure Completion where
  ret : Int
  endio : List Int
  ram : Memory
  st : State

/-- The `bio_for_each_segment` loop over vectors that share one memory. -/
def bioForEachSegment (k : Kernel) (dir : Bool) : Nat → List MemVec → Memory → State → Walk
  | _, [], ram, s => ⟨true, ram, s⟩
  | dskOffset, v :: rest, ram, s =>
    let m := kmap k s (.bio v.bvPage)
    if iovecNull m.1 (v.view ram) then ⟨false, ram, m.2⟩
    else
      let r := simpBlkdevTrans k dskOffset v.bvLen dir 0 (iovecMem k m.1 (v.view ram)) m.2
      if isErrValue r.ret then ⟨false, v.putBack m.1 r.buf ram, r.st⟩
      else
        bioForEachSegment k dir ((dskOffset + v.bvLen) % 2 ^ 64) rest (v.putBack m.1 r.buf ram)
          (kunmap r.st (.bio v.bvPage))

def simpBlkdevMakeRequest (k : Kernel) (simpBlkdevBytes : Nat) (b : MemBio) (ram : Memory)
    (s : State) : Completion :=
  match b.bioRw.dir with
  | none => ⟨0, [-eio], ram, s⟩
  | some dir =>
    if badRequest simpBlkdevBytes (b.view ram) then ⟨0, [-eio], ram, s⟩
    else
      let w := bioForEachSegment k dir (dskOffset (b.view ram)) b.biIoVec ram s
      if w.ok then ⟨0, [0], w.ram, w.st⟩ else ⟨0, [-eio], w.ram, w.st⟩

def requests (k : Kernel) (simpBlkdevBytes : Nat) (s : State) (calls : List (Memory × MemBio)) :
    State :=
  calls.foldl (fun s c => (simpBlkdevMakeRequest k simpBlkdevBytes c.2 c.1 s).st) s

theorem putBack_view (v : MemVec) (mapped : Bool) (k : Kernel) (ram : Memory) :
    v.putBack mapped (iovecMem k mapped (v.view ram)) ram = ram := by
  cases mapped with
  | false => rfl
  | true =>
    funext a
    simp only [MemVec.putBack, iovecMem, MemVec.view, if_true]
    split
    · rw [Nat.add_sub_cancel' (by assumption)]
    · rfl

theorem segment_write_buf (k : Kernel) (dskOffset len doneCnt : Nat) (buf : Buf) (s : State) :
    (transSegment k dskOffset len true doneCnt buf s).buf = buf := by
  have h := transSegment_step k dskOffset len true doneCnt buf s
  generalize transSegment k dskOffset len true doneCnt buf s = r at h
  cases h with
  | hole _ hd => cases hd
  | refused => rfl
  | moved p t b u _ hmv => exact (hmv.write rfl).1
  | broken p t c b u _ _ hmv _ => exact (hmv.write rfl).1

theorem trans_write_buf (k : Kernel) (dskOffset len doneCnt : Nat) (buf : Buf) (s : State) :
    (simpBlkdevTrans k dskOffset len true doneCnt buf s).buf = buf := by
  induction doneCnt, buf, s using simpBlkdevTrans.induct k dskOffset len true with
  | case1 doneCnt buf s hlt r hret ih =>
    rw [trans_next hlt hret, ih]
    exact segment_write_buf k dskOffset len doneCnt buf s
  | case2 doneCnt buf s hlt r hret =>
    rw [trans_stop hlt hret]
    exact segment_write_buf k dskOffset len doneCnt buf s
  | case3 doneCnt buf s hlt => rw [trans_done hlt]

structure Alike (r r' : Xfer) : Prop where
  ret : r.ret = r'.ret
  st : r.st = r'.st
  page : r.buf.page = r'.buf.page

theorem oneseg_read_alike (k : Kernel) (p offset boff len doneCnt : Nat) {b b' : Buf}
    (hp : b.page = b'.page) (s : State) :
    Alike (simpBlkdevTransOneseg k p offset boff len false doneCnt b s)
      (simpBlkdevTransOneseg k p offset boff len false doneCnt b' s) := by
  induction hm : len - doneCnt using Nat.strong_induction_on generalizing doneCnt b b' s with
  | _ m ih =>
    rw [simpBlkdevTransOneseg, simpBlkdevTransOneseg]
    by_cases hlt : doneCnt < len
    · rw [dif_pos hlt, dif_pos hlt]
      have hc := chunk_pos pageSize_pos offset hlt
      simp only [chunk, ← and_not_pageMask] at hc
      dsimp only
      split
      · exact ⟨rfl, rfl, hp⟩
      · simp only [copyPage, Bool.not_false, if_true, hp]
        refine ih _ ?_ _ ?_ _ rfl
        · omega
        · rfl
    · rw [dif_neg hlt, dif_neg hlt]
      exact ⟨rfl, rfl, hp⟩

theorem segment_read_alike (k : Kernel) (dskOffset len doneCnt : Nat) {b b' : Buf}
    (hp : b.page = b'.page) (s : State) :
    Alike (transSegment k dskOffset len false doneCnt b s)
      (transSegment k dskOffset len false doneCnt b' s) := by
  rw [transSegment, transSegment]
  dsimp only
  split
  · exact ⟨rfl, by rw [hp], hp⟩
  · exact ⟨rfl, rfl, hp⟩
  · rename_i p _
    have h := oneseg_read_alike k p (thisOff dskOffset doneCnt) doneCnt
      (thisCnt dskOffset len doneCnt) 0 hp
      (findSegment k (thisKey dskOffset doneCnt) false (mutexLock s)).2
    rw [h.ret]
    split
    · exact ⟨rfl, congrArg mutexUnlock h.st, h.page⟩
    · exact ⟨rfl, congrArg mutexUnlock h.st, h.page⟩

/-- A read does to the driver what it does whatever the buffer held. -/
theorem trans_read_alike (k : Kernel) (dskOffset len doneCnt : Nat) {b b' : Buf}
    (hp : b.page = b'.page) (s : State) :
    Alike (simpBlkdevTrans k dskOffset len false doneCnt b s)
      (simpBlkdevTrans k dskOffset len false doneCnt b' s) := by
  induction hm : len - doneCnt using Nat.strong_induction_on generalizing doneCnt b b' s with
  | _ m ih =>
    by_cases hlt : doneCnt < len
    · have h := segment_read_alike k dskOffset len doneCnt hp s
      by_cases hret : (transSegment k dskOffset len false doneCnt b s).ret = 0
      · rw [trans_next hlt hret, trans_next hlt (h.ret ▸ hret), h.st]
        have hc := thisCnt_pos dskOffset hlt
        exact ih _ (by omega) _ h.page _ rfl
      · rw [trans_stop hlt hret, trans_stop hlt (h.ret ▸ hret)]
        exact h
    · rw [trans_done hlt, trans_done hlt]
      exact ⟨rfl, rfl, hp⟩

theorem iovec_alike (k : Kernel) (dir : Bool) (off : Nat) (v : MemVec) (mapped : Bool)
    {ram ram₀ : Memory} (s : State) (hram : dir = true → ram = ram₀) :
    Alike (simpBlkdevTrans k off v.bvLen dir 0 (iovecMem k mapped (v.view ram)) s)
      (simpBlkdevTrans k off v.bvLen dir 0 (iovecMem k mapped (v.view ram₀)) s) := by
  cases dir with
  | true =>
    rw [hram rfl]
    exact ⟨rfl, rfl, rfl⟩
  | false =>
    have hp : (iovecMem k mapped (v.view ram)).page = (iovecMem k mapped (v.view ram₀)).page := rfl
    exact trans_read_alike k off v.bvLen 0 hp s

/-- The loop does to the driver what it does with vectors that keep their bytes to
themselves; a write leaves the memory alone. -/
theorem walk_views (k : Kernel) (dir : Bool) (off : Nat) (vs : List MemVec)
    {ram ram₀ : Memory} (s : State) (hram : dir = true → ram = ram₀) :
    (bioForEachSegment k dir off vs ram s).ok =
        (BlkdevRequest.bioForEachSegment k dir off (views ram₀ vs) s).ok ∧
      (bioForEachSegment k dir off vs ram s).st =
        (BlkdevRequest.bioForEachSegment k dir off (views ram₀ vs) s).st ∧
      (dir = true → (bioForEachSegment k dir off vs ram s).ram = ram) := by
  induction vs generalizing off ram s with
  | nil => exact ⟨rfl, rfl, fun _ => rfl⟩
  | cons v vs ih =>
    have halike := iovec_alike k dir off v (kmap k s (.bio v.bvPage)).1
      (kmap k s (.bio v.bvPage)).2 hram
    have hput : dir = true → v.putBack (kmap k s (.bio v.bvPage)).1
        (simpBlkdevTrans k off v.bvLen dir 0
          (iovecMem k (kmap k s (.bio v.bvPage)).1 (v.view ram))
          (kmap k s (.bio v.bvPage)).2).buf ram = ram := by
      rintro rfl
      rw [trans_write_buf, putBack_view]
    have hview : ∀ m, iovecNull m (v.view ram) = iovecNull m (v.view ram₀) := fun _ => rfl
    simp only [bioForEachSegment, BlkdevRequest.bioForEachSegment, views, List.map_cons,
      view_bvPage, view_bvLen, hview, halike.ret, halike.st]
    by_cases hnull : iovecNull (kmap k s (.bio v.bvPage)).1 (v.view ram₀) = true
    · simp only [hnull, if_true]
      exact ⟨trivial, trivial, fun _ => trivial⟩
    · simp only [hnull, if_false, Bool.false_eq_true]
      by_cases herr : isErrValue (simpBlkdevTrans k off v.bvLen dir 0
          (iovecMem k (kmap k s (.bio v.bvPage)).1 (v.view ram₀))
          (kmap k s (.bio v.bvPage)).2).ret = true
      · simp only [herr, if_true]
        exact ⟨trivial, trivial, hput⟩
      · simp only [herr, if_false, Bool.false_eq_true]
        obtain ⟨hok, hst, hkeep⟩ := ih ((off + v.bvLen) % 2 ^ 64) _
          (fun hd => (hput hd).trans (hram hd))
        exact ⟨hok, hst, fun hd => (hkeep hd).trans (hput hd)⟩

/-- The driver and the completion are those of the request whose vectors keep their
bytes to themselves. -/
theorem makeRequest_view (k : Kernel) (bytes : Nat) (b : MemBio) (ram : Memory) (s : State) :
    (simpBlkdevMakeRequest k bytes b ram s).endio =
        (BlkdevRequest.simpBlkdevMakeRequest k bytes (b.view ram) s).endio ∧
      (simpBlkdevMakeRequest k bytes b ram s).st =
        (BlkdevRequest.simpBlkdevMakeRequest k bytes (b.view ram) s).st ∧
      (b.bioRw.dir = some true → (simpBlkdevMakeRequest k bytes b ram s).ram = ram) := by
  have hdir : (b.view ram).bioRw.dir = b.bioRw.dir := rfl
  have hvecs : (b.view ram).biIoVec = views ram b.biIoVec := rfl
  rw [simpBlkdevMakeRequest, BlkdevRequest.simpBlkdevMakeRequest, hdir, hvecs]
  cases hd : b.bioRw.dir with
  | none => exact ⟨rfl, rfl, fun _ => rfl⟩
  | some dir =>
    obtain ⟨hok, hst, hkeep⟩ := walk_views k dir (dskOffset (b.view ram)) b.biIoVec s
      (fun _ => rfl : dir = true → ram = ram)
    by_cases hbad : badRequest bytes (b.view ram) = true
    · simp only [hbad, if_true]
      exact ⟨trivial, trivial, fun _ => trivial⟩
    · simp only [hbad, hok, hst, if_false, Bool.false_eq_true]
      split
      · exact ⟨rfl, rfl, fun h => hkeep (Option.some.inj h)⟩
      · exact ⟨rfl, rfl, fun h => hkeep (Option.some.inj h)⟩

def fills (d : Nat → UInt8) : Nat → List MemVec → List (Nat × List UInt8)
  | _, [] => []
  | off, v :: vs => (v.addr, slice d off v.bvLen) :: fills d (off + v.bvLen) vs

theorem putBack_blit (v : MemVec) (ram src : Memory) (page : Page) (off n : Nat) :
    v.putBack true ⟨page, blit (v.view ram).bytes 0 src off n⟩ ram =
      store ram v.addr (slice src off n) := by
  rw [← blit_eq_store]
  funext a
  simp only [MemVec.putBack, MemVec.view, if_true]
  by_cases ha : v.addr ≤ a
  · obtain ⟨j, rfl⟩ := Nat.exists_eq_add_of_le ha
    simp only [ha, if_true, blit, Nat.add_sub_cancel_left, Nat.zero_le, true_and, Nat.zero_add,
      Nat.add_lt_add_iff_left, Nat.sub_zero]
  · rw [if_neg ha, blit_outside _ _ _ _ _ _ (Or.inl (Nat.lt_of_not_le ha))]

theorem walk_fills {k : Kernel} (hk : k.NeverFails) (off : Nat) (vs : List MemVec) (ram : Memory)
    (s : State) (hs : Owned s) (hwrap : off + (vs.map MemVec.bvLen).sum < 2 ^ 64) :
    (bioForEachSegment k false off vs ram s).ram = storeAll ram (fills (disk s) off vs) := by
  induction vs generalizing off ram s with
  | nil => rfl
  | cons v vs ih =>
    rw [List.map_cons, List.sum_cons] at hwrap
    have hmap : (kmap k s (.bio v.bvPage)).1 = true := by
      rw [kmap_fst, hk.mapsBios s.calls v.bvPage, Bool.not_false]
    have hm := sameStore_kmap k s (.bio v.bvPage)
    obtain ⟨c, hc, hmv, hend⟩ := trans_moved k off v.bvLen false 0 (iovecMem k true (v.view ram))
      (kmap k s (.bio v.bvPage)).2 (hm.owned hs) (Nat.zero_le _) (by omega)
    have ho := trans_owned k off v.bvLen false 0 (iovecMem k true (v.view ram)) _ (hm.owned hs)
    obtain ⟨-, hdisk, hbuf⟩ := hmv.read rfl
    rw [hm.disk] at hdisk
    rw [Nat.add_zero, hm.disk] at hbuf
    simp only [bioForEachSegment, hmap, iovecNull, Bool.not_true, Bool.false_and,
      Bool.false_eq_true, if_false]
    generalize simpBlkdevTrans k off v.bvLen false 0 (iovecMem k true (v.view ram))
      (kmap k s (.bio v.bvPage)).2 = r at *
    rw [Nat.zero_add] at hend
    obtain ⟨h0, rfl⟩ | ⟨-, hfail⟩ := hend
    · have hne : isErrValue r.ret = false := by simp [h0, isErrValue]
      have hu := sameStore_kunmap r.st (.bio v.bvPage)
      have hput : v.putBack true r.buf ram = store ram v.addr (slice (disk s) off v.bvLen) := by
        rw [hbuf]
        exact putBack_blit v ram (disk s) _ off v.bvLen
      simp only [hne, Bool.false_eq_true, if_false, hput,
        Nat.mod_eq_of_lt (by omega : off + v.bvLen < 2 ^ 64)]
      rw [ih (off + v.bvLen) _ _ (hu.owned ho) (by omega), hu.disk, hdisk]
      rfl
    · exact absurd hk hfail

theorem holds_of_covers {d : Nat → UInt8} {off : Nat} {vs : List MemVec} {i : Nat}
    (h : Covers (fills d off vs) i) : ∃ v, v ∈ vs ∧ v.Holds i := by
  induction vs generalizing off with
  | nil =>
    obtain ⟨l, hl, -⟩ := h
    cases hl
  | cons v vs ih =>
    obtain ⟨l, hl, hle, hlt⟩ := h
    obtain rfl | hl := List.mem_cons.mp hl
    · rw [slice_length] at hlt
      exact ⟨v, List.mem_cons_self, hle, hlt⟩
    · obtain ⟨w, hw, hi⟩ := ih ⟨l, hl, hle, hlt⟩
      exact ⟨w, List.mem_cons_of_mem _ hw, hi⟩

theorem fills_outside (ram d : Nat → UInt8) (off : Nat) {vs : List MemVec} {i : Nat}
    (h : ∀ v, v ∈ vs → ¬ v.Holds i) : storeAll ram (fills d off vs) i = ram i := by
  apply storeAll_outside
  intro hc
  obtain ⟨v, hv, hi⟩ := holds_of_covers hc
  exact h v hv hi

theorem payload_fills (ram d : Nat → UInt8) (off : Nat) {vs : List MemVec}
    (h : vs.Pairwise MemVec.Apart) :
    payload (views (storeAll ram (fills d off vs)) vs) =
      slice d off (vs.map MemVec.bvLen).sum := by
  induction vs generalizing ram off with
  | nil => rfl
  | cons v vs ih =>
    obtain ⟨hv, hvs⟩ := List.pairwise_cons.mp h
    have hfirst : slice (v.view (storeAll ram (fills d off (v :: vs)))).bytes 0 v.bvLen =
        slice d off v.bvLen := by
      apply slice_congr
      intro j hj
      have hout : ∀ w, w ∈ vs → ¬ w.Holds (v.addr + j) := fun w hw =>
        hv w hw (v.addr + j) ⟨Nat.le_add_right _ _, Nat.add_lt_add_left hj _⟩
      have hlen : j < (slice d off v.bvLen).length := by rwa [slice_length]
      change storeAll (store ram v.addr (slice d off v.bvLen)) (fills d (off + v.bvLen) vs)
        (v.addr + (0 + j)) = d (off + j)
      rw [Nat.zero_add, fills_outside _ _ _ hout, store_inside _ _ _ j hlen]
      simp [slice]
    rw [views, List.map_cons, payload_cons, view_bvLen, hfirst, List.map_cons, List.sum_cons,
      slice_add]
    exact congrArg _ (ih (store ram v.addr (slice d off v.bvLen)) (off + v.bvLen) hvs)

theorem requests_views (k : Kernel) (bytes : Nat) (s : State) (calls : List (Memory × MemBio)) :
    requests k bytes s calls =
      BlkdevRequest.requests k bytes s (calls.map (fun c => c.2.view c.1)) := by
  induction calls generalizing s with
  | nil => rfl
  | cons c calls ih =>
    have hone := (makeRequest_view k bytes c.2 c.1 s).2.1
    simp only [requests, BlkdevRequest.requests, List.map_cons, List.foldl_cons, hone] at ih ⊢
    exact ih _

theorem read_memory {k : Kernel} (hk : k.NeverFails) {bytes : Nat} {b : MemBio} (ram : Memory)
    {s : State} (hs : Owned s) (hbytes : bytes < 2 ^ 64) (h : InRange bytes (b.view ram))
    (hd : b.bioRw.dir = some false) :
    (simpBlkdevMakeRequest k bytes b ram s).ram =
      storeAll ram (fills (disk s) (512 * b.biSector) b.biIoVec) := by
  have hlt := range_lt hbytes h
  have hlen : vecsLen (b.view ram).biIoVec = (b.biIoVec.map MemVec.bvLen).sum :=
    congrArg List.sum (views_len ram b.biIoVec)
  rw [hlen] at hlt
  have hfill := walk_fills hk (512 * b.biSector) b.biIoVec ram s hs hlt
  simp only [simpBlkdevMakeRequest, hd, not_badRequest hbytes h, dskOffset_eq hbytes h,
    Bool.false_eq_true, if_false]
  split
  · exact hfill
  · exact hfill

/-- The flat disk refinement: after any sequence of requests from the empty
tree, one more request acts on exactly its bytes and completes once, with 0.
A read stores its vectors one after another, so those that lie apart end up
with the bytes of the range. -/
theorem request_refines_flat_disk (k : Kernel) (hk : k.NeverFails) (bytes : Nat)
    (hbytes : bytes < 2 ^ 64) (calls : List (Memory × MemBio)) (ram : Memory) (b : MemBio)
    (hin : ∀ c, c ∈ calls ++ [(ram, b)] →
      c.2.bioRw.dir.isSome ∧ InRange bytes (c.2.view c.1)) :
    let s := requests k bytes State.init calls
    let r := simpBlkdevMakeRequest k bytes b ram s
    disk s = calls.foldl (fun d c => flatRequest d (c.2.view c.1)) (fun _ => 0) ∧
      r.endio = [0] ∧
      (b.bioRw = .write → r.ram = ram ∧
        (∀ j (hj : j < (payload (views ram b.biIoVec)).length),
          disk r.st (512 * b.biSector + j) = (payload (views ram b.biIoVec))[j]) ∧
        (∀ o, o < 512 * b.biSector ∨ 512 * b.biSector + b.biSize ≤ o → disk r.st o = disk s o)) ∧
      (b.bioRw = .read ∨ b.bioRw = .readA →
        r.ram = storeAll ram (fills (disk s) (512 * b.biSector) b.biIoVec) ∧
        (b.biIoVec.Pairwise MemVec.Apart →
          payload (views r.ram b.biIoVec) = slice (disk s) (512 * b.biSector) b.biSize) ∧
        (∀ i, (∀ v, v ∈ b.biIoVec → ¬ v.Holds i) → r.ram i = ram i) ∧
        r.st.simpBlkdevData = s.simpBlkdevData ∧ disk r.st = disk s) := by
  intro s r
  have hs : Owned s := by
    change Owned (requests k bytes State.init calls)
    rw [requests_views]
    exact requests_owned k bytes _ _ owned_init
  obtain ⟨hsome, hrange⟩ := hin (ram, b) (by simp)
  obtain ⟨hendio, hst, hkeep⟩ := makeRequest_view k bytes b ram s
  have hbefore : disk s = calls.foldl (fun d c => flatRequest d (c.2.view c.1)) (fun _ => 0) := by
    have hzero : disk State.init = fun _ => 0 := rfl
    have hviews := requests_disk hk hbytes (calls.map (fun c => c.2.view c.1)) State.init owned_init
      (by
        intro x hx
        obtain ⟨c, hc, rfl⟩ := List.mem_map.mp hx
        exact hin c (by simp [hc]))
    rw [← requests_views, hzero, List.foldl_map] at hviews
    exact hviews
  refine ⟨hbefore, ?_, ?_, ?_⟩
  · obtain ⟨dir, hd⟩ := Option.isSome_iff_exists.mp hsome
    refine hendio.trans ?_
    cases dir with
    | true => exact (write_request hk hs hbytes hrange hd).1
    | false => exact (read_request hk hs hbytes hrange hd).1
  · intro hw
    have hd : b.bioRw.dir = some true := by rw [hw]; rfl
    obtain ⟨-, -, hdisk⟩ := write_request hk hs hbytes hrange hd
    rw [← hst] at hdisk
    have hflat : flatRequest (disk s) (b.view ram) =
        store (disk s) (512 * b.biSector) (payload (views ram b.biIoVec)) := by
      simp only [flatRequest, MemBio.view, hd, start]
    refine ⟨hkeep hd, ?_, ?_⟩
    · intro j hj
      exact (congrFun (hdisk.trans hflat) _).trans (store_inside _ _ _ j hj)
    · intro o ho
      refine (congrFun (hdisk.trans hflat) o).trans (store_outside _ _ _ o ?_)
      have hlen := payload_biSize (b.view ram)
      simp only [MemBio.view] at hlen
      rwa [hlen]
  · intro hr
    have hd : b.bioRw.dir = some false := by
      obtain h | h := hr <;> rw [h] <;> rfl
    obtain ⟨-, -, -, hdata, hdisk⟩ := read_request hk hs hbytes hrange hd
    rw [← hst] at hdata hdisk
    have hram : r.ram = storeAll ram (fills (disk s) (512 * b.biSector) b.biIoVec) :=
      read_memory hk ram hs hbytes hrange hd
    refine ⟨hram, ?_, ?_, hdata, ?_⟩
    · intro hapart
      rw [hram, payload_fills _ _ _ hapart, b.biSize_eq]
    · intro i hi
      rw [hram, fills_outside _ _ _ hi]
    · simpa only [flatRequest, MemBio.view, hd] using hdisk

def twoSectors (rw : BioRw) (page page' : Nat) : MemBio :=
  ⟨rw, 0, by decide, 1024, by decide, [⟨page, 512, 0⟩, ⟨page', 512, 0⟩], rfl⟩

theorem twoSectors_flat (d : Nat → UInt8) (page page' : Nat) (ram : Memory) :
    flatRequest d ((twoSectors .write page page').view ram) =
      store d 0 (payload (views ram (twoSectors .write page page').biIoVec)) := rfl

def pageNumbers : Memory := fun i => UInt8.ofNat (i >>> pageShift)

theorem request_refines_flat_disk_two_pages :
    payload (views (simpBlkdevMakeRequest Kernel.willing (2 ^ 24) (twoSectors .read 9 10)
      (fun _ => 0) (requests Kernel.willing (2 ^ 24) State.init
        [(pageNumbers, twoSectors .write 7 8)])).ram (twoSectors .read 9 10).biIoVec) =
      payload (views pageNumbers (twoSectors .write 7 8).biIoVec) := by
  have h := request_refines_flat_disk Kernel.willing willing_neverFails (2 ^ 24) (by decide)
    [(pageNumbers, twoSectors .write 7 8)] (fun _ => 0) (twoSectors .read 9 10)
    (by
      intro c hc
      simp only [List.cons_append, List.nil_append, List.mem_cons, List.not_mem_nil,
        or_false] at hc
      obtain rfl | rfl := hc <;> exact ⟨rfl, by decide⟩)
  obtain ⟨hdisk, -, -, hread⟩ := h
  have hapart : (twoSectors .read 9 10).biIoVec.Pairwise MemVec.Apart := by
    simp only [twoSectors, List.pairwise_cons, List.mem_singleton, List.not_mem_nil,
      forall_eq, false_imp_iff, implies_true, List.Pairwise.nil, and_true]
    intro i hi hi'
    simp only [MemVec.Holds, MemVec.addr, pageShift, Nat.shiftLeft_eq] at hi hi'
    omega
  have hsector : (twoSectors .read 9 10).biSector = 0 := rfl
  have hlen : (twoSectors .read 9 10).biSize =
      (payload (views pageNumbers (twoSectors .write 7 8).biIoVec)).length := by
    rw [payload_length]
    rfl
  rw [(hread (Or.inl rfl)).2.1 hapart, hdisk, hsector, hlen, List.foldl_cons, List.foldl_nil,
    twoSectors_flat, Nat.mul_zero]
  exact slice_store _ 0 _

/-- A read with one buffer twice leaves the second sector in both. -/
theorem same_page_twice :
    let s := requests Kernel.willing (2 ^ 24) State.init [(pageNumbers, twoSectors .write 7 8)]
    let r := simpBlkdevMakeRequest Kernel.willing (2 ^ 24) (twoSectors .read 9 9) (fun _ => 0) s
    InRange (2 ^ 24) ((twoSectors .write 7 8).view pageNumbers) ∧
      InRange (2 ^ 24) ((twoSectors .read 9 9).view fun _ => 0) ∧
      payload (views r.ram (twoSectors .read 9 9).biIoVec) ≠ slice (disk s) 0 1024 := by
  intro s r
  have hs : Owned s := by
    change Owned (requests _ _ _ _)
    rw [requests_views]
    exact requests_owned _ _ _ _ owned_init
  have hin : InRange (2 ^ 24) ((twoSectors .read 9 9).view fun _ => 0) := by decide
  have hin' : InRange (2 ^ 24) ((twoSectors .write 7 8).view pageNumbers) := by decide
  have hram : r.ram = storeAll (fun _ => 0) (fills (disk s) 0 (twoSectors .read 9 9).biIoVec) :=
    read_memory willing_neverFails _ hs (by decide) hin rfl
  have hdisk := requests_disk willing_neverFails (by decide : 2 ^ 24 < 2 ^ 64)
    [(twoSectors .write 7 8).view pageNumbers] State.init owned_init
    (by
      intro x hx
      rw [List.mem_singleton.mp hx]
      exact ⟨rfl, hin'⟩)
  rw [List.foldl_cons, List.foldl_nil, twoSectors_flat] at hdisk
  have hbefore : s = BlkdevRequest.requests Kernel.willing (2 ^ 24) State.init
      [(twoSectors .write 7 8).view pageNumbers] := requests_views _ _ _ _
  refine ⟨hin', hin, fun heq => ?_⟩
  rw [hram, hbefore, hdisk] at heq
  have hbyte := congrArg List.head? heq
  revert hbyte
  decide +kernel

end LinuxDriver.BlkdevMemory
