import LinuxDriver.BlkdevDisk
import LinuxDriver.Runs

namespace LinuxDriver.BlkdevThreads

open Blit Runs BlkdevState BlkdevTrans BlkdevFind BlkdevTransfer BlkdevRequest BlkdevDisk

/-- Where a call of `simp_blkdev_make_request` stands: at its start, at the loop
test of `bio_for_each_segment`, at that of `simp_blkdev_trans`, or returned. -/
inductive Pc
  | entry
  | vec (dir : Bool) (dskOffset : Nat) (filled todo : List BioVec)
  | seg (dir : Bool) (dskOffset : Nat) (filled : List BioVec) (v : BioVec) (mapped : Bool)
      (doneCnt : Nat) (buf : Buf) (rest : List BioVec)
  | finished (endio : List Int) (vecs : List BioVec)

/-- One step of a call. The steps that touch the tree or the segments are those
made under `simp_blkdev_datalock`; the others are local to the call. -/
def step (k : Kernel) (bytes : Nat) (b : Bio) : Pc → State → Option (Pc × State)
  | .entry, s =>
    match b.bioRw.dir with
    | none => some (.finished [-eio] b.biIoVec, s)
    | some dir =>
      if badRequest bytes b then some (.finished [-eio] b.biIoVec, s)
      else some (.vec dir (dskOffset b) [] b.biIoVec, s)
  | .vec _ _ filled [], s => some (.finished [0] filled, s)
  | .vec dir off filled (v :: rest), s =>
    let m := kmap k s (.bio v.bvPage)
    if iovecNull m.1 v then some (.finished [-eio] (filled ++ v :: rest), m.2)
    else some (.seg dir off filled v m.1 0 (iovecMem k m.1 v) rest, m.2)
  | .seg dir off filled v mapped doneCnt buf rest, s =>
    if doneCnt < v.bvLen then
      let r := transSegment k off v.bvLen dir doneCnt buf s
      if r.ret = 0 then
        some (.seg dir off filled v mapped (doneCnt + thisCnt off v.bvLen doneCnt) r.buf rest, r.st)
      else some (.finished [-eio] (filled ++ v.refill mapped r.buf :: rest), r.st)
    else
      some (.vec dir ((off + v.bvLen) % 2 ^ 64) (filled ++ [v.refill mapped buf]) rest,
        kunmap s (.bio v.bvPage))
  | .finished _ _, _ => none

def soloStep (k : Kernel) (bytes : Nat) (b : Bio) (c : Pc × State) (_ : Unit) :
    Option (Pc × State) := step k bytes b c.1 c.2

def Reaches (k : Kernel) (bytes : Nat) (b : Bio) (c c' : Pc × State) : Prop :=
  ∃ n, run (soloStep k bytes b) c (List.replicate n ()) = some c'

theorem Reaches.refl {k : Kernel} {bytes : Nat} {b : Bio} (c : Pc × State) :
    Reaches k bytes b c c := ⟨0, rfl⟩

theorem Reaches.head {k : Kernel} {bytes : Nat} {b : Bio} {c c' c'' : Pc × State}
    (h : step k bytes b c.1 c.2 = some c') (h' : Reaches k bytes b c' c'') :
    Reaches k bytes b c c'' := by
  obtain ⟨n, hn⟩ := h'
  exact ⟨n + 1, (run_cons_of_step _ (show soloStep k bytes b c () = some c' from h)).trans hn⟩

theorem transSegment_ret (k : Kernel) (off len : Nat) (dir : Bool) (doneCnt : Nat) (buf : Buf)
    (s : State) : (transSegment k off len dir doneCnt buf s).ret = 0 ∨
      isErrValue (transSegment k off len dir doneCnt buf s).ret = true :=
  segStep_ret (transSegment_step ..)

theorem seg_reaches (k : Kernel) (bytes : Nat) (b : Bio) (dir : Bool) (off : Nat)
    (filled : List BioVec) (v : BioVec) (mapped : Bool) (rest : List BioVec) (doneCnt : Nat)
    (buf : Buf) (s : State) :
    let r := simpBlkdevTrans k off v.bvLen dir doneCnt buf s
    Reaches k bytes b (.seg dir off filled v mapped doneCnt buf rest, s)
      (if isErrValue r.ret then (.finished [-eio] (filled ++ v.refill mapped r.buf :: rest), r.st)
        else (.vec dir ((off + v.bvLen) % 2 ^ 64) (filled ++ [v.refill mapped r.buf]) rest,
          kunmap r.st (.bio v.bvPage))) := by
  induction doneCnt, buf, s using simpBlkdevTrans.induct k off v.bvLen dir with
  | case1 doneCnt buf s hlt r hret ih =>
    have hret0 : (transSegment k off v.bvLen dir doneCnt buf s).ret = 0 := hret
    rw [trans_next hlt hret0]
    exact Reaches.head (by simp only [step, if_pos hlt, if_pos hret0]; rfl) ih
  | case2 doneCnt buf s hlt r hret =>
    have hne : (transSegment k off v.bvLen dir doneCnt buf s).ret ≠ 0 := hret
    have herr := (transSegment_ret k off v.bvLen dir doneCnt buf s).resolve_left hne
    rw [trans_stop hlt hne]
    simp only [herr, if_true]
    exact Reaches.head (by simp only [step, if_pos hlt, if_neg hne]) (.refl _)
  | case3 doneCnt buf s hlt =>
    rw [trans_done hlt]
    simp only [isErrValue]
    exact Reaches.head (by simp only [step, if_neg hlt]; rfl) (.refl _)

theorem vec_reaches (k : Kernel) (bytes : Nat) (b : Bio) (dir : Bool) (off : Nat)
    (filled todo : List BioVec) (s : State) :
    let w := bioForEachSegment k dir off todo s
    Reaches k bytes b (.vec dir off filled todo, s)
      (.finished (if w.ok then [0] else [-eio]) (filled ++ w.vecs), w.st) := by
  induction todo generalizing off filled s with
  | nil =>
    simp only [bioForEachSegment, List.append_nil, if_true]
    exact Reaches.head rfl (.refl _)
  | cons v rest ih =>
    simp only [bioForEachSegment]
    by_cases hnull : iovecNull (kmap k s (.bio v.bvPage)).1 v = true
    · simp only [hnull, if_true, Bool.false_eq_true, if_false]
      exact Reaches.head (by simp only [step, hnull, if_true]) (.refl _)
    · simp only [hnull, if_false, Bool.false_eq_true]
      refine Reaches.head (by simp only [step, hnull, if_false, Bool.false_eq_true]; rfl) ?_
      have hseg := seg_reaches k bytes b dir off filled v (kmap k s (.bio v.bvPage)).1 rest 0
        (iovecMem k (kmap k s (.bio v.bvPage)).1 v) (kmap k s (.bio v.bvPage)).2
      generalize simpBlkdevTrans k off v.bvLen dir 0
        (iovecMem k (kmap k s (.bio v.bvPage)).1 v) (kmap k s (.bio v.bvPage)).2 = r at *
      by_cases herr : isErrValue r.ret = true
      · simp only [herr, if_true] at hseg ⊢
        exact hseg
      · simp only [herr, if_false, Bool.false_eq_true] at hseg ⊢
        have hrest := ih ((off + v.bvLen) % 2 ^ 64)
          (filled ++ [v.refill (kmap k s (.bio v.bvPage)).1 r.buf]) (kunmap r.st (.bio v.bvPage))
        simp only [List.append_assoc, List.singleton_append] at hrest
        obtain ⟨n, hn⟩ := hseg
        obtain ⟨m, hm⟩ := hrest
        refine ⟨n + m, ?_⟩
        rw [List.replicate_add, run_append, hn]
        exact hm

/-- The steps of a call that runs alone make up `simp_blkdev_make_request`. -/
theorem solo_makeRequest (k : Kernel) (bytes : Nat) (b : Bio) (s : State) :
    let r := simpBlkdevMakeRequest k bytes b s
    Reaches k bytes b (.entry, s) (.finished r.endio r.vecs, r.st) := by
  rw [simpBlkdevMakeRequest]
  cases hd : b.bioRw.dir with
  | none => exact Reaches.head (by simp only [step, hd]) (.refl _)
  | some dir =>
    by_cases hbad : badRequest bytes b = true
    · simp only [hbad, if_true]
      exact Reaches.head (by simp only [step, hd, hbad, if_true]) (.refl _)
    · simp only [hbad, Bool.false_eq_true, if_false]
      have hv := vec_reaches k bytes b dir (dskOffset b) [] b.biIoVec s
      refine Reaches.head (by simp only [step, hd, hbad, Bool.false_eq_true, if_false]; rfl) ?_
      simp only [List.nil_append] at hv
      cases hok : (bioForEachSegment k dir (dskOffset b) b.biIoVec s).ok with
      | true =>
        simp only [hok, if_true] at hv ⊢
        exact hv
      | false =>
        simp only [hok, Bool.false_eq_true, if_false] at hv ⊢
        exact hv

def weight (b : Bio) : Pc → Nat
  | .entry => 2 + 2 * b.biIoVec.length + b.biSize
  | .vec _ _ _ todo => 1 + 2 * todo.length + vecsLen todo
  | .seg _ _ _ v _ doneCnt _ rest => 2 + 2 * rest.length + vecsLen rest + (v.bvLen - doneCnt)
  | .finished _ _ => 0

end LinuxDriver.BlkdevThreads
