import LinuxDriver.BlkdevDisk
import LinuxDriver.BlkdevLedger

namespace LinuxDriver.BlkdevBalance

open Holding Blit BlkdevState BlkdevTrans BlkdevRequest BlkdevDisk BlkdevLedger

def events (s t : State) : List Event := t.trace.drop s.trace.length

theorem events_eq {s t : State} {es : List Event} (h : t.trace = s.trace ++ es) :
    events s t = es := by
  rw [events, h, List.drop_left]

/-- From `s` to `t` every mapping that was made is gone again, none was used or
undone that was not there, and the lock is not held. -/
structure Balanced (s t : State) : Prop where
  unlocked : s.datalock = false → t.datalock = false
  held : (ledger Resources.empty (events s t)).held = []
  clean : (ledger Resources.empty (events s t)).misused = false

/-- What the `bio_for_each_segment` loop needs, vector by vector: a page that is
mapped asks for its data to be transferred to the end, a page that is not mapped
for a `bv_offset` of 0 or for a transfer that fails before it copies. -/
def VecsFine (k : Kernel) (dir : Bool) : Nat → List BioVec → State → Prop
  | _, [], _ => True
  | dskOffset, v :: rest, s =>
    let m := kmap k s (.bio v.bvPage)
    if m.1 then
      TransFine k dskOffset v.bvLen dir 0 (iovecMem k m.1 v) m.2 ∧
        VecsFine k dir ((dskOffset + v.bvLen) % 2 ^ 64) rest
          (kunmap (simpBlkdevTrans k dskOffset v.bvLen dir 0 (iovecMem k m.1 v) m.2).st
            (.bio v.bvPage))
    else
      v.bvOffset = 0 ∨
        0 < v.bvLen ∧ FailsAtOnce k (thisKey dskOffset 0) dir (thisOff dskOffset 0) m.2

/-- The request is turned down at the start, or its loop has what it needs. -/
def RequestFine (k : Kernel) (bytes : Nat) (b : Bio) (s : State) : Prop :=
  match b.bioRw.dir with
  | none => True
  | some dir => badRequest bytes b = true ∨ VecsFine k dir (dskOffset b) b.biIoVec s

theorem ledger_kmap (k : Kernel) (s : State) (page : Page) :
    ∃ es, (kmap k s page).2.trace = s.trace ++ es ∧
      ledger Resources.empty es =
        if (kmap k s page).1 then ⟨[page], false⟩ else Resources.empty := by
  refine ⟨_, rfl, ?_⟩
  rw [kmap]
  cases k.kmapFails s.calls page <;> rfl

theorem noSegs_bio (page : Nat) (m : Bool) : NoSegs ⟨[.bio page], m⟩ := by
  intro p i h
  simp at h

theorem noSegs_empty : NoSegs Resources.empty := by
  intro p i h
  simp [Resources.empty] at h

theorem spoilt {h : Resources Page} (hm : h.misused = true) {es : List Event} :
    ledger h es ≠ Resources.empty := by
  intro he
  have hmis : (ledger h es).misused = true := misused_applyAll hm
  rw [he] at hmis
  cases hmis

theorem transFine_not_failsAtOnce {k : Kernel} {dskOffset len : Nat} {dir : Bool} {buf : Buf}
    {s : State} (hpos : 0 < len) (h : TransFine k dskOffset len dir 0 buf s) :
    ¬ FailsAtOnce k (thisKey dskOffset 0) dir (thisOff dskOffset 0) s := by
  rw [TransFine, dif_pos hpos] at h
  exact not_failsAtOnce (thisCnt_pos dskOffset hpos) h.1

theorem ledger_kunmap (page : Page) : ledger ⟨[page], false⟩ [.kunmap page] = Resources.empty := by
  apply (release_of_mem (h := ⟨_, false⟩) List.mem_cons_self).trans
  rw [List.erase_cons_head]
  rfl

theorem trans_mapped (k : Kernel) (dskOffset len : Nat) (dir : Bool) {page : Nat} {buf : Buf}
    (hb : buf.page = .bio page) (s : State) :
    ∃ fs, (simpBlkdevTrans k dskOffset len dir 0 buf s).st.trace = s.trace ++ fs ∧
      ledger ⟨[.bio page], false⟩ fs = ⟨[.bio page], false⟩ := by
  obtain ⟨⟨c, ⟨fs, hfs, hbooks⟩, -⟩, -⟩ :=
    trans_books k dskOffset len dir 0 buf (fun _ _ => by simp [hb]) s
  refine ⟨fs, hfs, ?_⟩
  rw [hbooks _ (noSegs_bio _ _), hb, use_of_mem List.mem_cons_self, ite_self]

theorem trans_unmapped (k : Kernel) (dskOffset len : Nat) (dir : Bool) {page : Nat} {buf : Buf}
    (hb : buf.page = .bio page) (s : State) :
    ∃ fs c, (simpBlkdevTrans k dskOffset len dir 0 buf s).st.trace = s.trace ++ fs ∧
      ledger Resources.empty fs = ⟨[], c⟩ ∧
      (c = true ↔ 0 < len ∧ ¬ FailsAtOnce k (thisKey dskOffset 0) dir (thisOff dskOffset 0) s) := by
  obtain ⟨⟨c, ⟨fs, hfs, hbooks⟩, hc⟩, -⟩ :=
    trans_books k dskOffset len dir 0 buf (fun _ _ => by simp [hb]) s
  refine ⟨fs, c, hfs, ?_, hc⟩
  rw [hbooks _ noSegs_empty]
  cases c <;> rfl

theorem trans_ret (k : Kernel) (dskOffset len : Nat) (dir : Bool) {page : Nat} {buf : Buf}
    (hb : buf.page = .bio page) (s : State) :
    let r := simpBlkdevTrans k dskOffset len dir 0 buf s
    isErrValue r.ret = false ∧ TransFine k dskOffset len dir 0 buf s ∨
      isErrValue r.ret = true ∧ ¬ TransFine k dskOffset len dir 0 buf s := by
  apply (trans_books k dskOffset len dir 0 buf (fun _ _ => by simp [hb]) s).2.imp_left
  rintro ⟨h0, hfine⟩
  exact ⟨by rw [h0]; rfl, hfine⟩

def WalkBalanced (k : Kernel) (dir : Bool) (dskOffset : Nat) (vs : List BioVec) (s : State) :
    Prop :=
  ∃ es, (bioForEachSegment k dir dskOffset vs s).st.trace = s.trace ++ es ∧
    (ledger Resources.empty es = Resources.empty ↔ VecsFine k dir dskOffset vs s)

theorem walk_mapped {k : Kernel} {dir : Bool} {dskOffset : Nat} {v : BioVec} {vs : List BioVec}
    {s : State} (hm : (kmap k s (.bio v.bvPage)).1 = true)
    (ih : ∀ off t, WalkBalanced k dir off vs t) : WalkBalanced k dir dskOffset (v :: vs) s := by
  obtain ⟨es, hes, hfirst⟩ := ledger_kmap k s (.bio v.bvPage)
  rw [WalkBalanced, bioForEachSegment, VecsFine]
  dsimp only
  simp only [hm, if_true] at hfirst ⊢
  generalize (kmap k s (.bio v.bvPage)).2 = s₁ at *
  have hbuf : (iovecMem k true v).page = .bio v.bvPage := rfl
  obtain ⟨fs, hfs, hkept⟩ := trans_mapped k dskOffset v.bvLen dir hbuf s₁
  have hnull : iovecNull true v = false := rfl
  simp only [hnull, Bool.false_eq_true, if_false]
  obtain ⟨hret, hfine⟩ | ⟨hret, hfine⟩ := trans_ret k dskOffset v.bvLen dir hbuf s₁
  · simp only [hret, Bool.false_eq_true, if_false, hfine, true_and]
    generalize (simpBlkdevTrans k dskOffset v.bvLen dir 0 (iovecMem k true v) s₁).st = t at *
    obtain ⟨gs, hgs, hiff⟩ := ih ((dskOffset + v.bvLen) % 2 ^ 64) (kunmap t (.bio v.bvPage))
    refine ⟨es ++ fs ++ [.kunmap (.bio v.bvPage)] ++ gs, ?_, ?_⟩
    · rw [hgs, kunmap, hfs, hes]
      simp only [List.append_assoc]
    · rw [ledger_append, ledger_append, ledger_append, hfirst, hkept, ledger_kunmap, ← hiff]
  · simp only [hret, if_true, hfine, false_and, iff_false]
    refine ⟨es ++ fs, by rw [hfs, hes, List.append_assoc], ?_⟩
    rw [ledger_append, hfirst, hkept]
    intro h
    cases h

theorem walk_unmapped {k : Kernel} {dir : Bool} {dskOffset : Nat} {v : BioVec} {vs : List BioVec}
    {s : State} (hm : (kmap k s (.bio v.bvPage)).1 = false)
    (ih : ∀ off t, WalkBalanced k dir off vs t) : WalkBalanced k dir dskOffset (v :: vs) s := by
  obtain ⟨es, hes, hfirst⟩ := ledger_kmap k s (.bio v.bvPage)
  rw [WalkBalanced, bioForEachSegment, VecsFine]
  dsimp only
  simp only [hm, Bool.false_eq_true, if_false] at hfirst ⊢
  generalize (kmap k s (.bio v.bvPage)).2 = s₁ at *
  by_cases hoff : v.bvOffset = 0
  · have hnull : iovecNull false v = true := by simp [iovecNull, hoff]
    simp only [hnull, if_true, hoff, true_or, iff_true]
    exact ⟨es, hes, hfirst⟩
  · have hnull : iovecNull false v = false := by simp [iovecNull, hoff]
    have hbuf : (iovecMem k false v).page = .bio v.bvPage := rfl
    obtain ⟨fs, c, hfs, hused, hc⟩ := trans_unmapped k dskOffset v.bvLen dir hbuf s₁
    simp only [hnull, Bool.false_eq_true, if_false, hoff, false_or]
    obtain ⟨hret, hfine⟩ | ⟨hret, hfine⟩ := trans_ret k dskOffset v.bvLen dir hbuf s₁
    · simp only [hret, Bool.false_eq_true, if_false]
      generalize (simpBlkdevTrans k dskOffset v.bvLen dir 0 (iovecMem k false v) s₁).st = t at *
      obtain ⟨gs, hgs, -⟩ := ih ((dskOffset + v.bvLen) % 2 ^ 64) (kunmap t (.bio v.bvPage))
      refine ⟨es ++ fs ++ [.kunmap (.bio v.bvPage)] ++ gs, ?_, iff_of_false ?_ ?_⟩
      · rw [hgs, kunmap, hfs, hes]
        simp only [List.append_assoc]
      · have hrel : ledger ⟨[], c⟩ [.kunmap (.bio v.bvPage)] = ⟨[], true⟩ := rfl
        rw [ledger_append, ledger_append, ledger_append, hfirst, hused, hrel]
        exact spoilt rfl
      · rintro ⟨hpos, hfails⟩
        exact transFine_not_failsAtOnce hpos hfine hfails
    · simp only [hret, if_true]
      refine ⟨es ++ fs, by rw [hfs, hes, List.append_assoc], ?_⟩
      have hpos : 0 < v.bvLen := by
        by_contra hzero
        apply hfine
        rw [TransFine, dif_neg hzero]
        trivial
      rw [ledger_append, hfirst, hused]
      simp only [hpos, true_and] at hc ⊢
      cases c with
      | true => simpa [Resources.empty] using hc
      | false => simpa [Resources.empty] using hc

theorem walk_balanced (k : Kernel) (dir : Bool) (dskOffset : Nat) (vs : List BioVec) (s : State) :
    WalkBalanced k dir dskOffset vs s := by
  induction vs generalizing dskOffset s with
  | nil => exact ⟨[], (List.append_nil _).symm, iff_of_true rfl trivial⟩
  | cons v vs ih =>
    cases hm : (kmap k s (.bio v.bvPage)).1 with
    | true => exact walk_mapped hm ih
    | false => exact walk_unmapped hm ih

theorem trans_unlocked (k : Kernel) (dskOffset len : Nat) (dir : Bool) (doneCnt : Nat) (buf : Buf)
    (s : State) (hs : s.datalock = false) :
    (simpBlkdevTrans k dskOffset len dir doneCnt buf s).st.datalock = false := by
  apply trans_keeps k dskOffset len dir (P := fun s => s.datalock = false) _ doneCnt buf s hs
  intro doneCnt buf s _ _
  rw [transSegment]
  dsimp only
  split
  · rfl
  · rfl
  · split <;> rfl

theorem walk_unlocked (k : Kernel) (dir : Bool) (dskOffset : Nat) (vs : List BioVec) (s : State)
    (hs : s.datalock = false) :
    (bioForEachSegment k dir dskOffset vs s).st.datalock = false := by
  induction vs generalizing dskOffset s with
  | nil => exact hs
  | cons v vs ih =>
    have htrans := trans_unlocked k dskOffset v.bvLen dir 0
      (iovecMem k (kmap k s (.bio v.bvPage)).1 v) (kmap k s (.bio v.bvPage)).2 hs
    rw [bioForEachSegment]
    dsimp only
    split
    · exact hs
    · split
      · exact htrans
      · exact ih _ _ htrans

/-- A request is balanced exactly when no failure strikes while a page of the bio
is mapped, and none strikes the mapping of a page where it goes unnoticed. -/
theorem request_balanced_iff (k : Kernel) (bytes : Nat) (b : Bio) (s : State) :
    Balanced s (simpBlkdevMakeRequest k bytes b s).st ↔ RequestFine k bytes b s := by
  have hnil : events s s = [] := events_eq (List.append_nil _).symm
  have hnone : Balanced s s := ⟨id, by rw [hnil]; rfl, by rw [hnil]; rfl⟩
  rw [simpBlkdevMakeRequest, RequestFine]
  cases b.bioRw.dir with
  | none => exact iff_of_true hnone trivial
  | some dir =>
    dsimp only
    cases hbad : badRequest bytes b with
    | true => simpa using hnone
    | false =>
      obtain ⟨es, hes, hiff⟩ := walk_balanced k dir (dskOffset b) b.biIoVec s
      have hend : Balanced s (bioForEachSegment k dir (dskOffset b) b.biIoVec s).st ↔
          VecsFine k dir (dskOffset b) b.biIoVec s := by
        rw [← hiff]
        constructor
        · rintro ⟨-, hheld, hclean⟩
          rw [events_eq hes] at hheld hclean
          exact congrArg₂ Resources.mk hheld hclean
        · intro hempty
          refine ⟨walk_unlocked k dir (dskOffset b) b.biIoVec s, ?_, ?_⟩ <;>
            rw [events_eq hes, hempty] <;> rfl
      simp only [Bool.false_eq_true, if_false, false_or]
      split <;> exact hend

/-- The second page of a segment cannot be mapped: the page of the bio stays mapped. -/
theorem failed_transfer_leaves_mapping :
    let t := (simpBlkdevMakeRequest Kernel.shortOfMaps (2 ^ 24)
      (oneVec .write 32 7 8192 fun i => UInt8.ofNat i) State.init).st
    ¬ Balanced State.init t ∧ (events State.init t).count (.kmap (.bio 7) true) = 1 ∧
      (events State.init t).count (.kunmap (.bio 7)) = 0 := by
  intro t
  refine ⟨fun h => ?_, by decide +kernel, by decide +kernel⟩
  exact absurd h.held (by decide +kernel)

end LinuxDriver.BlkdevBalance
