import LinuxDriver.BlkdevTrans

namespace LinuxDriver.BlkdevMoved

open Blit BlkdevState BlkdevTrans

/-- A transfer between the segment at `p` and a buffer has moved `c` bytes: the
first `c` of those asked for, and nothing else has changed. -/
structure SegMoved (p : Nat) (dir : Bool) (off boff c : Nat) (buf : Buf) (s : State) (buf' : Buf)
    (s' : State) : Prop where
  data : s'.simpBlkdevData = s.simpBlkdevData
  index : s'.index = s.index
  live : s'.live = s.live
  others : ∀ q, q ≠ p → s'.mem q = s.mem q
  write : dir = true → buf' = buf ∧
    flat pageSize (s'.mem p) = blit (flat pageSize (s.mem p)) off buf.bytes boff c
  read : dir = false → s'.mem = s.mem ∧
    buf' = { buf with bytes := blit buf.bytes boff (flat pageSize (s.mem p)) off c }

theorem SegMoved.none {p : Nat} {dir : Bool} {off boff : Nat} {buf : Buf} {s s' : State}
    (h : SameStore s s') : SegMoved p dir off boff 0 buf s buf s' where
  data := h.data
  index := h.index
  live := h.live
  others q _ := congrFun h.mem q
  write _ := ⟨rfl, by rw [blit_zero, h.mem]⟩
  read _ := ⟨h.mem, by rw [blit_zero]⟩

theorem SegMoved.trans {p : Nat} {dir : Bool} {off boff c d : Nat} {b₀ b₁ b₂ : Buf}
    {s₀ s₁ s₂ : State} (h : SegMoved p dir off boff c b₀ s₀ b₁ s₁)
    (h' : SegMoved p dir (off + c) (boff + c) d b₁ s₁ b₂ s₂) :
    SegMoved p dir off boff (c + d) b₀ s₀ b₂ s₂ where
  data := h'.data.trans h.data
  index := h'.index.trans h.index
  live := h'.live.trans h.live
  others q hq := (h'.others q hq).trans (h.others q hq)
  write hd := by
    obtain ⟨hb, hm⟩ := h.write hd
    obtain ⟨hb', hm'⟩ := h'.write hd
    exact ⟨hb'.trans hb, by rw [hm', hm, hb, blit_blit]⟩
  read hd := by
    obtain ⟨hm, hb⟩ := h.read hd
    obtain ⟨hm', hb'⟩ := h'.read hd
    exact ⟨hm'.trans hm, by rw [hb', hb, hm, blit_blit]⟩

theorem SegMoved.after {p : Nat} {dir : Bool} {off boff c : Nat} {buf b₁ : Buf} {s t s' : State}
    (hst : SameStore s t) (h : SegMoved p dir off boff c buf t b₁ s') :
    SegMoved p dir off boff c buf s b₁ s' where
  data := h.data.trans hst.data
  index := h.index.trans hst.index
  live := h.live.trans hst.live
  others q hq := (h.others q hq).trans (congrFun hst.mem q)
  write hd := by rw [← hst.mem]; exact h.write hd
  read hd := by rw [← hst.mem]; exact h.read hd

theorem copyPage_moved (p o boff n : Nat) (dir : Bool) (buf : Buf) (s : State)
    (hn : o % pageSize + n ≤ pageSize) :
    SegMoved p dir o boff n buf s
      (copyPage p (o / pageSize) (o % pageSize) boff n dir buf s).1
      (copyPage p (o / pageSize) (o % pageSize) boff n dir buf s).2 := by
  cases dir with
  | false =>
    refine ⟨rfl, rfl, rfl, fun _ _ => rfl, fun hd => by simp at hd, fun _ => ⟨rfl, ?_⟩⟩
    change Buf.mk _ (blit _ _ (s.mem p (o / pageSize)) _ _) = _
    rw [blit_from_block (s.mem p) buf.bytes boff o n hn]
  | true =>
    refine ⟨rfl, rfl, rfl, ?_, fun _ => ⟨rfl, ?_⟩, fun hd => by simp at hd⟩
    · intro q hq
      exact Function.update_of_ne hq _ _
    · change flat pageSize (Function.update s.mem p _ p) = _
      rw [Function.update_self]
      exact flat_update_blit (s.mem p) buf.bytes o boff n hn pageSize_pos

/-- `simp_blkdev_trans_oneseg` moves a first part of the bytes asked for, and
all of them when it returns 0. -/
theorem oneseg_moved (k : Kernel) (p offset boff len : Nat) (dir : Bool) (doneCnt : Nat)
    (buf : Buf) (s : State) (hle : doneCnt ≤ len) :
    ∃ c, doneCnt + c ≤ len ∧
      SegMoved p dir (offset + doneCnt) (boff + doneCnt) c buf s
        (simpBlkdevTransOneseg k p offset boff len dir doneCnt buf s).buf
        (simpBlkdevTransOneseg k p offset boff len dir doneCnt buf s).st ∧
      ((simpBlkdevTransOneseg k p offset boff len dir doneCnt buf s).ret = 0 ∧ doneCnt + c = len ∨
        (simpBlkdevTransOneseg k p offset boff len dir doneCnt buf s).ret = -enomem ∧
          ∃ n i, k.kmapFails n (.seg p i) = true) := by
  induction hm : len - doneCnt using Nat.strong_induction_on generalizing doneCnt buf s with
  | _ m ih =>
    rw [simpBlkdevTransOneseg]
    by_cases hlt : doneCnt < len
    · rw [dif_pos hlt]
      simp only [and_not_pageMask, shiftRight_pageShift]
      have hpos := chunk_pos pageSize_pos offset hlt
      have hcle := chunk_le pageSize offset len doneCnt
      have hfits := chunk_fits pageSize_pos offset len doneCnt
      change 0 < min _ _ at hpos
      change min _ _ ≤ _ at hcle
      change _ + min _ _ ≤ _ at hfits
      have hk := sameStore_kmap k s (.seg p ((offset + doneCnt) / pageSize))
      cases hf : k.kmapFails s.calls (.seg p ((offset + doneCnt) / pageSize)) with
      | true =>
        simp only [kmap_fst, hf, Bool.not_true, Bool.not_false, if_true]
        exact ⟨0, by omega, SegMoved.none hk, Or.inr ⟨trivial, _, _, hf⟩⟩
      | false =>
        simp only [kmap_fst, hf, Bool.not_false, Bool.not_true, Bool.false_eq_true, if_false]
        generalize hn : min (len - doneCnt) (pageSize - (offset + doneCnt) % pageSize) = n at *
        have hc := (copyPage_moved p (offset + doneCnt) (boff + doneCnt) n dir buf
          (kmap k s (.seg p ((offset + doneCnt) / pageSize))).2 hfits).after hk
        obtain ⟨c, hcl, hmv, hret⟩ := ih (len - (doneCnt + n)) (by omega) (doneCnt + n) _ _
          (by omega) rfl
        refine ⟨n + c, by omega, hc.trans ?_, ?_⟩
        · simpa only [Nat.add_assoc] using hmv
        · simpa only [Nat.add_assoc] using hret
    · rw [dif_neg hlt]
      exact ⟨0, by omega, SegMoved.none ⟨rfl, rfl, rfl, rfl⟩, Or.inl ⟨rfl, by omega⟩⟩

end LinuxDriver.BlkdevMoved
