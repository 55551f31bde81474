import LinuxDriver.BlkdevMoved
import LinuxDriver.BlkdevFind

namespace LinuxDriver.BlkdevTransfer

open Blit BlkdevState BlkdevTrans BlkdevMoved BlkdevFind

structure Moved (dir : Bool) (pos boff c : Nat) (buf : Buf) (s : State) (buf' : Buf)
    (s' : State) : Prop where
  write : dir = true → buf' = buf ∧ disk s' = blit (disk s) pos buf.bytes boff c
  read : dir = false → s'.simpBlkdevData = s.simpBlkdevData ∧ disk s' = disk s ∧
    buf' = { buf with bytes := blit buf.bytes boff (disk s) pos c }

theorem Moved.none {dir : Bool} (pos boff : Nat) (buf : Buf) {s s' : State}
    (hdisk : disk s' = disk s)
    (hdata : dir = false → s'.simpBlkdevData = s.simpBlkdevData) :
    Moved dir pos boff 0 buf s buf s' where
  write _ := ⟨rfl, by rw [blit_zero, hdisk]⟩
  read hd := ⟨hdata hd, hdisk, by rw [blit_zero]⟩

theorem Moved.trans {dir : Bool} {pos boff c d : Nat} {b₀ b₁ b₂ : Buf} {s₀ s₁ s₂ : State}
    (h : Moved dir pos boff c b₀ s₀ b₁ s₁)
    (h' : Moved dir (pos + c) (boff + c) d b₁ s₁ b₂ s₂) :
    Moved dir pos boff (c + d) b₀ s₀ b₂ s₂ where
  write hd := by
    obtain ⟨hb, hm⟩ := h.write hd
    obtain ⟨hb', hm'⟩ := h'.write hd
    exact ⟨hb'.trans hb, by rw [hm', hm, hb, blit_blit]⟩
  read hd := by
    obtain ⟨ht, hm, hb⟩ := h.read hd
    obtain ⟨ht', hm', hb'⟩ := h'.read hd
    exact ⟨ht'.trans ht, hm'.trans hm, by rw [hb', hb, hm, blit_blit]⟩

theorem Moved.step_after {dir : Bool} {pos boff c : Nat} {b b' : Buf} {s₀ s s' : State}
    (hdisk : disk s = disk s₀) (hdata : dir = false → s.simpBlkdevData = s₀.simpBlkdevData)
    (h : Moved dir pos boff c b s b' s') : Moved dir pos boff c b s₀ b' s' := by
  have h' : Moved dir pos boff (0 + c) b s₀ b' s' := (Moved.none pos boff b hdisk hdata).trans h
  rwa [Nat.zero_add] at h'

theorem Moved.before {dir : Bool} {pos boff c : Nat} {b b' : Buf} {s s' t : State}
    (h : Moved dir pos boff c b s b' s') (ht : SameStore s' t) :
    Moved dir pos boff c b s b' t :=
  h.trans (Moved.none (pos + c) (boff + c) b' ht.disk (fun _ => ht.data))

theorem moved_of_segMoved {p : Nat} {dir : Bool} {pos boff c : Nat} {buf buf' : Buf}
    {s s' : State} (hs : Owned s)
    (hp : s.simpBlkdevData.lookup (pos / simpBlkdevDatasegsize) = some p)
    (hfit : pos % simpBlkdevDatasegsize + c ≤ simpBlkdevDatasegsize)
    (h : SegMoved p dir (pos % simpBlkdevDatasegsize) boff c buf s buf' s') :
    Moved dir pos boff c buf s buf' s' := by
  have hseg : segmentBytes s (pos / simpBlkdevDatasegsize) = flat pageSize (s.mem p) := by
    simp only [segmentBytes, hp]
  constructor
  · intro hd
    obtain ⟨hb, hm⟩ := h.write hd
    refine ⟨hb, ?_⟩
    have hupd : segmentBytes s' = Function.update (segmentBytes s) (pos / simpBlkdevDatasegsize)
        (blit (segmentBytes s (pos / simpBlkdevDatasegsize)) (pos % simpBlkdevDatasegsize)
          buf.bytes boff c) := by
      funext key
      by_cases hkey : key = pos / simpBlkdevDatasegsize
      · subst key
        rw [Function.update_self, hseg, ← hm]
        simp only [segmentBytes, h.data, hp]
      · rw [Function.update_of_ne hkey]
        cases hq : s.simpBlkdevData.lookup key with
        | none => simp only [segmentBytes, h.data, hq]
        | some q =>
          have hne : q ≠ p := by
            rintro rfl
            exact hkey (owned_inj hs hq hp)
          simp only [segmentBytes, h.data, hq, h.others q hne]
    simp only [disk, hupd]
    exact flat_update_blit (segmentBytes s) buf.bytes pos boff c hfit datasegsize_pos
  · intro hd
    obtain ⟨hm, hb⟩ := h.read hd
    have hsame : segmentBytes s' = segmentBytes s := by
      funext key
      simp only [segmentBytes, h.data, hm]
    refine ⟨h.data, by simp only [disk, hsame], ?_⟩
    rw [hb, ← hseg, blit_from_block (segmentBytes s) buf.bytes boff pos c hfit]
    rfl

theorem thisKey_lt (dskOffset doneCnt : Nat) : thisKey dskOffset doneCnt < 2 ^ 64 := by
  have := Nat.mod_lt (dskOffset + doneCnt) (by decide : 0 < 2 ^ 64)
  rw [thisKey, shiftRight_datasegshift]
  exact lt_of_le_of_lt (Nat.div_le_self _ _) this

theorem findStep_owned {k : Kernel} {key : Nat} {dir : Bool} {s t : State} {f : Found}
    (hs : Owned s) (hkey : key < 2 ^ 64) (h : FindStep k key dir s f t) : Owned t := by
  cases h with
  | stored p hp => exact hs
  | hole hl hd => exact hs
  | failed ret t hret hd hk hkept => exact hkept.owned hs
  | made p t hd hi => exact hi.owned hs hkey

inductive SegStep (k : Kernel) (dskOffset len : Nat) (dir : Bool) (doneCnt : Nat) (buf : Buf)
    (s : State) : Xfer → Prop
  | hole (hl : s.simpBlkdevData.lookup (thisKey dskOffset doneCnt) = none) (hd : dir = false) :
      SegStep k dskOffset len dir doneCnt buf s
        ⟨0, memsetZero buf doneCnt (thisCnt dskOffset len doneCnt),
          mutexUnlock (touch (mutexLock s) buf.page)⟩
  | refused (ret : Int) (t : State) (hret : isErrValue ret = true) (hd : dir = true)
      (hk : ¬ k.NeverFails) (hkept : Kept (mutexLock s) t) :
      SegStep k dskOffset len dir doneCnt buf s ⟨ret, buf, mutexUnlock t⟩
  | moved (p : Nat) (t : State) (b : Buf) (u : State)
      (hf : FindStep k (thisKey dskOffset doneCnt) dir (mutexLock s) (.page p) t)
      (hmv : SegMoved p dir (thisOff dskOffset doneCnt) doneCnt (thisCnt dskOffset len doneCnt)
        buf t b u) :
      SegStep k dskOffset len dir doneCnt buf s ⟨0, b, mutexUnlock u⟩
  | broken (p : Nat) (t : State) (c : Nat) (b : Buf) (u : State)
      (hf : FindStep k (thisKey dskOffset doneCnt) dir (mutexLock s) (.page p) t)
      (hc : c ≤ thisCnt dskOffset len doneCnt)
      (hmv : SegMoved p dir (thisOff dskOffset doneCnt) doneCnt c buf t b u)
      (hfail : ∃ n i, k.kmapFails n (.seg p i) = true) :
      SegStep k dskOffset len dir doneCnt buf s ⟨-eio, b, mutexUnlock u⟩

theorem transSegment_step (k : Kernel) (dskOffset len : Nat) (dir : Bool) (doneCnt : Nat)
    (buf : Buf) (s : State) :
    SegStep k dskOffset len dir doneCnt buf s
      (transSegment k dskOffset len dir doneCnt buf s) := by
  have hf := findSegment_step k (thisKey dskOffset doneCnt) dir (mutexLock s)
  rw [transSegment]
  rcases he : findSegment k (thisKey dskOffset doneCnt) dir (mutexLock s) with ⟨f, t⟩
  rw [he] at hf
  cases f with
  | hole =>
    cases hf with
    | hole hl hd => exact .hole hl hd
  | err ret =>
    cases hf with
    | failed _ _ hret hd hk hkept => exact .refused ret t hret hd hk hkept
  | page p =>
    obtain ⟨c, hc, hmv, hret⟩ := oneseg_moved k p (thisOff dskOffset doneCnt) doneCnt
      (thisCnt dskOffset len doneCnt) dir 0 buf t (Nat.zero_le _)
    rw [Nat.zero_add] at hc hret
    obtain ⟨h0, rfl⟩ | ⟨hbad, hfail⟩ := hret
    · simp only [h0]
      exact .moved p t _ _ hf hmv
    · simp only [hbad]
      exact .broken p t c _ _ hf hc hmv hfail

theorem segStep_ret {k : Kernel} {dskOffset len : Nat} {dir : Bool} {doneCnt : Nat} {buf : Buf}
    {s : State} {r : Xfer} (h : SegStep k dskOffset len dir doneCnt buf s r) :
    r.ret = 0 ∨ isErrValue r.ret = true := by
  cases h with
  | hole => exact Or.inl rfl
  | refused ret t hret => exact Or.inr hret
  | moved => exact Or.inl rfl
  | broken => exact Or.inr rfl

theorem owned_stable (k : Kernel) : Stable k Owned where
  lock s hs := (sameStore_mutexLock s).owned hs
  unlock s hs := (sameStore_mutexUnlock s).owned hs
  touch s page hs := (sameStore_touch s page).owned hs
  kmap s page hs := (sameStore_kmap k s page).owned hs
  kunmap s page hs := (sameStore_kunmap s page).owned hs
  write _ _ _ _ _ _ _ hs := ⟨hs.live_iff, hs.index_eq, hs.key_lt⟩

theorem findSegment_owned (k : Kernel) (dskOffset doneCnt : Nat) (dir : Bool) (s : State)
    (hs : Owned s) : Owned (findSegment k (thisKey dskOffset doneCnt) dir s).2 :=
  findStep_owned hs (thisKey_lt dskOffset doneCnt) (findSegment_step ..)

theorem segment_owned (k : Kernel) (dskOffset len : Nat) (dir : Bool) (doneCnt : Nat) (buf : Buf)
    (s : State) (hs : Owned s) : Owned (transSegment k dskOffset len dir doneCnt buf s).st :=
  segment_keeps (owned_stable k) (findSegment_owned k dskOffset doneCnt dir) buf s hs

theorem thisKey_eq {dskOffset len doneCnt : Nat} (hlt : doneCnt < len)
    (hwrap : dskOffset + len ≤ 2 ^ 64) :
    thisKey dskOffset doneCnt = (dskOffset + doneCnt) / simpBlkdevDatasegsize := by
  rw [thisKey, shiftRight_datasegshift, Nat.mod_eq_of_lt (by omega)]

theorem thisOff_eq {dskOffset len doneCnt : Nat} (hlt : doneCnt < len)
    (hwrap : dskOffset + len ≤ 2 ^ 64) :
    thisOff dskOffset doneCnt = (dskOffset + doneCnt) % simpBlkdevDatasegsize := by
  rw [thisOff, and_not_datasegmask, Nat.mod_eq_of_lt (a := dskOffset + doneCnt) (by omega)]

theorem thisOff_fits (dskOffset len doneCnt : Nat) :
    thisOff dskOffset doneCnt + thisCnt dskOffset len doneCnt ≤ simpBlkdevDatasegsize := by
  have := Nat.mod_lt ((dskOffset + doneCnt) % 2 ^ 64) datasegsize_pos
  rw [thisCnt_eq, thisOff, and_not_datasegmask]
  omega

theorem moved_of_found {k : Kernel} {key p : Nat} {dir : Bool} {boff c pos : Nat} {buf b : Buf}
    {s t u : State} (hs : Owned s) (hkey : key = pos / simpBlkdevDatasegsize) (hlt : key < 2 ^ 64)
    (hfit : pos % simpBlkdevDatasegsize + c ≤ simpBlkdevDatasegsize)
    (hf : FindStep k key dir s (.page p) t)
    (hmv : SegMoved p dir (pos % simpBlkdevDatasegsize) boff c buf t b u) :
    Moved dir pos boff c buf s b u := by
  subst hkey
  cases hf with
  | stored _ hp => exact moved_of_segMoved hs hp hfit hmv
  | made _ _ hd hi =>
    have hm := moved_of_segMoved (hi.owned hs hlt) hi.lookup_self hfit hmv
    refine hm.step_after (hi.disk hs) (fun h => ?_)
    simp [hd] at h

/-- One turn of the loop moves a first part of its piece, and all of it when it
goes on to the next turn. -/
theorem segStep_moved {k : Kernel} {dskOffset len : Nat} {dir : Bool} {doneCnt : Nat} {buf : Buf}
    {s : State} {r : Xfer} (hs : Owned s) (hlt : doneCnt < len)
    (hwrap : dskOffset + len ≤ 2 ^ 64) (h : SegStep k dskOffset len dir doneCnt buf s r) :
    ∃ c, c ≤ thisCnt dskOffset len doneCnt ∧
      Moved dir (dskOffset + doneCnt) doneCnt c buf s r.buf r.st ∧
      (r.ret = 0 ∧ c = thisCnt dskOffset len doneCnt ∨
        isErrValue r.ret = true ∧ ¬ k.NeverFails) := by
  have hl := sameStore_mutexLock s
  have hlo := hl.owned hs
  have hkey := thisKey_eq hlt hwrap
  have hoff := thisOff_eq hlt hwrap
  have hfits := thisOff_fits dskOffset len doneCnt
  rw [hoff] at hfits
  cases h with
  | hole hn hd =>
    refine ⟨_, le_rfl, ⟨fun h => by simp [hd] at h, fun _ => ⟨rfl, rfl, ?_⟩⟩, Or.inl ⟨rfl, rfl⟩⟩
    have hz : segmentBytes s ((dskOffset + doneCnt) / simpBlkdevDatasegsize) = fun _ => 0 := by
      rw [hkey] at hn
      simp only [segmentBytes, hn]
    have hb := blit_from_block (segmentBytes s) buf.bytes doneCnt (dskOffset + doneCnt)
      (thisCnt dskOffset len doneCnt) hfits
    rw [hz] at hb
    change Buf.mk buf.page _ = Buf.mk buf.page _
    rw [disk, ← hb]
    congr 1
  | refused ret t hret hd hk hkept =>
    have hdisk := ((sameStore_mutexUnlock t).disk.trans (hkept.disk hlo)).trans hl.disk
    exact ⟨0, Nat.zero_le _, Moved.none _ _ _ hdisk (fun h => by simp [hd] at h), Or.inr ⟨hret, hk⟩⟩
  | moved p t b u hf hmv =>
    rw [hoff] at hmv
    have hm := moved_of_found hlo hkey (thisKey_lt _ _) hfits hf hmv
    exact ⟨_, le_rfl, (hm.step_after hl.disk (fun _ => hl.data)).before (sameStore_mutexUnlock u),
      Or.inl ⟨rfl, rfl⟩⟩
  | broken p t c b u hf hc hmv hfail =>
    rw [hoff] at hmv
    have hm := moved_of_found hlo hkey (thisKey_lt _ _) (by omega) hf hmv
    refine ⟨c, hc, (hm.step_after hl.disk (fun _ => hl.data)).before (sameStore_mutexUnlock u),
      Or.inr ⟨rfl, ?_⟩⟩
    obtain ⟨n, i, hni⟩ := hfail
    intro hk
    simp [hk.kmap] at hni

theorem trans_owned (k : Kernel) (dskOffset len : Nat) (dir : Bool) (doneCnt : Nat) (buf : Buf)
    (s : State) (hs : Owned s) : Owned (simpBlkdevTrans k dskOffset len dir doneCnt buf s).st :=
  trans_keeps k dskOffset len dir (fun _ _ _ _ h => segment_owned _ _ _ _ _ _ _ h) doneCnt buf s hs

/-- `simp_blkdev_trans` moves a first part of the bytes asked for between the
flat disk and the buffer, and all of them when it returns 0. -/
theorem trans_moved (k : Kernel) (dskOffset len : Nat) (dir : Bool) (doneCnt : Nat) (buf : Buf)
    (s : State) (hs : Owned s) (hle : doneCnt ≤ len) (hwrap : dskOffset + len ≤ 2 ^ 64) :
    ∃ c, doneCnt + c ≤ len ∧
      Moved dir (dskOffset + doneCnt) doneCnt c buf s
        (simpBlkdevTrans k dskOffset len dir doneCnt buf s).buf
        (simpBlkdevTrans k dskOffset len dir doneCnt buf s).st ∧
      ((simpBlkdevTrans k dskOffset len dir doneCnt buf s).ret = 0 ∧ doneCnt + c = len ∨
        isErrValue (simpBlkdevTrans k dskOffset len dir doneCnt buf s).ret = true ∧
          ¬ k.NeverFails) := by
  induction doneCnt, buf, s using simpBlkdevTrans.induct k dskOffset len dir with
  | case1 doneCnt buf s hlt r hret ih =>
    have hret0 : (transSegment k dskOffset len dir doneCnt buf s).ret = 0 := hret
    obtain ⟨c, hc, hmv, hend⟩ := segStep_moved hs hlt hwrap
      (transSegment_step k dskOffset len dir doneCnt buf s)
    have hall : c = thisCnt dskOffset len doneCnt := by
      obtain ⟨_, hall⟩ | ⟨herr, _⟩ := hend
      · exact hall
      · simp [hret0, isErrValue] at herr
    subst hall
    have hle' := thisCnt_le dskOffset len doneCnt
    obtain ⟨d, hd, hmv', hend'⟩ := ih (segment_owned _ _ _ _ _ _ _ hs) (by omega)
    rw [trans_next hlt hret0]
    rw [← Nat.add_assoc] at hmv'
    refine ⟨_, by omega, hmv.trans hmv', ?_⟩
    rw [← Nat.add_assoc]
    exact hend'
  | case2 doneCnt buf s hlt r hret =>
    obtain ⟨c, hc, hmv, hend⟩ := segStep_moved hs hlt hwrap
      (transSegment_step k dskOffset len dir doneCnt buf s)
    have hle' := thisCnt_le dskOffset len doneCnt
    rw [trans_stop hlt hret]
    refine ⟨c, by omega, hmv, Or.inr ?_⟩
    obtain ⟨h0, _⟩ | herr := hend
    · exact absurd h0 hret
    · exact herr
  | case3 doneCnt buf s hlt =>
    rw [trans_done hlt]
    exact ⟨0, by omega, Moved.none _ _ _ rfl (fun _ => rfl), Or.inl ⟨rfl, by omega⟩⟩

end LinuxDriver.BlkdevTransfer
