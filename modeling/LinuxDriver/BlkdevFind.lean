import LinuxDriver.BlkdevTrans

namespace LinuxDriver.BlkdevFind

open Blit BlkdevState BlkdevTrans

structure Kept (s t : State) : Prop where
  data : t.simpBlkdevData = s.simpBlkdevData
  live : t.live = s.live
  index : ∀ p, p ∈ s.live → t.index p = s.index p
  mem : ∀ p, p ∈ s.live → t.mem p = s.mem p

theorem Kept.owned {s t : State} (h : Kept s t) (hs : Owned s) : Owned t where
  live_iff p := by rw [h.live, h.data]; exact hs.live_iff p
  index_eq key p hk := by
    rw [h.data] at hk
    rw [h.index p ((hs.live_iff p).mpr ⟨key, hk⟩)]
    exact hs.index_eq key p hk
  key_lt key hk := by rw [h.data] at hk; exact hs.key_lt key hk

theorem Kept.segmentBytes {s t : State} (h : Kept s t) (hs : Owned s) :
    segmentBytes t = segmentBytes s := by
  funext key
  cases hk : s.simpBlkdevData.lookup key with
  | none => simp only [BlkdevState.segmentBytes, h.data, hk]
  | some p =>
    have hm := h.mem p ((hs.live_iff p).mpr ⟨key, hk⟩)
    simp only [BlkdevState.segmentBytes, h.data, hk, hm]

theorem Kept.disk {s t : State} (h : Kept s t) (hs : Owned s) : disk t = disk s := by
  simp only [BlkdevState.disk, h.segmentBytes hs]

structure Inserted (key p : Nat) (s t : State) : Prop where
  absent : s.simpBlkdevData.lookup key = none
  fresh : p ∉ s.live
  data : t.simpBlkdevData = s.simpBlkdevData.insert key p
  live : t.live = insert p s.live
  index : t.index = Function.update s.index p key
  mem : t.mem = Function.update s.mem p (fun _ _ => 0)

theorem Inserted.lookup_ne {key p : Nat} {s t : State} (h : Inserted key p s t) {key' : Nat}
    (hne : key' ≠ key) : t.simpBlkdevData.lookup key' = s.simpBlkdevData.lookup key' := by
  rw [h.data, Finmap.lookup_insert_of_ne _ hne]

theorem Inserted.lookup_self {key p : Nat} {s t : State} (h : Inserted key p s t) :
    t.simpBlkdevData.lookup key = some p := by
  rw [h.data, Finmap.lookup_insert]

theorem Inserted.ne_of_stored {key p : Nat} {s t : State} (h : Inserted key p s t) (hs : Owned s)
    {key' q : Nat} (hq : s.simpBlkdevData.lookup key' = some q) : q ≠ p := by
  rintro rfl
  exact h.fresh ((hs.live_iff q).mpr ⟨key', hq⟩)

theorem Inserted.owned {key p : Nat} {s t : State} (h : Inserted key p s t) (hs : Owned s)
    (hkey : key < 2 ^ 64) : Owned t where
  live_iff q := by
    rw [h.live, Finset.mem_insert, hs.live_iff q]
    constructor
    · rintro (rfl | ⟨key', hk'⟩)
      · exact ⟨key, h.lookup_self⟩
      · refine ⟨key', ?_⟩
        rw [h.lookup_ne, hk']
        rintro rfl
        simp [h.absent] at hk'
    · rintro ⟨key', hk'⟩
      by_cases hne : key' = key
      · subst key'
        rw [h.lookup_self] at hk'
        exact Or.inl (Option.some.inj hk').symm
      · rw [h.lookup_ne hne] at hk'
        exact Or.inr ⟨key', hk'⟩
  index_eq key' q hq := by
    rw [h.index]
    by_cases hne : key' = key
    · subst key'
      rw [h.lookup_self] at hq
      cases hq
      exact Function.update_self ..
    · rw [h.lookup_ne hne] at hq
      rw [Function.update_of_ne (h.ne_of_stored hs hq)]
      exact hs.index_eq key' q hq
  key_lt key' hk' := by
    rw [h.data, Finmap.mem_insert] at hk'
    obtain rfl | hk' := hk'
    · exact hkey
    · exact hs.key_lt key' hk'

/-- A missing segment reads as zeros, so storing a zeroed one shows nowhere. -/
theorem Inserted.segmentBytes {key p : Nat} {s t : State} (h : Inserted key p s t) (hs : Owned s) :
    segmentBytes t = segmentBytes s := by
  funext key'
  by_cases hne : key' = key
  · subst key'
    simp only [BlkdevState.segmentBytes, h.lookup_self, h.absent, h.mem, Function.update_self]
    rfl
  · cases hk : s.simpBlkdevData.lookup key' with
    | none => simp only [BlkdevState.segmentBytes, h.lookup_ne hne, hk]
    | some q =>
      have hm := h.mem
      have hq := h.ne_of_stored hs hk
      simp only [BlkdevState.segmentBytes, h.lookup_ne hne, hk, hm, Function.update_of_ne hq]

theorem Inserted.disk {key p : Nat} {s t : State} (h : Inserted key p s t) (hs : Owned s) :
    disk t = disk s := by
  simp only [BlkdevState.disk, h.segmentBytes hs]

inductive FindStep (k : Kernel) (key : Nat) (dir : Bool) (s : State) : Found → State → Prop
  | stored (p : Nat) (h : s.simpBlkdevData.lookup key = some p) : FindStep k key dir s (.page p) s
  | hole (h : s.simpBlkdevData.lookup key = none) (hd : dir = false) : FindStep k key dir s .hole s
  | failed (ret : Int) (t : State) (hret : isErrValue ret = true) (hd : dir = true)
      (hk : ¬ k.NeverFails) (hkept : Kept s t) : FindStep k key dir s (.err ret) t
  | made (p : Nat) (t : State) (hd : dir = true) (h : Inserted key p s t) :
      FindStep k key dir s (.page p) t

theorem findSegment_step (k : Kernel) (key : Nat) (dir : Bool) (s : State) :
    FindStep k key dir s (findSegment k key dir s).1 (findSegment k key dir s).2 := by
  rw [findSegment, radixTreeLookup]
  cases hl : s.simpBlkdevData.lookup key with
  | some p => exact .stored p hl
  | none =>
    cases dir with
    | false => exact .hole hl rfl
    | true =>
      have habsent : key ∉ s.simpBlkdevData := Finmap.lookup_eq_none.mp hl
      rw [allocPages]
      cases ha : k.allocPages s.calls s.live with
      | none =>
        refine .failed _ _ rfl rfl ?_ ⟨rfl, rfl, fun _ _ => rfl, fun _ _ => rfl⟩
        intro hk
        have := hk.alloc s.calls s.live
        simp [ha] at this
      | some p =>
        have hfresh := k.allocPages_fresh _ _ _ ha
        simp only [Bool.not_true, Bool.false_eq_true, if_false, radixTreeInsert, setIndex,
          Function.update_self, decide_eq_false habsent]
        cases hi : k.insertFails (s.calls + 1) with
        | true =>
          refine .failed _ _ rfl rfl ?_ ⟨rfl, ?_, ?_, ?_⟩
          · intro hk
            have := hk.insert (s.calls + 1)
            simp [hi] at this
          · exact Finset.erase_insert hfresh
          · intro q hq
            exact Function.update_of_ne (by rintro rfl; exact hfresh hq) _ _
          · intro q hq
            exact Function.update_of_ne (by rintro rfl; exact hfresh hq) _ _
        | false => exact .made p _ rfl ⟨hl, hfresh, rfl, rfl, rfl, rfl⟩

end LinuxDriver.BlkdevFind
