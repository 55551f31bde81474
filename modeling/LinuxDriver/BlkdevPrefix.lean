import LinuxDriver.BlkdevDisk

namespace LinuxDriver.BlkdevPrefix

open Blit BlkdevState BlkdevTrans BlkdevRequest BlkdevDisk

/-- However a write inside the device ends, it has stored a prefix of its data. -/
theorem write_stores_prefix {k : Kernel} (hk : k.MapsBios) {bytes : Nat} (hbytes : bytes < 2 ^ 64)
    {b : Bio} (hin : InRange bytes b) (hw : b.bioRw = .write) {s : State} (hs : Owned s) :
    ∃ c, c ≤ b.biSize ∧
      disk (simpBlkdevMakeRequest k bytes b s).st =
        store (disk s) (start b) ((payload b.biIoVec).take c) ∧
      ((simpBlkdevMakeRequest k bytes b s).endio = [0] ∧ c = b.biSize ∨
        (simpBlkdevMakeRequest k bytes b s).endio = [-eio]) := by
  have hd : b.bioRw.dir = some true := by
    rw [hw]
    rfl
  obtain ⟨c, hc, hdisk, -, hend⟩ := walk_write hk (start b) b.biIoVec s hs (range_lt hbytes hin)
  have hsize : vecsLen b.biIoVec = b.biSize := b.biSize_eq
  rw [hsize] at hc hend
  rw [makeRequest_eq s hbytes hin hd]
  obtain ⟨hok, hall⟩ | ⟨hfail, -⟩ := hend
  · simp only [hok, if_true]
    exact ⟨c, hc, hdisk, Or.inl ⟨trivial, hall⟩⟩
  · simp only [hfail, Bool.false_eq_true, if_false]
    exact ⟨c, hc, hdisk, Or.inr trivial⟩

theorem segmentBytes_absent {s : State} {key : Nat} (h : key ∉ s.simpBlkdevData) :
    segmentBytes s key = fun _ => 0 := by
  simp only [segmentBytes, Finmap.lookup_eq_none.mpr h]

theorem disk_segment (s : State) (key : Nat) {i : Nat} (hi : i < simpBlkdevDatasegsize) :
    disk s (simpBlkdevDatasegsize * key + i) = segmentBytes s key i := by
  simp only [disk, flat, Nat.mul_add_div datasegsize_pos, Nat.div_eq_of_lt hi, Nat.add_zero,
    Nat.mul_add_mod, Nat.mod_eq_of_lt hi]

/-- A write applies a prefix of its data and nothing else, all of it when it does
not complete with `-EIO`. A segment that it added to the tree reads as zeros
outside of that prefix. -/
theorem write_applies_prefix (k₀ k : Kernel) (hk : k.MapsBios) (bytes : Nat)
    (hbytes : bytes < 2 ^ 64) (bios : List Bio) (b : Bio) (hw : b.bioRw = .write)
    (hin : InRange bytes b) :
    let s := requests k₀ bytes State.init bios
    let r := simpBlkdevMakeRequest k bytes b s
    ∃ c, c ≤ b.biSize ∧ (r.endio = [0] ∧ c = b.biSize ∨ r.endio = [-eio]) ∧
      (∀ j (hj : j < (payload b.biIoVec).length), j < c →
        disk r.st (512 * b.biSector + j) = (payload b.biIoVec)[j]) ∧
      (∀ o, o < 512 * b.biSector ∨ 512 * b.biSector + c ≤ o → disk r.st o = disk s o) ∧
      (∀ key i, key ∉ s.simpBlkdevData → i < simpBlkdevDatasegsize →
        simpBlkdevDatasegsize * key + i < 512 * b.biSector ∨
          512 * b.biSector + c ≤ simpBlkdevDatasegsize * key + i →
        segmentBytes r.st key i = 0) := by
  intro s r
  obtain ⟨c, hc, hdisk, hend⟩ := write_stores_prefix hk hbytes hin hw
    (requests_owned k₀ bytes _ bios owned_init)
  have hlen : ((payload b.biIoVec).take c).length = c := by
    rw [List.length_take, payload_biSize]
    omega
  have hout : ∀ o, o < 512 * b.biSector ∨ 512 * b.biSector + c ≤ o → disk r.st o = disk s o := by
    intro o ho
    change disk (simpBlkdevMakeRequest k bytes b _).st o = _
    rw [hdisk]
    apply store_outside
    rw [hlen]
    exact ho
  refine ⟨c, hc, hend, ?_, hout, ?_⟩
  · intro j hj hjc
    change disk (simpBlkdevMakeRequest k bytes b _).st _ = _
    rw [hdisk]
    apply (store_inside _ _ _ j (by omega)).trans
    exact List.getElem_take
  · intro key i hkey hi ho
    rw [← disk_segment r.st key hi, hout _ ho, disk_segment s key hi, segmentBytes_absent hkey]

theorem write_applies_prefix_first_page :
    (simpBlkdevMakeRequest Kernel.shortOfMaps (2 ^ 24)
      (oneVec .write 32 7 8192 fun i => UInt8.ofNat i)
      (requests Kernel.willing (2 ^ 24) State.init
        [oneVec .write 0 8 512 fun i => UInt8.ofNat i])).endio = [-eio] ∧
    ∃ c, c ≤ 8192 ∧ ∀ o, o < 16384 ∨ 16384 + c ≤ o →
      disk (simpBlkdevMakeRequest Kernel.shortOfMaps (2 ^ 24)
        (oneVec .write 32 7 8192 fun i => UInt8.ofNat i)
        (requests Kernel.willing (2 ^ 24) State.init
          [oneVec .write 0 8 512 fun i => UInt8.ofNat i])).st o =
      disk (requests Kernel.willing (2 ^ 24) State.init
          [oneVec .write 0 8 512 fun i => UInt8.ofNat i]) o := by
  obtain ⟨c, hc, -, -, hout, -⟩ := write_applies_prefix Kernel.willing Kernel.shortOfMaps
    (fun _ _ => rfl) (2 ^ 24) (by decide) [oneVec .write 0 8 512 fun i => UInt8.ofNat i]
    (oneVec .write 32 7 8192 fun i => UInt8.ofNat i) rfl (by decide)
  exact ⟨by decide +kernel, c, hc, hout⟩

end LinuxDriver.BlkdevPrefix
