import LinuxDriver.BlkdevRequest

namespace LinuxDriver.BlkdevDisk

open Blit BlkdevState BlkdevTrans BlkdevTransfer BlkdevRequest

/-- First byte of the range that a bio names, in unbounded arithmetic. -/
def start (b : Bio) : Nat := 512 * b.biSector

def InRange (simpBlkdevBytes : Nat) (b : Bio) : Prop := start b + b.biSize ≤ simpBlkdevBytes

instance (simpBlkdevBytes : Nat) (b : Bio) : Decidable (InRange simpBlkdevBytes b) :=
  inferInstanceAs (Decidable (_ ≤ _))

/-- The whole device as one flat memory: what a request does to it. -/
def flatRequest (d : Nat → UInt8) (b : Bio) : Nat → UInt8 :=
  match b.bioRw.dir with
  | some true => store d (start b) (payload b.biIoVec)
  | _ => d

theorem payload_biSize (b : Bio) : (payload b.biIoVec).length = b.biSize := by
  rw [payload_length]
  exact b.biSize_eq

theorem dskOffset_eq {bytes : Nat} {b : Bio} (hbytes : bytes < 2 ^ 64) (h : InRange bytes b) :
    dskOffset b = start b := by
  have hlt : start b < 2 ^ 64 := by
    rw [InRange] at h
    omega
  have hs : b.biSector <<< simpBlkdevSectorshift = start b := by
    rw [Nat.shiftLeft_eq, Nat.mul_comm]
    rfl
  rw [dskOffset, hs, Nat.mod_eq_of_lt hlt]

theorem not_badRequest {bytes : Nat} {b : Bio} (hbytes : bytes < 2 ^ 64) (h : InRange bytes b) :
    badRequest bytes b = false := by
  have hle : start b + b.biSize ≤ bytes := h
  rw [badRequest, dskOffset_eq hbytes h, Nat.mod_eq_of_lt (by omega)]
  exact decide_eq_false (by omega)

theorem makeRequest_eq {k : Kernel} {bytes : Nat} {b : Bio} {dir : Bool} (s : State)
    (hbytes : bytes < 2 ^ 64) (h : InRange bytes b) (hd : b.bioRw.dir = some dir) :
    simpBlkdevMakeRequest k bytes b s =
      let w := bioForEachSegment k dir (start b) b.biIoVec s
      if w.ok then ⟨0, [0], w.vecs, w.st⟩ else ⟨0, [-eio], w.vecs, w.st⟩ := by
  simp only [simpBlkdevMakeRequest, hd, not_badRequest hbytes h, dskOffset_eq hbytes h,
    Bool.false_eq_true, if_false]

theorem range_lt {bytes : Nat} {b : Bio} (hbytes : bytes < 2 ^ 64) (h : InRange bytes b) :
    start b + vecsLen b.biIoVec < 2 ^ 64 := by
  have hsum : vecsLen b.biIoVec = b.biSize := b.biSize_eq
  have hle : start b + b.biSize ≤ bytes := h
  omega

theorem write_request {k : Kernel} (hk : k.NeverFails) {bytes : Nat} {b : Bio} {s : State}
    (hs : Owned s) (hbytes : bytes < 2 ^ 64) (h : InRange bytes b)
    (hd : b.bioRw.dir = some true) :
    (simpBlkdevMakeRequest k bytes b s).endio = [0] ∧
      (simpBlkdevMakeRequest k bytes b s).vecs = b.biIoVec ∧
      disk (simpBlkdevMakeRequest k bytes b s).st = flatRequest (disk s) b := by
  obtain ⟨c, _, hdisk, hvecs, hend⟩ := walk_write hk.mapsBios (start b) b.biIoVec s hs
    (range_lt hbytes h)
  obtain ⟨hok, rfl⟩ | ⟨_, hfail⟩ := hend
  · rw [← payload_length, List.take_length] at hdisk
    simp only [makeRequest_eq s hbytes h hd, hok, if_true, flatRequest, hd]
    exact ⟨trivial, hvecs, hdisk⟩
  · exact absurd hk hfail

theorem read_request {k : Kernel} (hk : k.NeverFails) {bytes : Nat} {b : Bio} {s : State}
    (hs : Owned s) (hbytes : bytes < 2 ^ 64) (h : InRange bytes b)
    (hd : b.bioRw.dir = some false) :
    (simpBlkdevMakeRequest k bytes b s).endio = [0] ∧
      payload (simpBlkdevMakeRequest k bytes b s).vecs = slice (disk s) (start b) b.biSize ∧
      (simpBlkdevMakeRequest k bytes b s).vecs.map BioVec.bvLen = b.biIoVec.map BioVec.bvLen ∧
      (simpBlkdevMakeRequest k bytes b s).st.simpBlkdevData = s.simpBlkdevData ∧
      disk (simpBlkdevMakeRequest k bytes b s).st = flatRequest (disk s) b := by
  obtain ⟨hdata, hdisk, hend⟩ := walk_read hk.mapsBios (start b) b.biIoVec s hs
    (range_lt hbytes h)
  obtain ⟨hok, hpay, hlen⟩ | ⟨_, hfail⟩ := hend
  · have hsum : vecsLen b.biIoVec = b.biSize := b.biSize_eq
    rw [hsum] at hpay
    simp only [makeRequest_eq s hbytes h hd, hok, if_true, flatRequest, hd]
    exact ⟨trivial, hpay, hlen, hdata, hdisk⟩
  · exact absurd hk hfail

/-- Requests inside the device act on the tree as they act on a flat disk. -/
theorem requests_disk {k : Kernel} (hk : k.NeverFails) {bytes : Nat} (hbytes : bytes < 2 ^ 64)
    (bios : List Bio) (s : State) (hs : Owned s)
    (hin : ∀ b, b ∈ bios → b.bioRw.dir.isSome ∧ InRange bytes b) :
    disk (requests k bytes s bios) = bios.foldl flatRequest (disk s) := by
  induction bios generalizing s with
  | nil => rfl
  | cons b bios ih =>
    obtain ⟨hsome, hrange⟩ := hin b (by simp)
    obtain ⟨dir, hd⟩ := Option.isSome_iff_exists.mp hsome
    have hone : disk (simpBlkdevMakeRequest k bytes b s).st = flatRequest (disk s) b := by
      cases dir with
      | true => exact (write_request hk hs hbytes hrange hd).2.2
      | false => exact (read_request hk hs hbytes hrange hd).2.2.2.2
    have htail := ih _ (makeRequest_owned k bytes b s hs) (fun x hx => hin x (by simp [hx]))
    rw [hone] at htail
    exact htail

def oneVec (rw : BioRw) (sector : UInt64) (bvPage : Nat) (bvLen : UInt32) (bytes : Nat → UInt8) :
    Bio :=
  ⟨rw, sector.toNat, sector.toNat_lt, bvLen.toNat, bvLen.toNat_lt,
    [⟨bvPage, bvLen.toNat, 0, bytes⟩], by simp⟩

end LinuxDriver.BlkdevDisk
