import LinuxDriver.BlkdevDisk

namespace LinuxDriver.BlkdevRange

open Blit BlkdevState BlkdevTrans BlkdevFind BlkdevTransfer BlkdevRequest BlkdevDisk

/-- The end of the range does not wrap round to a place inside the device. -/
def NoAlias (bytes : Nat) (b : Bio) : Prop :=
  start b + b.biSize < 2 ^ 64 ∨ bytes < (start b + b.biSize) % 2 ^ 64

theorem dskOffset_mod (b : Bio) : dskOffset b = start b % 2 ^ 64 := by
  rw [dskOffset, Nat.shiftLeft_eq, Nat.mul_comm]
  rfl

theorem badRequest_iff (bytes : Nat) (b : Bio) :
    badRequest bytes b = false ↔ (start b + b.biSize) % 2 ^ 64 ≤ bytes := by
  rw [badRequest, dskOffset_mod, Nat.mod_add_mod, decide_eq_false_iff_not, Nat.not_lt]

theorem check_exact_iff {bytes : Nat} (hbytes : bytes < 2 ^ 64) (b : Bio) :
    ((badRequest bytes b = false ↔ InRange bytes b) ∧
      (badRequest bytes b = false → dskOffset b = start b)) ↔ NoAlias bytes b := by
  rw [badRequest_iff, dskOffset_mod]
  constructor
  · rintro ⟨hiff, _⟩
    by_contra hno
    have hwrap : 2 ^ 64 ≤ start b + b.biSize := by
      by_contra hlt
      exact hno (Or.inl (by omega))
    have hle : (start b + b.biSize) % 2 ^ 64 ≤ bytes := by
      by_contra hlt
      exact hno (Or.inr (by omega))
    have hin : start b + b.biSize ≤ bytes := hiff.mp hle
    omega
  · rintro (hlt | hout)
    · rw [Nat.mod_eq_of_lt hlt, Nat.mod_eq_of_lt (by omega : start b < 2 ^ 64)]
      exact ⟨Iff.rfl, fun _ => rfl⟩
    · refine ⟨⟨fun hle => by omega, fun hin => ?_⟩, fun hle => by omega⟩
      have hle : start b + b.biSize ≤ bytes := hin
      rw [Nat.mod_eq_of_lt (by omega)] at hout
      omega

def segments (bytes : Nat) : Nat := (bytes + simpBlkdevDatasegsize - 1) / simpBlkdevDatasegsize

def KeysBelow (n : Nat) (s : State) : Prop := ∀ key, key ∈ s.simpBlkdevData → key < n

theorem keysBelow_stable (k : Kernel) (n : Nat) : Stable k (KeysBelow n) where
  lock _ hs := hs
  unlock _ hs := hs
  touch _ _ hs := hs
  kmap _ _ hs := hs
  kunmap _ _ hs := hs
  write _ _ _ _ _ _ _ hs := hs

theorem findStep_keysBelow {k : Kernel} {n key : Nat} {dir : Bool} {s t : State} {f : Found}
    (hkey : key < n) (hs : KeysBelow n s) (h : FindStep k key dir s f t) : KeysBelow n t := by
  cases h with
  | stored p hp => exact hs
  | hole hl hd => exact hs
  | failed ret t hret hd hk hkept =>
    intro key' hk'
    rw [hkept.data] at hk'
    exact hs key' hk'
  | made p t hd hi =>
    intro key' hk'
    rw [hi.data, Finmap.mem_insert] at hk'
    obtain rfl | hk' := hk'
    · exact hkey
    · exact hs key' hk'

theorem key_lt_segments {bytes o : Nat} (h : o < bytes) :
    o / simpBlkdevDatasegsize < segments bytes := by
  have hpos := datasegsize_pos
  rw [segments, Nat.lt_iff_add_one_le, ← Nat.add_div_right o hpos]
  exact Nat.div_le_div_right (by omega)

/-- The requests that stay inside the device: where no request aliases, the range
check and the offset are exact and no key lies at or beyond the end. -/
theorem requests_inside_device (k : Kernel) (bytes : Nat) (hbytes : bytes < 2 ^ 64) :
    (∀ b : Bio, ((badRequest bytes b = false ↔ 512 * b.biSector + b.biSize ≤ bytes) ∧
      (badRequest bytes b = false → dskOffset b = 512 * b.biSector)) ↔ NoAlias bytes b) ∧
    ∀ bios : List Bio, (∀ b, b ∈ bios → NoAlias bytes b) →
      ∀ key, key ∈ (requests k bytes State.init bios).simpBlkdevData → key < segments bytes := by
  refine ⟨check_exact_iff hbytes, fun bios hbios => ?_⟩
  apply requests_keeps (keysBelow_stable k (segments bytes)) bios
  · intro b hb hok dir j s hj hs
    obtain ⟨hiff, hoff⟩ := (check_exact_iff hbytes b).mpr (hbios b hb)
    have hin : start b + b.biSize ≤ bytes := hiff.mp hok
    have hkey : thisKey (dskOffset b) j = (start b + j) / simpBlkdevDatasegsize := by
      rw [hoff hok]
      exact thisKey_eq hj (by omega)
    rw [hkey]
    exact findStep_keysBelow (key_lt_segments (by omega)) hs (findSegment_step ..)
  · intro key hk
    exact absurd hk Finmap.notMem_empty

def wholeDisk : Bio := oneVec .write 0 0 65536 fun _ => 1

theorem requests_inside_device_whole_disk :
    badRequest 65536 wholeDisk = false ∧
      (requests Kernel.willing 65536 State.init [wholeDisk]).simpBlkdevData.keys ⊆
        Finset.range 4 := by
  obtain ⟨hcheck, hkeys⟩ := requests_inside_device Kernel.willing 65536 (by decide)
  have hwhole : NoAlias 65536 wholeDisk := Or.inl (by decide)
  refine ⟨((hcheck wholeDisk).mpr hwhole).1.mpr (by decide), fun key hk => ?_⟩
  refine Finset.mem_range.mpr (hkeys [wholeDisk] (fun b hb => ?_) key (Finmap.mem_keys.mp hk))
  rwa [List.mem_singleton.mp hb]

/-- Sector 2⁵⁵ lies far outside a device of 16 MiB, yet it passes the check and
is served from the first byte of the device. -/
theorem far_sector_aliases_start :
    ¬ ∀ (bytes : Nat) (b : Bio), 0 < bytes → 512 ∣ bytes → bytes < 2 ^ 64 →
      ((badRequest bytes b = false ↔ 512 * b.biSector + b.biSize ≤ bytes) ∧
        (badRequest bytes b = false → dskOffset b = 512 * b.biSector)) := by
  intro h
  obtain ⟨hiff, -⟩ := h (2 ^ 24)
    (oneVec .write 0x80000000000000 0 512 fun _ => 0)
    (by decide) (by decide) (by decide)
  have hin := hiff.mp (by decide)
  exact absurd hin (by decide)

end LinuxDriver.BlkdevRange
