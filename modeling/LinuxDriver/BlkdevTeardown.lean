import LinuxDriver.BlkdevDisk
import LinuxDriver.Paging

namespace LinuxDriver.BlkdevTeardown

open Blit Paging BlkdevState BlkdevRequest BlkdevDisk

def seglistSize : Nat := 64

def radixTreeGangLookup (s : State) (firstIndex maxItems : Nat) : List Nat :=
  (page s.simpBlkdevData.keys firstIndex maxItems).filterMap
    (fun key => s.simpBlkdevData.lookup key)

def freeBatch : List Nat → Nat → State → Nat × State
  | [], nextSeg, s => (nextSeg, s)
  | p :: seglist, _, s =>
    freeBatch seglist (s.index p) (freePages (radixTreeDelete s (s.index p)) p)

/-- The `do`-`while` loop, `fuel` bounding its turns. -/
def freeDiskmemFrom : Nat → Nat → State → Option State
  | 0, _, _ => none
  | fuel + 1, nextSeg, s =>
    let seglist := radixTreeGangLookup s nextSeg seglistSize
    let b := freeBatch seglist nextSeg s
    if seglist.length = seglistSize then freeDiskmemFrom fuel ((b.1 + 1) % 2 ^ 64) b.2
    else some b.2

def freeDiskmem (fuel : Nat) (s : State) : Option State := freeDiskmemFrom fuel 0 s

def freed (s : State) : List Nat :=
  s.trace.filterMap (fun | .free p => some p | _ => none)

theorem freed_freePages (s : State) (key p : Nat) :
    freed (freePages (radixTreeDelete s key) p) = freed s ++ [p] := by
  simp [freed, freePages, radixTreeDelete, List.filterMap_append]

theorem lookup_free (s : State) (key p key' : Nat) :
    (freePages (radixTreeDelete s key) p).simpBlkdevData.lookup key' =
      if key' = key then none else s.simpBlkdevData.lookup key' := by
  by_cases h : key' = key
  · subst key'
    simp [freePages, radixTreeDelete]
  · simp [freePages, radixTreeDelete, h]

theorem owned_free {s : State} {key p : Nat} (hs : Owned s)
    (hp : s.simpBlkdevData.lookup key = some p) :
    Owned (freePages (radixTreeDelete s key) p) where
  live_iff q := by
    change q ∈ s.live.erase p ↔ _
    rw [Finset.mem_erase, hs.live_iff q]
    constructor
    · rintro ⟨hne, key', hq⟩
      refine ⟨key', ?_⟩
      rw [lookup_free, if_neg, hq]
      rintro rfl
      exact hne (Option.some.inj (hq.symm.trans hp))
    · rintro ⟨key', hq⟩
      rw [lookup_free] at hq
      by_cases hkey : key' = key
      · simp [hkey] at hq
      · rw [if_neg hkey] at hq
        refine ⟨?_, key', hq⟩
        rintro rfl
        exact hkey (owned_inj hs hq hp)
  index_eq key' q hq := by
    rw [lookup_free] at hq
    by_cases hkey : key' = key
    · simp [hkey] at hq
    · rw [if_neg hkey] at hq
      exact hs.index_eq key' q hq
  key_lt key' hk' := hs.key_lt key' (Finmap.mem_erase.mp hk').2

structure Batch (g : List Nat) (s t : State) (ps : List Nat) : Prop where
  pages : ps = g.filterMap (fun key => s.simpBlkdevData.lookup key)
  length : ps.length = g.length
  owned : Owned t
  freed : freed t = freed s ++ ps
  lookup : ∀ key, t.simpBlkdevData.lookup key =
    if key ∈ g then none else s.simpBlkdevData.lookup key

theorem freeBatch_batch (g : List Nat) (nextSeg : Nat) (s : State) (hs : Owned s) (hg : g.Nodup)
    (hmem : ∀ key, key ∈ g → key ∈ s.simpBlkdevData) :
    let ps := g.filterMap (fun key => s.simpBlkdevData.lookup key)
    (freeBatch ps nextSeg s).1 = g.getLastD nextSeg ∧ Batch g s (freeBatch ps nextSeg s).2 ps := by
  induction g generalizing nextSeg s with
  | nil => exact ⟨rfl, rfl, rfl, hs, (List.append_nil _).symm, fun _ => rfl⟩
  | cons key g ih =>
    obtain ⟨hkey, hg'⟩ := List.nodup_cons.mp hg
    obtain ⟨p, hp⟩ := Finmap.mem_iff.mp (hmem key (by simp))
    have hne : ∀ key', key' ∈ g → key' ≠ key := by
      rintro key' hk' rfl
      exact hkey hk'
    have hcongr : g.filterMap (fun key' => s.simpBlkdevData.lookup key') = g.filterMap
        (fun key' => (freePages (radixTreeDelete s key) p).simpBlkdevData.lookup key') := by
      apply List.filterMap_congr
      intro key' hk'
      rw [lookup_free, if_neg (hne key' hk')]
    obtain ⟨hlast, hb⟩ := ih key (freePages (radixTreeDelete s key) p) (owned_free hs hp) hg'
      (fun key' hk' => Finmap.mem_erase.mpr ⟨hne key' hk', hmem key' (by simp [hk'])⟩)
    rw [← hcongr] at hlast hb
    simp only [List.filterMap_cons, hp, freeBatch, hs.index_eq key p hp]
    refine ⟨?_, ?_, by simp [hb.length], hb.owned, ?_, ?_⟩
    · rw [hlast]
      cases g <;> rfl
    · simp only [List.filterMap_cons, hp]
    · rw [hb.freed, freed_freePages, List.append_assoc, List.singleton_append]
    · intro key'
      rw [hb.lookup, lookup_free]
      by_cases h1 : key' = key <;> by_cases h2 : key' ∈ g <;> simp [h1, h2]

theorem Batch.mem_pages {g : List Nat} {s t : State} {ps : List Nat} (h : Batch g s t ps)
    {p : Nat} : p ∈ ps ↔ ∃ key, key ∈ g ∧ s.simpBlkdevData.lookup key = some p := by
  rw [h.pages, List.mem_filterMap]

theorem Batch.nodup {g : List Nat} {s t : State} {ps : List Nat} (h : Batch g s t ps)
    (hs : Owned s) (hg : g.Nodup) : ps.Nodup := by
  rw [h.pages]
  apply hg.filterMap
  intro key key' p hk hk'
  exact owned_inj hs hk hk'

theorem Batch.live_iff {g : List Nat} {s t : State} {ps : List Nat} (h : Batch g s t ps)
    (hs : Owned s) (p : Nat) : p ∈ t.live ↔ p ∈ s.live ∧ p ∉ ps := by
  rw [h.owned.live_iff, hs.live_iff, h.mem_pages]
  constructor
  · rintro ⟨key, hk⟩
    rw [h.lookup] at hk
    by_cases hkg : key ∈ g
    · simp [hkg] at hk
    · rw [if_neg hkg] at hk
      refine ⟨⟨key, hk⟩, ?_⟩
      rintro ⟨key', hg, hk'⟩
      exact hkg (owned_inj hs hk hk' ▸ hg)
  · rintro ⟨⟨key, hk⟩, hnot⟩
    refine ⟨key, ?_⟩
    rw [h.lookup, if_neg (fun hg => hnot ⟨key, hg, hk⟩), hk]

theorem Batch.card_lt {g : List Nat} {s t : State} {ps : List Nat} (h : Batch g s t ps)
    {key : Nat} (hkey : key ∈ g) (hmem : key ∈ s.simpBlkdevData) :
    t.simpBlkdevData.keys.card < s.simpBlkdevData.keys.card := by
  apply Finset.card_lt_card
  rw [Finset.ssubset_iff_of_subset]
  · refine ⟨key, Finmap.mem_keys.mpr hmem, ?_⟩
    rw [Finmap.mem_keys, ← Finmap.lookup_eq_none, h.lookup, if_pos hkey]
  · intro key' hk'
    rw [Finmap.mem_keys, Finmap.mem_iff] at hk' ⊢
    obtain ⟨p, hp⟩ := hk'
    rw [h.lookup] at hp
    by_cases hg : key' ∈ g
    · simp [hg] at hp
    · rw [if_neg hg] at hp
      exact ⟨p, hp⟩

structure Emptied (s t : State) (ps : List Nat) : Prop where
  data : t.simpBlkdevData = ∅
  live : t.live = ∅
  freed : freed t = freed s ++ ps
  nodup : ps.Nodup
  mem_iff : ∀ p, p ∈ ps ↔ p ∈ s.live

theorem Batch.emptied {g : List Nat} {s t : State} {ps : List Nat} (h : Batch g s t ps)
    (hs : Owned s) (hg : g.Nodup) (hall : ∀ key, key ∈ s.simpBlkdevData → key ∈ g) :
    Emptied s t ps := by
  have hps : ∀ p, p ∈ ps ↔ p ∈ s.live := by
    intro p
    rw [h.mem_pages, hs.live_iff]
    constructor
    · rintro ⟨key, _, hk⟩
      exact ⟨key, hk⟩
    · rintro ⟨key, hk⟩
      exact ⟨key, hall key (Finmap.mem_of_lookup_eq_some hk), hk⟩
  refine ⟨?_, ?_, h.freed, h.nodup hs hg, hps⟩
  · apply Finmap.ext_lookup
    intro key
    rw [h.lookup, Finmap.lookup_empty]
    by_cases hkg : key ∈ g
    · rw [if_pos hkg]
    · rw [if_neg hkg, Finmap.lookup_eq_none]
      exact fun hk => hkg (hall key hk)
  · apply Finset.eq_empty_of_forall_notMem
    intro p hp
    rw [h.live_iff hs, hps] at hp
    exact hp.2 hp.1

theorem Batch.then_emptied {g : List Nat} {s t u : State} {ps qs : List Nat}
    (h : Batch g s t ps) (hs : Owned s) (hg : g.Nodup) (h' : Emptied t u qs) :
    Emptied s u (ps ++ qs) where
  data := h'.data
  live := h'.live
  freed := by rw [h'.freed, h.freed, List.append_assoc]
  nodup := by
    refine List.nodup_append.mpr ⟨h.nodup hs hg, h'.nodup, ?_⟩
    rintro p hp q hq rfl
    exact ((h.live_iff hs p).mp ((h'.mem_iff p).mp hq)).2 hp
  mem_iff p := by
    rw [List.mem_append, h'.mem_iff, h.live_iff hs]
    constructor
    · rintro (hp | hp)
      · obtain ⟨key, _, hk⟩ := h.mem_pages.mp hp
        exact (hs.live_iff p).mpr ⟨key, hk⟩
      · exact hp.1
    · intro hp
      by_cases hps : p ∈ ps
      · exact Or.inl hps
      · exact Or.inr ⟨hp, hps⟩

/-- The teardown loop. No key lies below the cursor; a full batch leaves fewer
keys, all of them at or above the next cursor. -/
theorem freeDiskmemFrom_empties (fuel nextSeg : Nat) (s : State) (hs : Owned s)
    (hnext : ∀ key, key ∈ s.simpBlkdevData → nextSeg ≤ key)
    (hfuel : s.simpBlkdevData.keys.card < fuel) :
    ∃ t ps, freeDiskmemFrom fuel nextSeg s = some t ∧ Emptied s t ps := by
  induction fuel generalizing nextSeg s with
  | zero => omega
  | succ fuel ih =>
    let g := page s.simpBlkdevData.keys nextSeg seglistSize
    have hg : g.Nodup := page_nodup _ _ _
    have hmem : ∀ key, key ∈ g → key ∈ s.simpBlkdevData :=
      fun key hk => Finmap.mem_keys.mp (mem_of_mem_page hk).1
    have hrest : ∀ key, key ∈ s.simpBlkdevData → key ∉ g →
        g.length = seglistSize ∧ ∀ x, x ∈ g → x < key := fun key hk hnot =>
      lt_of_not_mem_page (Finmap.mem_keys.mpr hk) (hnext key hk) hnot
    obtain ⟨hlast, hb⟩ := freeBatch_batch g nextSeg s hs hg hmem
    by_cases hfull : (radixTreeGangLookup s nextSeg seglistSize).length = seglistSize
    · have hne : g ≠ [] := by
        intro h
        have hz := hb.length.symm.trans hfull
        simp [h, seglistSize] at hz
      have hlastmem : g.getLastD nextSeg ∈ g := by
        rw [List.getLastD_eq_getLast?, List.getLast?_eq_getLast_of_ne_nil hne]
        exact List.getLast_mem hne
      have hcard := hb.card_lt hlastmem (hmem _ hlastmem)
      obtain ⟨t, ps, ht, hemp⟩ := ih ((g.getLastD nextSeg + 1) % 2 ^ 64) _ hb.owned (by
        intro key hk
        obtain ⟨p, hp⟩ := Finmap.mem_iff.mp hk
        rw [hb.lookup] at hp
        by_cases hkg : key ∈ g
        · simp [hkg] at hp
        · rw [if_neg hkg] at hp
          have hks := Finmap.mem_of_lookup_eq_some hp
          have hlt := (hrest key hks hkg).2 _ hlastmem
          have hbound := hs.key_lt key hks
          rw [Nat.mod_eq_of_lt (by omega)]
          omega) (by omega)
      refine ⟨t, _, ?_, hb.then_emptied hs hg hemp⟩
      rw [← hlast] at ht
      rw [freeDiskmemFrom, if_pos hfull]
      exact ht
    · refine ⟨_, _, ?_, hb.emptied hs hg ?_⟩
      · rw [freeDiskmemFrom, if_neg hfull]
        rfl
      · intro key hk
        by_contra hnot
        exact hfull (hb.length.trans (hrest key hk hnot).1)

/-- Between calls the segments held are those stored, each once and under its
`page->index`; `free_diskmem` ends, frees each of them once and empties the tree. -/
theorem segments_owned_until_freed (k : Kernel) (bytes : Nat) :
    (∀ bios : List Bio,
      let s := requests k bytes State.init bios
      Owned s ∧
        (∀ key key' p, s.simpBlkdevData.lookup key = some p →
          s.simpBlkdevData.lookup key' = some p → key = key')) ∧
      ∀ (s : State) (fuel : Nat), Owned s → s.simpBlkdevData.keys.card < fuel →
        ∃ t ps, freeDiskmem fuel s = some t ∧ t.simpBlkdevData = ∅ ∧ t.live = ∅ ∧
          freed t = freed s ++ ps ∧ ps.Nodup ∧
          ∀ p, p ∈ ps ↔ ∃ key, s.simpBlkdevData.lookup key = some p := by
  constructor
  · intro bios s
    have hs : Owned s := requests_owned k bytes _ bios owned_init
    exact ⟨hs, fun key key' p hk hk' => owned_inj hs hk hk'⟩
  · intro s fuel hs hfuel
    obtain ⟨t, ps, ht, hemp⟩ := freeDiskmemFrom_empties fuel 0 s hs (fun _ _ => Nat.zero_le _) hfuel
    refine ⟨t, ps, ht, hemp.data, hemp.live, hemp.freed, hemp.nodup, fun p => ?_⟩
    rw [hemp.mem_iff, hs.live_iff]

def twoSegments : State := requests Kernel.willing (2 ^ 24) State.init
  [oneVec .write 0 7 512 fun _ => 1, oneVec .write 640 8 512 fun _ => 2]

theorem segments_owned_until_freed_two :
    Owned twoSegments ∧
      ∃ t ps, freeDiskmem (twoSegments.simpBlkdevData.keys.card + 1) twoSegments = some t ∧
        t.simpBlkdevData = ∅ ∧ freed t = freed twoSegments ++ ps ∧ ps.Nodup := by
  obtain ⟨hruns, hfree⟩ := segments_owned_until_freed Kernel.willing (2 ^ 24)
  have howned : Owned twoSegments := (hruns _).1
  obtain ⟨t, ps, ht, hdata, _, hfreed, hnodup, _⟩ :=
    hfree twoSegments _ howned (Nat.lt_succ_self _)
  exact ⟨howned, t, ps, ht, hdata, hfreed, hnodup⟩

end LinuxDriver.BlkdevTeardown
