import Mathlib.Data.List.GetD
import Mathlib.Tactic.Common

namespace LinuxDriver.Blit

variable {α : Type}

/-- Overwrite the `n` cells of `dst` from `doff` on with the cells of `src`
from `soff` on. Memories are total functions of the address. -/
def blit (dst : Nat → α) (doff : Nat) (src : Nat → α) (soff n : Nat) : Nat → α :=
  fun i => if doff ≤ i ∧ i < doff + n then src (soff + (i - doff)) else dst i

theorem blit_zero (dst : Nat → α) (doff : Nat) (src : Nat → α) (soff : Nat) :
    blit dst doff src soff 0 = dst := by
  funext i
  have h : ¬ (doff ≤ i ∧ i < doff + 0) := by omega
  simp only [blit, if_neg h]

theorem blit_inside (dst : Nat → α) (doff : Nat) (src : Nat → α) (soff n j : Nat) (h : j < n) :
    blit dst doff src soff n (doff + j) = src (soff + j) := by
  have hin : doff ≤ doff + j ∧ doff + j < doff + n := by omega
  simp only [blit, if_pos hin, Nat.add_sub_cancel_left]

theorem blit_outside (dst : Nat → α) (doff : Nat) (src : Nat → α) (soff n i : Nat)
    (h : i < doff ∨ doff + n ≤ i) : blit dst doff src soff n i = dst i := by
  have hout : ¬ (doff ≤ i ∧ i < doff + n) := by omega
  simp only [blit, if_neg hout]

/-- Two copies that follow one another in both memories are one copy. -/
theorem blit_blit (dst : Nat → α) (doff : Nat) (src : Nat → α) (soff n m : Nat) :
    blit (blit dst doff src soff n) (doff + n) src (soff + n) m =
      blit dst doff src soff (n + m) := by
  funext i
  by_cases hl : i < doff
  · rw [blit_outside _ _ _ _ _ _ (Or.inl (by omega)), blit_outside _ _ _ _ _ _ (Or.inl hl),
      blit_outside _ _ _ _ _ _ (Or.inl hl)]
  · obtain ⟨j, rfl⟩ : ∃ j, i = doff + j := ⟨i - doff, by omega⟩
    by_cases hn : j < n
    · rw [blit_outside _ _ _ _ _ _ (Or.inl (by omega)), blit_inside _ _ _ _ _ _ hn,
        blit_inside _ _ _ _ _ _ (by omega)]
    · obtain ⟨k, rfl⟩ : ∃ k, j = n + k := ⟨j - n, by omega⟩
      by_cases hm : k < m
      · have h := blit_inside (blit dst doff src soff n) (doff + n) src (soff + n) m k hm
        rw [Nat.add_assoc, Nat.add_assoc] at h
        rw [h, blit_inside _ _ _ _ _ _ (by omega)]
      · rw [blit_outside _ _ _ _ _ _ (Or.inr (by omega)),
          blit_outside _ _ _ _ _ _ (Or.inr (by omega)),
          blit_outside _ _ _ _ _ _ (Or.inr (by omega))]

theorem blit_congr (dst : Nat → α) (doff : Nat) {src src' : Nat → α} (soff soff' n : Nat)
    (h : ∀ j, j < n → src (soff + j) = src' (soff' + j)) :
    blit dst doff src soff n = blit dst doff src' soff' n := by
  funext i
  by_cases hi : doff ≤ i ∧ i < doff + n
  · simp only [blit, if_pos hi]
    exact h _ (by omega)
  · simp only [blit, if_neg hi]

/-- The `n` cells of a memory from `off` on. -/
def slice (f : Nat → α) (off n : Nat) : List α := (List.range n).map (fun j => f (off + j))

@[simp] theorem slice_length (f : Nat → α) (off n : Nat) : (slice f off n).length = n := by
  simp [slice]

theorem slice_getElem? (f : Nat → α) (off n j : Nat) (h : j < n) :
    (slice f off n)[j]? = some (f (off + j)) := by
  simp [slice, h]

theorem slice_add (f : Nat → α) (off n m : Nat) :
    slice f off (n + m) = slice f off n ++ slice f (off + n) m := by
  simp only [slice, List.range_add, List.map_append, List.map_map, List.append_cancel_left_eq]
  apply List.map_congr_left
  intro j _
  simp only [Function.comp_apply, Nat.add_assoc]

theorem slice_take (f : Nat → α) (off n c : Nat) (h : c ≤ n) :
    (slice f off n).take c = slice f off c := by
  obtain ⟨m, rfl⟩ := Nat.exists_eq_add_of_le h
  rw [slice_add, List.take_left' (slice_length f off c)]

theorem slice_congr {f g : Nat → α} (off off' n : Nat)
    (h : ∀ j, j < n → f (off + j) = g (off' + j)) : slice f off n = slice g off' n := by
  apply List.map_congr_left
  intro j hj
  exact h j (List.mem_range.mp hj)

theorem slice_blit (dst : Nat → α) (doff : Nat) (src : Nat → α) (soff n : Nat) :
    slice (blit dst doff src soff n) doff n = slice src soff n :=
  slice_congr doff soff n (fun j hj => blit_inside dst doff src soff n j hj)

def store (dst : Nat → α) (off : Nat) (l : List α) : Nat → α :=
  fun i => if off ≤ i then l[i - off]?.getD (dst i) else dst i

theorem store_nil (dst : Nat → α) (off : Nat) : store dst off [] = dst := by
  funext i
  simp [store]

theorem store_inside (dst : Nat → α) (off : Nat) (l : List α) (j : Nat) (h : j < l.length) :
    store dst off l (off + j) = l[j] := by
  simp [store, h]

theorem store_outside (dst : Nat → α) (off : Nat) (l : List α) (i : Nat)
    (h : i < off ∨ off + l.length ≤ i) : store dst off l i = dst i := by
  by_cases hi : off ≤ i
  · have hl : l[i - off]? = none := List.getElem?_eq_none (by omega)
    simp only [store, if_pos hi, hl, Option.getD_none]
  · simp only [store, if_neg hi]

theorem slice_store (dst : Nat → α) (off : Nat) (l : List α) :
    slice (store dst off l) off l.length = l := by
  apply List.ext_getElem (slice_length _ _ _)
  intro j hj hl
  have hget := store_inside dst off l j hl
  simpa [slice] using hget

theorem store_append (dst : Nat → α) (off : Nat) (l m : List α) :
    store dst off (l ++ m) = store (store dst off l) (off + l.length) m := by
  funext i
  by_cases hi : off ≤ i
  · by_cases hl : i - off < l.length
    · have h : ¬ off + l.length ≤ i := by omega
      simp only [store, if_pos hi, if_neg h, List.getElem?_append_left hl]
    · have h : off + l.length ≤ i := by omega
      have hs : i - off - l.length = i - (off + l.length) := by omega
      have hn : l[i - off]? = none := List.getElem?_eq_none (by omega)
      have hr : l.length ≤ i - off := by omega
      simp only [store, if_pos hi, if_pos h, List.getElem?_append_right hr, hs, hn,
        Option.getD_none]
  · have h : ¬ off + l.length ≤ i := by omega
    simp only [store, if_neg hi, if_neg h]

theorem blit_eq_store (dst : Nat → α) (doff : Nat) (src : Nat → α) (soff n : Nat) :
    blit dst doff src soff n = store dst doff (slice src soff n) := by
  funext i
  by_cases hi : i < doff ∨ doff + n ≤ i
  · rw [blit_outside _ _ _ _ _ _ hi, store_outside _ _ _ _ (by simpa using hi)]
  · obtain ⟨j, rfl⟩ : ∃ j, i = doff + j := ⟨i - doff, by omega⟩
    have hj : j < n := by omega
    rw [blit_inside _ _ _ _ _ _ hj, store_inside _ _ _ _ (by simpa using hj)]
    simp [slice]

/-- A memory kept as an array of blocks of `B` cells, read as one flat memory. -/
def flat (B : Nat) (m : Nat → Nat → α) : Nat → α := fun o => m (o / B) (o % B)

theorem flat_same_block {B : Nat} (m : Nat → Nat → α) (o j : Nat) (h : o % B + j < B) :
    flat B m (o + j) = m (o / B) (o % B + j) := by
  have hB : 0 < B := by omega
  have hdiv : (o + j) / B = o / B := by
    have ho := Nat.div_add_mod o B
    rw [Nat.div_eq_iff hB]
    have := Nat.mul_comm (o / B) B
    omega
  have hmod : (o + j) % B = o % B + j := by
    rw [Nat.add_mod_eq_add_mod_right j (Nat.mod_mod o B).symm, Nat.mod_eq_of_lt h]
  simp only [flat, hdiv, hmod]

/-- A copy out of one block is a copy out of the flat memory. -/
theorem blit_from_block {B : Nat} (m : Nat → Nat → α) (dst : Nat → α) (doff o n : Nat)
    (h : o % B + n ≤ B) :
    blit dst doff (m (o / B)) (o % B) n = blit dst doff (flat B m) o n :=
  blit_congr dst doff _ _ _ (fun j hj => (flat_same_block m o j (by omega)).symm)

/-- A copy into one block is a copy into the flat memory. -/
theorem flat_update_blit {B : Nat} (m : Nat → Nat → α) (src : Nat → α) (o soff n : Nat)
    (h : o % B + n ≤ B) (hB : 0 < B) :
    flat B (Function.update m (o / B) (blit (m (o / B)) (o % B) src soff n)) =
      blit (flat B m) o src soff n := by
  funext i
  have hi := Nat.div_add_mod i B
  have ho := Nat.div_add_mod o B
  have hmi := Nat.mod_lt i hB
  by_cases hb : i / B = o / B
  · rw [hb] at hi
    simp only [flat, hb, Function.update_self]
    by_cases hin : o ≤ i ∧ i < o + n
    · have hin' : o % B ≤ i % B ∧ i % B < o % B + n := by omega
      have hd : i % B - o % B = i - o := by omega
      simp only [blit, if_pos hin, if_pos hin', hd]
    · have hin' : ¬ (o % B ≤ i % B ∧ i % B < o % B + n) := by omega
      simp only [blit, if_neg hin, if_neg hin', flat, hb]
  · have hout : i < o ∨ o + n ≤ i := by
      obtain hlt | hgt := Nat.lt_or_gt_of_ne hb
      · have := Nat.mul_le_mul_left B (Nat.succ_le_of_lt hlt)
        rw [Nat.mul_succ] at this
        omega
      · have := Nat.mul_le_mul_left B (Nat.succ_le_of_lt hgt)
        rw [Nat.mul_succ] at this
        omega
    rw [blit_outside _ _ _ _ _ _ hout]
    simp only [flat, Function.update_of_ne hb]

/-- Length of the next piece of a transfer of `len` cells at `off` of which `done`
are over: it stops at the end of the transfer and at the end of the block. -/
def chunk (B off len done : Nat) : Nat := min (len - done) (B - (off + done) % B)

theorem chunk_pos {B : Nat} (hB : 0 < B) (off : Nat) {len done : Nat} (h : done < len) :
    0 < chunk B off len done := by
  have := Nat.mod_lt (off + done) hB
  simp only [chunk]
  omega

theorem chunk_le (B off len done : Nat) : chunk B off len done ≤ len - done :=
  Nat.min_le_left _ _

theorem chunk_fits {B : Nat} (hB : 0 < B) (off len done : Nat) :
    (off + done) % B + chunk B off len done ≤ B := by
  have := Nat.mod_lt (off + done) hB
  simp only [chunk]
  omega

theorem slice_inj {f g : Nat → α} (off off' n : Nat) (h : slice f off n = slice g off' n) (j : Nat)
    (hj : j < n) : f (off + j) = g (off' + j) := by
  have hget := slice_getElem? f off n j hj
  rw [h, slice_getElem? g off' n j hj] at hget
  exact (Option.some.inj hget).symm

def storeAll (dst : Nat → α) (ls : List (Nat × List α)) : Nat → α :=
  ls.foldl (fun m l => store m l.1 l.2) dst

def Covers (ls : List (Nat × List α)) (i : Nat) : Prop :=
  ∃ l, l ∈ ls ∧ l.1 ≤ i ∧ i < l.1 + l.2.length

theorem storeAll_cons (dst : Nat → α) (l : Nat × List α) (ls : List (Nat × List α)) :
    storeAll dst (l :: ls) = storeAll (store dst l.1 l.2) ls := rfl

theorem storeAll_outside (dst : Nat → α) {ls : List (Nat × List α)} {i : Nat}
    (h : ¬ Covers ls i) : storeAll dst ls i = dst i := by
  induction ls generalizing dst with
  | nil => rfl
  | cons l ls ih =>
    have hrest : ¬ Covers ls i := fun ⟨x, hx, hi⟩ => h ⟨x, List.mem_cons_of_mem _ hx, hi⟩
    have hfirst : ¬ (l.1 ≤ i ∧ i < l.1 + l.2.length) := fun hi => h ⟨l, List.mem_cons_self, hi⟩
    rw [storeAll_cons, ih _ hrest]
    apply store_outside
    omega

theorem storeAll_inside (dst dst' : Nat → α) {ls : List (Nat × List α)} {i : Nat}
    (h : Covers ls i) : storeAll dst ls i = storeAll dst' ls i := by
  induction ls generalizing dst dst' with
  | nil =>
    obtain ⟨l, hl, -⟩ := h
    cases hl
  | cons l ls ih =>
    rw [storeAll_cons, storeAll_cons]
    by_cases hrest : Covers ls i
    · exact ih _ _ hrest
    · obtain ⟨x, hx, hle, hlt⟩ := h
      obtain rfl | hx := List.mem_cons.mp hx
      · obtain ⟨j, rfl⟩ := Nat.exists_eq_add_of_le hle
        have hj : j < x.2.length := by omega
        rw [storeAll_outside _ hrest, storeAll_outside _ hrest, store_inside _ _ _ j hj,
          store_inside _ _ _ j hj]
      · exact absurd ⟨x, hx, hle, hlt⟩ hrest

end LinuxDriver.Blit
