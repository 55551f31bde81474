import Mathlib.Data.Nat.Bitwise
import Mathlib.Tactic.Common

namespace LinuxDriver.Circ

/-- A circular buffer of `2 ^ k` slots, one of which stays free. -/
structure CircBuf (α : Type) (k : Nat) where
  buf : Nat → α
  head : Nat
  tail : Nat
  head_lt : head < 2 ^ k
  tail_lt : tail < 2 ^ k

variable {α : Type} {k : Nat}

def circCnt (k head tail : Nat) : Nat := (((head : Int) - tail) % (2 ^ k : Nat)).toNat

def CircBuf.cnt (c : CircBuf α k) : Nat := circCnt k c.head c.tail

def CircBuf.isEmpty (c : CircBuf α k) : Bool := decide (c.head = c.tail)

def CircBuf.hasSpace (c : CircBuf α k) : Bool := decide (0 < circCnt k c.tail (c.head + 1))

theorem mask_lt (k n : Nat) : n &&& (2 ^ k - 1) < 2 ^ k := by
  rw [Nat.and_two_pow_sub_one_eq_mod]
  exact Nat.mod_lt _ (Nat.two_pow_pos k)

def CircBuf.push (c : CircBuf α k) (x : α) : CircBuf α k :=
  ⟨Function.update c.buf c.head x, (c.head + 1) &&& (2 ^ k - 1), c.tail, mask_lt k _, c.tail_lt⟩

def CircBuf.advance (c : CircBuf α k) : CircBuf α k :=
  ⟨c.buf, c.head, (c.tail + 1) &&& (2 ^ k - 1), c.head_lt, mask_lt k _⟩

def CircBuf.pending (c : CircBuf α k) : List α :=
  (List.range c.cnt).map (fun i => c.buf ((c.tail + i) % 2 ^ k))

@[simp]
theorem advance_buf (c : CircBuf α k) : c.advance.buf = c.buf := rfl

@[simp]
theorem advance_head (c : CircBuf α k) : c.advance.head = c.head := rfl

theorem advance_tail (c : CircBuf α k) : c.advance.tail = (c.tail + 1) % 2 ^ k :=
  Nat.and_two_pow_sub_one_eq_mod _ k

theorem push_head (c : CircBuf α k) (x : α) : (c.push x).head = (c.head + 1) % 2 ^ k :=
  Nat.and_two_pow_sub_one_eq_mod _ k

theorem mod_of_lt_two_mul {n m : Nat} (h : n < 2 * m) : n % m = if n < m then n else n - m := by
  split
  · exact Nat.mod_eq_of_lt (by assumption)
  · rw [Nat.mod_eq_sub_mod (by omega), Nat.mod_eq_of_lt (by omega)]

theorem circCnt_eq {head tail : Nat} (ht : tail ≤ 2 ^ k) :
    circCnt k head tail = (head + 2 ^ k - tail) % 2 ^ k := by
  have hcast : (head : Int) - tail = ((head + 2 ^ k - tail : Nat) : Int) - (2 ^ k : Nat) := by
    omega
  rw [circCnt, hcast, Int.sub_emod_right, ← Int.natCast_mod, Int.toNat_natCast]

theorem cnt_eq (c : CircBuf α k) :
    c.cnt = if c.tail ≤ c.head then c.head - c.tail else c.head + 2 ^ k - c.tail := by
  have hh := c.head_lt
  have ht := c.tail_lt
  rw [CircBuf.cnt, circCnt_eq ht.le, mod_of_lt_two_mul (by omega)]
  split <;> split <;> omega

theorem cnt_lt (c : CircBuf α k) : c.cnt < 2 ^ k := by
  have hh := c.head_lt
  have ht := c.tail_lt
  rw [cnt_eq]
  split <;> omega

theorem isEmpty_iff (c : CircBuf α k) : c.isEmpty = true ↔ c.cnt = 0 := by
  have hh := c.head_lt
  have ht := c.tail_lt
  rw [CircBuf.isEmpty, decide_eq_true_eq, cnt_eq]
  split <;> omega

theorem hasSpace_iff (c : CircBuf α k) : c.hasSpace = true ↔ c.cnt + 1 < 2 ^ k := by
  have hh := c.head_lt
  have ht := c.tail_lt
  rw [CircBuf.hasSpace, decide_eq_true_eq, circCnt_eq hh, mod_of_lt_two_mul (by omega), cnt_eq]
  split <;> split <;> omega

theorem cnt_advance (c : CircBuf α k) (h : c.isEmpty = false) : c.advance.cnt + 1 = c.cnt := by
  have hh := c.head_lt
  have ht := c.tail_lt
  have hne : c.head ≠ c.tail := by simpa [CircBuf.isEmpty] using h
  rw [cnt_eq, cnt_eq, advance_tail, advance_head, mod_of_lt_two_mul (by omega)]
  split <;> split <;> split <;> omega

theorem cnt_push (c : CircBuf α k) (x : α) (h : c.hasSpace = true) :
    (c.push x).cnt = c.cnt + 1 := by
  have hh := c.head_lt
  have ht := c.tail_lt
  have hs := (hasSpace_iff c).mp h
  rw [cnt_eq] at hs ⊢
  rw [cnt_eq, push_head, mod_of_lt_two_mul (by omega)]
  change (if c.tail ≤ _ then _ - c.tail else _ - c.tail) = _
  split at hs <;> split <;> split <;> omega

theorem length_pending (c : CircBuf α k) : c.pending.length = c.cnt := by
  rw [CircBuf.pending, List.length_map, List.length_range]

theorem pending_eq_nil (c : CircBuf α k) : c.pending = [] ↔ c.isEmpty = true := by
  rw [isEmpty_iff, ← length_pending, List.length_eq_zero_iff]

theorem tail_add_cnt (c : CircBuf α k) : (c.tail + c.cnt) % 2 ^ k = c.head := by
  have hh := c.head_lt
  have ht := c.tail_lt
  have hc := cnt_lt c
  have heq := cnt_eq c
  rw [mod_of_lt_two_mul (by omega)]
  split at heq <;> split <;> omega

theorem pending_push (c : CircBuf α k) (x : α) (h : c.hasSpace = true) :
    (c.push x).pending = c.pending ++ [x] := by
  have hlt := cnt_lt c
  have htail := c.tail_lt
  rw [CircBuf.pending, cnt_push c x h, List.range_succ, List.map_append, List.map_singleton]
  congr 1
  · apply List.map_congr_left
    intro i hi
    have hi' := List.mem_range.mp hi
    apply Function.update_of_ne
    change (c.tail + i) % 2 ^ k ≠ c.head
    rw [← tail_add_cnt c, mod_of_lt_two_mul (by omega), mod_of_lt_two_mul (by omega)]
    split <;> split <;> omega
  · change [Function.update c.buf c.head x ((c.tail + c.cnt) % 2 ^ k)] = [x]
    rw [tail_add_cnt, Function.update_self]

theorem pending_advance (c : CircBuf α k) (h : c.isEmpty = false) :
    c.pending = c.buf c.tail :: c.advance.pending := by
  rw [CircBuf.pending, ← cnt_advance c h, List.range_succ_eq_map, List.map_cons, List.map_map,
    Nat.add_zero, Nat.mod_eq_of_lt c.tail_lt]
  congr 1
  apply List.map_congr_left
  intro i _
  rw [Function.comp_apply, advance_tail, Nat.mod_add_mod, advance_buf]
  congr 2
  omega

def CircBuf.skip (n : Nat) (c : CircBuf α k) : CircBuf α k :=
  ⟨c.buf, c.head, (c.tail + n) % 2 ^ k, c.head_lt, Nat.mod_lt _ (Nat.two_pow_pos k)⟩

theorem skip_one (c : CircBuf α k) : c.skip 1 = c.advance := by
  simp only [CircBuf.skip, CircBuf.advance, Nat.and_two_pow_sub_one_eq_mod]

theorem advance_skip (c : CircBuf α k) (n : Nat) : c.advance.skip n = c.skip (n + 1) := by
  have htail : (c.advance.tail + n) % 2 ^ k = (c.tail + (n + 1)) % 2 ^ k := by
    rw [advance_tail, Nat.mod_add_mod, Nat.add_assoc, Nat.add_comm 1 n]
  simp only [CircBuf.skip, htail, advance_buf, advance_head]

theorem pending_skip (c : CircBuf α k) (n : Nat) (h : n ≤ c.cnt) :
    (c.skip n).pending = c.pending.drop n := by
  induction n generalizing c with
  | zero =>
    have htail : (c.tail + 0) % 2 ^ k = c.tail := Nat.mod_eq_of_lt c.tail_lt
    simp only [CircBuf.skip, htail, List.drop_zero]
  | succ n ih =>
    have hne : c.isEmpty = false := by
      by_contra hno
      have h0 := (isEmpty_iff c).mp (Bool.eq_true_of_not_eq_false hno)
      omega
    have hcnt := cnt_advance c hne
    rw [← advance_skip, ih c.advance (by omega), pending_advance c hne, List.drop_succ_cons]

theorem pending_take (c : CircBuf α k) {n : Nat} (h : n ≤ c.cnt) :
    c.pending.take n = (List.range n).map (fun i => c.buf ((c.tail + i) % 2 ^ k)) := by
  rw [CircBuf.pending, ← List.map_take, List.take_range, Nat.min_eq_left h]

theorem cnt_skip (c : CircBuf α k) {n : Nat} (h : n ≤ c.cnt) : (c.skip n).cnt = c.cnt - n := by
  rw [← length_pending, pending_skip c n h, List.length_drop, length_pending]

end LinuxDriver.Circ
