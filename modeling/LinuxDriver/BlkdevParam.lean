import LinuxDriver.BlkdevState
import Mathlib.Data.List.TakeWhile
import Mathlib.Order.Bounds.Basic

namespace LinuxDriver.BlkdevParam

open BlkdevState

def simpBlkdevSectorsize : Nat := 1 <<< simpBlkdevSectorshift
def simpBlkdevSectormask : Nat := lnot (simpBlkdevSectorsize - 1)

def einval : Int := 22

def decimal (ds : List Char) : Nat := ds.foldl (fun n d => 10 * n + (d.toNat - '0'.toNat)) 0

structure Scan where
  count : Nat
  num : Option Nat
  unit : Option Char

/-- The number is as many digits as there are, and fails to convert from `2 ^ 64` on. -/
def sscanf (param : List Char) : Scan :=
  let ds := param.takeWhile Char.isDigit
  if ds = [] ∨ 2 ^ 64 ≤ decimal ds then ⟨0, none, none⟩
  else
    match param.dropWhile Char.isDigit with
    | [] => ⟨1, some (decimal ds), none⟩
    | [unit] => ⟨2, some (decimal ds), some unit⟩
    | unit :: _ :: _ => ⟨3, some (decimal ds), some unit⟩

def unitShift : Char → Option Nat
  | 'g' | 'G' => some 30
  | 'm' | 'M' => some 20
  | 'k' | 'K' => some 10
  | 'b' | 'B' => some 0
  | _ => none

def fitSector (simpBlkdevBytes : Nat) : Nat :=
  (simpBlkdevBytes + simpBlkdevSectorsize - 1) % 2 ^ 64 &&& simpBlkdevSectormask

/-- The value returned, with `simp_blkdev_bytes` as it is left. -/
def getparam (param : List Char) (simpBlkdevBytes : Nat) : Int × Nat :=
  let r := sscanf param
  let bytes := r.num.getD simpBlkdevBytes
  if r.count ≠ 2 then (-einval, bytes)
  else if bytes = 0 then (-einval, bytes)
  else
    match r.unit.bind unitShift with
    | none => (-einval, bytes)
    | some n => (0, fitSector ((bytes <<< n) % 2 ^ 64))

def simpBlkdevInit (param : List Char) (simpBlkdevBytes : Nat) (queue disk : Bool) :
    Int × Option Nat :=
  let r := getparam param simpBlkdevBytes
  if isErrValue r.1 then (r.1, none)
  else if !queue then (-enomem, none)
  else if !disk then (-enomem, none)
  else (0, some (r.2 >>> simpBlkdevSectorshift))

def Reads (param : List Char) (n : Nat) (c : Char) : Prop :=
  ∃ ds, param = ds ++ [c] ∧ ds ≠ [] ∧ (∀ d, d ∈ ds → d.isDigit = true) ∧ c.isDigit = false ∧
    decimal ds = n ∧ n < 2 ^ 64

/-- The units that the usage comment names, and bytes. -/
def documentedUnit : Char → Option Nat
  | 'b' | 'B' => some 1
  | 'k' | 'K' => some (2 ^ 10)
  | 'm' | 'M' => some (2 ^ 20)
  | 'g' | 'G' => some (2 ^ 30)
  | 't' | 'T' => some (2 ^ 40)
  | _ => none

def roundUp (n : Nat) : Nat := (n + 511) / 512 * 512

/-- The string asks for `size` bytes, a size that fits 64 bits when rounded up. -/
def Asks (param : List Char) (size : Nat) : Prop :=
  ∃ n c u, Reads param n c ∧ 1 ≤ n ∧ documentedUnit c = some u ∧ size = n * u ∧
    roundUp size < 2 ^ 64

/-- The parameter is taken exactly when it asks for a size, and then gives the
least number of whole sectors that holds it. -/
structure Exact (param : List Char) (simpBlkdevBytes : Nat) : Prop where
  accepts : (getparam param simpBlkdevBytes).1 = 0 ↔ ∃ size, Asks param size
  rejects : (¬ ∃ size, Asks param size) → (getparam param simpBlkdevBytes).1 = -einval
  least : ∀ size, Asks param size →
    IsLeast {m | 512 ∣ m ∧ size ≤ m} (getparam param simpBlkdevBytes).2
  positive : ∀ size, Asks param size → 0 < (getparam param simpBlkdevBytes).2
  capacity : ∀ size, Asks param size → ∃ sectors,
    simpBlkdevInit param simpBlkdevBytes true true = (0, some sectors) ∧ size ≤ 512 * sectors

theorem roundUp_isLeast (n : Nat) : IsLeast {m | 512 ∣ m ∧ n ≤ m} (roundUp n) := by
  constructor
  · exact ⟨Nat.dvd_mul_left _ _, by rw [roundUp]; omega⟩
  · rintro m ⟨⟨q, rfl⟩, hle⟩
    rw [roundUp]
    omega

theorem and_sectormask {x : Nat} (hx : x < 2 ^ 64) :
    x &&& simpBlkdevSectormask = x / 512 * 512 := by
  have hmask : simpBlkdevSectormask = 2 ^ 64 - ((2 ^ 9 - 1) + 1) := rfl
  have hshift : x / 512 * 512 = x >>> 9 <<< 9 := by
    rw [Nat.shiftRight_eq_div_pow, Nat.shiftLeft_eq]
  rw [hmask, hshift]
  apply Nat.eq_of_testBit_eq
  intro i
  rw [Nat.testBit_and, Nat.testBit_two_pow_sub_succ (by decide), Nat.testBit_two_pow_sub_one,
    Nat.testBit_shiftLeft, Nat.testBit_shiftRight]
  by_cases hlow : 9 ≤ i
  · rw [Nat.add_sub_cancel' hlow]
    by_cases hi : i < 64
    · simp [hlow, hi]
    · simp [Nat.testBit_lt_two_pow (Nat.lt_of_lt_of_le hx (Nat.pow_le_pow_right (by decide)
        (by omega : 64 ≤ i)))]
  · simp [hlow, Nat.lt_of_not_le hlow]

theorem fitSector_eq {x : Nat} (hx : x + 511 < 2 ^ 64) : fitSector x = roundUp x := by
  have hsum : x + simpBlkdevSectorsize - 1 = x + 511 := rfl
  rw [fitSector, hsum, Nat.mod_eq_of_lt hx, and_sectormask hx, roundUp]

theorem reads_inj {param : List Char} {n n' : Nat} {c c' : Char} (h : Reads param n c)
    (h' : Reads param n' c') : n = n' ∧ c = c' := by
  obtain ⟨ds, rfl, -, -, -, rfl, -⟩ := h
  obtain ⟨ds', heq, -, -, -, rfl, -⟩ := h'
  obtain ⟨rfl, hc⟩ := List.append_inj' heq rfl
  exact ⟨rfl, List.singleton_injective hc⟩

theorem sscanf_of_reads {param : List Char} {n : Nat} {c : Char} (h : Reads param n c) :
    sscanf param = ⟨2, some n, some c⟩ := by
  obtain ⟨ds, rfl, hne, hds, hc, rfl, hlt⟩ := h
  have htake : (ds ++ [c]).takeWhile Char.isDigit = ds := by
    rw [List.takeWhile_append_of_pos hds, List.takeWhile_cons_of_neg (by simp [hc]),
      List.append_nil]
  have hdrop : (ds ++ [c]).dropWhile Char.isDigit = [c] := by
    rw [List.dropWhile_append_of_pos hds, List.dropWhile_cons_of_neg (by simp [hc])]
  have hno : ¬ (ds = [] ∨ 2 ^ 64 ≤ decimal ds) := by
    rintro (hnil | hge)
    · exact hne hnil
    · omega
  simp only [sscanf, htake, hdrop, if_neg hno]

theorem sscanf_count (param : List Char) :
    (sscanf param).count = 2 ↔ ∃ n c, Reads param n c := by
  constructor
  · intro h
    rw [sscanf] at h
    split at h
    · cases h
    · rename_i hok
      split at h
      · cases h
      · rename_i c hdrop
        have hsplit : param.takeWhile Char.isDigit ++ [c] = param := by
          rw [← hdrop]
          exact List.takeWhile_append_dropWhile
        refine ⟨_, c, _, hsplit.symm, fun hnil => hok (Or.inl hnil), ?_, ?_, rfl, ?_⟩
        · intro d hd
          exact List.mem_takeWhile_imp hd
        · have hhead := List.head?_dropWhile_not Char.isDigit param
          rw [hdrop] at hhead
          exact hhead
        · exact Nat.lt_of_not_le (fun hge => hok (Or.inr hge))
      · cases h
  · rintro ⟨n, c, h⟩
    rw [sscanf_of_reads h]

theorem getparam_of_not_reads {param : List Char} (h : ¬ ∃ n c, Reads param n c) (bytes : Nat) :
    (getparam param bytes).1 = -einval := by
  rw [getparam, if_pos (fun hcount => h ((sscanf_count param).mp hcount))]

theorem getparam_of_reads {param : List Char} {n : Nat} {c : Char} (h : Reads param n c)
    (bytes : Nat) :
    getparam param bytes =
      if n = 0 then (-einval, n)
      else match unitShift c with
        | none => (-einval, n)
        | some k => (0, fitSector ((n <<< k) % 2 ^ 64)) := by
  rw [getparam, sscanf_of_reads h]
  rfl

theorem documentedUnit_eq (c : Char) :
    documentedUnit c =
      if c = 't' ∨ c = 'T' then some (2 ^ 40) else (unitShift c).map (fun k => 2 ^ k) := by
  unfold documentedUnit
  split <;> try rfl
  rw [if_neg (by rintro (rfl | rfl) <;> contradiction)]
  unfold unitShift
  split <;> first | rfl | contradiction

theorem unitShift_tera {c : Char} (h : c = 't' ∨ c = 'T') : unitShift c = none := by
  obtain rfl | rfl := h <;> rfl

theorem asks_of_reads {param : List Char} {n : Nat} {c : Char} (h : Reads param n c) (size : Nat) :
    Asks param size ↔
      1 ≤ n ∧ ∃ u, documentedUnit c = some u ∧ size = n * u ∧ roundUp size < 2 ^ 64 := by
  constructor
  · rintro ⟨n', c', u, h', hpos, hrest⟩
    obtain ⟨rfl, rfl⟩ := reads_inj h h'
    exact ⟨hpos, u, hrest⟩
  · rintro ⟨hpos, u, hrest⟩
    exact ⟨n, c, u, h, hpos, hrest⟩

theorem exact_of_rejected {param : List Char} {bytes : Nat}
    (h : (getparam param bytes).1 = -einval) :
    Exact param bytes ↔ ¬ ∃ size, Asks param size := by
  constructor
  · intro hex hasks
    have h0 := hex.accepts.mpr hasks
    rw [h] at h0
    cases h0
  · intro hno
    refine ⟨iff_of_false (by rw [h]; decide) hno, fun _ => h, ?_, ?_, ?_⟩ <;> intro size hsize <;>
      exact absurd ⟨size, hsize⟩ hno

theorem exact_of_taken {param : List Char} {bytes size : Nat}
    (hget : getparam param bytes = (0, roundUp size)) (hpos : 0 < size)
    (hasks : ∀ m, Asks param m ↔ m = size) : Exact param bytes := by
  have hself := (hasks size).mpr rfl
  have hleast := roundUp_isLeast size
  constructor
  · exact iff_of_true (by rw [hget]) ⟨_, hself⟩
  · exact fun hno => absurd ⟨_, hself⟩ hno
  · intro m hm
    rw [hget, (hasks m).mp hm]
    exact hleast
  · intro m hm
    rw [hget]
    exact lt_of_lt_of_le hpos hleast.1.2
  · intro m hm
    refine ⟨roundUp size >>> simpBlkdevSectorshift, by rw [simpBlkdevInit, hget]; rfl, ?_⟩
    have hshift : roundUp size >>> simpBlkdevSectorshift = roundUp size / 512 :=
      Nat.shiftRight_eq_div_pow _ 9
    rw [hshift, Nat.mul_div_cancel' hleast.1.1, (hasks m).mp hm]
    exact hleast.1.2

theorem exact_of_accepted {param : List Char} {bytes n k : Nat} {c : Char}
    (h : Reads param n c) (hpos : 1 ≤ n) (hk : unitShift c = some k) :
    Exact param bytes ↔ roundUp (n * 2 ^ k) < 2 ^ 64 := by
  have hget : getparam param bytes = (0, fitSector ((n <<< k) % 2 ^ 64)) := by
    rw [getparam_of_reads h, if_neg (by omega), hk]
  have hunit : documentedUnit c = some (2 ^ k) := by
    rw [documentedUnit_eq, if_neg, hk]
    · rfl
    · intro ht
      rw [unitShift_tera ht] at hk
      cases hk
  have hasks : ∀ size, Asks param size ↔ size = n * 2 ^ k ∧ roundUp size < 2 ^ 64 := by
    intro size
    rw [asks_of_reads h, hunit]
    simp [hpos]
  constructor
  · intro hex
    obtain ⟨size, hsize⟩ := hex.accepts.mp (by rw [hget])
    obtain ⟨rfl, hlt⟩ := (hasks size).mp hsize
    exact hlt
  · intro hlt
    have hsum : n * 2 ^ k + 511 < 2 ^ 64 := by
      rw [roundUp] at hlt
      omega
    rw [Nat.shiftLeft_eq, Nat.mod_eq_of_lt (by omega), fitSector_eq hsum] at hget
    apply exact_of_taken hget (Nat.mul_pos hpos (Nat.two_pow_pos k))
    intro m
    rw [hasks]
    exact and_iff_left_of_imp (fun hm => hm ▸ hlt)

theorem asks_of_unknown {param : List Char} {n : Nat} {c : Char} (h : Reads param n c)
    (hpos : 1 ≤ n) (hk : unitShift c = none) :
    (∃ size, Asks param size) ↔ (c = 't' ∨ c = 'T') ∧ n < 2 ^ 24 := by
  have hunit := documentedUnit_eq c
  rw [hk, Option.map_none] at hunit
  constructor
  · rintro ⟨size, hsize⟩
    obtain ⟨-, u, hu, rfl, hlt⟩ := (asks_of_reads h size).mp hsize
    by_cases ht : c = 't' ∨ c = 'T'
    · rw [hunit, if_pos ht, Option.some.injEq] at hu
      rw [← hu, roundUp] at hlt
      exact ⟨ht, by omega⟩
    · rw [hunit, if_neg ht] at hu
      cases hu
  · rintro ⟨ht, hlt⟩
    rw [if_pos ht] at hunit
    refine ⟨n * 2 ^ 40, (asks_of_reads h _).mpr ⟨hpos, _, hunit, rfl, ?_⟩⟩
    rw [roundUp]
    omega

/-- The parameter is taken as it should be unless it is a fitting number of
terabytes, which the `switch` does not know, or a size that overflows. -/
theorem getparam_exact_iff (param : List Char) (simpBlkdevBytes : Nat) :
    Exact param simpBlkdevBytes ↔
      ∀ n c, Reads param n c → 1 ≤ n →
        (c = 't' ∨ c = 'T' → 2 ^ 24 ≤ n) ∧
        (∀ k, unitShift c = some k → roundUp (n * 2 ^ k) < 2 ^ 64) := by
  by_cases hreads : ∃ n c, Reads param n c ∧ 1 ≤ n
  · obtain ⟨n, c, h, hpos⟩ := hreads
    have hone : ∀ P : Nat → Char → Prop, (∀ n c, Reads param n c → 1 ≤ n → P n c) ↔ P n c := by
      intro P
      refine ⟨fun hall => hall n c h hpos, fun hP n' c' h' _ => ?_⟩
      obtain ⟨rfl, rfl⟩ := reads_inj h h'
      exact hP
    rw [hone]
    cases hk : unitShift c with
    | some k =>
      have hno : ¬ (c = 't' ∨ c = 'T') := by
        intro ht
        rw [unitShift_tera ht] at hk
        cases hk
      rw [exact_of_accepted h hpos hk]
      simp [hno]
    | none =>
      rw [exact_of_rejected (by rw [getparam_of_reads h, if_neg (by omega), hk]),
        asks_of_unknown h hpos hk]
      simp
  · have hrej : (getparam param simpBlkdevBytes).1 = -einval := by
      by_cases hzero : ∃ n c, Reads param n c
      · obtain ⟨n, c, h⟩ := hzero
        rw [getparam_of_reads h, if_pos (by by_contra hpos; exact hreads ⟨n, c, h, by omega⟩)]
      · exact getparam_of_not_reads hzero simpBlkdevBytes
    rw [exact_of_rejected hrej]
    apply iff_of_true
    · rintro ⟨size, n, c, u, h, hpos, -⟩
      exact hreads ⟨n, c, h, hpos⟩
    · intro n c h hpos
      exact absurd ⟨n, c, h, hpos⟩ hreads

/-- A disk of one terabyte is refused, one of `2 ^ 64` bytes gets none at all. -/
theorem terabyte_refused : ¬ Exact ['1', 'T'] 0 ∧
    getparam ['1', '7', '1', '7', '9', '8', '6', '9', '1', '8', '4', 'G'] 0 = (0, 0) := by
  refine ⟨fun h => ?_, by decide +kernel⟩
  have hasks : Asks ['1', 'T'] (2 ^ 40) :=
    ⟨1, 'T', 2 ^ 40, ⟨['1'], rfl, by decide, List.forall_mem_singleton.mpr rfl, rfl, rfl,
      by decide⟩, by decide, rfl, by decide, by decide⟩
  exact absurd (h.accepts.mpr ⟨_, hasks⟩) (by decide +kernel)

end LinuxDriver.BlkdevParam
