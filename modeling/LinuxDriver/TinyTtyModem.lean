import LinuxDriver.Latches

namespace LinuxDriver.TinyTtyModem

open Latches

def mcrDtr : BitVec 32 := 0x01
def mcrRts : BitVec 32 := 0x02
def mcrLoop : BitVec 32 := 0x04
def msrCts : BitVec 32 := 0x08
def msrCd : BitVec 32 := 0x10
def msrRi : BitVec 32 := 0x20
def msrDsr : BitVec 32 := 0x40

def tiocmDtr : BitVec 32 := 0x002
def tiocmRts : BitVec 32 := 0x004
def tiocmCts : BitVec 32 := 0x020
def tiocmCar : BitVec 32 := 0x040
def tiocmRi : BitVec 32 := 0x080
def tiocmDsr : BitVec 32 := 0x100
def tiocmLoop : BitVec 32 := 0x8000

structure TinySerial where
  msr : BitVec 32
  mcr : BitVec 32

def has (x m : BitVec 32) : Bool := x &&& m ≠ 0

def flag (x m bit : BitVec 32) : BitVec 32 := if has x m then bit else 0

def tinyTiocmget (tiny : TinySerial) : BitVec 32 :=
  flag tiny.mcr mcrDtr tiocmDtr |||
  flag tiny.mcr mcrRts tiocmRts |||
  flag tiny.mcr mcrLoop tiocmLoop |||
  flag tiny.msr msrCts tiocmCts |||
  flag tiny.msr msrCd tiocmCar |||
  flag tiny.msr msrRi tiocmRi |||
  flag tiny.msr msrDsr tiocmDsr

/-- The tests for `TIOCM_DTR` change the bit of RTS, too. -/
def tinyTiocmset (set clear : BitVec 32) (tiny : TinySerial) : Int × TinySerial :=
  let mcr := tiny.mcr
  let mcr := if has set tiocmRts then mcr ||| mcrRts else mcr
  let mcr := if has set tiocmDtr then mcr ||| mcrRts else mcr
  let mcr := if has clear tiocmRts then mcr &&& ~~~mcrRts else mcr
  let mcr := if has clear tiocmDtr then mcr &&& ~~~mcrRts else mcr
  (0, { tiny with mcr := mcr })

abbrev Words := BitVec 32 × BitVec 32

def tinyTiocmsets (calls : List Words) (tiny : TinySerial) : TinySerial :=
  calls.foldl (fun t c => (tinyTiocmset c.1 c.2 t).2) tiny

/-- The modem line with the bit `m`, as the calls should drive it. -/
def line (m : BitVec 32) : Latch Words := ⟨fun c => has c.1 m, fun c => has c.2 m⟩

/-- RTS and DTR follow their own bits in the calls, and nothing else changes. -/
structure Independent (tiny : TinySerial) (calls : List Words) : Prop where
  rts : has (tinyTiocmget (tinyTiocmsets calls tiny)) tiocmRts =
    (line tiocmRts).level (has (tinyTiocmget tiny) tiocmRts) calls
  dtr : has (tinyTiocmget (tinyTiocmsets calls tiny)) tiocmDtr =
    (line tiocmDtr).level (has (tinyTiocmget tiny) tiocmDtr) calls
  other : tinyTiocmget (tinyTiocmsets calls tiny) &&& ~~~(tiocmRts ||| tiocmDtr) =
    tinyTiocmget tiny &&& ~~~(tiocmRts ||| tiocmDtr)
  msr : (tinyTiocmsets calls tiny).msr = tiny.msr

theorem has_or (x y m : BitVec 32) : has (x ||| y) m = (has x m || has y m) := by
  rw [Bool.eq_iff_iff]
  simp only [has, decide_eq_true_eq, Bool.or_eq_true, ne_eq, BitVec.and_or_distrib_right]
  exact (not_congr BitVec.or_eq_zero_iff).trans not_and_or

theorem has_flag (x m bit c : BitVec 32) : has (flag x m bit) c = (has x m && has bit c) := by
  rw [flag]
  cases has x m with
  | true => rfl
  | false => exact decide_eq_false (not_not.mpr BitVec.zero_and)

theorem has_tiocmget (tiny : TinySerial) (c : BitVec 32) :
    has (tinyTiocmget tiny) c =
      (has tiny.mcr mcrDtr && has tiocmDtr c || has tiny.mcr mcrRts && has tiocmRts c ||
        has tiny.mcr mcrLoop && has tiocmLoop c || has tiny.msr msrCts && has tiocmCts c ||
        has tiny.msr msrCd && has tiocmCar c || has tiny.msr msrRi && has tiocmRi c ||
        has tiny.msr msrDsr && has tiocmDsr c) := by
  simp only [tinyTiocmget, has_or, has_flag]

theorem rts_reported (tiny : TinySerial) :
    has (tinyTiocmget tiny) tiocmRts = has tiny.mcr mcrRts := by
  have hself : has tiocmRts tiocmRts = true := rfl
  have hothers : has tiocmDtr tiocmRts = false ∧ has tiocmLoop tiocmRts = false ∧
      has tiocmCts tiocmRts = false ∧ has tiocmCar tiocmRts = false ∧
      has tiocmRi tiocmRts = false ∧ has tiocmDsr tiocmRts = false := by decide
  simp [has_tiocmget, hself, hothers]

theorem dtr_reported (tiny : TinySerial) :
    has (tinyTiocmget tiny) tiocmDtr = has tiny.mcr mcrDtr := by
  have hself : has tiocmDtr tiocmDtr = true := rfl
  have hothers : has tiocmRts tiocmDtr = false ∧ has tiocmLoop tiocmDtr = false ∧
      has tiocmCts tiocmDtr = false ∧ has tiocmCar tiocmDtr = false ∧
      has tiocmRi tiocmDtr = false ∧ has tiocmDsr tiocmDtr = false := by decide
  simp [has_tiocmget, hself, hothers]

theorem flag_and (x m bit c : BitVec 32) : flag x m bit &&& c = flag x m (bit &&& c) := by
  rw [flag, flag]
  cases has x m with
  | true => rfl
  | false => exact BitVec.zero_and

theorem flag_zero (x m : BitVec 32) : flag x m 0 = 0 := ite_self _

theorem flag_congr {x y m : BitVec 32} (h : x &&& m = y &&& m) (bit : BitVec 32) :
    flag x m bit = flag y m bit := by
  rw [flag, flag, has, has, h]

theorem other_reported {t u : TinySerial} (hloop : t.mcr &&& mcrLoop = u.mcr &&& mcrLoop)
    (hmsr : t.msr = u.msr) :
    tinyTiocmget t &&& ~~~(tiocmRts ||| tiocmDtr) =
      tinyTiocmget u &&& ~~~(tiocmRts ||| tiocmDtr) := by
  have hrts : tiocmRts &&& ~~~(tiocmRts ||| tiocmDtr) = 0 := rfl
  have hdtr : tiocmDtr &&& ~~~(tiocmRts ||| tiocmDtr) = 0 := rfl
  simp only [tinyTiocmget, BitVec.and_or_distrib_right, flag_and, hrts, hdtr, flag_zero, hmsr,
    flag_congr hloop]

theorem has_raise (x m : BitVec 32) (hm : m ≠ 0) (b : Bool) :
    has (if b then x ||| m else x) m = (has x m || b) := by
  have hself : has m m = true := by simpa [has] using hm
  cases b with
  | true => rw [if_pos rfl, has_or, hself]
  | false => rw [if_neg Bool.false_ne_true, Bool.or_false]

theorem has_lower (x m : BitVec 32) (b : Bool) :
    has (if b then x &&& ~~~m else x) m = (has x m && !b) := by
  cases b with
  | true =>
    rw [if_pos rfl, has, BitVec.and_assoc, BitVec.not_and_self, Bool.not_true, Bool.and_false]
    exact decide_eq_false (not_not.mpr BitVec.and_zero)
  | false => rw [if_neg Bool.false_ne_true, Bool.not_false, Bool.and_true]

theorem raise_and {x m c : BitVec 32} (h : m &&& c = 0) (b : Bool) :
    (if b then x ||| m else x) &&& c = x &&& c := by
  cases b with
  | true =>
    rw [if_pos rfl, BitVec.and_or_distrib_right, h]
    exact BitVec.or_zero
  | false => rfl

theorem lower_and {x m c : BitVec 32} (h : ~~~m &&& c = c) (b : Bool) :
    (if b then x &&& ~~~m else x) &&& c = x &&& c := by
  cases b with
  | true => rw [if_pos rfl, BitVec.and_assoc, h]
  | false => rfl

theorem rts_tiocmset (set clear : BitVec 32) (tiny : TinySerial) :
    has (tinyTiocmset set clear tiny).2.mcr mcrRts =
      ((line tiocmRts).join (line tiocmDtr)).next (has tiny.mcr mcrRts) (set, clear) := by
  have hm : mcrRts ≠ 0 := by decide
  simp only [tinyTiocmset, has_lower, has_raise _ _ hm, Latch.next, Latch.join, line,
    Bool.not_or, Bool.or_assoc, Bool.and_assoc]

theorem tiocmset_and (set clear : BitVec 32) (tiny : TinySerial) {c : BitVec 32}
    (h : mcrRts &&& c = 0) (h' : ~~~mcrRts &&& c = c) :
    (tinyTiocmset set clear tiny).2.mcr &&& c = tiny.mcr &&& c := by
  simp only [tinyTiocmset, raise_and h, lower_and h']

theorem rts_tiocmsets (calls : List Words) (tiny : TinySerial) :
    has (tinyTiocmsets calls tiny).mcr mcrRts =
      ((line tiocmRts).join (line tiocmDtr)).level (has tiny.mcr mcrRts) calls := by
  induction calls generalizing tiny with
  | nil => rfl
  | cons c calls ih =>
    apply (ih (tinyTiocmset c.1 c.2 tiny).2).trans
    rw [rts_tiocmset]
    rfl

theorem tiocmsets_and (calls : List Words) (tiny : TinySerial) {c : BitVec 32}
    (h : mcrRts &&& c = 0) (h' : ~~~mcrRts &&& c = c) :
    (tinyTiocmsets calls tiny).mcr &&& c = tiny.mcr &&& c := by
  induction calls generalizing tiny with
  | nil => rfl
  | cons w calls ih => exact (ih (tinyTiocmset w.1 w.2 tiny).2).trans (tiocmset_and _ _ _ h h')

theorem tiocmsets_msr (calls : List Words) (tiny : TinySerial) :
    (tinyTiocmsets calls tiny).msr = tiny.msr := by
  induction calls generalizing tiny with
  | nil => rfl
  | cons c calls ih => exact ih (tinyTiocmset c.1 c.2 tiny).2

/-- The lines are independent in a sequence of calls exactly when the last call that
names DTR asks for what DTR was at first, and the last one that names either of the
lines asks for the same as the last one that names RTS. -/
theorem lines_independent_iff (tiny : TinySerial) (calls : List Words) :
    Independent tiny calls ↔
      (line tiocmDtr).asked (has (tinyTiocmget tiny) tiocmDtr) calls =
        has (tinyTiocmget tiny) tiocmDtr ∧
      ((line tiocmRts).join (line tiocmDtr)).asked (has (tinyTiocmget tiny) tiocmRts) calls =
        (line tiocmRts).asked (has (tinyTiocmget tiny) tiocmRts) calls := by
  have hrts : has (tinyTiocmget (tinyTiocmsets calls tiny)) tiocmRts =
      ((line tiocmRts).join (line tiocmDtr)).asked (has (tinyTiocmget tiny) tiocmRts) calls := by
    rw [rts_reported, rts_tiocmsets, rts_reported, level_eq_asked]
  have hdtr : has (tinyTiocmget (tinyTiocmsets calls tiny)) tiocmDtr =
      has (tinyTiocmget tiny) tiocmDtr := by
    rw [dtr_reported, dtr_reported, has, has, tiocmsets_and calls tiny rfl rfl]
  constructor
  · intro h
    constructor
    · rw [← level_eq_asked, ← h.dtr, hdtr]
    · rw [← level_eq_asked (line tiocmRts), ← h.rts, hrts]
  · rintro ⟨hd, hr⟩
    constructor
    · rw [hrts, hr, level_eq_asked]
    · rw [hdtr, level_eq_asked, hd]
    · exact other_reported (tiocmsets_and calls tiny rfl rfl) (tiocmsets_msr calls tiny)
    · exact tiocmsets_msr calls tiny

/-- Asked to raise DTR, the driver raises RTS. -/
theorem dtr_raises_rts :
    tinyTiocmget (tinyTiocmsets [(tiocmDtr, 0)] ⟨0, 0⟩) = tiocmRts ∧
      ¬ Independent ⟨0, 0⟩ [(tiocmDtr, 0)] := by
  refine ⟨by decide, fun h => ?_⟩
  exact absurd h.dtr (by decide)

end LinuxDriver.TinyTtyModem
