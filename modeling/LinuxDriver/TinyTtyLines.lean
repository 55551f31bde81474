import LinuxDriver.TinyTtyPorts
import Mathlib.Data.List.Induction

namespace LinuxDriver.TinyTtyLines

open Runs TinyTty TinyTtyPorts

def completeLine : List Char := List.replicate 10 't' ++ ['\n']

/-- Complete lines, and of the last one at most ten characters. -/
def Lines (cs : List Char) : Prop :=
  ∃ m k, k ≤ 10 ∧ cs = (List.replicate m completeLine).flatten ++ List.replicate k 't'

def next : Option Nat → Char → Option Nat
  | some k, 't' => if k < 10 then some (k + 1) else none
  | some k, '\n' => if k = 10 then some 0 else none
  | _, _ => none

def column (cs : List Char) : Option Nat := cs.foldl next (some 0)

theorem column_append (cs ds : List Char) : column (cs ++ ds) = ds.foldl next (column cs) :=
  List.foldl_append

theorem lines_succ (m : Nat) :
    (List.replicate (m + 1) completeLine).flatten =
      (List.replicate m completeLine).flatten ++ completeLine := by
  rw [List.replicate_succ', List.flatten_append, List.flatten_singleton]

theorem column_lines (m : Nat) : column (List.replicate m completeLine).flatten = some 0 := by
  induction m with
  | zero => rfl
  | succ m ih =>
    rw [lines_succ, column_append, ih]
    rfl

theorem column_chars (m : Nat) {k : Nat} (hk : k ≤ 10) :
    column ((List.replicate m completeLine).flatten ++ List.replicate k 't') = some k := by
  induction k with
  | zero => rw [List.replicate_zero, List.append_nil, column_lines]
  | succ k ih =>
    rw [List.replicate_succ', ← List.append_assoc, column_append, ih (by omega)]
    exact if_pos (by omega)

theorem lines_of_column {cs : List Char} {k : Nat} (h : column cs = some k) :
    k ≤ 10 ∧ ∃ m, cs = (List.replicate m completeLine).flatten ++ List.replicate k 't' := by
  induction cs using List.reverseRecOn generalizing k with
  | nil =>
    cases h
    exact ⟨by decide, 0, rfl⟩
  | append_singleton cs c ih =>
    rw [column_append, List.foldl_cons, List.foldl_nil] at h
    cases hc : column cs with
    | none =>
      rw [hc] at h
      cases h
    | some j =>
      obtain ⟨hj, m, rfl⟩ := ih hc
      rw [hc] at h
      by_cases ht : c = 't'
      · subst ht
        simp only [next] at h
        split at h
        · cases h
          refine ⟨by omega, m, ?_⟩
          rw [List.replicate_succ', ← List.append_assoc]
        · cases h
      · by_cases hn : c = '\n'
        · subst hn
          simp only [next] at h
          split at h
          · rename_i h10
            subst h10
            cases h
            refine ⟨by decide, m + 1, ?_⟩
            rw [lines_succ, List.replicate_zero, List.append_nil, List.append_assoc]
            rfl
          · cases h
        · simp [next, ht, hn] at h

theorem lines_iff_column (cs : List Char) : Lines cs ↔ (column cs).isSome := by
  constructor
  · rintro ⟨m, k, hk, rfl⟩
    rw [column_chars m hk]
    rfl
  · intro h
    obtain ⟨k, hk⟩ := Option.isSome_iff_exists.mp h
    obtain ⟨hle, m, hm⟩ := lines_of_column hk
    exact ⟨m, k, hle, hm⟩

def newlineDue (l : Line) : Option Bool :=
  l.tiny.map (fun p => decide ((p.rxCount + 1).toNat % 10 = 0))

/-- The expiries since the last newline that was accepted, and how many of these
had their character refused. -/
structure Tally where
  passed : Nat
  refused : Nat

def Tally.expire (t : Tally) (accepts acceptsNewline : Bool) (l : Line) : Tally :=
  match newlineDue l with
  | none => t
  | some due =>
    if due && acceptsNewline then ⟨0, 0⟩ else ⟨t.passed + 1, t.refused + (!accepts).toNat⟩

def InTurn (t : Tally) (accepts acceptsNewline : Bool) (l : Line) : Prop :=
  match newlineDue l with
  | none => True
  | some due =>
    (accepts = true → t.passed < t.refused + 10) ∧
      (due = true → acceptsNewline = true → t.passed + 1 = t.refused + (!accepts).toNat + 10)

theorem insertData_flip (accepts acceptsNewline : Bool) (l : Line) :
    (insertData accepts acceptsNewline l).flip =
      match newlineDue l with
      | none => l.flip
      | some due => l.flip ++ ((if accepts then ['t'] else []) ++
          if due && acceptsNewline then ['\n'] else []) := by
  rw [insertData, newlineDue]
  cases l.tiny with
  | none => rfl
  | some p =>
    simp only [Option.map_some]
    by_cases hdue : (p.rxCount + 1).toNat % 10 = 0
    · simp only [hdue, if_true, decide_true, Bool.true_and, ttyInsertFlipChar]
      cases accepts <;> cases acceptsNewline <;> simp [tinyDataCharacter]
    · simp only [hdue, if_false, decide_false, Bool.false_and, ttyInsertFlipChar]
      cases accepts <;> simp [tinyDataCharacter]

structure Counts (t : Tally) (cs : List Char) : Prop where
  le : t.refused ≤ t.passed
  column : column cs = some (t.passed - t.refused)

theorem counts_of_add {t : Tally} {cs : List Char} {k : Nat} (hk : t.passed = t.refused + k)
    (h : column cs = some k) : Counts t cs :=
  ⟨by omega, by rw [h]; congr 1; omega⟩

theorem column_insert {cs : List Char} {k : Nat} (h : column cs = some k) (char newline : Bool) :
    column (cs ++ ((if char then ['t'] else []) ++ if newline then ['\n'] else [])) =
      if (char = true → k < 10) ∧ (newline = true → k + char.toNat = 10) then
        some (if newline then 0 else k + char.toNat)
      else none := by
  rw [column_append, h]
  cases char with
  | false => cases newline <;> simp [next]
  | true =>
    by_cases hk : k < 10
    · cases newline <;> simp [next, hk]
    · cases newline <;> simp [next, hk]

theorem inTurn_iff {t : Tally} {k : Nat} (hk : t.passed = t.refused + k)
    (char newline due : Bool) :
    ((char = true → t.passed < t.refused + 10) ∧
        (due = true → newline = true → t.passed + 1 = t.refused + (!char).toNat + 10)) ↔
      (char = true → k < 10) ∧ ((due && newline) = true → k + char.toNat = 10) := by
  rw [hk]
  cases char <;> cases newline <;> cases due <;> simp

theorem expire_in_turn {t : Tally} {l : Line} (h : Counts t l.flip) {accepts acceptsNewline : Bool}
    (ha : InTurn t accepts acceptsNewline l) :
    Counts (t.expire accepts acceptsNewline l) (insertData accepts acceptsNewline l).flip := by
  obtain ⟨k, hk⟩ := Nat.exists_eq_add_of_le h.le
  have hcol := h.column
  rw [hk, Nat.add_sub_cancel_left] at hcol
  rw [InTurn] at ha
  rw [insertData_flip, Tally.expire]
  cases hd : newlineDue l with
  | none => exact h
  | some due =>
    simp only [hd, inTurn_iff hk] at ha
    have hnew := column_insert hcol accepts (due && acceptsNewline)
    rw [if_pos ha] at hnew
    dsimp only
    generalize hb : (due && acceptsNewline) = b at *
    cases b with
    | true => exact counts_of_add rfl hnew
    | false =>
      refine counts_of_add ?_ hnew
      cases accepts <;> simp [hk] <;> omega

theorem expire_out_of_turn {t : Tally} {l : Line} (h : Counts t l.flip)
    {accepts acceptsNewline : Bool} (ha : ¬ InTurn t accepts acceptsNewline l) :
    column (insertData accepts acceptsNewline l).flip = none := by
  obtain ⟨k, hk⟩ := Nat.exists_eq_add_of_le h.le
  have hcol := h.column
  rw [hk, Nat.add_sub_cancel_left] at hcol
  rw [InTurn] at ha
  rw [insertData_flip]
  cases hd : newlineDue l with
  | none => simp [hd] at ha
  | some due =>
    simp only [hd, inTurn_iff hk] at ha
    exact (column_insert hcol accepts (due && acceptsNewline)).trans (if_neg ha)

def rx (l : Line) : BitVec 32 := l.tiny.elim 0 Port.rxCount

def SameStream (l m : Line) : Prop := m.flip = l.flip ∧ rx m = rx l

theorem tinyOpen_stream (kzalloc kmalloc : Bool) (l : Line) :
    SameStream l (tinyOpen kzalloc kmalloc l).2 := by
  rw [SameStream, tinyOpen, getPort, rx, rx]
  cases l.tiny with
  | none =>
    cases kzalloc with
    | false => exact ⟨rfl, rfl⟩
    | true => cases kmalloc <;> exact ⟨rfl, rfl⟩
  | some p =>
    dsimp only
    split
    · split
      · exact ⟨rfl, rfl⟩
      · split <;> exact ⟨rfl, rfl⟩
    · exact ⟨rfl, rfl⟩

theorem delTimer_stream (l : Line) : SameStream l (delTimer l) := by
  rw [SameStream, delTimer]
  split <;> exact ⟨rfl, rfl⟩

theorem doClose_stream (l : Line) : SameStream l (doClose l) := by
  rw [doClose]
  cases ht : l.tiny with
  | none => exact ⟨rfl, rfl⟩
  | some p =>
    have hrx : rx l = p.rxCount := by rw [rx, ht]; rfl
    dsimp only
    split
    · exact ⟨rfl, rfl⟩
    · split
      · obtain ⟨hflip, hsame⟩ := delTimer_stream
          { l with tiny := some { p with openCount := p.openCount - 1 } }
        exact ⟨hflip, by rw [hsame, hrx]; rfl⟩
      · exact ⟨rfl, hrx.symm⟩

theorem tinyClose_stream (l : Line) : SameStream l (tinyClose l) := by
  rw [tinyClose]
  split
  · exact doClose_stream l
  · exact ⟨rfl, rfl⟩

theorem exitPort_flip (l : Line) : (exitPort l).flip = l.flip := by
  rw [exitPort]
  cases l.tiny with
  | none => rfl
  | some p =>
    have hloop := (closeLoop_keeps (P := fun m => m.flip = l.flip)
      (fun m hm => (doClose_stream m).1.trans hm) l rfl).1
    exact (delTimer_stream (closeLoop l)).1.trans hloop

theorem tinyTimer_stream (accepts acceptsNewline : Bool) (l : Line) :
    SameStream (insertData accepts acceptsNewline l) (tinyTimer accepts acceptsNewline l) := by
  rw [SameStream, tinyTimer_eq, insertData_flip, insertData_flip, insertData_eq]
  exact ⟨rfl, rfl⟩

theorem ttyStep_stream {t u : Tty} {a : TtyAct} (h : ttyStep t a = some u) :
    match a with
    | .expire accepts acceptsNewline => SameStream (insertData accepts acceptsNewline t.line) u.line
    | _ => SameStream t.line u.line := by
  cases a with
  | «open» kzalloc kmalloc =>
    simp only [ttyStep] at h
    split at h <;> cases h <;> exact tinyOpen_stream kzalloc kmalloc t.line
  | close ofFailed =>
    cases ofFailed <;> simp only [ttyStep] at h <;> split at h <;> cases h <;>
      exact tinyClose_stream t.line
  | expire accepts acceptsNewline =>
    simp only [ttyStep] at h
    split at h
    · cases h
      exact tinyTimer_stream accepts acceptsNewline t.line
    · cases h

structure Counted where
  sys : Sys
  tally : Fin tinyTtyMinors → Tally

def Counted.init : Counted := ⟨Sys.init, fun _ => ⟨0, 0⟩⟩

def Counted.line (c : Counted) (i : Fin tinyTtyMinors) : Line := (c.sys.ttys i).line

def tallyStep (c : Counted) (j : Fin tinyTtyMinors) : Act → Tally
  | .tty i (.expire accepts acceptsNewline) =>
    if i = j then (c.tally j).expire accepts acceptsNewline (c.line j) else c.tally j
  | _ => c.tally j

def countedStep (c : Counted) (a : Act) : Option Counted :=
  (step c.sys a).map (fun s => ⟨s, fun j => tallyStep c j a⟩)

/-- The expiries after which all lines are still right. -/
def Paced (c : Counted) : Act → Prop
  | .tty i (.expire accepts acceptsNewline) =>
    (step c.sys (.tty i (.expire accepts acceptsNewline))).isSome →
      InTurn (c.tally i) accepts acceptsNewline (c.line i)
  | _ => True

inductive Moves (c : Counted) (j : Fin tinyTtyMinors) (d : Counted) : Act → Prop
  | expire (accepts acceptsNewline : Bool)
      (htally : d.tally j = (c.tally j).expire accepts acceptsNewline (c.line j))
      (hline : SameStream (insertData accepts acceptsNewline (c.line j)) (d.line j)) :
      Moves c j d (.tty j (.expire accepts acceptsNewline))
  | other (a : Act) (ha : ∀ accepts acceptsNewline, a ≠ .tty j (.expire accepts acceptsNewline))
      (htally : d.tally j = c.tally j) (hline : SameStream (c.line j) (d.line j)) : Moves c j d a
  | exit (hexit : d.sys.exited = true) (htally : d.tally j = c.tally j)
      (hflip : (d.line j).flip = (c.line j).flip) : Moves c j d .exit

theorem countedStep_moves {c d : Counted} {a : Act} (h : countedStep c a = some d)
    (j : Fin tinyTtyMinors) : Moves c j d a := by
  obtain ⟨s, hs, rfl⟩ := Option.map_eq_some_iff.mp h
  cases hexit : c.sys.exited with
  | true => cases a <;> simp [step, hexit] at hs
  | false =>
    cases a with
    | exit =>
      simp only [step, hexit, Bool.false_eq_true, if_false] at hs
      cases hs
      refine .exit rfl rfl ?_
      simp only [Counted.line, tinyExit_apply]
      exact exitPort_flip _
    | tty i a =>
      simp only [step, hexit, Bool.false_eq_true, if_false] at hs
      obtain ⟨t, ht, rfl⟩ := Option.map_eq_some_iff.mp hs
      have hline := ttyStep_stream ht
      by_cases hij : i = j
      · subst hij
        have hself : (Function.update c.sys.ttys i t i).line = t.line := by
          rw [Function.update_self]
        cases a with
        | expire accepts acceptsNewline =>
          refine .expire accepts acceptsNewline (if_pos rfl) ?_
          simp only [Counted.line, hself]
          exact hline
        | «open» kzalloc kmalloc =>
          refine .other _ (by simp) rfl ?_
          simp only [Counted.line, hself]
          exact hline
        | close ofFailed =>
          refine .other _ (by simp) rfl ?_
          simp only [Counted.line, hself]
          exact hline
      · refine .other _ (by simp [hij]) ?_ ?_
        · cases a with
          | expire accepts acceptsNewline => exact if_neg hij
          | «open» kzalloc kmalloc => rfl
          | close ofFailed => rfl
        · simp only [Counted.line, Function.update_of_ne (Ne.symm hij)]
          exact ⟨rfl, rfl⟩

def Inv (c : Counted) : Prop := ∀ i, Counts (c.tally i) (c.line i).flip

def AllLines (c : Counted) : Prop := ∀ i, Lines (c.line i).flip

theorem allLines_of_inv {c : Counted} (h : Inv c) : AllLines c := by
  intro i
  rw [lines_iff_column, (h i).column]
  rfl

theorem paced_inv {c d : Counted} {a : Act} (h : Inv c) (ha : Paced c a)
    (hstep : countedStep c a = some d) : Inv d := by
  intro j
  cases countedStep_moves hstep j with
  | expire accepts acceptsNewline htally hline =>
    have hdo : (step c.sys (.tty j (.expire accepts acceptsNewline))).isSome := by
      obtain ⟨s, hs, -⟩ := Option.map_eq_some_iff.mp hstep
      rw [hs]
      rfl
    rw [htally, hline.1]
    exact expire_in_turn (h j) (ha hdo)
  | other _ _ htally hline =>
    rw [htally, hline.1]
    exact h j
  | exit _ htally hflip =>
    rw [htally, hflip]
    exact h j

theorem not_paced {c : Counted} {a : Act} (h : Inv c) (ha : ¬ Paced c a) :
    ∃ d, countedStep c a = some d ∧ ¬ AllLines d := by
  cases a with
  | exit => exact absurd trivial ha
  | tty i a =>
    cases a with
    | «open» kzalloc kmalloc => exact absurd trivial ha
    | close ofFailed => exact absurd trivial ha
    | expire accepts acceptsNewline =>
      obtain ⟨hdo, hout⟩ := Classical.not_imp.mp ha
      have hsome : (countedStep c (.tty i (.expire accepts acceptsNewline))).isSome := by
        rw [countedStep, Option.isSome_map]
        exact hdo
      obtain ⟨d, hd⟩ := Option.isSome_iff_exists.mp hsome
      refine ⟨d, hd, ?_⟩
      intro hall
      have hnone := expire_out_of_turn (h i) hout
      have hright := hall i
      cases countedStep_moves hd i with
      | expire _ _ _ hline =>
        rw [lines_iff_column, hline.1, hnone] at hright
        cases hright
      | other _ hno => exact hno accepts acceptsNewline rfl

def Accepting : Act → Prop
  | .tty _ (.expire accepts acceptsNewline) => accepts = true ∧ acceptsNewline = true
  | _ => True

def isExpiry (i : Fin tinyTtyMinors) : Act → Bool
  | .tty j (.expire _ _) => decide (j = i)
  | _ => false

/-- Nothing was refused so far, and the counter has not wrapped and will not. -/
def Steady (c : Counted) (as : List Act) : Prop :=
  c.sys.exited = false → ∀ i, (c.tally i).refused = 0 ∧
    (c.tally i).passed = (rx (c.line i)).toNat % 10 ∧
    (rx (c.line i)).toNat + as.countP (isExpiry i) < 2 ^ 32

theorem rx_insertData {l : Line} {p : Port} (h : l.tiny = some p) (accepts acceptsNewline : Bool) :
    rx (insertData accepts acceptsNewline l) = p.rxCount + 1 := by
  rw [insertData_eq, rx, h]
  rfl

theorem steady_paced {c : Counted} {a : Act} {as : List Act} (h : Steady c (a :: as))
    (ha : Accepting a) : Paced c a := by
  cases a with
  | exit => trivial
  | tty i a =>
    cases a with
    | «open» kzalloc kmalloc => trivial
    | close ofFailed => trivial
    | expire accepts acceptsNewline =>
      intro hdo
      have hexit : c.sys.exited = false := by
        by_contra hno
        rw [step, if_pos (Bool.eq_true_of_not_eq_false hno)] at hdo
        cases hdo
      obtain ⟨rfl, rfl⟩ := ha
      obtain ⟨hrefused, hpassed, hfew⟩ := h hexit i
      have hone : isExpiry i (.tty i (.expire true true)) = true := decide_eq_true rfl
      rw [List.countP_cons_of_pos hone] at hfew
      rw [InTurn, newlineDue]
      cases ht : (c.line i).tiny with
      | none => trivial
      | some p =>
        have hrx : rx (c.line i) = p.rxCount := by rw [rx, ht]; rfl
        rw [hrx] at hpassed hfew
        have hnext : (p.rxCount + 1).toNat = p.rxCount.toNat + 1 := by bv_omega
        simp only [Option.map_some, hnext, hrefused, hpassed, decide_eq_true_eq, Bool.not_true,
          Bool.toNat_false]
        omega

theorem steady_step {c d : Counted} {a : Act} {as : List Act} (h : Steady c (a :: as))
    (ha : Accepting a) (hstep : countedStep c a = some d) : Steady d as := by
  intro hexit i
  have hexit' : c.sys.exited = false := by
    obtain ⟨s, hs, -⟩ := Option.map_eq_some_iff.mp hstep
    by_contra hno
    cases a <;> simp [step, hno] at hs
  obtain ⟨hrefused, hpassed, hfew⟩ := h hexit' i
  cases countedStep_moves hstep i with
  | exit hyes =>
    rw [hyes] at hexit
    cases hexit
  | other _ _ htally hline =>
    have hle : as.countP (isExpiry i) ≤ (a :: as).countP (isExpiry i) :=
      (List.sublist_cons_self a as).countP_le
    rw [htally, hline.2]
    exact ⟨hrefused, hpassed, by omega⟩
  | expire accepts acceptsNewline htally hline =>
    obtain ⟨rfl, rfl⟩ := ha
    have hone : isExpiry i (.tty i (.expire true true)) = true := decide_eq_true rfl
    rw [List.countP_cons_of_pos hone] at hfew
    rw [htally, hline.2, Tally.expire, newlineDue]
    cases ht : (c.line i).tiny with
    | none =>
      have hsame : rx (insertData true true (c.line i)) = rx (c.line i) := by
        rw [insertData, ht]
      rw [hsame]
      exact ⟨hrefused, hpassed, by omega⟩
    | some p =>
      have hrx : rx (c.line i) = p.rxCount := by rw [rx, ht]; rfl
      rw [hrx] at hpassed hfew
      have hnext : (p.rxCount + 1).toNat = p.rxCount.toNat + 1 := by bv_omega
      rw [rx_insertData ht, hnext]
      simp only [Option.map_some, hnext, Bool.and_true, decide_eq_true_eq, Bool.not_true,
        Bool.toNat_false, Nat.add_zero]
      split
      · refine ⟨rfl, ?_, by omega⟩
        change 0 = _
        omega
      · refine ⟨hrefused, ?_, by omega⟩
        change (c.tally i).passed + 1 = _
        omega

theorem paced_of_accepting (as : List Act) (hall : ∀ a, a ∈ as → Accepting a) {c : Counted}
    (h : Steady c as) : Meets countedStep Paced c as := by
  induction as generalizing c with
  | nil => trivial
  | cons a as ih =>
    have ha := hall a List.mem_cons_self
    refine ⟨steady_paced h ha, fun d hd => ?_⟩
    exact ih (fun b hb => hall b (List.mem_cons_of_mem _ hb)) (steady_step h ha hd)

theorem steady_init {as : List Act} (hfew : ∀ i, as.countP (isExpiry i) < 2 ^ 32) :
    Steady Counted.init as := by
  intro _ i
  exact ⟨rfl, rfl, by simpa [Counted.init, Counted.line, Sys.init, rx, Line.init] using hfew i⟩

/-- Every stream is made of right lines in every state of a run exactly when each
character and each newline is accepted in its turn. So it is if the flip buffer
refuses nothing and no port comes to `2 ^ 32` expiries. -/
theorem lines_iff_paced (as : List Act) :
    (Always countedStep AllLines Counted.init as ↔ Meets countedStep Paced Counted.init as) ∧
      ((∀ a, a ∈ as → Accepting a) → (∀ i, as.countP (isExpiry i) < 2 ^ 32) →
        Meets countedStep Paced Counted.init as) := by
  constructor
  · apply always_iff_meets
    · intro c
      exact allLines_of_inv
    · intro c a d
      exact paced_inv
    · intro c a
      exact not_paced
    · intro i
      exact ⟨le_rfl, rfl⟩
  · intro hall hfew
    exact paced_of_accepting as hall (steady_init hfew)

/-- The first character is refused, so the first line has nine. -/
theorem refused_char_shortens_line : ¬ ∀ as, Always countedStep AllLines Counted.init as := by
  intro h
  have hend : (run countedStep Counted.init (.tty 0 (.open true true) ::
      .tty 0 (.expire false true) :: List.replicate 9 (.tty 0 (.expire true true)))).map
        (fun c => column (c.line 0).flip) = some none := by decide +kernel
  obtain ⟨c, hrun, hcol⟩ := Option.map_eq_some_iff.mp hend
  have hline := always_end (h _) hrun 0
  rw [lines_iff_column, hcol] at hline
  cases hline

end LinuxDriver.TinyTtyLines
