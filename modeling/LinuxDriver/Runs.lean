import Mathlib.Tactic.Common

namespace LinuxDriver.Runs

variable {σ α : Type}

/-- Take the actions one after another. A `none` of `step` says that the
action is not possible in that state. -/
def run (step : σ → α → Option σ) : σ → List α → Option σ
  | s, [] => some s
  | s, a :: as => (step s a).bind (fun t => run step t as)

theorem run_cons {step : σ → α → Option σ} {s u : σ} {a : α} {as : List α}
    (h : run step s (a :: as) = some u) : ∃ t, step s a = some t ∧ run step t as = some u :=
  Option.bind_eq_some_iff.mp h

theorem run_cons_of_step {step : σ → α → Option σ} {s t : σ} {a : α} (as : List α)
    (h : step s a = some t) : run step s (a :: as) = run step t as := by
  simp only [run, h, Option.bind_some]

theorem run_append (step : σ → α → Option σ) (s : σ) (as bs : List α) :
    run step s (as ++ bs) = (run step s as).bind (fun t => run step t bs) := by
  induction as generalizing s with
  | nil => rfl
  | cons a as ih =>
    cases h : step s a with
    | none => simp only [List.cons_append, run, h, Option.bind_none]
    | some t => simp only [List.cons_append, run_cons_of_step _ h, ih]

/-- Every step of the run is taken in a state in which `ok` allows it. -/
def Meets (step : σ → α → Option σ) (ok : σ → α → Prop) : σ → List α → Prop
  | _, [] => True
  | s, a :: as => ok s a ∧ ∀ t, step s a = some t → Meets step ok t as

theorem meets_of_forall {step : σ → α → Option σ} {ok : σ → α → Prop} (h : ∀ s a, ok s a)
    (s : σ) (as : List α) : Meets step ok s as := by
  induction as generalizing s with
  | nil => trivial
  | cons a as ih => exact ⟨h s a, fun t _ => ih t⟩

theorem meets_of_forall_mem {step : σ → α → Option σ} {ok : α → Prop} {as : List α}
    (h : ∀ a ∈ as, ok a) (s : σ) : Meets step (fun _ => ok) s as := by
  induction as generalizing s with
  | nil => trivial
  | cons a as ih =>
    exact ⟨h a List.mem_cons_self, fun t _ => ih (fun b hb => h b (List.mem_cons_of_mem a hb)) t⟩

instance decidableMeets {step : σ → α → Option σ} {ok : σ → α → Prop}
    [∀ s a, Decidable (ok s a)] : (s : σ) → (as : List α) → Decidable (Meets step ok s as)
  | _, [] => isTrue trivial
  | s, a :: as =>
    if hok : ok s a then
      match hst : step s a with
      | none => isTrue ⟨hok, fun t ht => by rw [hst] at ht; cases ht⟩
      | some t =>
        match decidableMeets t as with
        | isTrue h => isTrue ⟨hok, fun u hu => by rw [hst] at hu; cases hu; exact h⟩
        | isFalse h => isFalse (fun hm => h (hm.2 t hst))
    else isFalse (fun hm => hok hm.1)

/-- What holds at the start and is kept by every allowed step holds at the end
of every run of allowed steps. -/
theorem run_invariant {step : σ → α → Option σ} {ok : σ → α → Prop} {Inv : σ → Prop}
    (hstep : ∀ s a t, Inv s → ok s a → step s a = some t → Inv t) {s u : σ} {as : List α}
    (hs : Inv s) (hok : Meets step ok s as) (h : run step s as = some u) : Inv u := by
  induction as generalizing s with
  | nil =>
    cases h
    exact hs
  | cons a as ih =>
    obtain ⟨t, ht, hu⟩ := run_cons h
    exact ih (hstep s a t hs hok.1 ht) (hok.2 t ht) hu

/-- `P` holds in every state that the run passes through, its first one included. -/
def Always (step : σ → α → Option σ) (P : σ → Prop) : σ → List α → Prop
  | s, [] => P s
  | s, a :: as => P s ∧ ∀ t, step s a = some t → Always step P t as

theorem always_start {step : σ → α → Option σ} {P : σ → Prop} {s : σ} {as : List α}
    (h : Always step P s as) : P s := by
  cases as with
  | nil => exact h
  | cons a as => exact h.1

theorem always_end {step : σ → α → Option σ} {P : σ → Prop} {s u : σ} {as : List α}
    (h : Always step P s as) (hu : run step s as = some u) : P u := by
  induction as generalizing s with
  | nil =>
    cases hu
    exact h
  | cons a as ih =>
    obtain ⟨t, ht, hu⟩ := run_cons hu
    exact ih (h.2 t ht) hu

theorem always_of_meets {step : σ → α → Option σ} {ok : σ → α → Prop} {Inv : σ → Prop}
    (hstep : ∀ s a t, Inv s → ok s a → step s a = some t → Inv t) {s : σ} {as : List α}
    (hs : Inv s) (hok : Meets step ok s as) : Always step Inv s as := by
  induction as generalizing s with
  | nil => exact hs
  | cons a as ih => exact ⟨hs, fun t ht => ih (hstep s a t hs hok.1 ht) (hok.2 t ht)⟩

theorem always_mono {step : σ → α → Option σ} {P Q : σ → Prop} (hPQ : ∀ s, P s → Q s)
    {s : σ} {as : List α} (h : Always step P s as) : Always step Q s as := by
  induction as generalizing s with
  | nil => exact hPQ s h
  | cons a as ih => exact ⟨hPQ s h.1, fun t ht => ih (h.2 t ht)⟩

/-- Under an invariant one condition on the steps may imply another. -/
theorem meets_of_meets {step : σ → α → Option σ} {ok ok' : σ → α → Prop} {Inv : σ → Prop}
    (hstep : ∀ s a t, Inv s → ok s a → step s a = some t → Inv t)
    (himp : ∀ s a, Inv s → ok s a → ok' s a) {s : σ} {as : List α} (hs : Inv s)
    (hok : Meets step ok s as) : Meets step ok' s as := by
  induction as generalizing s with
  | nil => trivial
  | cons a as ih =>
    exact ⟨himp s a hs hok.1, fun t ht => ih (hstep s a t hs hok.1 ht) (hok.2 t ht)⟩

/-- `P` holds along a run of actions in `D` exactly when every step of it is allowed, if
from a state with the invariant a step that is not allowed can be taken and breaks `P`. -/
theorem always_iff_meets_of_mem {step : σ → α → Option σ} {D : α → Prop} {ok : σ → α → Prop}
    {Inv P : σ → Prop} (hInv : ∀ s, Inv s → P s)
    (hok : ∀ s a t, Inv s → D a → ok s a → step s a = some t → Inv t)
    (hbad : ∀ s a, Inv s → D a → ¬ ok s a → ∃ t, step s a = some t ∧ ¬ P t) {s : σ} (as : List α)
    (hD : ∀ a ∈ as, D a) (hs : Inv s) :
    Always step P s as ↔ Meets step ok s as := by
  induction as generalizing s with
  | nil => exact ⟨fun _ => trivial, fun _ => hInv s hs⟩
  | cons a as ih =>
    have ha := hD a List.mem_cons_self
    have hrest : ∀ b ∈ as, D b := fun b hb => hD b (List.mem_cons_of_mem a hb)
    constructor
    · rintro ⟨-, hall⟩
      have hallowed : ok s a := by
        by_contra hno
        obtain ⟨t, ht, hP⟩ := hbad s a hs ha hno
        exact hP (always_start (hall t ht))
      exact ⟨hallowed, fun t ht => (ih hrest (hok s a t hs ha hallowed ht)).mp (hall t ht)⟩
    · rintro ⟨hallowed, hall⟩
      exact ⟨hInv s hs, fun t ht => (ih hrest (hok s a t hs ha hallowed ht)).mpr (hall t ht)⟩

theorem always_iff_meets {step : σ → α → Option σ} {ok : σ → α → Prop} {Inv P : σ → Prop}
    (hInv : ∀ s, Inv s → P s)
    (hok : ∀ s a t, Inv s → ok s a → step s a = some t → Inv t)
    (hbad : ∀ s a, Inv s → ¬ ok s a → ∃ t, step s a = some t ∧ ¬ P t) {s : σ} (as : List α)
    (hs : Inv s) :
    Always step P s as ↔ Meets step ok s as :=
  always_iff_meets_of_mem hInv (fun s a t h _ => hok s a t h) (fun s a h _ => hbad s a h) as
    (fun _ _ => trivial) hs

end LinuxDriver.Runs
