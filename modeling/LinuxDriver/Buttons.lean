import LinuxDriver.Runs
import Mathlib.Algebra.Group.Nat.Even
import Mathlib.Data.Fin.Basic

namespace LinuxDriver.Buttons

open Runs

inductive Pin
  | gpf0
  | gpf2
  | gpg3
  | gpg11
deriving DecidableEq

def keyL : Nat := 38
def keyS : Nat := 31
def keySpace : Nat := 57
def keyEnter : Nat := 28

structure PingDesc where
  pin : Pin
  button : Nat

def buttonsDesc : Fin 4 → PingDesc
  | 0 => ⟨.gpf0, keyL⟩
  | 1 => ⟨.gpf2, keyS⟩
  | 2 => ⟨.gpg3, keySpace⟩
  | 3 => ⟨.gpg11, keyEnter⟩

structure InputEvent where
  code : Nat
  value : Nat

/-- The levels of the pins, `buttons_id`, whether `buttons_timer` is pending, and
the events that `buttons_dev` has got. -/
structure State where
  level : Pin → Bool
  buttonsId : Fin 4
  pending : Bool
  events : List InputEvent

def buttonsIrq (devId : Fin 4) (s : State) : State :=
  { s with buttonsId := devId, pending := true }

def buttonsTimerFunction (s : State) : State :=
  let d := buttonsDesc s.buttonsId
  let value := if s.level d.pin then 0 else 1
  { s with events := s.events ++ [⟨d.button, value⟩] }

def edge (b : Fin 4) (s : State) : State :=
  let pin := (buttonsDesc b).pin
  buttonsIrq b { s with level := Function.update s.level pin (!s.level pin) }

def lastReported (s : State) (b : Fin 4) : Nat :=
  ((s.events.filter (fun e => e.code = (buttonsDesc b).button)).getLast?.map
    InputEvent.value).getD 0

/-- The driver with the edges since the timer last ran out. -/
structure Sys where
  st : State
  burst : List (Fin 4)

inductive Act
  | edge (b : Fin 4)
  | expire

def step (c : Sys) : Act → Option Sys
  | .edge b => some ⟨edge b c.st, c.burst ++ [b]⟩
  | .expire =>
    if c.st.pending then some ⟨buttonsTimerFunction { c.st with pending := false }, []⟩ else none

def Sys.start (id : Fin 4) : Sys := ⟨⟨fun _ => true, id, false, []⟩, []⟩

/-- When the timer is not pending, no edge is missing from the reports. -/
def Reported (c : Sys) : Prop :=
  c.st.pending = false → ∀ b, lastReported c.st b = 1 ↔ c.st.level (buttonsDesc b).pin = false

/-- The timer runs out only when all buttons but the one in `buttons_id` have had
an even number of edges, and so are back where they were last reported. -/
def Allowed (c : Sys) : Act → Prop
  | .edge _ => True
  | .expire => ∀ b, b ≠ c.st.buttonsId → Even (c.burst.count b)

theorem pin_injective {a b : Fin 4} (h : (buttonsDesc a).pin = (buttonsDesc b).pin) : a = b := by
  revert a b
  decide

theorem button_injective {a b : Fin 4} (h : (buttonsDesc a).button = (buttonsDesc b).button) :
    a = b := by
  revert a b
  decide

@[simp]
theorem level_edge_self (b : Fin 4) (s : State) :
    (edge b s).level (buttonsDesc b).pin = !s.level (buttonsDesc b).pin :=
  Function.update_self ..

theorem level_edge_of_ne {a b : Fin 4} (s : State) (h : a ≠ b) :
    (edge b s).level (buttonsDesc a).pin = s.level (buttonsDesc a).pin :=
  Function.update_of_ne (fun hp => h (pin_injective hp)) _ _

theorem lastReported_edge (a b : Fin 4) (s : State) :
    lastReported (edge b s) a = lastReported s a := rfl

theorem lastReported_timer_self (s : State) :
    lastReported (buttonsTimerFunction s) s.buttonsId =
      if s.level (buttonsDesc s.buttonsId).pin then 0 else 1 := by
  simp [lastReported, buttonsTimerFunction, List.filter_append]

theorem lastReported_timer_of_ne {s : State} {b : Fin 4} (h : b ≠ s.buttonsId) :
    lastReported (buttonsTimerFunction s) b = lastReported s b := by
  have hne : (buttonsDesc s.buttonsId).button ≠ (buttonsDesc b).button :=
    fun he => h (button_injective he).symm
  simp [lastReported, buttonsTimerFunction, List.filter_append, hne]

def Agrees (s : State) (b : Fin 4) : Prop :=
  lastReported s b = 1 ↔ s.level (buttonsDesc b).pin = false

theorem agrees_edge_self (b : Fin 4) (s : State) : Agrees (edge b s) b ↔ ¬ Agrees s b := by
  simp only [Agrees, lastReported_edge, level_edge_self]
  cases s.level (buttonsDesc b).pin <;> simp

theorem agrees_edge_of_ne {a b : Fin 4} (s : State) (h : a ≠ b) :
    Agrees (edge b s) a ↔ Agrees s a := by
  simp only [Agrees, lastReported_edge, level_edge_of_ne s h]

theorem agrees_timer_self (s : State) : Agrees (buttonsTimerFunction s) s.buttonsId := by
  rw [Agrees, lastReported_timer_self]
  change _ ↔ s.level (buttonsDesc s.buttonsId).pin = false
  cases s.level (buttonsDesc s.buttonsId).pin <;> simp

theorem agrees_timer_of_ne {s : State} {b : Fin 4} (h : b ≠ s.buttonsId) :
    Agrees (buttonsTimerFunction s) b ↔ Agrees s b := by
  rw [Agrees, lastReported_timer_of_ne h]
  rfl

structure Inv (c : Sys) : Prop where
  agrees : ∀ b, Agrees c.st b ↔ Even (c.burst.count b)
  pending : c.st.pending = false ↔ c.burst = []

theorem inv_start (id : Fin 4) : Inv (Sys.start id) where
  agrees b := by simp [Agrees, Sys.start, lastReported]
  pending := by simp [Sys.start]

theorem edge_inv {c : Sys} (h : Inv c) (b : Fin 4) : Inv ⟨edge b c.st, c.burst ++ [b]⟩ where
  agrees a := by
    by_cases hab : a = b
    · subst hab
      rw [agrees_edge_self, h.agrees, List.count_append, List.count_singleton_self,
        Nat.even_add_one]
    · rw [agrees_edge_of_ne _ hab, h.agrees, List.count_append,
        List.count_singleton.trans (if_neg (by simpa using Ne.symm hab)), Nat.add_zero]
  pending := by simp [edge, buttonsIrq]

theorem agrees_expire {c : Sys} (h : Inv c) (b : Fin 4) :
    Agrees (buttonsTimerFunction { c.st with pending := false }) b ↔
      (b ≠ c.st.buttonsId → Even (c.burst.count b)) := by
  by_cases hb : b = c.st.buttonsId
  · subst hb
    exact ⟨fun _ hne => absurd rfl hne,
      fun _ => agrees_timer_self { c.st with pending := false }⟩
  · have hne : b ≠ ({ c.st with pending := false } : State).buttonsId := hb
    rw [agrees_timer_of_ne hne]
    exact (h.agrees b).trans ⟨fun he _ => he, fun he => he hb⟩

theorem reported_of_inv {c : Sys} (h : Inv c) : Reported c := by
  intro hp b
  apply (h.agrees b).mpr
  rw [h.pending.mp hp]
  exact Even.zero

/-- No edge is lost in a run exactly when the timer never runs out while another
button than the last one has had an odd number of edges. -/
theorem no_edge_lost (id : Fin 4) (as : List Act) :
    Always step Reported (Sys.start id) as ↔ Meets step Allowed (Sys.start id) as := by
  refine always_iff_meets (fun _ => reported_of_inv) ?_ ?_ as (inv_start id)
  · intro c a d h ha hstep
    cases a with
    | edge b =>
      cases hstep
      exact edge_inv h b
    | expire =>
      simp only [step] at hstep
      split at hstep
      · cases hstep
        refine ⟨fun b => ?_, by simp [buttonsTimerFunction]⟩
        simp only [List.count_nil, Even.zero, iff_true]
        exact (agrees_expire h b).mpr (ha b)
      · cases hstep
  · intro c a h ha
    cases a with
    | edge b => exact absurd trivial ha
    | expire =>
      have hp : c.st.pending = true := by
        by_contra hno
        apply ha
        intro b _
        rw [h.pending.mp (Bool.eq_false_of_not_eq_true hno)]
        exact Even.zero
      refine ⟨_, if_pos hp, ?_⟩
      intro hgood
      exact ha (fun b => (agrees_expire h b).mp (hgood rfl b))

theorem two_keys_lose_edge : ¬ ∀ id as, Always step Reported (Sys.start id) as := by
  intro h
  have hrun := h 0 [.edge 0, .edge 1, .expire]
  have hlast := ((hrun.2 _ rfl).2 _ rfl).2 _ rfl
  have hfirst := (hlast rfl 0).mpr rfl
  revert hfirst
  decide

end LinuxDriver.Buttons
