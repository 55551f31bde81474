import Mathlib.Data.List.Induction

namespace LinuxDriver.Latches

/-- A bit that events set and clear; an event that does both clears it. -/
structure Latch (α : Type) where
  sets : α → Bool
  clears : α → Bool

variable {α : Type}

def Latch.next (l : Latch α) (b : Bool) (e : α) : Bool := (b || l.sets e) && !l.clears e

def Latch.level (l : Latch α) (b : Bool) (es : List α) : Bool := es.foldl l.next b

def Latch.names (l : Latch α) (e : α) : Bool := l.sets e || l.clears e

/-- What the last event that names the latch asks for, or `b` if none does. -/
def Latch.asked (l : Latch α) (b : Bool) (es : List α) : Bool :=
  ((es.filter l.names).getLast?.map (fun e => !l.clears e)).getD b

def Latch.join (l m : Latch α) : Latch α :=
  ⟨fun e => l.sets e || m.sets e, fun e => l.clears e || m.clears e⟩

theorem level_append (l : Latch α) (b : Bool) (es : List α) (e : α) :
    l.level b (es ++ [e]) = l.next (l.level b es) e := by
  rw [Latch.level, List.foldl_append]
  rfl

theorem next_of_names {l : Latch α} {e : α} (h : l.names e = true) (b : Bool) :
    l.next b e = !l.clears e := by
  rw [Latch.names] at h
  rw [Latch.next]
  cases hc : l.clears e with
  | true => rw [Bool.not_true, Bool.and_false]
  | false =>
    rw [hc, Bool.or_false] at h
    rw [h, Bool.or_true, Bool.not_false, Bool.and_true]

theorem next_of_not_names {l : Latch α} {e : α} (h : l.names e = false) (b : Bool) :
    l.next b e = b := by
  obtain ⟨hs, hc⟩ := Bool.or_eq_false_iff.mp h
  rw [Latch.next, hs, hc, Bool.or_false, Bool.not_false, Bool.and_true]

/-- Only the last event that names the latch counts. -/
theorem level_eq_asked (l : Latch α) (b : Bool) (es : List α) : l.level b es = l.asked b es := by
  induction es using List.reverseRecOn with
  | nil => rfl
  | append_singleton es e ih =>
    rw [level_append, Latch.asked, List.filter_append]
    cases h : l.names e with
    | true =>
      rw [next_of_names h, List.filter_cons_of_pos h, List.filter_nil, List.getLast?_concat]
      rfl
    | false =>
      have hnone : [e].filter l.names = [] := List.filter_cons_of_neg (by simp [h])
      rw [next_of_not_names h, hnone, List.append_nil, ih]
      rfl

end LinuxDriver.Latches
