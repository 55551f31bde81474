import Mathlib.Data.List.Perm.Basic

namespace LinuxDriver.Holding

variable {ρ : Type} [DecidableEq ρ]

/-- The resources held, and whether one was ever used or released that was not. -/
structure Resources (ρ : Type) where
  held : List ρ
  misused : Bool

def Resources.empty : Resources ρ := ⟨[], false⟩

def Resources.acquire (r : ρ) (h : Resources ρ) : Resources ρ := { h with held := h.held ++ [r] }

def Resources.release (r : ρ) (h : Resources ρ) : Resources ρ :=
  if r ∈ h.held then { h with held := h.held.erase r } else { h with misused := true }

def Resources.use (r : ρ) (h : Resources ρ) : Resources ρ :=
  if r ∈ h.held then h else { h with misused := true }

def Resources.releaseAll (rs : List ρ) (h : Resources ρ) : Resources ρ :=
  rs.foldl (fun h r => h.release r) h

theorem release_of_mem {r : ρ} {h : Resources ρ} (hr : r ∈ h.held) :
    h.release r = ⟨h.held.erase r, h.misused⟩ := if_pos hr

theorem release_of_not_mem {r : ρ} {h : Resources ρ} (hr : r ∉ h.held) :
    h.release r = ⟨h.held, true⟩ := if_neg hr

theorem use_of_mem {r : ρ} {h : Resources ρ} (hr : r ∈ h.held) : h.use r = h := if_pos hr

theorem use_of_not_mem {r : ρ} {h : Resources ρ} (hr : r ∉ h.held) :
    h.use r = ⟨h.held, true⟩ := if_neg hr

theorem mem_release_of_ne {r x : ρ} {h : Resources ρ} (hx : x ∈ h.held) (hne : x ≠ r) :
    x ∈ (h.release r).held := by
  by_cases hr : r ∈ h.held
  · rw [release_of_mem hr]
    exact (List.mem_erase_of_ne hne).mpr hx
  · rw [release_of_not_mem hr]
    exact hx

theorem misused_release {r : ρ} {h : Resources ρ} (hm : h.misused = true) :
    (h.release r).misused = true := by
  rw [Resources.release]
  split
  · exact hm
  · rfl

theorem releaseAll_nil (h : Resources ρ) : h.releaseAll [] = h := rfl

theorem releaseAll_append (rs ss : List ρ) (h : Resources ρ) :
    h.releaseAll (rs ++ ss) = (h.releaseAll rs).releaseAll ss := List.foldl_append

theorem releaseAll_cons (r : ρ) (rs : List ρ) (h : Resources ρ) :
    h.releaseAll (r :: rs) = (h.release r).releaseAll rs := rfl

/-- Releasing `rs` one by one ends with nothing held and nothing misused exactly
when `rs` is what was held, each as often as it was held. -/
theorem releaseAll_eq_empty (rs : List ρ) (h : Resources ρ) :
    h.releaseAll rs = Resources.empty ↔ h.held.Perm rs ∧ h.misused = false := by
  induction rs generalizing h with
  | nil =>
    obtain ⟨held, misused⟩ := h
    simp [Resources.releaseAll, Resources.empty]
  | cons r rs ih =>
    rw [releaseAll_cons, ih]
    have hcons : h.held.Perm (r :: rs) ↔ r ∈ h.held ∧ (h.held.erase r).Perm rs := by
      rw [List.perm_comm, List.cons_perm_iff_perm_erase, List.perm_comm]
    by_cases hr : r ∈ h.held
    · rw [release_of_mem hr, hcons]
      exact and_congr_left' (iff_and_self.mpr (fun _ => hr))
    · rw [release_of_not_mem hr]
      constructor
      · intro hno
        exact absurd hno.2 Bool.noConfusion
      · intro hp
        exact absurd (hp.1.mem_iff.mpr List.mem_cons_self) hr

theorem misused_use {r : ρ} {h : Resources ρ} (hm : h.misused = true) :
    (h.use r).misused = true := by
  rw [Resources.use]
  split
  · exact hm
  · rfl

theorem held_use (r : ρ) (h : Resources ρ) : (h.use r).held = h.held := by
  rw [Resources.use]
  split <;> rfl

theorem use_use (r : ρ) (h : Resources ρ) : (h.use r).use r = h.use r := by
  by_cases hr : r ∈ h.held
  · rw [use_of_mem hr, use_of_mem hr]
  · rw [use_of_not_mem hr]
    exact use_of_not_mem hr

inductive Op (ρ : Type)
  | acquire (r : ρ)
  | release (r : ρ)
  | use (r : ρ)
  deriving DecidableEq

def Resources.apply (h : Resources ρ) : Op ρ → Resources ρ
  | .acquire r => h.acquire r
  | .release r => h.release r
  | .use r => h.use r

def Resources.applyAll (ops : List (Op ρ)) (h : Resources ρ) : Resources ρ :=
  ops.foldl Resources.apply h

theorem applyAll_append (ops ops' : List (Op ρ)) (h : Resources ρ) :
    h.applyAll (ops ++ ops') = (h.applyAll ops).applyAll ops' := List.foldl_append

theorem misused_apply {o : Op ρ} {h : Resources ρ} (hm : h.misused = true) :
    (h.apply o).misused = true := by
  cases o with
  | acquire r => exact hm
  | release r => exact misused_release hm
  | use r => exact misused_use hm

theorem misused_applyAll {ops : List (Op ρ)} {h : Resources ρ} (hm : h.misused = true) :
    (h.applyAll ops).misused = true := by
  induction ops generalizing h with
  | nil => exact hm
  | cons o ops ih => exact ih (misused_apply hm)

end LinuxDriver.Holding
