import LinuxDriver.Holding

namespace LinuxDriver.Unwind

open Holding

variable {ρ : Type} {r : ρ} {rs ss : List ρ} {h : Resources ρ}

/-- Exactly the resources `rs` are held, and none was ever misused. What is acquired
comes in front, as on a stack, so that a release in the reverse order finds it there. -/
structure Holds (rs : List ρ) (h : Resources ρ) : Prop where
  perm : h.held.Perm rs
  clean : h.misused = false

theorem holds_empty : Holds ([] : List ρ) Resources.empty := ⟨.nil, rfl⟩

theorem Holds.of_perm (hh : Holds rs h) (hp : rs.Perm ss) : Holds ss h :=
  ⟨hh.perm.trans hp, hh.clean⟩

theorem Holds.mem (hh : Holds rs h) : r ∈ h.held ↔ r ∈ rs := hh.perm.mem_iff

theorem Holds.acquire (hh : Holds rs h) : Holds (r :: rs) (h.acquire r) :=
  ⟨(List.perm_append_singleton r h.held).trans (hh.perm.cons r), hh.clean⟩

theorem Holds.not_misused (hh : Holds rs h) : ¬ h.misused = true :=
  fun hm => Bool.noConfusion (hm.symm.trans hh.clean)

theorem Holds.length_eq (hh : Holds rs h) (hh' : Holds ss h) : rs.length = ss.length :=
  (hh.perm.symm.trans hh'.perm).length_eq

variable [DecidableEq ρ]

theorem Holds.release (hh : Holds (r :: rs) h) : Holds rs (h.release r) := by
  have hr : r ∈ h.held := hh.mem.mpr List.mem_cons_self
  rw [release_of_mem hr]
  refine ⟨?_, hh.clean⟩
  have hp := hh.perm.erase r
  rwa [List.erase_cons_head] at hp

theorem Holds.release_under (ss : List ρ) (hh : Holds (ss ++ r :: rs) h) :
    Holds (ss ++ rs) (h.release r) :=
  (hh.of_perm List.perm_middle).release

theorem Holds.use (hh : Holds rs h) (hr : r ∈ rs) : Holds rs (h.use r) := by
  rw [use_of_mem (hh.mem.mpr hr)]
  exact hh

theorem Holds.use_misused (hh : Holds rs h) (hr : r ∉ rs) : (h.use r).misused = true := by
  rw [use_of_not_mem (fun hm => hr (hh.mem.mp hm))]

end LinuxDriver.Unwind
