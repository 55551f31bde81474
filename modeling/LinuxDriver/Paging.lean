import Mathlib.Data.Finset.Sort

namespace LinuxDriver.Paging

variable {α : Type} [LinearOrder α]

/-- The `limit` smallest keys not below `first`, in increasing order. -/
def page (keys : Finset α) (first : α) (limit : Nat) : List α :=
  ((keys.filter (first ≤ ·)).sort (· ≤ ·)).take limit

theorem mem_of_mem_page {keys : Finset α} {first key : α} {limit : Nat}
    (h : key ∈ page keys first limit) : key ∈ keys ∧ first ≤ key := by
  have hs := List.mem_of_mem_take h
  rw [Finset.mem_sort, Finset.mem_filter] at hs
  exact hs

theorem page_sorted (keys : Finset α) (first : α) (limit : Nat) :
    (page keys first limit).Pairwise (· < ·) :=
  (Finset.sortedLT_sort _).pairwise.take

theorem page_nodup (keys : Finset α) (first : α) (limit : Nat) : (page keys first limit).Nodup :=
  (page_sorted keys first limit).imp (fun h => ne_of_lt h)

theorem lt_of_not_mem_page {keys : Finset α} {first key : α} {limit : Nat} (hk : key ∈ keys)
    (hfirst : first ≤ key) (hnot : key ∉ page keys first limit) :
    (page keys first limit).length = limit ∧ ∀ x, x ∈ page keys first limit → x < key := by
  have hmem : key ∈ (keys.filter (first ≤ ·)).sort (· ≤ ·) := by
    rw [Finset.mem_sort, Finset.mem_filter]
    exact ⟨hk, hfirst⟩
  have hdrop : key ∈ ((keys.filter (first ≤ ·)).sort (· ≤ ·)).drop limit := by
    rw [← List.take_append_drop limit ((keys.filter (first ≤ ·)).sort (· ≤ ·)),
      List.mem_append] at hmem
    exact hmem.resolve_left hnot
  constructor
  · have hlen := List.length_pos_of_mem hdrop
    rw [List.length_drop] at hlen
    rw [page, List.length_take]
    omega
  · have hsorted := (Finset.sortedLT_sort (keys.filter (first ≤ ·))).pairwise
    rw [← List.take_append_drop limit ((keys.filter (first ≤ ·)).sort (· ≤ ·)),
      List.pairwise_append] at hsorted
    exact fun x hx => hsorted.2.2 x hx key hdrop

end LinuxDriver.Paging
