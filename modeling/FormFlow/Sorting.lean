/-!
# Stable sorting

Sorting by a comparison that answers "may stand before", with equal elements in the order they had.

`List.mergeSort` sorts the same way, and the theory is its; but its recursion is no reduction of the kernel, in
which closed applications are compiled and run.  So the program inserts, and `sortBy_eq_mergeSort` says that it
makes no difference.

## Principal results

* `sortBy_eq_mergeSort` — for a total and transitive comparison inserting is merge sort.
-/

namespace FormFlow

variable {α : Type}

/-- Insert before the first element that the new one may stand before. -/
def insertBy (le : α → α → Bool) (a : α) : List α → List α
  | [] => [a]
  | b :: bs => if le a b then a :: b :: bs else b :: insertBy le a bs

/-- Sort, keeping the order of equal elements. -/
def sortBy (le : α → α → Bool) : List α → List α
  | [] => []
  | a :: as => insertBy le a (sortBy le as)

/-- Insertion passes by what the new element may not stand before. -/
theorem insertBy_append {le : α → α → Bool} {a : α} {front back : List α} (hfront : ∀ b ∈ front, le a b = false)
    (hback : ∀ b ∈ back, le a b = true) : insertBy le a (front ++ back) = front ++ a :: back := by
  induction front with
  | nil =>
    cases back with
    | nil => rfl
    | cons b back => exact if_pos (hback b (List.mem_cons_self ..))
  | cons b front ih =>
    have hb := hfront b (List.mem_cons_self ..)
    rw [List.cons_append, insertBy, hb, ih fun c hc => hfront c (List.mem_cons_of_mem _ hc)]
    rfl

/-- For a total and transitive comparison inserting one element after another is merge sort. -/
theorem sortBy_eq_mergeSort {le : α → α → Bool} (total : ∀ a b, le a b = true ∨ le b a = true)
    (trans : ∀ a b c, le a b = true → le b c = true → le a c = true) (as : List α) :
    sortBy le as = as.mergeSort le := by
  have htotal : ∀ a b, (le a b || le b a) = true := fun a b => Bool.or_eq_true_iff.2 (total a b)
  induction as with
  | nil => exact List.mergeSort_nil.symm
  | cons a as ih =>
    obtain ⟨front, back, hsorted, hrest, hfront⟩ := List.mergeSort_cons trans htotal a as
    have hpairwise := List.pairwise_mergeSort trans htotal (a :: as)
    rw [hsorted, List.pairwise_append, List.pairwise_cons] at hpairwise
    rw [sortBy, ih, hrest, hsorted]
    exact insertBy_append (fun b hb => by simpa using hfront b hb) hpairwise.2.1.1

end FormFlow
