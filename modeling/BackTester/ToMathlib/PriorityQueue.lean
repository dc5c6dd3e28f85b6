import Mathlib.Data.Multiset.AddSub

/-! # Priority queues

A queue of keys that gives out a greatest one for `less`, the strict comparison that it was made
with. Which one of several that are level comes out first is left to the implementation, but it is a
function of what was done before.
-/

class PriorityQueue (Heap : Type*) {Key : outParam Type*} (less : outParam (Key → Key → Bool)) where
  empty : Heap
  push : Heap → Key → Heap
  top : Heap → Option Key
  pop : Heap → Heap
  keys : Heap → Multiset Key
  keys_empty : keys empty = 0
  keys_push (heap : Heap) (key : Key) : keys (push heap key) = key ::ₘ keys heap
  keys_of_top_none {heap : Heap} (none : top heap = none) : keys heap = 0
  keys_pop {heap : Heap} {key : Key} (isTop : top heap = some key) : keys heap = key ::ₘ keys (pop heap)
  not_less_top {heap : Heap} {key other : Key} (isTop : top heap = some key) (isIn : other ∈ keys heap) :
    less key other = false
