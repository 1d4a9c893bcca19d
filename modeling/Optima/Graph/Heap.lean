import Optima.Number.Basic

/-!
Binary heaps of labels. A heap keeps its elements in an array in which no element is less than its
parent, as far as elements can be compared: labels that are not a number are less than nothing, and
nothing is less than them. The order in which they leave the heap is then decided by the way in
which elements move, which is fixed here: an element that is added rises past its parents, and the
one that takes the place of the least sinks to the bottom along lesser children and rises again.
-/

namespace Optima.Graph.Heap

/-- A label with the number of its node. -/
abbrev Entry := Number × Int

/-- Less by label, and of equal labels by number. -/
def less (x y : Entry) : Bool := if x.1.same y.1 then x.2 < y.2 else x.1.less y.1

/-- Moves the element at a position up past greater parents. -/
def rise (heap : Array Entry) (position : Nat) : Array Entry :=
  if h : 0 < position ∧ position < heap.size then
    let parent := (position - 1) / 2
    have : parent < position := by omega
    if less heap[position] heap[parent] then rise (heap.swap position parent) parent else heap
  else heap
termination_by position

/-- Moves the element at a position down to the bottom, always past the lesser child, and from there
up again. -/
def sink : Nat → Array Entry → Nat → Array Entry
  | 0, heap, position => rise heap position
  | fuel + 1, heap, position =>
      let left := 2 * position + 1
      if h : left < heap.size then
        let child := if h' : left + 1 < heap.size then
          if less heap[left] heap[left + 1] then left else left + 1 else left
        sink fuel (heap.swapIfInBounds position child) child
      else rise heap position

/-- Adds an element. -/
def add (heap : Array Entry) (x : Entry) : Array Entry := rise (heap.push x) heap.size

/-- The element at the root, and the heap without it. -/
def take? (heap : Array Entry) : Option (Entry × Array Entry) := do
  let least ← heap[0]?
  let last ← heap.back?
  let rest := heap.pop
  return (least, if rest.isEmpty then rest else sink rest.size (rest.setIfInBounds 0 last) 0)

end Optima.Graph.Heap
