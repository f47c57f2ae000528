import SurfaceReport.Image.Number
import SurfaceReport.Text.Utf16

/-!
# Literals

Programs keep the texts that they use in a heap of their own. An entry has its size in front: that
of the text in units of two bytes, and of one more byte with a note on it. Nothing refers to the
entries from here, so that they can be found only one behind the other. Bytes of zero fill the heap
up, and mean nothing.
-/

namespace SurfaceReport

namespace Image

/-- The texts of a heap of literals in their order, up to an entry that cannot be one. -/
def literals (heap : Bytes) : List Bytes :=
  match h : compressed? heap with
  | none => []
  | some (size, rest) =>
    have : rest.length < heap.length := compressed?_length h
    if size = 0 then literals rest
    else if size ≤ rest.length ∧ size % 2 = 1 then
      rest.take (size - 1) :: literals (rest.drop size)
    else []
termination_by heap.length
decreasing_by
  · omega
  · simp only [List.length_drop]
    omega

end Image

end SurfaceReport
