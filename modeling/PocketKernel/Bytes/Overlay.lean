/-!
# Overlaying one row of cells on another

A write into a fixed-size area replaces a stretch of it and leaves the length alone. `overlay`
is that operation on lists: it never makes the base longer, so what would stick out is cut off.

## Main results

* `length_overlay`: the length is that of the base.
-/

namespace PocketKernel.Bytes

variable {α : Type}

/-- `overlay base start data` replaces the cells of `base` from position `start` on by `data`. -/
def overlay (base : List α) (start : Nat) (data : List α) : List α :=
  base.take start ++ data.take (base.length - start) ++ base.drop (start + data.length)

@[simp] theorem length_overlay (base : List α) (start : Nat) (data : List α) :
    (overlay base start data).length = base.length := by
  simp only [overlay, List.length_append, List.length_take, List.length_drop]
  omega

end PocketKernel.Bytes
