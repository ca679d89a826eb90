import SaneBackends.Lib.Cells
/-!
# Images in memory

What `SANE_Parameters` say of an image that a frontend or a filter works on. Sizes are those of
images that fit into memory, so that no `int` wraps.
-/

namespace SaneBackends.Sanei

inductive SaneFrame where
  | gray | rgb | red | green | blue
  deriving DecidableEq, Repr

structure ImageParams where
  format : SaneFrame := .gray
  bytesPerLine : Nat
  pixelsPerLine : Nat
  lines : Nat
  depth : Nat := 8
  deriving DecidableEq, Repr

/-- How many pixels there are. -/
def ImageParams.pixels (params : ImageParams) : Nat := params.lines * params.pixelsPerLine

end SaneBackends.Sanei
