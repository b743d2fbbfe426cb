import Mathlib

/-!
# The offsets of embedding lists

`EmbListOffset` takes offsets from an array without a length, until one reaches the number of rows.
`data_type_conversion` copies such an array.
-/

namespace Rvanns.Knowhere.EmbListSearch

variable (rows : ℕ)

/-- `EmbListOffset(lims, rows)`; `none` if it reads past the array. -/
def embListOffset : List ℕ → Option (List ℕ)
  | [] => none
  | lim :: lims => if lim < rows then (embListOffset lims).map (lim :: ·) else some [lim]

/-- The offsets that `data_type_conversion` copies, if `lims_size` can grow by `room`. -/
def copyLims : ℕ → List ℕ → Option (List ℕ)
  | _, [] => none
  | 0, lim :: _ => some [lim]
  | room + 1, lim :: lims =>
    if lim < rows then (copyLims room lims).map (lim :: ·) else some [lim]

/-- The offsets that `data_type_conversion` sets; it returns `nullptr` if there are no rows. -/
def dataTypeConversion (lims : List ℕ) : Option (Option (List ℕ)) :=
  if rows = 0 then some none else (copyLims rows rows lims).map some

end Rvanns.Knowhere.EmbListSearch
