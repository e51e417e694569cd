import DramCache.Admission
import DramCache.LlcSteps

/-!
# Flow control

`get_occupancy` reports a full queue exactly when the next `add_rq` or
`add_wq` of that address is refused. `handle_read`, `handle_prefetch`,
`handle_fill` and `handle_writeback` of the last-level cache test that and
never look at what the call returns; `HandsDown` says what comes of a miss
or a dirty victim there. Either the manager takes it, or the cache is left
as it was and finds the entry in its queue the next time.
-/

namespace DramCache

open Worklist (Reaches)

/-! ## Occupancy and size -/

namespace Sys

end Sys

/-! ## The gates of the cache -/

namespace Llc

variable {s : Sys}

section Gates

variable {l : Llc} {way : Nat} (hs : s.Live) (h : OrbInv .calm s.dcm.core)

include hs h

end Gates

end Llc

variable {allow : Op → Prop} {s₀ : Sys}

end DramCache
