/-
  THE FACT SUMMARY of an approval (`PendingApproval::fact_summary` of `vellaveto-approval/src/lib.rs`):
  what a human reviewer reads.  The headline quotes the first 80 BYTES of the reason.
-/
import Vellaveto.Approval.Types
import Vellaveto.Lib.Slice

namespace Vellaveto.Approval

open Vellaveto.Lib

/-! ### Debug texts -/

end Vellaveto.Approval
