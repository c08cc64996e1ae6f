import Aegis.Transitions

/-!
# Restoration

What an excluded group can spoil, the admin can put right by itself: the pause
and the statuses of all investors, however many calls the group has made. What
it cannot spoil is the governance, and the balances of everybody else.
-/

set_option autoImplicit false

namespace Aegis
open HostKit

variable {Address : Type}

/-! ## The investors a call may move -/

variable [DecidableEq Address] {env env' : Env Address} {i : Signed Address}
  {is : List (Signed Address)} {S : Set Address} {admin user : Address}

end Aegis
