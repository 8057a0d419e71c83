import MiniPush.Basic

/-! The command line flags of `main.go`, which of them `validateFlags` accepts, and the cutoff that
`Stats` and `GetReadStates` compute from the TTL. -/
namespace MiniPush

namespace Flags

end Flags

/-- `WsConf.EventTtlDays`, as `run` converts the flag. -/
def eventTtlDays (days : UInt64) : ℤ := int32 days.toNat

section Cutoff
variable {loc : Time.Location}

end Cutoff

end MiniPush
