import Mathlib.Algebra.Group.Nat.Defs

namespace Tmite.Proto

/-!
# Protocol limits (`tmite-proto/src/limits.rs`)

Sizes are bytes or counts; every duration is in milliseconds, the unit of the model's clock.
-/

/-! ### Sizes and counts -/

def maxControlFrame : ℕ := 4 * 1024
def maxTargetLen : ℕ := 256
def maxPendingInvites : ℕ := 8
def maxPeers : ℕ := 256
def maxRules : ℕ := 1024
def inviteCodeEntropy : ℕ := 5

/-! ### Durations -/

def promptTimeout : ℕ := 120 * 1000
def pairingReadTimeout : ℕ := 30 * 1000
def rejectDelayInitial : ℕ := 500
def rejectDelayMax : ℕ := 8 * 1000

/-- Times to live, in seconds. -/
def defaultInviteTtl : ℕ := 900
def maxInviteTtl : ℕ := 3600

/-- The pairing protocol version both sides compare (`CODE_VERSION`). -/
def codeVersion : UInt16 := 1

end Tmite.Proto
