import TetCore.Lib.Text

/-!
# The limits of the Tmail store

The constants of `tmail/store.rs` with the environment variables that override them, and the errors
of the store. A variable that is unset, does not parse or is `0` leaves its default (`env_usize`,
`env_u64`), so every limit is positive.
-/

namespace TetCore.Tmail

open TetCore.Lib

/-- The variables the store reads, as parsed. -/
structure Vars where
  maxEntries : Option Nat := none
  defaultTtlMs : Option Nat := none
  maxTtlMs : Option Nat := none
  retainPerConversation : Option Nat := none
  anonRetainPerDailyId : Option Nat := none
  anonRetainPerReceiver : Option Nat := none
  anonMaxMembers : Option Nat := none
  anonRootWindowMs : Option Nat := none
  anonRootHistory : Option Nat := none
  anonEpochMs : Option Nat := none
  anonUpdateCooldownMs : Option Nat := none
  fastPendingTtlMs : Option Nat := none

/-- `env_usize`, `env_u64`. -/
def envOr (v : Option Nat) (default : Nat) : Nat := (v.filter (0 < ·)).getD default

def Vars.maxEntriesCap (E : Vars) : Nat := envOr E.maxEntries 50000

def Vars.retainConversation (E : Vars) : Nat := envOr E.retainPerConversation 5

def Vars.retainDailyId (E : Vars) : Nat := envOr E.anonRetainPerDailyId 20

def Vars.retainReceiver (E : Vars) : Nat := envOr E.anonRetainPerReceiver 100

def Vars.maxMembers (E : Vars) : Nat := envOr E.anonMaxMembers 50000

def Vars.rootWindowMs (E : Vars) : Nat := envOr E.anonRootWindowMs (60 * 60 * 1000)

def Vars.rootCacheCap (E : Vars) : Nat := envOr E.anonRootHistory 512

def Vars.epochMs (E : Vars) : Nat := envOr E.anonEpochMs 60000

def Vars.updateCooldownMs (E : Vars) : Nat := envOr E.anonUpdateCooldownMs (24 * 60 * 60 * 1000)

def Vars.pendingTtlMs (E : Vars) : Nat := envOr E.fastPendingTtlMs (10 * 60 * 1000)

/-- `effective_ttl_ms`: `0` (unset) is the default, anything else is capped. -/
def Vars.effectiveTtlMs (E : Vars) (ttlMs : Nat) : Nat :=
  let max := envOr E.maxTtlMs (30 * 24 * 60 * 60 * 1000)
  if ttlMs = 0 then min (envOr E.defaultTtlMs (7 * 24 * 60 * 60 * 1000)) max else min ttlMs max

/-- `tmail_bucket_index_v1`: the UTC day of an instant. -/
def bucketIndex (atMs : Nat) : Nat := atMs / (24 * 60 * 60 * 1000)

/-- `TmailStoreError`, less the failures of the database. -/
inductive TmailStoreError where
  | emptyMsgId
  | invalidReceiver
  | full (maxEntries : Nat)
  | pollBallot (reason : Str)
  | fastPost (reason : Str)
  | shelter (reason : Str)
  deriving DecidableEq

end TetCore.Tmail
