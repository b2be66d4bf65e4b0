import SoloPool.Core.Config
import SoloPool.Stratum.Validate

namespace erikslund

namespace log

/-- Printable form of untrusted text, cut at `limit` bytes. -/
def sanitize (value : Text) (limit : Nat := 128) : Text :=
  if value.isEmpty then ['?']
  else (value.take limit).map (fun c => if 0x20 ≤ c.toNat ∧ c.toNat ≠ 0x7f then c else '?')

/-- The printable ASCII bytes of `value`, at most `limit` of them. -/
def ascii_only (value : Text) (limit : Nat := 128) : Text :=
  (value.filter (fun c => decide (0x20 ≤ c.toNat ∧ c.toNat ≤ 0x7e))).take limit

end log

namespace stratum

def kMaxSeenShares : Nat := 16384

/-- What a session step reads from its pool and its clocks. `recent_job` looks a job id
up among the jobs the pool still accepts, and `steady_seconds` and `time` are the
monotonic and the wall clock. -/
structure PoolContext where
  current_job : Option Job
  recent_job : Text → Option Job
  runtime_config : RuntimeConfig
  validate_address : Text → Option Bytes
  steady_seconds : ℚ
  time : Int

/-- What a session step tells its pool. -/
inductive PoolCall where
  | note_accepted_share (address worker : Text) (credited_difficulty share_difficulty : Option ℚ)
  | note_rejected_share (address worker : Text) (reason : RejectClass)
  | on_block_found (address worker : Text) (job : Job) (result : ShareResult)
deriving DecidableEq

def vardiff_next (current shares_per_minute target min_difficulty max_difficulty : ℚ) : ℚ :=
  let difficulty_cap := if max_difficulty > 0 then max_difficulty else 10 ^ 12
  let current := min (max current min_difficulty) difficulty_cap
  if shares_per_minute > target * 2 ∧ current < difficulty_cap then min difficulty_cap (current * 2)
  else if shares_per_minute < target / 2 then max min_difficulty (current / 2)
  else current

def clamp_suggested_difficulty (suggested : Option ℚ) (min_difficulty max_difficulty : ℚ) : Option ℚ :=
  match suggested with
  | none => none
  | some suggested =>
    if suggested ≤ 0 then none
    else
      let clamped := max suggested min_difficulty
      some (if max_difficulty > 0 then min clamped max_difficulty else clamped)

end stratum

end erikslund
