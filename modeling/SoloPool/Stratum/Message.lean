import SoloPool.Stratum.Context

namespace erikslund.stratum

structure StratumError where
  code : Int
  message : String
deriving DecidableEq

def ERR_OTHER : StratumError := ⟨20, "Other/unknown"⟩

def ERR_STALE : StratumError := ⟨21, "Job not found / stale"⟩

def ERR_DUPLICATE : StratumError := ⟨22, "Duplicate share"⟩

def ERR_LOW_DIFFICULTY : StratumError := ⟨23, "Low difficulty share"⟩

def ERR_UNAUTHORIZED : StratumError := ⟨24, "Unauthorized worker"⟩

def ERR_NOT_SUBSCRIBED : StratumError := ⟨25, "Not subscribed"⟩

/-- A request id as `normalize_request_id` leaves it. -/
inductive RequestId where
  | null
  | number (value : Int)
  | text (value : Text)
deriving DecidableEq

/-- The methods `dispatch` tells apart. -/
inductive Method where
  | subscribe
  | authorize
  | configure
  | suggest_difficulty
  | extranonce_subscribe
  | submit
  | other (name : Text)
deriving DecidableEq

/-- A parsed request line. A suggested difficulty that is infinite or not a number is
`some none`. -/
structure Request where
  id : RequestId := .null
  method : Method
  params : List Text := []
  configure_extensions : List Text := []
  configure_version_rolling : Bool := false
  version_rolling_mask_present : Bool := false
  version_rolling_mask : Option Text := none
  suggested_difficulty : Option (Option ℚ) := none
deriving DecidableEq

/-- The parameters of `mining.notify`. -/
structure Notify where
  job_id : Text
  prevhash : Text
  coinbase1 : Text
  coinbase2 : Text
  merkle_branch : List Text
  version : Text
  nbits : Text
  ntime : Text
  clean_jobs : Bool
deriving DecidableEq

/-- A line to the client. `configured` carries the negotiated version mask, if rolling was
asked for, and the extensions answered with `false`. -/
inductive Line where
  | result (id : RequestId) (value : Bool)
  | subscribed (id : RequestId) (extranonce1_hex : Text) (extranonce2_size : Nat)
  | configured (id : RequestId) (version_mask : Option UInt32) (unsupported : List Text)
  | error (id : RequestId) (error : StratumError)
  | set_difficulty (difficulty : ℚ)
  | notify (params : Notify)
deriving DecidableEq

def Line.notify? : Line → Option Notify
  | .notify params => some params
  | _ => none

def make_notify_line (job : Job) (coinbase2_hex : Text) (clean : Bool) : Line :=
  .notify ⟨job.job_id, job.prevhash_stratum, job.coinbase1_hex, coinbase2_hex, job.merkle_branch_hex,
    job.version_hex, job.nbits_hex, job.ntime_hex, clean⟩

end erikslund.stratum
