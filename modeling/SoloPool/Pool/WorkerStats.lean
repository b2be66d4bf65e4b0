import SoloPool.Lib.Run
import SoloPool.Lib.Table
import SoloPool.Util.Bytes

namespace erikslund

open util

namespace stats

def kMaxUserFiles : Nat := 100000

/-- A worker's row. Its rates and best difficulty decide nothing in the registry and
are left out. -/
structure WorkerAccounting where
  shares_accepted : Nat := 0
  shares_rejected : Nat := 0
  last_share_ts : Int := 0
  last_activity_ts : Int := 0
deriving DecidableEq

namespace WorkerAccounting

def new : WorkerAccounting := {}

def touch (row : WorkerAccounting) (now_wall : Int) : WorkerAccounting :=
  { row with last_activity_ts := max row.last_activity_ts now_wall }

def note_accepted (row : WorkerAccounting) (now_wall : Int) : WorkerAccounting :=
  { row with
    shares_accepted := row.shares_accepted + 1
    last_share_ts := max row.last_share_ts now_wall
    last_activity_ts := max row.last_activity_ts now_wall }

def note_rejected (row : WorkerAccounting) (now_wall : Int) : WorkerAccounting :=
  { row with
    shares_rejected := row.shares_rejected + 1
    last_activity_ts := max row.last_activity_ts now_wall }

end WorkerAccounting

/-- A `shared_ptr` to a row: the place of the row among all the rows ever made. -/
abbrev WorkerAccountingHandle := Nat

end stats

open stats

def kGhostRowGraceSeconds : Int := 3600

abbrev WorkerMap := Table Text WorkerAccountingHandle

/-- The registry of worker rows. `rows` keeps every row object made, also those no
longer in the map: a handle may outlive its entry. -/
structure UserStats where
  user_stats : Table Text WorkerMap
  rows : List WorkerAccounting

/-- How many keys of an address name a worker. -/
def WorkerMap.named (workers : WorkerMap) : Nat := workers.keys.countP fun name => !name.isEmpty

/-- `cap` is `max_workers_per_address`. -/
def resolve_worker_key (cap : Int) (workers : WorkerMap) (worker : Text) : Text :=
  if worker ∈ workers then worker
  else if worker ≠ [] ∧ cap > 0 ∧ workers.named ≥ cap.toNat then []
  else worker

namespace UserStats

def empty : UserStats := ⟨∅, []⟩

variable (cap : Int) (stats : UserStats) (now_wall : Int)

def row (accounting : WorkerAccountingHandle) : WorkerAccounting :=
  stats.rows.getD accounting .new

def update (accounting : WorkerAccountingHandle) (f : WorkerAccounting → WorkerAccounting) :
    UserStats :=
  { stats with rows := stats.rows.modify accounting f }

/-- `worker_entry` once the address is in the map, with its workers. -/
def worker_row (address : Text) (workers : WorkerMap) (worker : Text) :
    UserStats × WorkerAccountingHandle :=
  match workers.lookup worker with
  | some accounting => (stats, accounting)
  | none =>
    let key := resolve_worker_key cap workers worker
    match workers.lookup key with
    | some accounting => (stats, accounting)
    | none =>
      let accounting := stats.rows.length
      (⟨stats.user_stats.insert address (workers.insert key accounting), stats.rows ++ [.new]⟩, accounting)

def worker_entry (address worker : Text) :
    UserStats × Option WorkerAccountingHandle :=
  match stats.user_stats.lookup address with
  | some workers => (stats.worker_row cap address workers worker).map id some
  | none =>
    if stats.user_stats.keys.length ≥ kMaxUserFiles then (stats, none)
    -- an address emplaced empty always gets a row, so the entry is written once, with it
    else (stats.worker_row cap address ∅ worker).map id some

def attach_worker (address worker : Text) :
    UserStats × Option WorkerAccountingHandle :=
  if address.isEmpty then (stats, none)
  else
    match stats.worker_entry cap address worker with
    | (stats, some accounting) => (stats.update accounting (·.touch now_wall), some accounting)
    | (stats, none) => (stats, none)

/-- The row a note call writes to. -/
def noted_row (accounting : Option WorkerAccountingHandle) (address worker : Text) :
    UserStats × Option WorkerAccountingHandle :=
  match accounting with
  | some accounting => (stats, some accounting)
  | none => if address.isEmpty then (stats, none) else stats.worker_entry cap address worker

/-- Both note calls, `f` being what the row does; whether a row was found. -/
def note_share (f : WorkerAccounting → WorkerAccounting) (cap : Int) (stats : UserStats)
    (accounting : Option WorkerAccountingHandle) (address worker : Text) : UserStats × Bool :=
  match stats.noted_row cap accounting address worker with
  | (stats, some accounting) => (stats.update accounting f, true)
  | (stats, none) => (stats, false)

def note_accepted_share :=
  stats.note_share (·.note_accepted now_wall) cap

def note_rejected_share :=
  stats.note_share (·.note_rejected now_wall) cap

/-- The handles in the map. -/
def stored : List WorkerAccountingHandle :=
  (Table.values stats.user_stats).flatMap Table.values

/-- `use_count()`, with the copies of the handle outside the map. -/
def use_count (held : List WorkerAccountingHandle) (accounting : WorkerAccountingHandle) : Nat :=
  stats.stored.count accounting + held.count accounting

/-- Whether the walk of `prune_user_stats` erases a row. The walk changes the count of
no row it has yet to look at, so all counts are those it starts from. -/
def expired (held : List WorkerAccountingHandle) (retention_days now : Int)
    (accounting : WorkerAccountingHandle) : Bool :=
  let pinned := decide (stats.use_count held accounting > 1)
  let last_activity := (stats.row accounting).last_activity_ts
  let last_share := (stats.row accounting).last_share_ts
  if !pinned && decide (last_activity > 0) then
    if last_share = 0 then decide (last_activity < now - kGhostRowGraceSeconds)
    else decide (retention_days > 0) && decide (last_activity < now - retention_days * 86400)
  else false

def prune_workers (held : List WorkerAccountingHandle) (retention_days now : Int)
    (workers : WorkerMap) : WorkerMap :=
  Table.filterMap (fun _ accounting =>
    if stats.expired held retention_days now accounting then none else some accounting) workers

/-- Without the removal of the files of addresses that are dropped. -/
def prune_user_stats (held : List WorkerAccountingHandle) (retention_days now : Int) :
    UserStats :=
  { stats with
    user_stats := Table.filterMap (fun _ workers =>
      let kept := stats.prune_workers held retention_days now workers
      if kept.keys.isEmpty then none else some kept) stats.user_stats }

/-- The workers of an address, none where it has no entry. -/
def workers (address : Text) : WorkerMap := (stats.user_stats.lookup address).getD ∅

def find (address key : Text) : Option WorkerAccountingHandle := (stats.workers address).lookup key

/-- The key `worker_entry` looks an address's worker up under. -/
def key (address worker : Text) : Text :=
  resolve_worker_key cap (stats.workers address) worker

end UserStats

/-- A session's handle, with the entry it was given for. -/
structure Hold where
  address : Text
  key : Text
  accounting : WorkerAccountingHandle
deriving DecidableEq

/-- The registry, the handles sessions hold, and how many note calls found a row. -/
structure Accounts where
  stats : UserStats
  held : List Hold
  accepted_notes : Nat
  rejected_notes : Nat

/-- A call or a change of the handles held. `holder` is the place of the handle a note
call is made with; where there is none, the call is made with an empty one. -/
inductive Accounts.Event where
  | attach_worker (now_wall : Int) (address worker : Text)
  | note_accepted_share (now_wall : Int) (holder : Option Nat) (address worker : Text)
  | note_rejected_share (now_wall : Int) (holder : Option Nat) (address worker : Text)
  | copy (holder : Nat)
  | release (holder : Nat)
  | prune_user_stats (retention_days now : Int)

namespace Accounts

def empty : Accounts := ⟨.empty, [], 0, 0⟩

variable (cap : Int) (accounts : Accounts)

/-- The handle at a place. -/
def handle (holder : Option Nat) : Option WorkerAccountingHandle :=
  (holder.bind (accounts.held[·]?)).map Hold.accounting

def step : Event → Accounts
  | .attach_worker now_wall address worker =>
    let key := accounts.stats.key cap address worker
    match accounts.stats.attach_worker cap now_wall address worker with
    | (stats, some accounting) => { accounts with stats, held := ⟨address, key, accounting⟩ :: accounts.held }
    | (stats, none) => { accounts with stats }
  | .note_accepted_share now_wall holder address worker =>
    let (stats, resolved) :=
      accounts.stats.note_accepted_share cap now_wall (accounts.handle holder) address worker
    { accounts with stats, accepted_notes := accounts.accepted_notes + resolved.toNat }
  | .note_rejected_share now_wall holder address worker =>
    let (stats, resolved) :=
      accounts.stats.note_rejected_share cap now_wall (accounts.handle holder) address worker
    { accounts with stats, rejected_notes := accounts.rejected_notes + resolved.toNat }
  | .copy holder => { accounts with held := accounts.held[holder]?.toList ++ accounts.held }
  | .release holder => { accounts with held := accounts.held.eraseIdx holder }
  | .prune_user_stats retention_days now =>
    { accounts with
      stats := accounts.stats.prune_user_stats (accounts.held.map Hold.accounting) retention_days now }

def reached (events : List Event) : Accounts := Transition.run (step cap) empty events

/-- The rows no longer in the map. -/
def evicted : List WorkerAccountingHandle :=
  (List.range accounts.stats.rows.length).filter (· ∉ accounts.stats.stored)

/-- A count summed over the rows of some handles. -/
def total (count : WorkerAccounting → Nat) (handles : List WorkerAccountingHandle) : Nat :=
  (handles.map fun accounting => count (accounts.stats.row accounting)).sum

end Accounts

end erikslund
