import Mathlib.Data.List.Dedup
import SoloPool.Lib.Run
import SoloPool.Lib.Table
import SoloPool.Stats.Timestamp

namespace erikslund

open util List

namespace api

structure ClientSnapshot where
  authorized : Bool
  address : Text

/-- A row of the registry. An empty `worker` is the bucket of the bare address. -/
structure WorkerSnapshot where
  address : Text
  worker : Text
  shares_accepted : Nat
  shares_rejected : Nat
  last_share_ts : Int
deriving DecidableEq

/-- The fields a user file is rendered from; rates and best difficulties are left out. -/
structure PoolSnapshot where
  starttime : Int
  uptime : Int
  blocks_by_address : Table Text Nat
  clients : List ClientSnapshot
  workers : List WorkerSnapshot

end api

namespace stats

open api

def kAddressChars : Text := "abcdefghijklmnopqrstuvwxyzABCDEFGHIJKLMNOPQRSTUVWXYZ0123456789._".toList

def is_safe_address (address : Text) : Bool :=
  address ≠ [] ∧ address.length ≤ 100 ∧ address ≠ ".".toList ∧ address ≠ "..".toList ∧
    address.all (kAddressChars.contains ·)

/-- `static_cast<double>` of an unsigned number: to 53 bits, half to even. -/
def to_double (value : Nat) : Nat :=
  let unit := 2 ^ (value.log2 - 52)
  let quotient := value / unit
  let remainder := value % unit
  if 2 * remainder > unit ∨ (2 * remainder = unit ∧ quotient % 2 = 1) then (quotient + 1) * unit else quotient * unit

theorem to_double_of_lt {value : Nat} (h : value < 2 ^ 53) : to_double value = value := by
  have hlog : value.log2 - 52 = 0 := by
    by_cases hzero : value = 0
    · subst hzero
      rfl
    · have hbits : value.log2 < 53 := (Nat.log2_lt hzero).mpr h
      omega
  simp only [to_double, hlog, pow_zero, Nat.div_one, Nat.mod_one]
  rw [if_neg (by omega), Nat.mul_one]

/-- The order of `std::string`. -/
def text_le : Text → Text → Bool
  | [], _ => true
  | _ :: _, [] => false
  | character :: rest, character' :: rest' =>
    decide (character.toNat < character'.toNat) || (decide (character = character') && text_le rest rest')

/-- A row of a user file. -/
structure UserRow where
  workername : Text
  shares_accepted : Nat
  shares_rejected : Nat
  lastshare : Text
  last_share_age : Nat

/-- A file `users/<address>`. -/
structure UserFile where
  lastshare : Text
  last_share_age : Nat
  workers : Nat
  shares_accepted : Nat
  shares_rejected : Nat
  blocks : Nat
  worker : List UserRow

/-- Seconds since a share at `ts`. -/
def age (wall_now ts : Int) : Int := if ts > 0 then max 0 (wall_now - ts) else 0

def build_user_row (address : Text) (wall_now : Int) (entry : WorkerSnapshot) : UserRow where
  workername := if entry.worker.isEmpty then address else entry.worker
  shares_accepted := to_double entry.shares_accepted
  shares_rejected := to_double entry.shares_rejected
  lastshare := format_rfc9557 entry.last_share_ts
  last_share_age := to_double (age wall_now entry.last_share_ts).toNat

def build_user_stats_from (address : Text) (workers : List WorkerSnapshot) (active_workers : Nat)
    (snapshot : PoolSnapshot) : UserFile :=
  let wall_now := snapshot.starttime + snapshot.uptime
  let ordered := workers.insertionSort fun entry entry' => text_le entry.worker entry'.worker = true
  let total_shares := ordered.foldl (fun total entry => (total + entry.shares_accepted) % 2 ^ 64) 0
  let total_rejected := ordered.foldl (fun total entry => (total + entry.shares_rejected) % 2 ^ 64) 0
  let last_share_timestamp := ordered.foldl (fun last entry => max last entry.last_share_ts) 0
  { lastshare := format_rfc9557 last_share_timestamp
    last_share_age := to_double (age wall_now last_share_timestamp).toNat
    workers := to_double active_workers
    shares_accepted := to_double total_shares
    shares_rejected := to_double total_rejected
    blocks := to_double ((snapshot.blocks_by_address.lookup address).getD 0)
    worker := ordered.map (build_user_row address wall_now) }

/-- The files under `users/`, and the names counted against the cap. -/
structure UserDirectory where
  known : List Text
  files : Table Text UserFile

def UserDirectory.empty : UserDirectory := ⟨[], ∅⟩

namespace write_user_files

/-- The rows of each address that can name a file. -/
def by_address (snapshot : PoolSnapshot) : List (Text × List WorkerSnapshot) :=
  let safe := snapshot.workers.filter fun worker => is_safe_address worker.address
  (safe.map (·.address)).dedup.map fun address => (address, safe.filter fun worker => worker.address = address)

/-- The shares of some rows, accepted and rejected. -/
def address_shares (workers : List WorkerSnapshot) : Nat :=
  workers.foldl (fun shares worker =>
    (shares + (worker.shares_accepted + worker.shares_rejected) % 2 ^ 64) % 2 ^ 64) 0

def active_workers (snapshot : PoolSnapshot) (address : Text) : Nat :=
  snapshot.clients.countP fun client =>
    client.authorized && is_safe_address client.address && decide (client.address = address)

/-- One address of the loop. -/
def write_user_file (max_user_files : Nat) (snapshot : PoolSnapshot) (directory : UserDirectory)
    (user : Text × List WorkerSnapshot) : UserDirectory :=
  if address_shares user.2 = 0 then directory
  else if user.1 ∉ directory.known ∧ directory.known.length ≥ max_user_files then directory
  else
    { known := directory.known.insert user.1
      files := directory.files.insert user.1
        (build_user_stats_from user.1 user.2 (active_workers snapshot user.1) snapshot) }

end write_user_files

open Transition

/-- The files of a snapshot. The sweep that ends the source's function removes no file the
snapshot has an address for, and is left out. -/
def write_user_files (max_user_files : Nat) (snapshot : PoolSnapshot) (directory : UserDirectory) : UserDirectory :=
  run (write_user_files.write_user_file max_user_files snapshot) directory
    (write_user_files.by_address snapshot)

structure RecoveredWorker where
  address : Text
  worker : Text
  shares_accepted : Nat
  shares_rejected : Nat
  last_share_ts : Int

/-- `as<uint64_t>` of a number, zero where it does not fit. -/
def as_uint64 (value : Nat) : Nat := if value < 2 ^ 64 then value else 0

def read_user_row (address : Text) (row : UserRow) : RecoveredWorker where
  address
  worker := if row.workername = address then [] else row.workername
  shares_accepted := as_uint64 row.shares_accepted
  shares_rejected := as_uint64 row.shares_rejected
  last_share_ts := parse_rfc9557 row.lastshare

/-- Whether a name is that of a file half written. -/
def transient (name : Text) : Prop := ".tmp.".toList <:+: name

instance (name : Text) : Decidable (transient name) := inferInstanceAs (Decidable (_ <:+: _))

/-- `files` are those of the directory, in the order it lists them. -/
def read_user_stats (files : List (Sigma fun _ : Text => UserFile)) : List RecoveredWorker :=
  files.flatMap fun file => if transient file.1 then [] else file.2.worker.map (read_user_row file.1)

/-- The rows of an address. -/
def address_rows (snapshot : PoolSnapshot) (address : Text) : List WorkerSnapshot :=
  snapshot.workers.filter fun worker => worker.address = address

/-- The file of an address. -/
def user_file (snapshot : PoolSnapshot) (address : Text) : UserFile :=
  build_user_stats_from address (address_rows snapshot address) (write_user_files.active_workers snapshot address)
    snapshot

theorem mem_worker_build {addr : Text} {workers : List WorkerSnapshot} {active_workers : Nat}
    {snapshot : PoolSnapshot} :
    (build_user_stats_from addr workers active_workers snapshot).worker.Perm
      (workers.map (build_user_row addr (snapshot.starttime + snapshot.uptime))) :=
  (perm_insertionSort _ workers).map _

namespace write_user_files

variable {max_user_files : Nat} {snapshot : PoolSnapshot}

/-- What the loop has written of the addresses it has seen. -/
structure Written (snapshot : PoolSnapshot) (users : List (Text × List WorkerSnapshot)) (directory : UserDirectory) :
    Prop where
  distinct : directory.known.Nodup
  known : ∀ address ∈ directory.known, address ∈ users.map Prod.fst
  files (address : Text) (file : UserFile) : directory.files.lookup address = some file ↔
    ∃ user ∈ users, address_shares user.2 ≠ 0 ∧ user.1 = address ∧
      build_user_stats_from user.1 user.2 (active_workers snapshot user.1) snapshot = file

variable {users : List (Text × List WorkerSnapshot)} {user : Text × List WorkerSnapshot}

theorem Written.skip {directory : UserDirectory}
    (h : Written snapshot users directory) (hidle : address_shares user.2 = 0) :
    Written snapshot (users ++ [user]) directory where
  distinct := h.distinct
  known addr hmem := by
    rw [map_append]
    exact mem_append_left _ (h.known addr hmem)
  files addr file := by
    rw [h.files, exists_mem_concat]
    exact (or_iff_left fun hlast => hlast.1 hidle).symm

theorem Written.write {directory : UserDirectory}
    (h : Written snapshot users directory)
    (hnew : user.1 ∉ users.map Prod.fst) (hshares : address_shares user.2 ≠ 0) :
    Written snapshot (users ++ [user])
      ⟨directory.known.insert user.1, directory.files.insert user.1
        (build_user_stats_from user.1 user.2 (active_workers snapshot user.1) snapshot)⟩ where
  distinct := h.distinct.insert
  known addr hmem := by
    rw [map_append, mem_append]
    cases mem_insert_iff.mp hmem with
    | inl heq => exact .inr (by rw [heq]; exact mem_cons_self)
    | inr hmem => exact .inl (h.known addr hmem)
  files addr file := by
    rw [exists_mem_concat]
    by_cases heq : addr = user.1
    · subst heq
      have hother : ¬ ∃ other ∈ users, address_shares other.2 ≠ 0 ∧ other.1 = user.1 ∧
          build_user_stats_from other.1 other.2 (active_workers snapshot other.1) snapshot = file :=
        fun ⟨_, hmem, _, hsame, _⟩ => hnew (hsame ▸ mem_map_of_mem hmem)
      rw [AList.lookup_insert, Option.some_inj, or_iff_right hother]
      exact ⟨fun hfile => ⟨hshares, rfl, hfile⟩, fun hlast => hlast.2.2⟩
    · rw [AList.lookup_insert_ne heq, h.files]
      exact (or_iff_left fun hlast => heq hlast.2.1.symm).symm

/-- Below the cap every address with shares gets its file. -/
theorem run_written (hdistinct : (users.map Prod.fst).Nodup)
    (hroom : users.length ≤ max_user_files) :
    Written snapshot users (run (write_user_file max_user_files snapshot) .empty users) := by
  induction users using reverseRecOn with
  | nil => exact ⟨nodup_nil, fun _ hmem => absurd hmem not_mem_nil, fun _ _ => by simp [UserDirectory.empty]⟩
  | append_singleton users user ih =>
    rw [map_append, nodup_append] at hdistinct
    rw [length_append, length_singleton] at hroom
    have hwritten := ih hdistinct.1 (Nat.le_of_succ_le hroom)
    have hnew : user.1 ∉ users.map Prod.fst := fun hmem => hdistinct.2.2 _ hmem _ mem_cons_self rfl
    rw [run_append, run_cons, run_nil, write_user_file]
    split
    · rename_i hidle
      exact hwritten.skip hidle
    · rename_i hshares
      have hbelow : ¬ (run (write_user_file max_user_files snapshot) .empty users).known.length ≥
          max_user_files := by
        have hle := (subperm_of_subset hwritten.distinct hwritten.known).length_le
        rw [length_map] at hle
        omega
      rw [if_neg fun hfull => hbelow hfull.2]
      exact hwritten.write hnew hshares

theorem by_address_fst : (by_address snapshot).map Prod.fst =
    ((snapshot.workers.filter fun worker => is_safe_address worker.address).map (·.address)).dedup := by
  simp only [by_address, map_map]
  exact map_id _

/-- A safe address keeps all its rows. -/
theorem safe_rows {addr : Text} (hsafe : is_safe_address addr = true) :
    ((snapshot.workers.filter fun worker => is_safe_address worker.address).filter
      fun worker => worker.address = addr) = address_rows snapshot addr := by
  rw [filter_filter, address_rows]
  apply filter_congr
  intro worker _
  rw [Bool.and_eq_left_iff_imp, decide_eq_true_eq]
  intro heq
  rw [heq, hsafe]

theorem mem_by_address :
    user ∈ by_address snapshot ↔
      is_safe_address user.1 = true ∧ user.1 ∈ snapshot.workers.map (·.address) ∧
        address_rows snapshot user.1 = user.2 := by
  have hname : ∀ addr, addr ∈ ((snapshot.workers.filter fun worker =>
      is_safe_address worker.address).map (·.address)).dedup ↔
        is_safe_address addr = true ∧ addr ∈ snapshot.workers.map (·.address) := by
    intro addr
    simp only [mem_dedup, mem_map, mem_filter]
    constructor
    · rintro ⟨worker, ⟨hmem, hsafe⟩, rfl⟩
      exact ⟨hsafe, worker, hmem, rfl⟩
    · rintro ⟨hsafe, worker, hmem, rfl⟩
      exact ⟨worker, ⟨hmem, hsafe⟩, rfl⟩
  rw [by_address]
  constructor
  · intro hmem
    obtain ⟨addr, haddress, rfl⟩ := mem_map.mp hmem
    obtain ⟨hsafe, hrow⟩ := (hname addr).mp haddress
    exact ⟨hsafe, hrow, (safe_rows hsafe).symm⟩
  · rintro ⟨hsafe, hrow, heq⟩
    apply mem_map.mpr
    refine ⟨user.1, (hname user.1).mpr ⟨hsafe, hrow⟩, ?_⟩
    rw [safe_rows hsafe, heq]

theorem length_by_address_le : (by_address snapshot).length ≤ (snapshot.workers.map (·.address)).dedup.length := by
  have hsub : (by_address snapshot).map Prod.fst ⊆ (snapshot.workers.map (·.address)).dedup := by
    intro addr hmem
    obtain ⟨user, huser, rfl⟩ := mem_map.mp hmem
    exact mem_dedup.mpr (mem_by_address.mp huser).2.1
  have hdistinct : ((by_address snapshot).map Prod.fst).Nodup := by
    rw [by_address_fst]
    exact nodup_dedup _
  have hle := (subperm_of_subset hdistinct hsub).length_le
  rwa [length_map] at hle

end write_user_files

/-- An address whose file is written and is read again. -/
structure Filed (snapshot : PoolSnapshot) (address : Text) : Prop where
  safe : is_safe_address address = true
  settled : ¬ transient address
  active : write_user_files.address_shares (address_rows snapshot address) ≠ 0

theorem mem_address_rows {snapshot : PoolSnapshot} {addr : Text} {row : WorkerSnapshot} :
    row ∈ address_rows snapshot addr ↔ row ∈ snapshot.workers ∧ row.address = addr := by
  rw [address_rows, mem_filter, decide_eq_true_eq]

section

variable {max_user_files : Nat} {snapshot : PoolSnapshot}
  (haddresses : (snapshot.workers.map (·.address)).dedup.length ≤ max_user_files)

include haddresses

/-- The files of a snapshot in an empty directory. -/
theorem lookup_write_user_files {addr : Text} {file : UserFile} :
    (write_user_files max_user_files snapshot .empty).files.lookup addr = some file ↔
      is_safe_address addr = true ∧ write_user_files.address_shares (address_rows snapshot addr) ≠ 0 ∧
        user_file snapshot addr = file := by
  have hdistinct : ((write_user_files.by_address snapshot).map Prod.fst).Nodup := by
    rw [write_user_files.by_address_fst]
    exact nodup_dedup _
  have hwritten : write_user_files.Written snapshot _ (write_user_files max_user_files snapshot .empty) :=
    write_user_files.run_written hdistinct (Nat.le_trans write_user_files.length_by_address_le haddresses)
  refine (hwritten.files addr file).trans ⟨?_, ?_⟩
  · rintro ⟨user, hmem, hshares, rfl, hfile⟩
    obtain ⟨hsafe, _, hrows⟩ := write_user_files.mem_by_address.mp hmem
    rw [user_file, hrows]
    exact ⟨hsafe, hshares, hfile⟩
  · rintro ⟨hsafe, hshares, hfile⟩
    have hsome : address_rows snapshot addr ≠ [] := fun hnone => hshares (by rw [hnone]; rfl)
    obtain ⟨row, hrow⟩ := exists_mem_of_ne_nil _ hsome
    obtain ⟨hmem, haddress⟩ := mem_address_rows.mp hrow
    refine ⟨(addr, address_rows snapshot addr), ?_, hshares, rfl, hfile⟩
    exact write_user_files.mem_by_address.mpr ⟨hsafe, mem_map.mpr ⟨row, hmem, haddress⟩, rfl⟩

end

/-- What comes back of a row. -/
def reread (snapshot : PoolSnapshot) (row : WorkerSnapshot) : RecoveredWorker :=
  read_user_row row.address (build_user_row row.address (snapshot.starttime + snapshot.uptime) row)

theorem reread_worker (snapshot : PoolSnapshot) (row : WorkerSnapshot) :
    (reread snapshot row).worker = if row.worker = row.address then [] else row.worker := by
  simp only [reread, read_user_row, build_user_row, List.isEmpty_iff]
  by_cases hbare : row.worker = []
  · rw [if_pos hbare, if_pos rfl, hbare, ite_self]
  · rw [if_neg hbare]

section

variable {max_user_files : Nat} {snapshot : PoolSnapshot}
  (haddresses : (snapshot.workers.map (·.address)).dedup.length ≤ max_user_files)
  {listing : List (Sigma fun _ : Text => UserFile)}
  (hlisting : listing.Perm (write_user_files max_user_files snapshot .empty).files.entries)

include haddresses hlisting

theorem mem_listing {addr : Text} {file : UserFile} :
    ⟨addr, file⟩ ∈ listing ↔
      is_safe_address addr = true ∧ write_user_files.address_shares (address_rows snapshot addr) ≠ 0 ∧
        user_file snapshot addr = file :=
  hlisting.mem_iff.trans (AList.mem_lookup_iff.symm.trans (lookup_write_user_files haddresses))

theorem mem_read_user_stats {recovered : RecoveredWorker} :
    recovered ∈ read_user_stats listing ↔
      ∃ row ∈ snapshot.workers, Filed snapshot row.address ∧ reread snapshot row = recovered := by
  rw [read_user_stats, mem_flatMap]
  constructor
  · rintro ⟨⟨addr, file⟩, hfile, hmem⟩
    obtain ⟨hsafe, hshares, rfl⟩ := (mem_listing haddresses hlisting).mp hfile
    split at hmem
    · cases hmem
    · rename_i hsettled
      obtain ⟨entry, hentry, rfl⟩ := mem_map.mp hmem
      obtain ⟨row, hrow, rfl⟩ := mem_map.mp (mem_worker_build.mem_iff.mp hentry)
      obtain ⟨hworker, rfl⟩ := mem_address_rows.mp hrow
      exact ⟨row, hworker, ⟨hsafe, hsettled, hshares⟩, rfl⟩
  · rintro ⟨row, hmem, hfiled, rfl⟩
    refine ⟨⟨row.address, user_file snapshot row.address⟩,
      (mem_listing haddresses hlisting).mpr ⟨hfiled.safe, hfiled.active, rfl⟩, ?_⟩
    rw [if_neg hfiled.settled]
    apply mem_map_of_mem
    exact mem_worker_build.mem_iff.mpr (mem_map_of_mem (mem_address_rows.mpr ⟨hmem, rfl⟩))

/-- No pair of an address and a worker is read twice, if no worker is named as its address. -/
theorem read_user_stats_nodup (hdistinct : (snapshot.workers.map fun row => (row.address, row.worker)).Nodup)
    (hnames : ∀ row ∈ snapshot.workers, row.worker ≠ row.address) :
    ((read_user_stats listing).map fun recovered => (recovered.address, recovered.worker)).Nodup := by
  have hkeys : (listing.map Sigma.fst).Nodup :=
    (hlisting.map Sigma.fst).nodup_iff.mpr (write_user_files max_user_files snapshot .empty).files.nodupKeys
  rw [read_user_stats, map_flatMap, nodup_flatMap]
  constructor
  · rintro ⟨addr, file⟩ hfile
    obtain ⟨_, _, rfl⟩ := (mem_listing haddresses hlisting).mp hfile
    dsimp only
    split
    · exact nodup_nil
    · have hpairs : (((user_file snapshot addr).worker.map (read_user_row addr)).map
          fun recovered => (recovered.address, recovered.worker)).Perm
            ((address_rows snapshot addr).map fun row => (row.address, row.worker)) := by
        refine ((mem_worker_build.map _).map _).trans (.of_eq ?_)
        rw [map_map, map_map]
        apply map_congr_left
        intro row hrow
        obtain ⟨hmem, rfl⟩ := mem_address_rows.mp hrow
        have hworker := reread_worker snapshot row
        rw [if_neg (hnames row hmem)] at hworker
        exact congrArg (row.address, ·) hworker
      exact hpairs.nodup_iff.mpr (hdistinct.sublist (filter_sublist.map _))
  · apply (pairwise_map.mp hkeys).imp
    intro file file' hne pair hmem hmem'
    obtain ⟨recovered, hrecovered, rfl⟩ := mem_map.mp hmem
    obtain ⟨recovered', hrecovered', heq⟩ := mem_map.mp hmem'
    have haddress : ∀ {file : Sigma fun _ : Text => UserFile} {recovered : RecoveredWorker},
        recovered ∈ (if transient file.1 then [] else file.2.worker.map (read_user_row file.1)) →
          recovered.address = file.1 := by
      intro file recovered hmem
      split at hmem
      · cases hmem
      · obtain ⟨entry, _, rfl⟩ := mem_map.mp hmem
        rfl
    exact hne ((haddress hrecovered).symm.trans ((congrArg Prod.fst heq).symm.trans (haddress hrecovered')))

end

end stats

end erikslund
