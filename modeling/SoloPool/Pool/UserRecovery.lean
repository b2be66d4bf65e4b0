import SoloPool.Pool.WorkerRows
import SoloPool.Stats.UserFiles

namespace erikslund

open util stats api List

/-- `recover` on a row. -/
def stats.WorkerAccounting.recover (row : WorkerAccounting) (shares_accepted shares_rejected : Nat)
    (last_share_ts : Int) : WorkerAccounting where
  shares_accepted := (row.shares_accepted + shares_accepted) % 2 ^ 64
  shares_rejected := (row.shares_rejected + shares_rejected) % 2 ^ 64
  last_share_ts := max row.last_share_ts last_share_ts
  last_activity_ts := max row.last_activity_ts last_share_ts

namespace recover_user_stats

/-- What the file rows of one key add up to. -/
structure Accum where
  shares_accepted : Nat := 0
  shares_rejected : Nat := 0
  last_share_ts : Int := 0

def Accum.add (a : Accum) (row : RecoveredWorker) : Accum where
  shares_accepted := (a.shares_accepted + row.shares_accepted) % 2 ^ 64
  shares_rejected := (a.shares_rejected + row.shares_rejected) % 2 ^ 64
  last_share_ts := max a.last_share_ts row.last_share_ts

abbrev Accums := Table Text (Table Text Accum)

def cutoff (retention_days now_wall : Int) : Int :=
  if retention_days > 0 then now_wall - retention_days * 86400 else -2 ^ 63

/-- Rows never mined and rows past retention are passed over. -/
def Retained (cutoff : Int) (row : RecoveredWorker) : Prop :=
  row.address ≠ [] ∧ row.last_share_ts ≠ 0 ∧ cutoff ≤ row.last_share_ts

instance (cutoff : Int) (row : RecoveredWorker) : Decidable (Retained cutoff row) :=
  inferInstanceAs (Decidable (_ ∧ _))

/-- The admission cap against the keys seen so far. -/
def capped_key (cap : Int) (keys : Table Text Accum) (worker : Text) : Text :=
  if worker ≠ [] ∧ worker ∉ keys ∧ cap > 0 ∧ cap.toNat ≤ keys.keys.countP (fun name => !name.isEmpty) then []
  else worker

/-- One row of the first pass. -/
def accumulate (cap cutoff : Int) (by_address : Accums) (row : RecoveredWorker) : Accums :=
  if Retained cutoff row then
    let keys := Table.inner by_address row.address
    let key := capped_key cap keys row.worker
    Table.store by_address row.address key (((keys.lookup key).getD {}).add row)
  else by_address

/-- One key of the second pass. -/
def recover_row (cap : Int) (stats : UserStats) (row : Text × Text × Accum) : UserStats :=
  match stats.worker_entry cap row.1 row.2.1 with
  | (stats, some acct) =>
    stats.update acct (·.recover row.2.2.shares_accepted row.2.2.shares_rejected row.2.2.last_share_ts)
  | (stats, none) => stats

end recover_user_stats

open Transition

/-- `cap` is `max_workers_per_address`. -/
def recover_user_stats (cap retention_days now_wall : Int) (recovered : List RecoveredWorker) (stats : UserStats) :
    UserStats :=
  let by_address : recover_user_stats.Accums :=
    run (recover_user_stats.accumulate cap (recover_user_stats.cutoff retention_days now_wall)) ∅ recovered
  run (recover_user_stats.recover_row cap) stats (Table.flatten text_le text_le by_address)

namespace recover_user_stats

/-- At most `cap` names, apart from the empty one, under each address. -/
def NamedWithin (cap : Int) (key : Text → Text → Prop) : Prop :=
  0 < cap → ∀ (addr : Text) (names : List Text), names.Nodup → (∀ name ∈ names, name ≠ [] ∧ key addr name) →
    names.length ≤ cap.toNat

/-- At most `kMaxUserFiles` addresses. -/
def AddressesWithin (key : Text → Text → Prop) : Prop :=
  ∀ addresses : List Text, addresses.Nodup → (∀ addr ∈ addresses, ∃ name, key addr name) →
    addresses.length ≤ kMaxUserFiles

variable {cap : Int} {key : Text → Text → Prop} {addr worker : Text} {stats : UserStats}
  {rows : List (Text × Text × Accum)}

theorem NamedWithin.mono {key' : Text → Text → Prop} (h : NamedWithin cap key)
    (himp : ∀ addr name, key' addr name → key addr name) : NamedWithin cap key' := by
  intro hcap addr names hdistinct hnames
  exact h hcap addr names hdistinct fun name hmem => ⟨(hnames name hmem).1, himp _ _ (hnames name hmem).2⟩

theorem AddressesWithin.mono {key' : Text → Text → Prop} (h : AddressesWithin key)
    (himp : ∀ addr name, key' addr name → key addr name) : AddressesWithin key' := by
  intro addresses hdistinct haddresses
  apply h addresses hdistinct
  intro addr hmem
  obtain ⟨name, hname⟩ := haddresses addr hmem
  exact ⟨name, himp _ _ hname⟩

/-- Where a new name still fits, the names already there are below the cap. -/
theorem NamedWithin.below (h : NamedWithin cap key) (hcap : 0 < cap)
    {names : List Text} (hdistinct : names.Nodup) (hnames : ∀ name ∈ names, key addr name)
    (hworker : key addr worker) (hnew : worker ∉ names) (hnamed : worker ≠ []) :
    names.countP (fun name => !name.isEmpty) < cap.toNat := by
  have hmem : ∀ name ∈ names.filter (fun name => !name.isEmpty), name ≠ [] ∧ key addr name := by
    intro name hname
    obtain ⟨hname, hsome⟩ := mem_filter.mp hname
    exact ⟨by simpa using hsome, hnames name hname⟩
  have hle := h hcap addr (worker :: names.filter fun name => !name.isEmpty)
    (nodup_cons.mpr ⟨fun hin => hnew (mem_filter.mp hin).1, hdistinct.filter _⟩)
    (forall_mem_cons.mpr ⟨⟨hnamed, hworker⟩, hmem⟩)
  rw [countP_eq_length_filter]
  exact hle

/-! Rows read that no two of them share a key with: each is a key of its own. -/

/-- The key of a row read. -/
abbrev pair (row : RecoveredWorker) : Text × Text := (row.address, row.worker)

/-- The keys of some rows. -/
def Keys (cutoff : Int) (recovered : List RecoveredWorker) (addr name : Text) : Prop :=
  ∃ row ∈ recovered, Retained cutoff row ∧ row.address = addr ∧ row.worker = name

theorem capped_key_of_within (h : NamedWithin cap key) {keys : Table Text Accum}
    (hkeys : ∀ name ∈ keys.keys, key addr name) (hworker : key addr worker) :
    capped_key cap keys worker = worker := by
  unfold capped_key
  split
  · rename_i hfull
    obtain ⟨hnamed, hnew, hcap, hcount⟩ := hfull
    exact absurd (h.below hcap keys.nodupKeys hkeys hworker hnew hnamed) (Nat.not_lt_of_le hcount)
  · rfl

theorem Keys.append {cutoff : Int} {recovered : List RecoveredWorker} {name : Text}
    (h : Keys cutoff recovered addr name) (row : RecoveredWorker) : Keys cutoff (recovered ++ [row]) addr name := by
  obtain ⟨other, hmem, hrest⟩ := h
  exact ⟨other, mem_append_left _ hmem, hrest⟩

/-- A row whose key is new and fits the cap is stored under it. -/
theorem accumulate_new {cutoff : Int} {table : Accums} {row : RecoveredWorker} (hretained : Retained cutoff row)
    (hkey : capped_key cap (Table.inner table row.address) row.worker = row.worker)
    (hnone : Table.find table row.address row.worker = none) :
    accumulate cap cutoff table row = Table.store table row.address row.worker (Accum.add {} row) := by
  have hfind : (Table.inner table row.address).lookup row.worker = none := hnone
  rw [accumulate, if_pos hretained]
  dsimp only
  rw [hkey, hfind]
  rfl

/-- The first pass over rows with keys of their own. -/
theorem find_accumulate {cutoff : Int} {recovered : List RecoveredWorker}
    (hdistinct : (recovered.map pair).Nodup) (hnamed : NamedWithin cap (Keys cutoff recovered)) (addr key : Text)
    (a : Accum) :
    Table.find (run (accumulate cap cutoff) ∅ recovered) addr key = some a ↔
      ∃ row ∈ recovered, Retained cutoff row ∧ row.address = addr ∧ row.worker = key ∧ Accum.add {} row = a := by
  induction recovered using reverseRecOn generalizing addr key a with
  | nil => exact iff_of_false (fun h => by cases h) (fun ⟨_, hmem, _⟩ => not_mem_nil hmem)
  | append_singleton recovered row ih =>
    rw [map_append, nodup_append] at hdistinct
    have hother : ∀ other ∈ recovered, ¬ (other.address = row.address ∧ other.worker = row.worker) :=
      fun other hmem hsame =>
        hdistinct.2.2 _ (mem_map_of_mem hmem) _ mem_cons_self (Prod.ext hsame.1 hsame.2)
    have hfind := ih hdistinct.1 (hnamed.mono fun _ _ h => h.append row)
    rw [run_append, run_cons, run_nil, exists_mem_concat]
    generalize run (accumulate cap cutoff) ∅ recovered = table at hfind ⊢
    by_cases hretained : Retained cutoff row
    · have hkeys : ∀ name ∈ (Table.inner table row.address).keys, Keys cutoff (recovered ++ [row]) row.address name := by
        intro name hname
        obtain ⟨a, ha⟩ := Table.find_of_mem_inner hname
        obtain ⟨other, hmem, hrest⟩ := (hfind _ _ _).mp ha
        exact Keys.append ⟨other, hmem, hrest.1, hrest.2.1, hrest.2.2.1⟩ row
      have hself : Keys cutoff (recovered ++ [row]) row.address row.worker :=
        ⟨row, mem_append_right _ mem_cons_self, hretained, rfl, rfl⟩
      have hnone : Table.find table row.address row.worker = none := by
        apply Option.eq_none_iff_forall_ne_some.mpr
        intro a ha
        obtain ⟨other, hmem, _, haddress, hworker, _⟩ := (hfind _ _ _).mp ha
        exact hother other hmem ⟨haddress, hworker⟩
      rw [accumulate_new hretained (capped_key_of_within hnamed hkeys hself) hnone]
      by_cases hsame : (addr, key) = (row.address, row.worker)
      · cases hsame
        rw [Table.find_store_self, Option.some_inj,
          or_iff_right fun ⟨other, hmem, _, haddress, hworker, _⟩ => hother other hmem ⟨haddress, hworker⟩]
        exact ⟨fun hadd => ⟨hretained, rfl, rfl, hadd⟩, fun hlast => hlast.2.2.2⟩
      · rw [Table.find_store_ne _ _ hsame, hfind]
        exact (or_iff_left fun hlast => hsame (Prod.ext hlast.2.1.symm hlast.2.2.1.symm)).symm
    · rw [accumulate, if_neg hretained, hfind]
      exact (or_iff_left fun hlast => hretained hlast.1).symm

/-- What the second pass makes of keys: a row for each, holding what was added up. -/
structure Rebuilt (rows : List (Text × Text × Accum)) (stats : UserStats) : Prop where
  found : ∀ row ∈ rows, ∃ acct, stats.find row.1 row.2.1 = some acct
  holds (addr key : Text) (acct : WorkerAccountingHandle) :
    stats.find addr key = some acct → acct < stats.rows.length ∧
      ∃ a : Accum, (addr, key, a) ∈ rows ∧
        stats.row acct = WorkerAccounting.new.recover a.shares_accepted a.shares_rejected a.last_share_ts
  addresses : ∀ addr ∈ stats.user_stats.keys, ∃ key a, (addr, key, a) ∈ rows

/-- The keys of some rows. -/
def RowKeys (rows : List (Text × Text × Accum)) (addr key : Text) : Prop := ∃ a, (addr, key, a) ∈ rows

theorem worker_entry_none {stats' : UserStats}
    (h : stats.worker_entry cap addr worker = (stats', none)) : stats.user_stats.lookup addr = none := by
  unfold UserStats.worker_entry at h
  cases hlookup : stats.user_stats.lookup addr with
  | none => rfl
  | some workers =>
    rw [hlookup] at h
    cases h

theorem resolve_worker_key_of_within (h : NamedWithin cap key)
    {workers : WorkerMap} (hworkers : ∀ name ∈ workers.keys, key addr name)
    (hworker : key addr worker) : resolve_worker_key cap workers worker = worker := by
  unfold resolve_worker_key
  split
  · rfl
  · rename_i hnew
    split
    · rename_i hfull
      obtain ⟨hnamed, hcap, hcount⟩ := hfull
      exact absurd (h.below hcap workers.nodupKeys hworkers hworker hnew hnamed) (Nat.not_lt_of_le hcount)
    · rfl

/-- A new row is the last of all, and holds what was added up for its key. -/
theorem Rebuilt.added (h : Rebuilt rows stats)
    (addr worker : Text) (a : Accum) :
    Rebuilt (rows ++ [(addr, worker, a)])
      (UserStats.update ⟨Table.store stats.user_stats addr worker stats.rows.length, stats.rows ++ [.new]⟩
        stats.rows.length (·.recover a.shares_accepted a.shares_rejected a.last_share_ts)) := by
  refine ⟨fun row hrow => ?_, fun other key acct hfind => ?_, fun other hother => ?_⟩
  · change ∃ acct, Table.find (Table.store _ _ _ _) _ _ = some acct
    by_cases hsame : (row.1, row.2.1) = (addr, worker)
    · obtain ⟨haddress, hworker⟩ := Prod.ext_iff.mp hsame
      dsimp only at haddress hworker
      rw [haddress, hworker, Table.find_store_self]
      exact ⟨_, rfl⟩
    · rw [Table.find_store_ne _ _ hsame]
      cases mem_append.mp hrow with
      | inl hrow => exact h.found row hrow
      | inr hrow =>
        rw [mem_singleton.mp hrow] at hsame
        exact absurd rfl hsame
  · change Table.find (Table.store _ _ _ _) _ _ = _ at hfind
    have hlength : ((stats.rows ++ [WorkerAccounting.new]).modify stats.rows.length
        (·.recover a.shares_accepted a.shares_rejected a.last_share_ts)).length = stats.rows.length + 1 := by
      rw [length_modify, length_append, length_singleton]
    by_cases hsame : (other, key) = (addr, worker)
    · cases hsame
      rw [Table.find_store_self] at hfind
      cases hfind
      refine ⟨?_, a, mem_append_right _ mem_cons_self, ?_⟩
      · change _ < List.length (List.modify _ _ _)
        rw [hlength]
        exact Nat.lt_succ_self _
      · change getD (List.modify _ _ _) _ _ = _
        rw [getD_eq_getElem?_getD, getElem?_modify_eq, getElem?_concat_length]
        rfl
    · rw [Table.find_store_ne _ _ hsame] at hfind
      obtain ⟨hlt, a', hmem, hrow⟩ := h.holds other key acct hfind
      refine ⟨?_, a', mem_append_left _ hmem, ?_⟩
      · change _ < List.length (List.modify _ _ _)
        rw [hlength]
        exact Nat.lt_succ_of_lt hlt
      · rw [← hrow]
        change getD (List.modify _ _ _) _ _ = getD _ _ _
        rw [getD_eq_getElem?_getD, getElem?_modify_ne _ _ (Nat.ne_of_gt hlt), getElem?_append_left hlt,
          getD_eq_getElem?_getD]
  · cases (AList.mem_insert _).mp hother with
    | inl heq => exact ⟨worker, a, mem_append_right _ (by rw [heq]; exact mem_cons_self)⟩
    | inr hmem =>
      obtain ⟨key, a', hrow⟩ := h.addresses other hmem
      exact ⟨key, a', mem_append_left _ hrow⟩

theorem Rebuilt.recover_row (h : Rebuilt rows stats)
    {row : Text × Text × Accum} (hnew : ¬ RowKeys rows row.1 row.2.1) (hnamed : NamedWithin cap (RowKeys (rows ++ [row])))
    (haddresses : AddressesWithin (RowKeys (rows ++ [row]))) :
    Rebuilt (rows ++ [row]) (recover_row cap stats row) := by
  obtain ⟨addr, worker, a⟩ := row
  have hself : RowKeys (rows ++ [(addr, worker, a)]) addr worker :=
    ⟨a, mem_append_right _ mem_cons_self⟩
  have hkeys : ∀ name ∈ (stats.workers addr).keys, RowKeys (rows ++ [(addr, worker, a)]) addr name := by
    intro name hname
    obtain ⟨acct, hfind⟩ := Table.find_of_mem_inner hname
    obtain ⟨_, a', hmem, _⟩ := h.holds addr name acct hfind
    exact ⟨a', mem_append_left _ hmem⟩
  have hkey : stats.key cap addr worker = worker := resolve_worker_key_of_within hnamed hkeys hself
  have habsent : stats.find addr worker = none := by
    apply Option.eq_none_iff_forall_ne_some.mpr
    intro acct hfind
    obtain ⟨_, a', hmem, _⟩ := h.holds addr worker acct hfind
    exact hnew ⟨a', hmem⟩
  unfold recover_user_stats.recover_row
  cases hentry : stats.worker_entry cap addr worker with
  | mk stats' result =>
    cases UserStats.worker_entry_entry hentry with
    | full hfull =>
      have hlookup := worker_entry_none hentry
      have hle := haddresses (addr :: stats.user_stats.keys)
        (nodup_cons.mpr ⟨AList.lookup_eq_none.mp hlookup, stats.user_stats.nodupKeys⟩)
        (forall_mem_cons.mpr ⟨⟨worker, hself⟩, fun other hmem => by
          obtain ⟨key, a', hrow⟩ := h.addresses other hmem
          exact ⟨key, a', mem_append_left _ hrow⟩⟩)
      rw [length_cons] at hle
      omega
    | found acct hfound =>
      rw [hkey, habsent] at hfound
      cases hfound
    | added =>
      rw [hkey]
      exact h.added addr worker a

/-- The second pass over keys from an empty registry. -/
theorem run_rebuilt
    (hdistinct : (rows.map fun row => (row.1, row.2.1)).Nodup) (hnamed : NamedWithin cap (RowKeys rows))
    (haddresses : AddressesWithin (RowKeys rows)) :
    Rebuilt rows (run (recover_user_stats.recover_row cap) .empty rows) := by
  induction rows using reverseRecOn with
  | nil =>
    refine ⟨fun _ hmem => absurd hmem not_mem_nil, fun _ _ _ hfind => ?_,
      fun _ hmem => absurd hmem not_mem_nil⟩
    cases hfind
  | append_singleton rows row ih =>
    rw [map_append, nodup_append] at hdistinct
    have hearlier : ∀ addr key, RowKeys rows addr key → RowKeys (rows ++ [row]) addr key :=
      fun _ _ ⟨a, hmem⟩ => ⟨a, mem_append_left _ hmem⟩
    have hnew : ¬ RowKeys rows row.1 row.2.1 :=
      fun ⟨_, hmem⟩ => hdistinct.2.2 _ (mem_map_of_mem hmem) _ mem_cons_self rfl
    rw [run_append, run_cons, run_nil]
    exact (ih hdistinct.1 (hnamed.mono hearlier) (haddresses.mono hearlier)).recover_row hnew hnamed haddresses

section

variable {cap retention_days now_wall : Int} {recovered : List RecoveredWorker}

/-- The row made from one file row. -/
def recovered_row (row : RecoveredWorker) : WorkerAccounting :=
  WorkerAccounting.new.recover (Accum.add {} row).shares_accepted (Accum.add {} row).shares_rejected
    (Accum.add {} row).last_share_ts

/-- Where no two rows read share a key and the caps leave room for all, each row retained
gets a row of its own, and there are no others. -/
theorem recover_exact (hdistinct : (recovered.map pair).Nodup)
    (hnamed : NamedWithin cap (Keys (cutoff retention_days now_wall) recovered))
    (haddresses : AddressesWithin (Keys (cutoff retention_days now_wall) recovered)) (addr key : Text) :
    (∀ row ∈ recovered, Retained (cutoff retention_days now_wall) row → row.address = addr → row.worker = key →
      ∃ acct, (recover_user_stats cap retention_days now_wall recovered .empty).find addr key =
        some acct) ∧
    ∀ acct, (recover_user_stats cap retention_days now_wall recovered .empty).find addr key =
        some acct →
      ∃ row ∈ recovered, Retained (cutoff retention_days now_wall) row ∧ row.address = addr ∧ row.worker = key ∧
        (recover_user_stats cap retention_days now_wall recovered .empty).row acct = recovered_row row := by
  have hfind := find_accumulate hdistinct hnamed
  rw [recover_user_stats]
  generalize run (accumulate cap (cutoff retention_days now_wall)) ∅ recovered = table at hfind ⊢
  have hkeys : ∀ addr name, RowKeys (Table.flatten text_le text_le table) addr name →
      Keys (cutoff retention_days now_wall) recovered addr name := by
    rintro addr name ⟨a, hmem⟩
    obtain ⟨row, hrow, hretained, haddress, hworker, _⟩ := (hfind _ _ _).mp ((Table.mem_flatten _ _).mp hmem)
    exact ⟨row, hrow, hretained, haddress, hworker⟩
  have hrebuilt := run_rebuilt (Table.flatten_nodup text_le text_le table) (hnamed.mono hkeys) (haddresses.mono hkeys)
  refine ⟨fun row hmem hretained haddress hworker => ?_, fun acct hfound => ?_⟩
  · have hrow := (hfind addr key _).mpr ⟨row, hmem, hretained, haddress, hworker, rfl⟩
    exact hrebuilt.found _ ((Table.mem_flatten _ _).mpr hrow)
  · obtain ⟨_, a, hmem, hrow⟩ := hrebuilt.holds addr key acct hfound
    obtain ⟨row, hrecovered, hretained, haddress, hworker, rfl⟩ := (hfind _ _ _).mp ((Table.mem_flatten _ _).mp hmem)
    exact ⟨row, hrecovered, hretained, haddress, hworker, hrow⟩

/-- A key that is that of a row read, or the bare one of its address. -/
def Sourced (recovered : List RecoveredWorker) (addr key : Text) : Prop :=
  ∃ row ∈ recovered, row.address = addr ∧ (key = row.worker ∨ key = [])

theorem capped_key_eq (cap : Int) (keys : Table Text Accum) (worker : Text) :
    capped_key cap keys worker = worker ∨ capped_key cap keys worker = [] := by
  unfold capped_key
  split
  · exact .inr rfl
  · exact .inl rfl

theorem resolve_worker_key_eq (cap : Int) (workers : WorkerMap) (worker : Text) :
    resolve_worker_key cap workers worker = worker ∨ resolve_worker_key cap workers worker = [] := by
  unfold resolve_worker_key
  repeat' split
  · exact .inl rfl
  · exact .inr rfl
  · exact .inl rfl

theorem accumulate_sourced {cutoff : Int} (table : Accums) (row : RecoveredWorker)
    (htable : ∀ addr key a, Table.find table addr key = some a → Sourced recovered addr key)
    (hmem : row ∈ recovered) (addr key : Text) (a : Accum)
    (hfind : Table.find (accumulate cap cutoff table row) addr key = some a) : Sourced recovered addr key := by
  unfold accumulate at hfind
  split at hfind
  · by_cases hsame : (addr, key) = (row.address, capped_key cap (Table.inner table row.address) row.worker)
    · obtain ⟨haddress, hkey⟩ := Prod.ext_iff.mp hsame
      refine ⟨row, hmem, haddress.symm, ?_⟩
      rw [show key = _ from hkey]
      exact capped_key_eq cap _ row.worker
    · rw [Table.find_store_ne _ _ hsame] at hfind
      exact htable addr key a hfind
  · exact htable addr key a hfind

theorem recover_row_sourced (stats : UserStats) (row : Text × Text × Accum)
    (hstats : ∀ addr key acct, stats.find addr key = some acct → Sourced recovered addr key)
    (hrow : Sourced recovered row.1 row.2.1) (addr key : Text) (acct : WorkerAccountingHandle)
    (hfind : (recover_row cap stats row).find addr key = some acct) : Sourced recovered addr key := by
  unfold recover_row at hfind
  cases hentry : stats.worker_entry cap row.1 row.2.1 with
  | mk stats' result =>
    rw [hentry] at hfind
    cases UserStats.worker_entry_entry hentry with
    | full => exact hstats addr key acct hfind
    | found => exact hstats addr key acct hfind
    | added =>
      change Table.find (Table.store _ _ _ _) _ _ = _ at hfind
      by_cases hsame : (addr, key) = (row.1, stats.key cap row.1 row.2.1)
      · obtain ⟨haddress, hkey⟩ := Prod.ext_iff.mp hsame
        obtain ⟨read, hmem, hread, hworker⟩ := hrow
        refine ⟨read, hmem, hread.trans haddress.symm, ?_⟩
        rw [show key = _ from hkey]
        cases resolve_worker_key_eq cap (stats.workers row.1) row.2.1 with
        | inl hsame => exact hworker.imp hsame.trans hsame.trans
        | inr hbare => exact .inr hbare
      · rw [Table.find_store_ne _ _ hsame] at hfind
        exact hstats addr key acct hfind

/-- Every row recovered is that of a row read, or the bare one of its address. -/
theorem recover_sourced {addr key : Text} {acct : WorkerAccountingHandle}
    (hfind : (recover_user_stats cap retention_days now_wall recovered .empty).find addr key = some acct) :
    Sourced recovered addr key := by
  have htable : ∀ addr key a,
      Table.find (run (accumulate cap (cutoff retention_days now_wall)) ∅ recovered) addr key = some a →
        Sourced recovered addr key :=
    run_invariant accumulate_sourced (fun _ _ _ hfind => by cases hfind)
      (guarded_of_forall (fun _ hmem => hmem) _)
  have hrows : ∀ row ∈ Table.flatten text_le text_le
      (run (accumulate cap (cutoff retention_days now_wall)) ∅ recovered),
        Sourced recovered row.1 row.2.1 :=
    fun row hmem => htable _ _ _ ((Table.mem_flatten _ _).mp hmem)
  have hstats : ∀ addr key acct,
      (recover_user_stats cap retention_days now_wall recovered .empty).find addr key = some acct →
        Sourced recovered addr key :=
    run_invariant recover_row_sourced (fun _ _ _ hfind => by cases hfind)
      (guarded_of_forall hrows _)
  exact hstats addr key acct hfind

end

end recover_user_stats

/-- What an exact recovery needs of the rows of a snapshot: distinct workers, counts a double
holds, times within the retention and no more of them than are kept. -/
structure Recoverable (cap retention_days now_wall : Int) (snapshot : PoolSnapshot) : Prop where
  distinct : (snapshot.workers.map fun row => (row.address, row.worker)).Nodup
  shares_accepted : ∀ row ∈ snapshot.workers, row.shares_accepted < 2 ^ 53
  shares_rejected : ∀ row ∈ snapshot.workers, row.shares_rejected < 2 ^ 53
  mined : ∀ row ∈ snapshot.workers, 0 < row.last_share_ts
  retained : ∀ row ∈ snapshot.workers, recover_user_stats.cutoff retention_days now_wall ≤ row.last_share_ts
  named : 0 < cap → ∀ addr,
    snapshot.workers.countP (fun row => row.address = addr && !row.worker.isEmpty) ≤ cap.toNat
  addresses : (snapshot.workers.map (·.address)).dedup.length ≤ kMaxUserFiles

/-- A registry with exactly the rows of a snapshot. -/
structure Restored (workers : List WorkerSnapshot) (stats : UserStats) : Prop where
  kept : ∀ row ∈ workers, ∃ acct, stats.find row.address row.worker = some acct ∧
    (stats.row acct).shares_accepted = row.shares_accepted ∧
    (stats.row acct).shares_rejected = row.shares_rejected ∧
    (stats.row acct).last_share_ts = row.last_share_ts
  only : ∀ addr worker acct, stats.find addr worker = some acct →
    ∃ row ∈ workers, row.address = addr ∧ row.worker = worker

/-- What lets a row come back: its address names a file that is written and read again, its
worker is not named as the address, and its last share is in a year that is an `int`. -/
structure Returns (snapshot : PoolSnapshot) (row : WorkerSnapshot) : Prop where
  filed : Filed snapshot row.address
  apart : row.worker ≠ row.address
  year : year row.last_share_ts < 2 ^ 31

theorem is_safe_address_ne_nil {addr : Text} (h : is_safe_address addr = true) : addr ≠ [] :=
  (of_decide_eq_true h).1

section

variable {cap retention_days now_wall : Int} {snapshot : PoolSnapshot}

namespace Recoverable

/-- What a count becomes on its way through a file. -/
theorem count_eq {count : Nat} (h : count < 2 ^ 53) :
    (0 + (0 + as_uint64 (to_double count)) % 2 ^ 64) % 2 ^ 64 = count := by
  rw [to_double_of_lt h, as_uint64, if_pos (by omega)]
  omega

theorem recovered_row_reread (h : Recoverable cap retention_days now_wall snapshot) {row : WorkerSnapshot}
    (hrow : row ∈ snapshot.workers) :
    (recover_user_stats.recovered_row (reread snapshot row)).shares_accepted = row.shares_accepted ∧
    (recover_user_stats.recovered_row (reread snapshot row)).shares_rejected = row.shares_rejected ∧
    (recover_user_stats.recovered_row (reread snapshot row)).last_share_ts =
      max 0 (max 0 (parse_rfc9557 (format_rfc9557 row.last_share_ts))) :=
  ⟨count_eq (h.shares_accepted row hrow), count_eq (h.shares_rejected row hrow), rfl⟩

/-- A row comes back under its own key. -/
theorem eq_of_pair (h : Recoverable cap retention_days now_wall snapshot) {row row' : WorkerSnapshot}
    (hrow : row ∈ snapshot.workers) (hrow' : row' ∈ snapshot.workers) (hapart : row'.worker ≠ row'.address)
    (haddress : (reread snapshot row').address = row.address) (hworker : (reread snapshot row').worker = row.worker) :
    row' = row := by
  rw [reread_worker, if_neg hapart] at hworker
  exact inj_on_of_nodup_map h.distinct hrow' hrow (Prod.ext haddress hworker)

variable {listing : List (Sigma fun _ : Text => UserFile)}

theorem named_within (h : Recoverable cap retention_days now_wall snapshot)
    (hlisting : listing.Perm (write_user_files kMaxUserFiles snapshot .empty).files.entries) :
    recover_user_stats.NamedWithin cap
      (recover_user_stats.Keys (recover_user_stats.cutoff retention_days now_wall) (read_user_stats listing)) := by
  intro hcap addr names hdistinct hnames
  have hsub : names ⊆ (snapshot.workers.filter fun row => row.address = addr && !row.worker.isEmpty).map
      (·.worker) := by
    intro name hmem
    obtain ⟨hsome, read, hread, _, haddress, hworker⟩ := hnames name hmem
    obtain ⟨row, hrow, _, rfl⟩ := (mem_read_user_stats h.addresses hlisting).mp hread
    rw [reread_worker] at hworker
    split at hworker
    · exact absurd hworker.symm hsome
    · refine mem_map.mpr ⟨row, mem_filter.mpr ⟨hrow, ?_⟩, hworker⟩
      rw [hworker]
      simpa using ⟨haddress, hsome⟩
  have hle := (subperm_of_subset hdistinct hsub).length_le
  rw [length_map, ← countP_eq_length_filter] at hle
  exact hle.trans (h.named hcap addr)

theorem addresses_within (h : Recoverable cap retention_days now_wall snapshot)
    (hlisting : listing.Perm (write_user_files kMaxUserFiles snapshot .empty).files.entries) :
    recover_user_stats.AddressesWithin
      (recover_user_stats.Keys (recover_user_stats.cutoff retention_days now_wall) (read_user_stats listing)) := by
  intro addresses hdistinct haddresses
  have hsub : addresses ⊆ (snapshot.workers.map (·.address)).dedup := by
    intro addr hmem
    obtain ⟨_, read, hread, _, rfl, _⟩ := haddresses addr hmem
    obtain ⟨row, hrow, _, rfl⟩ := (mem_read_user_stats h.addresses hlisting).mp hread
    exact mem_dedup.mpr (mem_map_of_mem hrow)
  exact (subperm_of_subset hdistinct hsub).length_le.trans h.addresses

/-- A row restored has a file that is read, and a name apart from its address. -/
theorem filed_of_restored (h : Recoverable cap retention_days now_wall snapshot)
    (hlisting : listing.Perm (write_user_files kMaxUserFiles snapshot .empty).files.entries)
    (hrestored : Restored snapshot.workers
      (recover_user_stats cap retention_days now_wall (read_user_stats listing) .empty)) {row : WorkerSnapshot}
    (hrow : row ∈ snapshot.workers) : Filed snapshot row.address ∧ row.worker ≠ row.address := by
  obtain ⟨acct, hfind, _⟩ := hrestored.kept row hrow
  obtain ⟨read, hread, haddress, hworker⟩ := recover_user_stats.recover_sourced hfind
  obtain ⟨source, _, hfiled, rfl⟩ := (mem_read_user_stats h.addresses hlisting).mp hread
  have hsource : source.address = row.address := haddress
  have hsome := is_safe_address_ne_nil hfiled.safe
  rw [hsource] at hsome hfiled
  refine ⟨hfiled, fun hsame => ?_⟩
  cases hworker with
  | inl hworker =>
    rw [reread_worker] at hworker
    split at hworker
    · exact hsome (hsame.symm.trans hworker)
    · rename_i hapart
      exact hapart (hworker.symm.trans (hsame.trans hsource.symm))
  | inr hbare => exact hsome (hsame.symm.trans hbare)

end Recoverable

/-- User files written from a snapshot and recovered into an empty registry, in whatever
order the directory lists them: exactly the rows of the snapshot come back, with their
counts and times, if and only if each of them `Returns`. -/
theorem user_files_restore_registry (h : Recoverable cap retention_days now_wall snapshot)
    {listing : List (Sigma fun _ : Text => UserFile)}
    (hlisting : listing.Perm (write_user_files kMaxUserFiles snapshot .empty).files.entries) :
    Restored snapshot.workers (recover_user_stats cap retention_days now_wall (read_user_stats listing) .empty) ↔
      ∀ row ∈ snapshot.workers, Returns snapshot row := by
  have hexact := fun hapart => recover_user_stats.recover_exact
    (read_user_stats_nodup h.addresses hlisting h.distinct hapart) (h.named_within hlisting)
    (h.addresses_within hlisting)
  constructor
  · intro hrestored row hrow
    have hfiled : ∀ row ∈ snapshot.workers, Filed snapshot row.address ∧ row.worker ≠ row.address :=
      fun _ hmem => h.filed_of_restored hlisting hrestored hmem
    refine ⟨(hfiled row hrow).1, (hfiled row hrow).2, ?_⟩
    obtain ⟨acct, hfind, _, _, hlast⟩ := hrestored.kept row hrow
    obtain ⟨read, hread, _, haddress, hworker, hvalue⟩ :=
      (hexact (fun row hmem => (hfiled row hmem).2) row.address row.worker).2 acct hfind
    obtain ⟨source, hsource, _, rfl⟩ := (mem_read_user_stats h.addresses hlisting).mp hread
    obtain rfl := h.eq_of_pair hrow hsource (hfiled source hsource).2 haddress hworker
    have hmined := h.mined source hsource
    rw [hvalue, (h.recovered_row_reread hsource).2.2] at hlast
    apply (parse_format_rfc9557 hmined).mp
    omega
  · intro hreturns
    have hback := hexact fun row hrow => (hreturns row hrow).apart
    refine ⟨fun row hrow => ?_, fun addr worker acct hfind => ?_⟩
    · have hreturn := hreturns row hrow
      have hmined := h.mined row hrow
      have htime : parse_rfc9557 (format_rfc9557 row.last_share_ts) = row.last_share_ts :=
        (parse_format_rfc9557 hmined).mpr hreturn.year
      have hworker : (reread snapshot row).worker = row.worker := by rw [reread_worker, if_neg hreturn.apart]
      have hkept : recover_user_stats.Retained (recover_user_stats.cutoff retention_days now_wall)
          (reread snapshot row) := by
        refine ⟨is_safe_address_ne_nil hreturn.filed.safe, ?_, ?_⟩
        · change parse_rfc9557 (format_rfc9557 row.last_share_ts) ≠ 0
          omega
        · change _ ≤ parse_rfc9557 (format_rfc9557 row.last_share_ts)
          rw [htime]
          exact h.retained row hrow
      obtain ⟨acct, hfind⟩ := (hback row.address row.worker).1 _
        ((mem_read_user_stats h.addresses hlisting).mpr ⟨row, hrow, hreturn.filed, rfl⟩) hkept rfl hworker
      obtain ⟨read, hread, _, haddress, hname, hvalue⟩ := (hback row.address row.worker).2 acct hfind
      obtain ⟨source, hsource, _, rfl⟩ := (mem_read_user_stats h.addresses hlisting).mp hread
      obtain rfl := h.eq_of_pair hrow hsource (hreturns source hsource).apart haddress hname
      obtain ⟨haccepted, hrejected, hlast⟩ := h.recovered_row_reread hsource
      refine ⟨acct, hfind, ?_, ?_, ?_⟩
      · rw [hvalue, haccepted]
      · rw [hvalue, hrejected]
      · rw [hvalue, hlast, htime]
        omega
    · obtain ⟨read, hread, _, haddress, hworker, _⟩ := (hback addr worker).2 acct hfind
      obtain ⟨source, hsource, _, rfl⟩ := (mem_read_user_stats h.addresses hlisting).mp hread
      rw [reread_worker, if_neg (hreturns source hsource).apart] at hworker
      exact ⟨source, hsource, haddress, hworker⟩

end

namespace Rigs

def addr : Text := "bc1qrigs".toList

/-- One unnamed worker and one with a name, of the same address. -/
def snapshot (name : Text) : PoolSnapshot where
  starttime := 90000
  uptime := 600
  blocks_by_address := ∅
  clients := []
  workers := [⟨addr, [], 3, 0, 90000⟩, ⟨addr, name, 5, 1, 90300⟩]

/-- The registry after a restart, 30 days being retained. -/
def restarted (name : Text) : UserStats :=
  recover_user_stats 10 30 100000
    (read_user_stats (write_user_files kMaxUserFiles (snapshot name) .empty).files.entries) .empty

theorem recoverable {name : Text} (hname : name ≠ []) : Recoverable 10 30 100000 (snapshot name) where
  distinct := by
    simpa [snapshot] using hname
  shares_accepted := by simp [snapshot]
  shares_rejected := by simp [snapshot]
  mined := by simp [snapshot]
  retained := by simp [snapshot, recover_user_stats.cutoff]
  named _ _ := (countP_le_length).trans (by decide : 2 ≤ 10)
  addresses := (by decide : 1 ≤ kMaxUserFiles)

theorem filed : Filed (snapshot "rig".toList) addr := ⟨by decide, by decide +kernel, by decide +kernel⟩

end Rigs

theorem user_files_restore_registry_rigs :
    Restored (Rigs.snapshot "rig".toList).workers (Rigs.restarted "rig".toList) :=
  (user_files_restore_registry (Rigs.recoverable (by decide)) (.refl _)).mpr
    (forall_mem_cons.mpr ⟨⟨Rigs.filed, by decide, by decide⟩,
      forall_mem_singleton.mpr ⟨Rigs.filed, by decide, by decide +kernel⟩⟩)

/-- The named worker's row is gone: what it counted has gone to the bucket of the address. -/
theorem worker_named_as_address_folded :
    Recoverable 10 30 100000 (Rigs.snapshot Rigs.addr) ∧
      ¬ Restored (Rigs.snapshot Rigs.addr).workers (Rigs.restarted Rigs.addr) ∧
      (Rigs.restarted Rigs.addr).find Rigs.addr Rigs.addr = none ∧
      ((Rigs.restarted Rigs.addr).find Rigs.addr []).map (Rigs.restarted Rigs.addr).row =
        some ⟨8, 1, 90300, 90300⟩ := by
  have hlost : (Rigs.restarted Rigs.addr).find Rigs.addr Rigs.addr = none := by decide +kernel
  refine ⟨Rigs.recoverable (by decide), fun hrestored => ?_, hlost, by decide +kernel⟩
  obtain ⟨acct, hfind, _⟩ := hrestored.kept _ (mem_cons_of_mem _ mem_cons_self)
  exact absurd (hlost.symm.trans hfind) (by simp)

end erikslund
