import SoloPool.Pool.WorkerStats

namespace erikslund

open util stats List

namespace UserStats

/-- What a call of `worker_entry` can do. -/
inductive Entry (cap : Int) (stats : UserStats) (addr worker : Text) :
    UserStats → Option WorkerAccountingHandle → Prop
  | full (hfull : kMaxUserFiles ≤ stats.user_stats.keys.length) : Entry cap stats addr worker stats none
  | found (acct : WorkerAccountingHandle) (hfound : stats.find addr (stats.key cap addr worker) = some acct) :
    Entry cap stats addr worker stats (some acct)
  | added (habsent : stats.find addr (stats.key cap addr worker) = none)
      (hroom : stats.user_stats.lookup addr = none → stats.user_stats.keys.length < kMaxUserFiles)
      (hcap : 0 < cap → stats.key cap addr worker ≠ [] → (stats.workers addr).named < cap.toNat) :
    Entry cap stats addr worker
      ⟨stats.user_stats.insert addr
          ((stats.workers addr).insert (stats.key cap addr worker) stats.rows.length), stats.rows ++ [.new]⟩
      (some stats.rows.length)

variable {cap : Int} {worker addr : Text} {stats stats' : UserStats} {result : Option WorkerAccountingHandle}
  {acct : WorkerAccountingHandle}

theorem resolve_worker_key_mem {workers : WorkerMap} (h : worker ∈ workers) :
    resolve_worker_key cap workers worker = worker := if_pos h

/-- A named key that is new to the address is only given out below the cap. -/
theorem resolve_worker_key_named {workers : WorkerMap} (hcap : 0 < cap)
    (habsent : workers.lookup (resolve_worker_key cap workers worker) = none)
    (hnamed : resolve_worker_key cap workers worker ≠ []) : workers.named < cap.toNat := by
  have hnew := AList.lookup_eq_none.mp habsent
  unfold resolve_worker_key at hnew hnamed
  split at hnew
  · contradiction
  · rename_i hworker
    rw [if_neg hworker] at hnamed
    split at hnamed
    · contradiction
    · rename_i hfolded
      by_contra hfull
      exact hfolded ⟨hnamed, hcap, Nat.le_of_not_lt hfull⟩

theorem worker_row_entry (cap : Int) (stats : UserStats) (addr worker : Text)
    (hroom : stats.user_stats.lookup addr = none → stats.user_stats.keys.length < kMaxUserFiles) :
    Entry cap stats addr worker (stats.worker_row cap addr (stats.workers addr) worker).1
      (some (stats.worker_row cap addr (stats.workers addr) worker).2) := by
  unfold worker_row
  cases hworker : (stats.workers addr).lookup worker with
  | some acct =>
    have hkey : stats.key cap addr worker = worker :=
      resolve_worker_key_mem (AList.lookup_isSome.mp (by rw [hworker]; rfl))
    apply Entry.found
    rw [find, hkey, hworker]
  | none =>
    cases hkey : (stats.workers addr).lookup (resolve_worker_key cap (stats.workers addr) worker) with
    | some acct =>
      simp only [hkey]
      exact .found acct hkey
    | none =>
      simp only [hkey]
      exact .added hkey hroom fun hcap hnamed => resolve_worker_key_named hcap hkey hnamed

theorem worker_entry_entry (h : stats.worker_entry cap addr worker = (stats', result)) :
    Entry cap stats addr worker stats' result := by
  unfold worker_entry at h
  cases hlookup : stats.user_stats.lookup addr with
  | some workers =>
    have hworkers : stats.workers addr = workers := by rw [UserStats.workers, hlookup]; rfl
    rw [hlookup, ← hworkers] at h
    cases h
    exact worker_row_entry cap stats addr worker (fun h => by rw [hlookup] at h; cases h)
  | none =>
    have hworkers : stats.workers addr = ∅ := by rw [UserStats.workers, hlookup]; rfl
    rw [hlookup, ← hworkers] at h
    simp only at h
    split at h
    · rename_i hfull
      cases h
      exact .full hfull
    · rename_i hroom
      cases h
      exact worker_row_entry cap stats addr worker (fun _ => Nat.lt_of_not_le hroom)

/-- What holds of the registry itself. -/
structure Sound (cap : Int) (stats : UserStats) : Prop where
  size : stats.user_stats.keys.length ≤ kMaxUserFiles
  named (addr : Text) : (stats.workers addr).named ≤ cap.toNat
  distinct : stats.stored.Nodup
  made : ∀ acct ∈ stats.stored, acct < stats.rows.length

theorem workers_insert (stats : UserStats) (addr other : Text) (workers : WorkerMap) (rows : List WorkerAccounting) :
    UserStats.workers ⟨stats.user_stats.insert addr workers, rows⟩ other =
      if other = addr then workers else stats.workers other := by
  unfold UserStats.workers
  split
  · rename_i heq
    rw [heq, AList.lookup_insert]
    rfl
  · rename_i hne
    rw [AList.lookup_insert_ne hne]

open Table

theorem stored_insert (stats : UserStats) (addr key : Text) (acct : WorkerAccountingHandle)
    (rows : List WorkerAccounting) (habsent : stats.find addr key = none) :
    (stored ⟨stats.user_stats.insert addr ((stats.workers addr).insert key acct), rows⟩).Perm
      (acct :: stats.stored) := by
  simp only [stored]
  rw [values_insert, flatMap_cons, values_insert, values_erase_absent habsent, cons_append]
  apply Perm.cons
  unfold workers
  cases hlookup : stats.user_stats.lookup addr with
  | none =>
    rw [values_erase_absent hlookup]
    exact .refl _
  | some workers =>
    exact (values_erase hlookup).flatMap_right values

theorem find_mem_stored {key : Text}
    (h : stats.find addr key = some acct) : acct ∈ stats.stored := by
  unfold find workers at h
  cases hlookup : stats.user_stats.lookup addr with
  | none =>
    rw [hlookup] at h
    cases h
  | some workers =>
    rw [hlookup] at h
    exact mem_flatMap.mpr ⟨workers, Table.mem_values.mpr ⟨addr, hlookup⟩, Table.mem_values.mpr ⟨key, h⟩⟩

theorem Entry.find_eq (h : Entry cap stats addr worker stats' result) {other key : Text}
    (hfind : stats.find other key = some acct) :
    stats'.find other key = some acct := by
  cases h with
  | full => exact hfind
  | found => exact hfind
  | added habsent =>
    rw [find, workers_insert]
    split
    · rename_i heq
      subst heq
      have hne : key ≠ stats.key cap other worker := by
        intro heq
        rw [heq, habsent] at hfind
        cases hfind
      rw [AList.lookup_insert_ne hne]
      exact hfind
    · exact hfind

theorem Entry.result_find (h : Entry cap stats addr worker stats' (some acct)) :
    stats'.find addr (stats.key cap addr worker) = some acct := by
  cases h with
  | found _ hfound => exact hfound
  | added => rw [find, workers_insert, if_pos rfl, AList.lookup_insert]

/-- A new row has counted nothing. -/
theorem Entry.sum_eq (h : Entry cap stats addr worker stats' result)
    {count : WorkerAccounting → Nat} (hnew : count .new = 0) :
    (stats'.rows.map count).sum = (stats.rows.map count).sum := by
  cases h with
  | full => rfl
  | found => rfl
  | added => simp [hnew]

theorem Sound.entry (hsound : stats.Sound cap) (hcap : 0 < cap)
    (h : Entry cap stats addr worker stats' result) : stats'.Sound cap := by
  cases h with
  | full => exact hsound
  | found => exact hsound
  | added habsent hroom hbelow =>
    have hperm := stored_insert stats addr _ stats.rows.length (stats.rows ++ [.new]) habsent
    have hnew : stats.rows.length ∉ stats.stored := fun hmem => Nat.lt_irrefl _ (hsound.made _ hmem)
    refine ⟨?_, fun other => ?_, ?_, fun acct hmem => ?_⟩
    · cases hlookup : stats.user_stats.lookup addr with
      | none =>
        rw [keys_insert_absent hlookup, length_cons]
        exact hroom hlookup
      | some workers =>
        rw [length_insert_present hlookup]
        exact hsound.size
    · rw [workers_insert]
      split
      · rename_i heq
        rw [WorkerMap.named, keys_insert_absent habsent, countP_cons]
        split
        · rename_i hnamed
          exact hbelow hcap (by simpa using hnamed)
        · exact hsound.named addr
      · exact hsound.named other
    · exact hperm.nodup_iff.mpr (nodup_cons.mpr ⟨hnew, hsound.distinct⟩)
    · rw [length_append, length_singleton]
      cases hperm.mem_iff.mp hmem with
      | head => exact Nat.lt_succ_self _
      | tail _ hold => exact Nat.lt_succ_of_lt (hsound.made acct hold)

/-- Writing to a row leaves the map as it is. -/
theorem Sound.update (hsound : stats.Sound cap) (acct : WorkerAccountingHandle)
    (f : WorkerAccounting → WorkerAccounting) : (stats.update acct f).Sound cap := by
  refine ⟨hsound.size, hsound.named, hsound.distinct, fun other hmem => ?_⟩
  rw [UserStats.update, length_modify]
  exact hsound.made other hmem

/-- A row that counts one more adds one to the sum over all rows. -/
theorem sum_modify {count : WorkerAccounting → Nat} {f : WorkerAccounting → WorkerAccounting} {added : Nat}
    (hcount : ∀ row, count (f row) = count row + added) {rows : List WorkerAccounting} {acct : Nat}
    (hmade : acct < rows.length) :
    ((rows.modify acct f).map count).sum = (rows.map count).sum + added := by
  induction rows generalizing acct with
  | nil => cases hmade
  | cons row rows ih =>
    cases acct with
    | zero =>
      simp only [modify_zero_cons, map_cons, sum_cons, hcount]
      omega
    | succ acct =>
      simp only [modify_succ_cons, map_cons, sum_cons, ih (Nat.lt_of_succ_lt_succ hmade)]
      omega

section prune

variable (stats : UserStats) (held : List WorkerAccountingHandle) (retention_days now : Int)

theorem workers_prune (addr : Text) : (stats.prune_user_stats held retention_days now).workers addr =
    stats.prune_workers held retention_days now (stats.workers addr) := by
  unfold workers
  rw [prune_user_stats, lookup_filterMap]
  cases stats.user_stats.lookup addr with
  | none => rfl
  | some workers =>
    simp only [Option.bind_some, Option.getD_some]
    split
    · rename_i hempty
      rw [List.isEmpty_iff] at hempty
      exact AList.ext (map_eq_nil_iff.mp hempty).symm
    · rfl

variable {stats held}

/-- A row with a handle outside the map is not erased. -/
theorem find_prune {addr key : Text} {acct : WorkerAccountingHandle}
    (hfind : stats.find addr key = some acct) (hheld : acct ∈ held) :
    (stats.prune_user_stats held retention_days now).find addr key = some acct := by
  have hpinned : stats.use_count held acct > 1 := by
    have hstored := count_pos_iff.mpr (find_mem_stored hfind)
    have hcopies := count_pos_iff.mpr hheld
    unfold use_count
    omega
  have hkept : stats.expired held retention_days now acct = false := by simp [expired, hpinned]
  have hlookup : (stats.workers addr).lookup key = some acct := hfind
  rw [find, workers_prune, prune_workers, lookup_filterMap, hlookup]
  simp [hkept]

theorem Sound.prune {cap : Int} (hsound : stats.Sound cap) :
    (stats.prune_user_stats held retention_days now).Sound cap := by
  have hsublist : (stats.prune_user_stats held retention_days now).stored.Sublist stats.stored := by
    apply flatMap_filterMap_sublist
    intro addr workers kept hkept
    simp only at hkept
    split at hkept
    · cases hkept
    · cases hkept
      apply values_filterMap_sublist
      intro worker acct kept hkept
      split at hkept
      · cases hkept
      · exact (Option.some.inj hkept).symm
  refine ⟨?_, fun addr => ?_, hsublist.nodup hsound.distinct, fun acct hmem => ?_⟩
  · exact Nat.le_trans (keys_filterMap_sublist _ _).length_le hsound.size
  · rw [workers_prune]
    exact Nat.le_trans (keys_filterMap_sublist _ _).countP_le (hsound.named addr)
  · exact hsound.made acct (hsublist.subset hmem)

end prune

end UserStats

namespace Accounts

open WorkerAccounting

/-- The registry is sound, every handle held is in it, and the rows count the calls. -/
structure Sound (cap : Int) (accounts : Accounts) : Prop where
  stats : accounts.stats.Sound cap
  held : ∀ hold ∈ accounts.held, accounts.stats.find hold.address hold.key = some hold.accounting
  accepted : (accounts.stats.rows.map shares_accepted).sum = accounts.accepted_notes
  rejected : (accounts.stats.rows.map shares_rejected).sum = accounts.rejected_notes

theorem empty_sound (cap : Int) : empty.Sound cap where
  stats := ⟨Nat.zero_le _, fun _ => Nat.zero_le _, .nil, fun _ h => nomatch h⟩
  held _ h := nomatch h
  accepted := rfl
  rejected := rfl

variable {cap : Int} {accounts : Accounts}

variable {addr worker : Text} {stats : UserStats} {acct : WorkerAccountingHandle}

theorem Sound.entry (h : accounts.Sound cap) (hcap : 0 < cap)
    {result : Option WorkerAccountingHandle} (hentry : UserStats.Entry cap accounts.stats addr worker stats result) :
    Sound cap { accounts with stats } where
  stats := h.stats.entry hcap hentry
  held hold hmem := hentry.find_eq (h.held hold hmem)
  accepted := (hentry.sum_eq rfl).trans h.accepted
  rejected := (hentry.sum_eq rfl).trans h.rejected

/-- A row written to, with what its counts gain also gained by the calls counted. -/
theorem Sound.write (h : accounts.Sound cap) (f : WorkerAccounting → WorkerAccounting) (accepted rejected : Nat)
    (hmade : acct < accounts.stats.rows.length)
    (haccepted : ∀ row, (f row).shares_accepted = row.shares_accepted + accepted)
    (hrejected : ∀ row, (f row).shares_rejected = row.shares_rejected + rejected) :
    Sound cap
      { accounts with
        stats := accounts.stats.update acct f
        accepted_notes := accounts.accepted_notes + accepted
        rejected_notes := accounts.rejected_notes + rejected } where
  stats := h.stats.update acct f
  held := h.held
  accepted := by rw [← h.accepted]; exact UserStats.sum_modify haccepted hmade
  rejected := by rw [← h.rejected]; exact UserStats.sum_modify hrejected hmade

theorem Sound.made (h : accounts.Sound cap) {key : Text}
    (hfind : accounts.stats.find addr key = some acct) : acct < accounts.stats.rows.length :=
  h.stats.made acct (UserStats.find_mem_stored hfind)

theorem Sound.attach (h : accounts.Sound cap) (hcap : 0 < cap) (now_wall : Int) (addr worker : Text) :
    Sound cap (accounts.step cap (.attach_worker now_wall addr worker)) := by
  by_cases hempty : addr.isEmpty
  · simp only [step, UserStats.attach_worker, if_pos hempty]
    exact h
  · cases hcall : accounts.stats.worker_entry cap addr worker with
    | mk stats result =>
    have hentry := UserStats.worker_entry_entry hcall
    have hentered := h.entry hcap hentry
    simp only [step, UserStats.attach_worker, if_neg hempty, hcall]
    cases result with
    | none => exact hentered
    | some acct =>
      have hwritten := hentered.write (·.touch now_wall) 0 0 (hentered.made hentry.result_find) (fun _ => rfl)
        (fun _ => rfl)
      refine ⟨hwritten.stats, fun hold hmem => ?_, hwritten.accepted, hwritten.rejected⟩
      cases hmem with
      | head => exact hentry.result_find
      | tail _ hold => exact hwritten.held _ hold

/-- The handle a note call is made with is of a row in the registry. -/
theorem Sound.handle_made (h : accounts.Sound cap) {holder : Option Nat}
    (hheld : accounts.handle holder = some acct) : acct < accounts.stats.rows.length := by
  obtain ⟨hold, hget, rfl⟩ := Option.map_eq_some_iff.mp hheld
  obtain ⟨place, -, hplace⟩ := Option.bind_eq_some_iff.mp hget
  exact h.made (h.held hold (mem_of_getElem? hplace))

theorem Sound.noted_row (h : accounts.Sound cap) (hcap : 0 < cap) (holder : Option Nat) (addr worker : Text)
    {result : Option WorkerAccountingHandle}
    (hnoted : accounts.stats.noted_row cap (accounts.handle holder) addr worker = (stats, result)) :
    Sound cap { accounts with stats } ∧ ∀ acct, result = some acct → acct < stats.rows.length := by
  unfold UserStats.noted_row at hnoted
  cases hheld : accounts.handle holder with
  | some acct =>
    rw [hheld] at hnoted
    cases hnoted
    refine ⟨h, fun acct heq => ?_⟩
    cases heq
    exact h.handle_made hheld
  | none =>
    rw [hheld] at hnoted
    simp only at hnoted
    split at hnoted
    · cases hnoted
      exact ⟨h, fun acct heq => nomatch heq⟩
    · have hentry := UserStats.worker_entry_entry hnoted
      have hentered := h.entry hcap hentry
      refine ⟨hentered, fun acct heq => ?_⟩
      cases heq
      exact hentered.made hentry.result_find

/-- A note call: where it finds a row, the row and the calls counted gain the same. -/
theorem Sound.note (h : accounts.Sound cap) (hcap : 0 < cap) {holder : Option Nat}
    (f : WorkerAccounting → WorkerAccounting) (accepted rejected : Nat) {resolved : Bool}
    (haccepted : ∀ row, (f row).shares_accepted = row.shares_accepted + accepted)
    (hrejected : ∀ row, (f row).shares_rejected = row.shares_rejected + rejected)
    (hnote : accounts.stats.note_share f cap (accounts.handle holder) addr worker = (stats, resolved)) :
    Sound cap
      { accounts with
        stats
        accepted_notes := accounts.accepted_notes + accepted * resolved.toNat
        rejected_notes := accounts.rejected_notes + rejected * resolved.toNat } := by
  unfold UserStats.note_share at hnote
  cases hnoted : accounts.stats.noted_row cap (accounts.handle holder) addr worker with
  | mk entered result =>
    obtain ⟨hentered, hmade⟩ := h.noted_row hcap holder addr worker hnoted
    rw [hnoted] at hnote
    cases result with
    | none =>
      cases hnote
      simpa using hentered
    | some acct =>
      cases hnote
      simpa using hentered.write f accepted rejected (hmade acct rfl) haccepted hrejected

theorem step_sound (hcap : 0 < cap) (accounts : Accounts) (event : Event) (h : accounts.Sound cap) :
    Sound cap (accounts.step cap event) := by
  cases event with
  | attach_worker now_wall addr worker => exact h.attach hcap now_wall addr worker
  | note_accepted_share now_wall holder addr worker =>
    cases hnote : accounts.stats.note_accepted_share cap now_wall (accounts.handle holder) addr worker with
    | mk stats resolved =>
      have hnoted := h.note hcap (·.note_accepted now_wall) 1 0 (fun _ => rfl) (fun _ => rfl) hnote
      simp only [step, hnote]
      simpa using hnoted
  | note_rejected_share now_wall holder addr worker =>
    cases hnote : accounts.stats.note_rejected_share cap now_wall (accounts.handle holder) addr worker with
    | mk stats resolved =>
      have hnoted := h.note hcap (·.note_rejected now_wall) 0 1 (fun _ => rfl) (fun _ => rfl) hnote
      simp only [step, hnote]
      simpa using hnoted
  | copy holder =>
    refine ⟨h.stats, fun hold hmem => ?_, h.accepted, h.rejected⟩
    cases mem_append.mp hmem with
    | inl hcopy => exact h.held hold (mem_of_getElem? (Option.mem_toList.mp hcopy))
    | inr hold => exact h.held _ hold
  | release holder =>
    refine ⟨h.stats, fun hold hmem => ?_, h.accepted, h.rejected⟩
    exact h.held hold (mem_of_mem_eraseIdx hmem)
  | prune_user_stats retention_days now =>
    refine ⟨h.stats.prune retention_days now, fun hold hmem => ?_, h.accepted, h.rejected⟩
    exact UserStats.find_prune retention_days now (h.held hold hmem) (mem_map_of_mem hmem)

theorem reached_sound (hcap : 0 < cap) (events : List Event) : (reached cap events).Sound cap :=
  Transition.run_invariant_always (fun accounts event => step_sound hcap accounts event) events (empty_sound cap)

/-- The rows in the map and the rows evicted are all the rows. -/
theorem Sound.total_eq (h : accounts.Sound cap) (count : WorkerAccounting → Nat) :
    accounts.total count accounts.stats.stored + accounts.total count accounts.evicted =
      (accounts.stats.rows.map count).sum := by
  have hall : (accounts.stats.stored ++ accounts.evicted).Perm (range accounts.stats.rows.length) := by
    have hapart : (accounts.stats.stored ++ accounts.evicted).Nodup := by
      refine nodup_append.mpr ⟨h.stats.distinct, nodup_range.filter _, fun acct hstored other hother => ?_⟩
      rintro rfl
      simp only [evicted, mem_filter, decide_eq_true_eq] at hother
      exact hother.2 hstored
    apply (perm_ext_iff_of_nodup hapart nodup_range).mpr
    intro acct
    have hmade := h.stats.made acct
    simp only [evicted, mem_append, mem_filter, mem_range, decide_eq_true_eq]
    tauto
  have hrows : (range accounts.stats.rows.length).map accounts.stats.row = accounts.stats.rows := by
    apply ext_getElem
    · simp
    · intro place hrange hplace
      simp [UserStats.row, hplace]
  calc accounts.total count accounts.stats.stored + accounts.total count accounts.evicted
      = ((accounts.stats.stored ++ accounts.evicted).map fun acct => count (accounts.stats.row acct)).sum := by
        rw [map_append, sum_append, total, total]
    _ = ((range accounts.stats.rows.length).map fun acct => count (accounts.stats.row acct)).sum :=
        (hall.map _).sum_nat
    _ = (accounts.stats.rows.map count).sum := by
        rw [← hrows, map_map, hrows]
        rfl

/-- With an address and no handle, a note call misses its row only in a full registry. -/
theorem Sound.unresolved (h : accounts.Sound cap) {f : WorkerAccounting → WorkerAccounting}
    (haddress : addr ≠ []) (hmissed : (accounts.stats.note_share f cap none addr worker).2 = false) :
    accounts.stats.user_stats.keys.length = kMaxUserFiles := by
  have hgiven : ¬ addr.isEmpty := by rwa [List.isEmpty_iff]
  cases hcall : accounts.stats.worker_entry cap addr worker with
  | mk stats result =>
  simp only [UserStats.note_share, UserStats.noted_row, if_neg hgiven, hcall] at hmissed
  have hentry := UserStats.worker_entry_entry hcall
  cases hentry with
  | full hfull => exact Nat.le_antisymm h.stats.size hfull
  | found acct => cases hmissed
  | added => cases hmissed

/-- The limits of the registry, the handles it honours and the calls its rows account
for. -/
structure Accounted (cap : Int) (accounts : Accounts) : Prop where
  named_rows : ∀ addr workers, accounts.stats.user_stats.lookup addr = some workers →
    WorkerMap.named workers ≤ cap.toNat
  bare_rows : ∀ addr workers, accounts.stats.user_stats.lookup addr = some workers → workers.keys.count [] ≤ 1
  addresses : accounts.stats.user_stats.keys.length ≤ kMaxUserFiles
  held : ∀ hold ∈ accounts.held, accounts.stats.find hold.address hold.key = some hold.accounting
  accepted : accounts.total shares_accepted accounts.stats.stored +
    accounts.total shares_accepted accounts.evicted = accounts.accepted_notes
  rejected : accounts.total shares_rejected accounts.stats.stored +
    accounts.total shares_rejected accounts.evicted = accounts.rejected_notes
  unresolved : ∀ now_wall addr worker, addr ≠ [] →
    ((accounts.stats.note_accepted_share cap now_wall none addr worker).2 = false ∨
      (accounts.stats.note_rejected_share cap now_wall none addr worker).2 = false) →
    accounts.stats.user_stats.keys.length = kMaxUserFiles

/-- Whatever is attached, noted, released and pruned, the rows of an address stay
within the cap, a handle held is the row its entry stores, and no note is lost. -/
theorem reached_accounted {cap : Int} (hcap : 0 < cap) (events : List Event) : (reached cap events).Accounted cap := by
  have hsound := reached_sound hcap events
  refine ⟨fun addr workers hlookup => ?_, fun addr workers hlookup => ?_, hsound.stats.size, hsound.held,
    (hsound.total_eq _).trans hsound.accepted, (hsound.total_eq _).trans hsound.rejected,
    fun now_wall addr worker haddress hmissed => ?_⟩
  · have hnamed := hsound.stats.named addr
    rwa [UserStats.workers, hlookup] at hnamed
  · exact nodup_iff_count_le_one.mp workers.keys_nodup []
  · cases hmissed with
    | inl haccepted => exact hsound.unresolved haddress haccepted
    | inr hrejected => exact hsound.unresolved haddress hrejected

/-- Two workers at a cap of one, the second in the bare row; the first released and
pruned while the second still holds its handle. -/
theorem reached_accounted_folded :
    let events : List Event := [.attach_worker 10 ['a'] ['x'], .attach_worker 11 ['a'] ['y'],
      .note_accepted_share 12 (some 0) ['a'] ['y'], .note_rejected_share 13 (some 1) ['a'] ['x'],
      .release 1, .prune_user_stats 1 100000, .note_accepted_share 100001 none ['a'] ['z']]
    (reached 1 events).Accounted 1 ∧ (reached 1 events).held = [⟨['a'], [], 1⟩] ∧
      (reached 1 events).evicted = [0] ∧ (reached 1 events).stats.stored = [2, 1] ∧
      (reached 1 events).accepted_notes = 2 := by
  refine ⟨reached_accounted (by decide) _, ?_, ?_, ?_, ?_⟩ <;> decide

end Accounts

end erikslund
