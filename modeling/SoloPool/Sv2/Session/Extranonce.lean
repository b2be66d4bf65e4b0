import SoloPool.Sv2.Session.Ownership
import SoloPool.Sv2.Session.Prepare

namespace erikslund.sv2

open util stratum List

variable {config : Config} {extranonce1 : Bytes} {owner : Nat → Nat}

/-- The bytes between the two halves of the coinbase that a share is validated with. -/
def PreparedShare.full_extranonce (prepared : PreparedShare) : Bytes :=
  match prepared.issued_job.work with
  | .standard _ => prepared.issued_job.extranonce_prefix
  | .extended _ => prepared.issued_job.extranonce_prefix ++ prepared.submitted_extranonce

/-- Some share with this full extranonce would be accepted on the channel now. -/
def Session.Accepts (s : Session) (channel_id : Nat) (field : Bytes) : Prop :=
  ∃ ctx share prepared time, share.channel_id = channel_id ∧
    (s.prepare_share_locked ctx share).2 = some prepared ∧
    (validate_share share prepared time).isOk ∧ prepared.full_extranonce = field

/-- The full extranonce of an acceptable share is a number drawn for its channel, or
begins with its channel's reserved bytes. -/
theorem Server.Owned.accepts {server : Server} (h : server.Owned config extranonce1 owner) {channel_id : Nat}
    {field : Bytes} (haccepts : server.session.Accepts channel_id field) :
    Owns config extranonce1 owner server.session.extranonce_counter channel_id field ∨
      ∃ c ∈ server.session.channels, c.id = channel_id ∧ c.kind = .Extended ∧ channel_id ≤ kMaximumChannelId ∧
        ∃ extranonce : Bytes, extranonce.length = config.extranonce2_size - kChannelDiscriminatorBytes ∧
          field = extranonce1 ++ (Radix.be kChannelDiscriminatorBytes channel_id ++ extranonce) := by
  obtain ⟨ctx, share, prepared, time, rfl, hprepared, -, rfl⟩ := haccepts
  obtain ⟨c, issued, hexamined, heq⟩ : ∃ c issued, Examined server.session share c issued ∧
      prepared = prepared_share server.session share c issued := by
    rcases server.session.prepare_share_cases ctx share with ⟨errors, found, code, reason, -, -, heq⟩ |
        ⟨found, -, heq⟩ | ⟨c, issued, hexamined, -, heq⟩ | ⟨c, issued, hexamined, -, heq⟩ <;>
      rw [heq] at hprepared <;> cases hprepared
    exact ⟨c, issued, hexamined, rfl⟩
  subst heq
  have hid := Session.find_channel_id hexamined.channel
  have howned := h.channels share.channel_id c hexamined.channel
  obtain ⟨entry, hmem, rfl⟩ : ∃ entry ∈ c.jobs, entry.2 = issued := by
    obtain ⟨entry, hentry, hissued⟩ := Option.map_eq_some_iff.mp hexamined.job
    exact ⟨entry, mem_of_find?_eq_some hentry, hissued⟩
  have hwork := howned.work entry hmem
  cases hkind : c.kind with
  | Standard =>
    left
    have hfield : (prepared_share server.session share c entry.2).full_extranonce = IssuedJob.extranonce_prefix entry.2 := by
      rw [hkind] at hwork
      cases hentry : entry.2.work with
      | standard work => simp [PreparedShare.full_extranonce, prepared_share, hentry]
      | extended work => simp [hentry, Work.kind] at hwork
    rw [hfield, ← hid]
    exact howned.standard hkind entry hmem
  | Extended =>
    right
    obtain ⟨hbytes, hsize⟩ := howned.extended hkind entry hmem
    obtain ⟨hreserved, hown⟩ := howned.reserved hkind
    have hlength : share.extranonce.length = entry.2.extranonce_size := by
      by_contra hne
      exact hexamined.size ⟨hexamined.kind.symm.trans hkind, hne⟩
    refine ⟨c, mem_of_find?_eq_some hexamined.channel, hid, hkind, hid ▸ howned.id_le, share.extranonce,
      by rw [hlength, hsize, hreserved], ?_⟩
    rw [hkind] at hwork
    cases hentry : entry.2.work with
    | standard work => simp [hentry, Work.kind] at hwork
    | extended work =>
      simp only [PreparedShare.full_extranonce, prepared_share, hentry]
      rw [hbytes, hown, hid, append_assoc]

/-- A number drawn from the counter that falls into the range reserved for an Extended
channel is at least as large as the range's start. -/
theorem reserved_le_number {size number channel_id : Nat} {extranonce : Bytes}
    (hsize : kChannelDiscriminatorBytes ≤ size) (hnumber : number < 256 ^ size)
    (hid : channel_id ≤ kMaximumChannelId)
    (heq : Radix.be size number = Radix.be kChannelDiscriminatorBytes channel_id ++ extranonce) :
    channel_id * 256 ^ (size - kChannelDiscriminatorBytes) ≤ number := by
  obtain ⟨rest, rfl⟩ := Nat.exists_eq_add_of_le hsize
  rw [Radix.be_add] at heq
  have hquotient : number / 256 ^ rest < 256 ^ kChannelDiscriminatorBytes := by
    rw [Nat.div_lt_iff_lt_mul (by positivity), ← pow_add]
    exact hnumber
  have hlt : channel_id < 256 ^ kChannelDiscriminatorBytes := hid.trans_lt (by decide)
  have hsame := Radix.be_inj_of_lt hquotient hlt (append_inj_left heq (by simp))
  rw [Nat.add_sub_cancel_left, ← hsame]
  exact Nat.div_mul_le_self number _

/-- Where the counter of a run stays below the range of every Extended channel the run
opens, no full extranonce is acceptable on two channels, at whatever moments of the run. -/
theorem extranonce_fields_disjoint {actions before₁ before₂ : List (PoolContext × Event)} {id₁ id₂ : Nat}
    {field : Bytes} (haccepted : config.Accepted)
    (hfew : (Server.reached config extranonce1 actions).session.extranonce_counter <
      256 ^ config.extranonce2_size)
    (hbelow : ∀ before, before <+: actions → ∀ c ∈ (Server.reached config extranonce1 before).session.channels,
      c.kind = .Extended → (Server.reached config extranonce1 actions).session.extranonce_counter <
        c.id * 256 ^ (config.extranonce2_size - kChannelDiscriminatorBytes))
    (hfirst : before₁ <+: actions) (hsecond : before₂ <+: actions)
    (haccepts₁ : (Server.reached config extranonce1 before₁).session.Accepts id₁ field)
    (haccepts₂ : (Server.reached config extranonce1 before₂).session.Accepts id₂ field) : id₁ = id₂ := by
  obtain ⟨-, hsize, -⟩ := haccepted.extranonce_sizes
  obtain ⟨whole, hwhole⟩ := Server.reached_owned config extranonce1 actions
  generalize hcounter : (Server.reached config extranonce1 actions).session.extranonce_counter = counter
    at hfew hbelow
  -- A drawn number is drawn for one channel, and a reserved range starts above all drawn numbers.
  have hclass {before : List (PoolContext × Event)} {channel_id : Nat} (hbefore : before <+: actions)
      (haccepts : (Server.reached config extranonce1 before).session.Accepts channel_id field) :
      Owns config extranonce1 whole counter channel_id field ∨
        (counter < channel_id * 256 ^ (config.extranonce2_size - kChannelDiscriminatorBytes) ∧
          channel_id ≤ kMaximumChannelId ∧ ∃ extranonce : Bytes,
            extranonce.length = config.extranonce2_size - kChannelDiscriminatorBytes ∧
            field = extranonce1 ++ (Radix.be kChannelDiscriminatorBytes channel_id ++ extranonce)) := by
    obtain ⟨owner, howned, hagree⟩ := hwhole before hbefore
    have hle := hcounter ▸ Server.counter_le_of_run config extranonce1 hbefore
    rcases howned.accepts haccepts with howns | ⟨c, hmem, rfl, hkind, hid, hfield⟩
    · exact .inl (howns.mono hle hagree)
    · exact .inr ⟨hbelow before hbefore c hmem hkind, hid, hfield⟩
  have hmixed {drawn reserved : Nat} (howns : Owns config extranonce1 whole counter drawn field)
      (hreserved : counter < reserved * 256 ^ (config.extranonce2_size - kChannelDiscriminatorBytes) ∧
        reserved ≤ kMaximumChannelId ∧ ∃ extranonce : Bytes,
          extranonce.length = config.extranonce2_size - kChannelDiscriminatorBytes ∧
          field = extranonce1 ++ (Radix.be kChannelDiscriminatorBytes reserved ++ extranonce)) : False := by
    obtain ⟨number, hle, -, hfield⟩ := howns
    obtain ⟨hlt, hid, extranonce, -, hfield'⟩ := hreserved
    have hstart := reserved_le_number hsize (hle.trans_lt hfew) hid
      (append_cancel_left (hfield.symm.trans hfield'))
    exact absurd (hlt.trans_le hstart) (not_lt.mpr hle)
  rcases hclass hfirst haccepts₁ with howns₁ | hreserved₁ <;>
    rcases hclass hsecond haccepts₂ with howns₂ | hreserved₂
  · obtain ⟨number₁, hle₁, rfl, hfield₁⟩ := howns₁
    obtain ⟨number₂, hle₂, rfl, hfield₂⟩ := howns₂
    rw [Radix.be_inj_of_lt (hle₁.trans_lt hfew) (hle₂.trans_lt hfew)
      (append_cancel_left (hfield₁.symm.trans hfield₂))]
  · exact (hmixed howns₁ hreserved₂).elim
  · exact (hmixed howns₂ hreserved₁).elim
  · obtain ⟨-, hid₁, extranonce₁, -, hfield₁⟩ := hreserved₁
    obtain ⟨-, hid₂, extranonce₂, -, hfield₂⟩ := hreserved₂
    have hbytes := append_inj_left (append_cancel_left (hfield₁.symm.trans hfield₂)) (by simp)
    exact Radix.be_inj_of_lt (hid₁.trans_lt (by decide)) (hid₂.trans_lt (by decide)) hbytes

namespace SharedField

def two_bytes : Config := { extranonce2_size := 2 }

def job : Job :=
  { Job.minimal "1".toList 1 1000 1 with
    extranonce_size := 6
    extranonce2_size := 2
    coinbase1 := [1, 0, 0, 0, 1] ++ replicate 32 0x00 ++ replicate 4 0xff ++ [7, 0x51]
    extranonce2_le := by decide
    coinbase1_le := by decide }

example : Job.new "1".toList (Job.minimal_template 1 1000) [] 4 2 1 true [] 0 =
    .ok { job with publication_sequence := 0 } := by
  decide

def pool : PoolContext where
  current_job := some job
  recent_job := fun _ => some job
  runtime_config := { initial_difficulty := 1 / 10 ^ 10, minimum_difficulty := 1 / 10 ^ 12 }
  validate_address := fun _ => some []
  steady_seconds := 0
  time := 1000

def request : OpenMiningChannel := ⟨7, "miner".toList, some 0, .filled 0xff⟩

/-- An Extended channel is opened and gets id 1. -/
def extended : List (PoolContext × Event) :=
  [(pool, .frame ⟨0, false, .setup_connection ⟨0, 2, 2, 0⟩⟩),
   (pool, .frame ⟨0, false, .open_extended_mining_channel request 0⟩)]

/-- It is closed, and a Standard channel draws the number 1. -/
def closing : List (PoolContext × Event) :=
  [(pool, .frame ⟨0, true, .close_channel 1⟩),
   (pool, .frame ⟨0, false, .open_standard_mining_channel request⟩)]

def shared : Bytes := [0, 0, 0, 1, 0, 1]

def share (kind : ChannelKind) (channel_id : Nat) (job_id : UInt32) : ShareSubmission :=
  ⟨kind, channel_id, 0, job_id, 0, 1000, 0x20000000, []⟩

theorem accepts {s : Session} {submission : ShareSubmission}
    (h : (s.prepare_share_locked pool submission).2.any fun prepared =>
      (Session.validate_share submission prepared 1000).isOk ∧ prepared.full_extranonce = shared) :
    s.Accepts submission.channel_id shared := by
  obtain ⟨prepared, hprepared, hdecided⟩ := (Option.any_eq_true _ _).mp h
  obtain ⟨hvalid, hfield⟩ := of_decide_eq_true hdecided
  exact ⟨pool, submission, prepared, 1000, rfl, hprepared, hvalid, hfield⟩

theorem extended_accepts : (Server.reached two_bytes [0, 0, 0, 1] extended).session.Accepts 1 shared :=
  @accepts _ (share .Extended 1 1) (by decide +kernel)

theorem two_bytes_accepted : two_bytes.Accepted := ⟨two_bytes, by decide +kernel⟩

end SharedField

open SharedField in
/-- With two extranonce2 bytes, a closed Extended channel and the Standard channel opened
after it accept the same full extranonce. -/
theorem reopened_channel_shares_extranonce :
    two_bytes.Accepted ∧
      (Server.reached two_bytes [0, 0, 0, 1] (extended ++ closing)).session.extranonce_counter <
        256 ^ two_bytes.extranonce2_size ∧
      (Server.reached two_bytes [0, 0, 0, 1] extended).session.Accepts 1 shared ∧
      (Server.reached two_bytes [0, 0, 0, 1] (extended ++ closing)).session.Accepts 2 shared := by
  refine ⟨two_bytes_accepted, by decide +kernel, extended_accepts, ?_⟩
  exact @accepts _ (share .Standard 2 2) (by decide +kernel)

open SharedField in
/-- While only Extended channels are open, a second one does not accept what the first does. -/
theorem extranonce_fields_disjoint_extended :
    ¬ (Server.reached two_bytes [0, 0, 0, 1] (extended ++ [(pool, .frame ⟨0, false,
      .open_extended_mining_channel request 0⟩)])).session.Accepts 2 shared := by
  intro hsecond
  have hsame : 1 = 2 := extranonce_fields_disjoint two_bytes_accepted (by decide +kernel)
    (fun before hbefore => by
      rw [← mem_inits] at hbefore
      revert before
      decide +kernel)
    (prefix_append extended _) (prefix_refl _) extended_accepts hsecond
  cases hsame

end erikslund.sv2
