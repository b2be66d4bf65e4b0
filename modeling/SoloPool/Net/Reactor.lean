import SoloPool.Net.Server

namespace erikslund.net

open List

/-- The operations of a reactor that is not shutting down. -/
def Operation.Ordinary (operation : Operation) : Prop := operation ≠ .close_incoming ∧ operation ≠ .exit

theorem eq_of_mem_release_slot {conn : ClientConnection} {operation : Operation}
    (h : operation ∈ conn.release_slot) : operation = .release_noise_handshake conn.fd := by
  unfold ClientConnection.release_slot at h
  split at h
  · exact mem_singleton.mp h
  · cases h

theorem eq_of_mem_incoming_release_slot {incoming : IncomingConnection} {operation : Operation}
    (h : operation ∈ incoming.release_slot) : operation = .release_noise_handshake incoming.fd := by
  unfold IncomingConnection.release_slot at h
  split at h
  · exact mem_singleton.mp h
  · cases h

namespace ServerWorker

variable {worker after : ServerWorker} {effect : Effect}

/-- The thread is in its event loop, with nothing left to do. -/
structure Idle (worker : ServerWorker) : Prop where
  todo : worker.todo = []
  adoption : worker.adoption = none
  batch : worker.batch = []

/-- What one step of a reactor can do. -/
inductive Stepped (worker : ServerWorker) : ServerWorker → Effect → Prop where
  | still : Stepped worker worker .none
  | released (fd : Nat) (rest : List Operation) (htodo : worker.todo = .release_noise_handshake fd :: rest) :
      Stepped worker { worker with todo := rest } (.release_noise_handshake fd)
  | removed (fd : Nat) (rest : List Operation) (htodo : worker.todo = .remove_client fd :: rest) :
      Stepped worker { worker with todo := rest } (.remove_client fd)
  | left (rest : List Operation) (htodo : worker.todo = .leave_pending :: rest) :
      Stepped worker { worker with todo := rest, pending := worker.pending - 1 } .none
  | closed (rest : List Operation) (htodo : worker.todo = .close_incoming :: rest) :
      Stepped worker { worker with
        incoming := []
        todo := worker.incoming.flatMap IncomingConnection.release_slot ++ .exit :: rest } .none
  | exited (rest : List Operation) (htodo : worker.todo = .exit :: rest) :
      Stepped worker { worker with todo := rest, pending := 0, finished := true } .none
  | begun (incoming : IncomingConnection) (batch : List IncomingConnection) (htodo : worker.todo = [])
      (hadoption : worker.adoption = none) (hbatch : worker.batch = incoming :: batch) :
      Stepped worker { worker with batch := batch, adoption := some (.opening incoming) } .none
  | constructed (incoming : IncomingConnection) (htodo : worker.todo = [])
      (hadoption : worker.adoption = some (.opening incoming)) :
      Stepped worker { worker with
        adoption := some (.constructed ⟨incoming.fd, incoming.protocol, incoming.protocol = .Sv2Noise⟩) } .none
  | unopened (incoming : IncomingConnection) (htodo : worker.todo = [])
      (hadoption : worker.adoption = some (.opening incoming)) :
      Stepped worker { worker with adoption := none, todo := incoming.release_slot ++ [.leave_pending] } .none
  | registered (connection : ClientConnection) (htodo : worker.todo = [])
      (hadoption : worker.adoption = some (.constructed connection)) :
      Stepped worker { worker with adoption := some (.registered connection) } (.add_client connection.fd)
  | abandoned (connection : ClientConnection) (effect : Effect) (htodo : worker.todo = [])
      (hadoption : worker.adoption = some (.constructed connection))
      (heffect : effect = .none ∨ effect = .add_client connection.fd) :
      Stepped worker { worker with adoption := none, todo := connection.release_slot ++ [.leave_pending] } effect
  | emplaced (connection : ClientConnection) (htodo : worker.todo = [])
      (hadoption : worker.adoption = some (.registered connection)) :
      Stepped worker { worker with
        adoption := none
        connections := worker.connections ++ [connection]
        todo := [.leave_pending] } .none
  | refused (connection : ClientConnection) (todo : List Operation) (htodo : worker.todo = [])
      (hadoption : worker.adoption = some (.registered connection))
      (hperm : todo.Perm (connection.release_slot ++ [.remove_client connection.fd, .leave_pending])) :
      Stepped worker { worker with adoption := none, todo := todo } .none
  | drained (hidle : worker.Idle) :
      Stepped worker { worker with batch := worker.incoming, incoming := [] } .none
  | completed (index : Nat) (connection : ClientConnection) (hidle : worker.Idle)
      (hconnection : worker.connections[index]? = some connection) :
      Stepped worker { worker with
        connections := worker.connections.set index connection.released
        todo := connection.release_slot } .none
  | dropped (index : Nat) (connection : ClientConnection) (hidle : worker.Idle)
      (hconnection : worker.connections[index]? = some connection) :
      Stepped worker { worker with
        connections := worker.connections.eraseIdx index
        todo := connection.release_slot ++ [.remove_client connection.fd] } .none
  | shut (hidle : worker.Idle) (hstop : worker.stop_requested = true) (hrunning : worker.finished = false) :
      Stepped worker { worker with
        connections := []
        todo := worker.connections.flatMap (fun connection => connection.release_slot ++ [.remove_client connection.fd]) ++
          [.close_incoming] } .none

theorem adopt_stepped {adoption : Adoption} (htodo : worker.todo = []) (hadoption : worker.adoption = some adoption)
    (choice : Choice) : Stepped worker (worker.adopt adoption choice).1 (worker.adopt adoption choice).2 := by
  cases adoption with
  | opening incoming =>
    cases choice with
    | proceed => exact .constructed incoming htodo hadoption
    | _ => exact .unopened incoming htodo hadoption
  | constructed conn =>
    cases choice with
    | proceed => exact .registered conn htodo hadoption
    | throw_registered => exact .abandoned conn _ htodo hadoption (.inr rfl)
    | _ => exact .abandoned conn _ htodo hadoption (.inl rfl)
  | registered conn =>
    have hthrown : (.remove_client conn.fd :: (conn.release_slot ++ [.leave_pending])).Perm
        (conn.release_slot ++ [.remove_client conn.fd, .leave_pending]) := perm_middle.symm
    cases choice with
    | proceed => exact .emplaced conn htodo hadoption
    | refuse => exact .refused conn _ htodo hadoption (.refl _)
    | _ => exact .refused conn _ htodo hadoption hthrown

theorem handle_stepped (hidle : worker.Idle) (hrunning : worker.finished = false) (choice : Choice) :
    Stepped worker (worker.handle choice) .none := by
  unfold handle
  split
  · exact .drained hidle
  · split
    · exact .still
    · rename_i hconnection
      exact .completed _ _ hidle hconnection
  · split
    · exact .still
    · rename_i hconnection
      exact .dropped _ _ hidle hconnection
  · split
    · rename_i hstop
      exact .shut hidle hstop hrunning
    · exact .still
  · exact .still

theorem stepped (worker : ServerWorker) (choice : Choice) :
    Stepped worker (worker.step choice).1 (worker.step choice).2 := by
  unfold step
  split
  · rename_i operation rest htodo
    cases operation with
    | release_noise_handshake fd => exact .released fd rest htodo
    | remove_client fd => exact .removed fd rest htodo
    | leave_pending => exact .left rest htodo
    | close_incoming => exact .closed rest htodo
    | exit => exact .exited rest htodo
  rename_i htodo
  split
  · rename_i adoption hadoption
    exact adopt_stepped htodo hadoption choice
  rename_i hadoption
  split
  · rename_i incoming batch hbatch
    exact .begun incoming batch htodo hadoption hbatch
  rename_i hbatch
  split
  · exact .still
  · rename_i hrunning
    exact handle_stepped ⟨htodo, hadoption, hbatch⟩ (Bool.not_eq_true _ ▸ hrunning) choice

theorem Stepped.stop_requested (h : Stepped worker after effect) : after.stop_requested = worker.stop_requested := by
  cases h <;> rfl

/-- The operations of a reactor stay ordinary until it begins its shutdown. -/
theorem Stepped.ordinary (h : Stepped worker after effect) (hordinary : ∀ operation ∈ worker.todo, operation.Ordinary) :
    (after.stop_requested = worker.stop_requested ∧ after.finished = worker.finished ∧
      ∀ operation ∈ after.todo, operation.Ordinary) ∨
      (worker.stop_requested = true ∧ worker.Idle ∧ after = worker.handle .shut_down ∧ worker.finished = false) := by
  have hrest {operation : Operation} {rest : List Operation} (htodo : worker.todo = operation :: rest) :
      operation.Ordinary ∧ ∀ operation ∈ rest, operation.Ordinary := by
    rw [htodo] at hordinary
    exact forall_mem_cons.mp hordinary
  have hslot (conn : ClientConnection) (more : List Operation) (hmore : ∀ operation ∈ more, operation.Ordinary) :
      ∀ operation ∈ conn.release_slot ++ more, operation.Ordinary := by
    refine forall_mem_append.mpr ⟨fun operation hmem => ?_, hmore⟩
    rw [eq_of_mem_release_slot hmem]
    exact ⟨nofun, nofun⟩
  have hleave : ∀ operation ∈ [Operation.leave_pending], operation.Ordinary :=
    forall_mem_singleton.mpr ⟨nofun, nofun⟩
  have hremove (fd : Nat) (more : List Operation) (hmore : ∀ operation ∈ more, operation.Ordinary) :
      ∀ operation ∈ Operation.remove_client fd :: more, operation.Ordinary :=
    forall_mem_cons.mpr ⟨⟨nofun, nofun⟩, hmore⟩
  cases h with
  | still => exact .inl ⟨rfl, rfl, hordinary⟩
  | released fd rest htodo => exact .inl ⟨rfl, rfl, (hrest htodo).2⟩
  | removed fd rest htodo => exact .inl ⟨rfl, rfl, (hrest htodo).2⟩
  | left rest htodo => exact .inl ⟨rfl, rfl, (hrest htodo).2⟩
  | closed rest htodo => exact absurd rfl (hrest htodo).1.1
  | exited rest htodo => exact absurd rfl (hrest htodo).1.2
  | begun => exact .inl ⟨rfl, rfl, hordinary⟩
  | constructed => exact .inl ⟨rfl, rfl, hordinary⟩
  | unopened incoming =>
    refine .inl ⟨rfl, rfl, forall_mem_append.mpr ⟨fun operation hmem => ?_, hleave⟩⟩
    rw [eq_of_mem_incoming_release_slot hmem]
    exact ⟨nofun, nofun⟩
  | registered => exact .inl ⟨rfl, rfl, hordinary⟩
  | abandoned conn => exact .inl ⟨rfl, rfl, hslot conn _ hleave⟩
  | emplaced => exact .inl ⟨rfl, rfl, hleave⟩
  | refused conn todo htodo hadoption hperm =>
    refine .inl ⟨rfl, rfl, fun operation hmem => ?_⟩
    exact hslot conn _ (hremove _ _ hleave) operation (hperm.mem_iff.mp hmem)
  | drained => exact .inl ⟨rfl, rfl, hordinary⟩
  | completed index conn =>
    refine .inl ⟨rfl, rfl, fun operation hmem => ?_⟩
    rw [eq_of_mem_release_slot hmem]
    exact ⟨nofun, nofun⟩
  | dropped index conn =>
    exact .inl ⟨rfl, rfl, hslot conn _ (hremove _ [] fun _ hmem => absurd hmem not_mem_nil)⟩
  | shut hidle hstop hrunning =>
    refine .inr ⟨hstop, hidle, ?_, hrunning⟩
    simp only [handle, hstop, if_true]

end ServerWorker

end erikslund.net
