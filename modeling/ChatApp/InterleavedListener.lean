import ChatApp.InterleavedClients

namespace ChatApp

namespace Interleaved

open Effects Scripts

variable {cfg : Config} {ws g r : List (Int × Int)} {s : Shared cfg}

section Messages

variable {m : ServerMessage} {ids : List Int}

theorem Keeps.unicastLoop (exceptedId : Int) (msg : Str) (ids : List Int) :
    Keeps Accounted ws g (Interleaved.unicastLoop exceptedId msg ids : Steps cfg Unit) fun _ => True := by
  induction ids with
  | nil => exact .pure trivial
  | cons clId ids ih =>
    unfold Interleaved.unicastLoop
    split_ifs
    · exact ih
    · refine .bind (.call_core (hasClient_core clId)) fun found _ => ?_
      split_ifs
      · exact ih
      · refine .bind (.call_core (pushToClient_core clId msg)) fun pushed _ => ?_
        split_ifs
        · exact .raise
        · exact ih

theorem Keeps.unicastRepeated (exceptedId : Int) (ids : List Int) (msg : Str) :
    Keeps Accounted ws g (Interleaved.unicastRepeated exceptedId ids msg : Steps cfg Unit) fun _ => True :=
  .bind (.call_core (.modify fun _ => rfl)) fun _ _ => .unicastLoop exceptedId msg ids

theorem Keeps.releaseWorker (i : Nat) (w : WorkerEntry) :
    Keeps Accounted ws g (Interleaved.releaseWorker i w : Steps cfg Unit) fun _ => True := by
  unfold Interleaved.releaseWorker
  split_ifs
  · exact .bind (.call_core (resetWorker_core _ _)) fun _ _ => .call_core (.modify fun _ => rfl)
  · exact .call_core (.modify fun _ => rfl)

theorem Keeps.workerClientDisconnect (i : Int) :
    Keeps Accounted ws g (Interleaved.workerClientDisconnect i : Steps cfg Unit) fun _ => True := by
  refine .bind (.call_core (workerAt_frame core i)) fun x _ => ?_
  cases x with
  | none => exact .raise
  | some w =>
    simp only
    split_ifs
    · exact .raise
    · exact .bind (.releaseWorker _ w) fun _ _ => .call_core (.modify fun _ => rfl)

-- the client that has gone leaves the table with the message that says so
theorem disconnectClient_holds {fd clId : Int} (h0 : 0 ≤ clId) :
    Holds Accounted ws (fun g _ => g = [])
      (call (onServer (Server.disconnectClient clId)) : Steps cfg Unit) [(fd, clId)] := by
  refine .call fun r s hs => ?_
  obtain ⟨⟨accepts, ups, ho⟩, _⟩ := id hs
  have hmem : clId ∈ s.sv.ids := List.count_pos_iff.mp (by
    have := ho.due_of_held h0
    unfold Due at this
    omega)
  obtain ⟨p, hp, rfl⟩ := List.mem_map.mp hmem
  obtain ⟨c, hc, _⟩ := getClientRef_of_pair ho.nodup hp
  rw [disconnectClient_run hc]
  exact ⟨[], .same (hs.drop h0) rfl, fun _ _ _ => rfl⟩

theorem processClDisconnected_ends (hgone : m.action = getAction .clDisconnected)
    (hok : UpOk cfg m) (hhand : ∀ clId, goneId m = some clId → 0 ≤ clId → ∃ fd : Int, g = [(fd, clId)])
    (ids : List Int) : Ends Accounted ws (processClDisconnected m ids : Steps cfg Unit) g := by
  obtain ⟨i, clId, _, h0, hmax, _, hid⟩ := hok.1 hgone
  have hst : stoi m.id = .ok clId := by
    rw [hid]
    exact stoi_toString (by simp only [Decimal.InRange, Decimal.intMin] at *; omega)
  have hg : goneId m = some clId := by simp [goneId, hgone, hst, Except.toOption]
  obtain ⟨fd, rfl⟩ := hhand clId hg h0
  unfold processClDisconnected
  rw [hst, checked_ok_bind]
  refine (disconnectClient_holds h0).bind fun g _ hg => ?_
  refine Ends.of_keeps (.bind (.checked fun _ _ => trivial) fun n _ => ?_)
  refine .bind (.call_core (workerAt_frame core n)) fun x _ => ?_
  cases x with
  | none => exact .raise
  | some w =>
    simp only
    split_ifs
    · exact .raise
    · exact .bind (.unicastRepeated _ _ _) fun _ _ => .workerClientDisconnect n

end Messages

end Interleaved

end ChatApp
