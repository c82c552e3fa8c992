import ChatApp.Listener
import ChatApp.LoadBalancer

namespace ChatApp

open Effects

variable {cfg : Config}

section Reading

variable {γ : Type}

theorem liftExcept_frame (f : Shared cfg → γ) {α : Type} (x : Except Exn α) :
    Frame f (liftExcept x : Prog cfg α) := by
  intro s
  cases x <;> rfl

theorem workerAt_frame (f : Shared cfg → γ) (i : Int) :
    Frame f (workerAt i : Prog cfg (Option WorkerEntry)) := by
  intro s
  unfold workerAt
  split_ifs
  · rfl
  · simp only [get_bind_run]
    cases s.mgr.workerThreads.entries[i.toNat]? <;> rfl

end Reading

section Broadcasting

variable {I : Shared cfg → Prop}

theorem pushToClient_keeps (msg : Str) (hpush : ∀ s clId, I s → I { s with
    sv := s.sv.modifyClient clId fun c => { c with sendQueue := c.sendQueue ++ [msg] } })
    (clId : Int) : Keeps I (pushToClient clId msg : Prog cfg Bool) := by
  intro s hs
  simp only [pushToClient, get_bind_run]
  cases s.sv.getClientRef clId with
  | none => exact hs
  | some c =>
    cases hr : cfg.hasRoom c.sendQueue with
    | false => simpa only [hr, Bool.false_eq_true, if_false, pure_run, final_ok]
    | true =>
      simp only [hr, if_true, set_bind_run, pure_run, final_ok]
      exact hpush s clId hs

theorem unicastLoop_keeps (msg : Str) (hpush : ∀ s clId, I s → I { s with
    sv := s.sv.modifyClient clId fun c => { c with sendQueue := c.sendQueue ++ [msg] } })
    (exceptedId : Int) (ids : List Int) :
    Keeps I (unicastLoop exceptedId msg ids : Prog cfg Unit) := by
  induction ids with
  | nil => exact .pure _
  | cons x ids ih =>
    unfold unicastLoop
    split_ifs
    · exact ih
    · refine Keeps.get.bind fun s => ?_
      split_ifs
      · exact ih
      · refine (pushToClient_keeps msg hpush x).bind fun pushed => ?_
        split_ifs
        · exact .throw _
        · exact ih

theorem unicastRepeated_keeps (msg : Str) (hpush : ∀ s clId, I s → I { s with
    sv := s.sv.modifyClient clId fun c => { c with sendQueue := c.sendQueue ++ [msg] } })
    (hcast : ∀ s casts, I s → I { s with hist := { s.hist with broadcasts := casts } })
    (exceptedId : Int) (ids : List Int) :
    Keeps I (unicastRepeated exceptedId ids msg : Prog cfg Unit) :=
  Keeps.bind (.modify fun s hs => hcast s _ hs) fun _ => unicastLoop_keeps msg hpush exceptedId ids

end Broadcasting

section Releasing

variable {I : Shared cfg → Prop}

theorem workerClientDisconnect_keeps (h : ∀ s i w,
    s.mgr.workerThreads.entries[i]? = some (some w) → 0 < w.count → I s → I (s.release i w))
    (i : Int) : Keeps I (workerClientDisconnect i : Prog cfg Unit) := by
  intro s hs
  by_cases hi : i < 0
  · simpa only [workerClientDisconnect, workerAt, hi, if_true, throw_bind_run, final_error]
  · obtain ⟨n, rfl⟩ := Int.eq_ofNat_of_zero_le (show 0 ≤ i by omega)
    cases he : s.mgr.workerThreads.entries[n]? with
    | none =>
      simpa only [workerClientDisconnect, workerAt, hi, if_false, bind_run, get_run,
        Int.toNat_natCast, he, throw_run, final_error]
    | some x =>
      cases x with
      | none =>
        rw [workerClientDisconnect_empty he]
        exact hs
      | some w =>
        by_cases h0 : w.count = 0
        · rw [workerClientDisconnect, bind_of_ok (workerAt_run he)]
          simpa only [h0, if_true, throw_run, final_error]
        · rw [workerClientDisconnect_run he (by omega)]
          exact h s n w he (by omega) hs

theorem workerClientDisconnect_frame {γ : Type} {f : Shared cfg → γ}
    (h : ∀ s i w, f (s.release i w) = f s) (i : Int) :
    Frame f (workerClientDisconnect i : Prog cfg Unit) :=
  .of_keeps fun _ => workerClientDisconnect_keeps (fun s i w _ _ hs => (h s i w).trans hs) i

end Releasing

-- what stays true while a message is processed, if the texts that are pushed are ok
structure Delivers (I : Shared cfg → Prop) (ok : Str → Prop) : Prop where
  push : ∀ s clId msg, ok msg → I s → I { s with
    sv := s.sv.modifyClient clId fun c => { c with sendQueue := c.sendQueue ++ [msg] } }
  cast : ∀ s casts, I s → I { s with hist := { s.hist with broadcasts := casts } }
  leave : ∀ clId, Keeps I (onServer (Server.disconnectClient clId) : Prog cfg Unit)
  release : ∀ s i w, s.mgr.workerThreads.entries[i]? = some (some w) → 0 < w.count → I s →
    I (s.release i w)

namespace Delivers

variable {I : Shared cfg → Prop} {ok : Str → Prop} {msg : Str}

theorem lift {α : Type} (x : Except Exn α) : Keeps I (liftExcept x : Prog cfg α) :=
  (liftExcept_frame id x).keeps

theorem unicastRepeated (h : Delivers I ok) (hmsg : ok msg) (exceptedId : Int) (ids : List Int) :
    Keeps I (ChatApp.unicastRepeated exceptedId ids msg : Prog cfg Unit) :=
  unicastRepeated_keeps msg (fun s clId => h.push s clId msg hmsg) h.cast exceptedId ids

theorem processClDisconnected (h : Delivers I ok) {m : ServerMessage}
    (hleft : ok (leftMsg m).getConcatenatedMsg) (ids : List Int) :
    Keeps I (ChatApp.processClDisconnected m ids : Prog cfg Unit) := by
  refine (lift _).bind fun clId => (h.leave _).bind fun _ => (lift _).bind fun i => ?_
  refine (workerAt_frame id i).keeps.bind fun x => ?_
  split
  · exact .throw _
  · split_ifs
    · exact .throw _
    · refine (lift _).bind fun _ => (h.unicastRepeated hleft _ _).bind fun _ => ?_
      exact (lift _).bind fun _ => workerClientDisconnect_keeps h.release _

theorem processMessage (h : Delivers I ok) (hok : ∀ m,
    ({} : ServerMessage).constructFromString msg = .ok m →
      ok msg ∧ ok (leftMsg m).getConcatenatedMsg ∧
        ok { m with action := getAction .unicastRepeated }.getConcatenatedMsg) :
    Keeps I (ChatApp.processMessage msg : Prog cfg Unit) := by
  intro s hs
  cases hdec : ({} : ServerMessage).constructFromString msg with
  | error e =>
    rw [ChatApp.processMessage, hdec]
    exact hs
  | ok m =>
    obtain ⟨hraw, hleft, hchat⟩ := hok m hdec
    rw [ChatApp.processMessage, hdec, bind_of_ok (liftExcept_ok m), get_bind_run]
    unfold dispatch
    split_ifs
    · exact hs
    · exact h.processClDisconnected hleft _ s hs
    · exact (Keeps.bind (lift _) fun _ => h.unicastRepeated hraw _ _) s hs
    · exact h.unicastRepeated hraw _ _ s hs
    · exact (Keeps.bind (lift _) fun _ => h.unicastRepeated hchat _ _) s hs
    · exact hs

end Delivers

-- what holds of the rest while a message is processed: the server and the records may change at
-- will, worker_threads only where a counted client leaves
structure Outside (I : Shared cfg → Prop) : Prop where
  sv : ∀ s sv, I s → I { s with sv := sv }
  hist : ∀ s hist, I s → I { s with hist := hist }
  release : ∀ s i w, s.mgr.workerThreads.entries[i]? = some (some w) → 0 < w.count → I s →
    I (s.release i w)

namespace Outside

variable {I : Shared cfg → Prop}

theorem of_frame {γ : Type} {f : Shared cfg → γ} (hsv : ∀ s sv, f { s with sv := sv } = f s)
    (hhist : ∀ s hist, f { s with hist := hist } = f s)
    (hrelease : ∀ s i w, f (s.release i w) = f s) (c : γ) : Outside fun s => f s = c :=
  ⟨fun s sv hs => (hsv s sv).trans hs, fun s hist hs => (hhist s hist).trans hs,
    fun s i w _ _ hs => (hrelease s i w).trans hs⟩

theorem onServer (h : Outside I) {α : Type} (m : EStateM Exn (Server cfg) α) :
    Keeps I (ChatApp.onServer m) := by
  intro s hs
  unfold ChatApp.onServer
  split <;> exact h.sv s _ hs

theorem delivers (h : Outside I) : Delivers I fun _ => True where
  push := fun s _ _ _ hs => h.sv s _ hs
  cast := fun s _ hs => h.hist s _ hs
  leave := fun _ => h.onServer _
  release := h.release

theorem processMessage (h : Outside I) (msg : Str) :
    Keeps I (ChatApp.processMessage msg : Prog cfg Unit) :=
  h.delivers.processMessage fun _ _ => ⟨trivial, trivial, trivial⟩

end Outside

theorem processMessage_queue (msg : Str) :
    Frame (fun s : Shared cfg => s.mgr.qWorkerToListener) (processMessage msg) :=
  .of_keeps fun c => (Outside.of_frame (fun _ _ => rfl) (fun _ _ => rfl) (fun _ _ _ => rfl)
    c).processMessage msg

end ChatApp
