import ChatApp.ClientLists
import ChatApp.Interleaving

namespace ChatApp

namespace Interleaved

open Effects Scripts

variable {cfg : Config} {α : Type}

-- worker_loop has no meaning past an empty optional
def Fault.exn : Fault → Exn
  | .thrown e => e
  | .emptyOptional => .undefinedBehaviour

-- what a script does when nobody else moves
def alone (p : Steps cfg α) : Prog cfg α := p.alone Fault.exn

section Operations

@[simp] theorem alone_pure (a : α) : alone (pure a : Steps cfg α) = pure a := rfl

@[simp] theorem alone_bind {β : Type} (p : Steps cfg α) (k : α → Steps cfg β) :
    alone (p >>= k) = alone p >>= fun a => alone (k a) := Script.alone_bind

@[simp] theorem alone_call (m : Prog cfg α) : alone (call m) = m := Script.alone_op (fun _ => rfl) m

@[simp] theorem alone_raise (e : Exn) : alone (raise e : Steps cfg α) = throw e := rfl

@[simp] theorem alone_checked (x : Except Exn α) :
    alone (checked x : Steps cfg α) = liftExcept x := by
  cases x <;> rfl

@[simp] theorem alone_ite (c : Prop) [Decidable c] (p q : Steps cfg α) :
    alone (if c then p else q) = if c then alone p else alone q := apply_ite alone c p q

end Operations

section Worker

variable {s : Shared cfg} {cl : ClientData} {clId : Int}

theorem workerPush_alone (m : ServerMessage) (listenerEvfd : Int) :
    alone (workerPush m listenerEvfd : Steps cfg Unit) = ChatApp.workerPush m listenerEvfd := by
  simp only [workerPush, pushUp, notify, ChatApp.workerPush, alone_bind, alone_ite, alone_call,
    alone_raise, alone_pure]
  split_ifs
  · rfl
  · rw [bind_assoc]
    refine bind_congr fun pushed => ?_
    cases pushed <;> rfl

theorem sendMsg_alone (msg : Str) (clId : Int) :
    alone (sendMsg msg clId : Steps cfg Unit) = ChatApp.sendMsg msg clId := by
  simp only [sendMsg, alone_bind, alone_call]
  rfl

theorem checkEvent_alone (fd : Int) (poll : Int → Bool) :
    alone (checkEvent fd poll : Steps cfg Bool) = ChatApp.checkEvent fd poll := by
  simp only [checkEvent, ChatApp.checkEvent, alone_ite, alone_raise, alone_pure]

theorem addMonitoredFd_alone (fd : Int) :
    alone (addMonitoredFd fd : Steps cfg Unit) = ChatApp.addMonitoredFd fd := by
  simp only [addMonitoredFd, ChatApp.addMonitoredFd, alone_ite, alone_raise, alone_pure]

theorem takeAccept_alone (msg : ServerMessage) (personalIndex : Nat) :
    alone (takeAccept msg personalIndex : Steps cfg QueueAction) =
      ChatApp.takeAccept msg personalIndex := by
  simp only [takeAccept, ChatApp.takeAccept, alone_ite, alone_bind, alone_checked, alone_pure,
    addMonitoredFd_alone]

theorem processQueued_alone (personalIndex : Nat) (text : Str) :
    alone (processQueued personalIndex text : Steps cfg QueueAction) =
      ChatApp.processQueued personalIndex text := by
  simp only [processQueued, ChatApp.processQueued, alone_bind, alone_checked, alone_ite,
    takeAccept_alone, alone_call, alone_raise, alone_pure]

theorem workerProcessListenerToWorkerQ_alone (personalIndex : Nat) (personalEvfd : Int) :
    alone (workerProcessListenerToWorkerQ personalIndex personalEvfd : Steps cfg QueueAction) =
      ChatApp.workerProcessListenerToWorkerQ personalIndex personalEvfd := by
  simp only [workerProcessListenerToWorkerQ, ChatApp.workerProcessListenerToWorkerQ, alone_bind,
    alone_ite, alone_call, alone_pure]
  refine bind_congr fun told => ?_
  split_ifs
  · rfl
  · refine bind_congr fun popped => ?_
    cases popped with
    | none => rfl
    | some text => exact processQueued_alone personalIndex text

theorem pollQueue_alone (ev : Events) (l : Launch) :
    alone (pollQueue ev l : Steps cfg QueueAction) = ChatApp.pollQueue ev l := by
  simp only [pollQueue, ChatApp.pollQueue, alone_bind, alone_ite, alone_pure, checkEvent_alone,
    workerProcessListenerToWorkerQ_alone]

theorem takeUp_alone (q : QueueAction) (clients : List (Int × Int)) :
    alone (takeUp q clients : Steps cfg (List (Int × Int))) = ChatApp.takeUp q clients := by
  simp only [takeUp, ChatApp.takeUp, alone_ite, alone_raise, alone_pure]

theorem refClient_alone (clId : Int) :
    alone (refClient clId : Steps cfg ClientData) = derefClient clId := by
  funext s
  simp only [derefClient, get_bind_run]
  simp only [alone, refClient, Script.alone, id]
  cases s.sv.getClientRef clId <;> rfl

theorem updateClient_alone (h : s.sv.getClientRef clId = some cl) (f : ClientData → ClientData) :
    alone (updateClient clId f : Steps cfg Unit) s = .ok () (s.modifyClient clId f) := by
  simp only [alone, updateClient, Script.alone, h]
  rfl

theorem modifyClient_modifyClient {f : ClientData → ClientData}
    (hf : ∀ c, (f c).personalId = c.personalId) (g : ClientData → ClientData) :
    (s.modifyClient clId f).modifyClient clId g = s.modifyClient clId fun c => g (f c) := by
  have hkeep (c : ClientData) (hc : Server.hasId clId c = true) :
      Server.hasId clId (f c) = true := by
    simpa only [Server.hasId, hf] using hc
  exact congrArg (fun clients => { s with sv := { s.sv with clients := clients } })
    (Slots.modify_modify hkeep _ g)

-- worker_loop reads and writes the client through its reference
theorem processInput_alone (m : ServerMessage) (h : s.sv.getClientRef clId = some cl)
    (listenerEvfd : Int) :
    alone (processInput m clId listenerEvfd : Steps cfg ServerMessage) s =
      ChatApp.processInput m cl listenerEvfd s := by
  have hid := getClientRef_id h
  subst hid
  by_cases ha : m.action = getAction .clDisconnected
  · have hmark : alone (markLeft m cl.personalId : Steps cfg Unit) s =
        .ok () (s.modifyClient cl.personalId (·.setState disconnectState)) := by
      rw [markLeft, if_pos ha, updateClient_alone h]
    have hgone := getClientRef_modifyClient h
      (f := (·.setState disconnectState)) fun c => ClientData.setState_personalId c _
    rw [processInput_clDisconnected ha, processInput, alone_bind, bind_of_ok hmark, alone_bind,
      refClient_alone, bind_of_ok (derefClient_run hgone)]
    rfl
  · have hmark : alone (markLeft m cl.personalId : Steps cfg Unit) s = .ok () s := by
      rw [markLeft, if_neg ha]
      rfl
    rw [processInput, alone_bind, bind_of_ok hmark, alone_bind, refClient_alone,
      bind_of_ok (derefClient_run h), ChatApp.processInput]
    simp only [ha, if_false]
    have hnext : (s.modifyClient cl.personalId ClientData.incState).sv.getClientRef
        cl.personalId = some cl.incState :=
      getClientRef_modifyClient h ClientData.incState_personalId
    split_ifs with h0 hi h2 hd h3 hu
    · rw [alone_bind, takeName, if_pos hi, alone_bind, bind_assoc,
        bind_of_ok (updateClient_alone h _), bind_of_ok (updateClient_alone hnext _),
        modifyClient_modifyClient ClientData.incState_personalId]
      rfl
    · rw [takeName, if_neg hi]
      rfl
    · rw [alone_bind, bind_of_ok (updateClient_alone h _), alone_bind, refClient_alone,
        bind_of_ok (derefClient_run hnext)]
      simp only [alone_bind, sendMsg_alone, workerPush_alone, alone_pure]
      rfl
    · rfl
    · simp only [alone_bind, workerPush_alone, alone_pure]
    · rfl
    · rfl

theorem popQueue_alone (h : s.sv.getClientRef clId = some cl) :
    alone (popQueue clId : Steps cfg (Option Str)) s = .ok cl.sendQueue.head?
      (s.modifyClient clId fun c => { c with sendQueue := c.sendQueue.tail }) := by
  simp only [alone, popQueue, Script.alone, h]
  rfl

-- the loop over the send_queue, which a worker goes through by popQueue and sendMsg
def flushed (clId : Int) (r : Bool × Buffers) : Prog cfg Buffers := do
  if r.1 then do
    let cl ← derefClient clId
    flushQueue clId cl.sendQueue
    return r.2
  else return r.2

theorem processOutput_alone (b : Buffers) (h : s.sv.getClientRef clId = some cl) :
    (alone (processOutput b.serverMsg clId : Steps cfg (Bool × ServerMessage)) >>= fun r =>
      flushed clId (r.1, { b with serverMsg := r.2 })) s =
        (ChatApp.processOutput b.serverMsg cl >>= fun m =>
          pure { b with serverMsg := m }) s := by
  have hid := getClientRef_id h
  subst hid
  have hnext : (s.modifyClient cl.personalId ClientData.incState).sv.getClientRef
      cl.personalId = some cl.incState :=
    getClientRef_modifyClient h ClientData.incState_personalId
  rw [processOutput, ChatApp.processOutput, alone_bind, bind_assoc, refClient_alone,
    bind_of_ok (derefClient_run h)]
  split_ifs with h1 h3
  · rw [alone_bind, bind_assoc, bind_of_ok (updateClient_alone h _), alone_bind, bind_assoc,
      refClient_alone, bind_of_ok (derefClient_run hnext), alone_bind, sendMsg_alone]
    simp only [alone_pure, bind_assoc, pure_bind]
    rfl
  · simp only [alone_pure, pure_bind, h3, decide_true, flushed, if_true, bind_assoc]
    rw [bind_of_ok (derefClient_run h)]
  · simp only [alone_pure, pure_bind, h3, decide_false, flushed, Bool.false_eq_true, if_false]

theorem handleOutput_alone (ev : Events) (client : Int × Int) (b : Buffers) :
    (alone (handleOutput ev client true b : Steps cfg (Bool × Buffers)) >>= flushed client.2) =
      ChatApp.handleOutput ev client b := by
  simp only [handleOutput, ChatApp.handleOutput, alone_bind, checkEvent_alone, alone_ite, bind_assoc,
    alone_pure, Bool.not_true, Bool.false_eq_true, if_false]
  refine bind_congr fun poll => ?_
  split_ifs
  · simp only [bind_assoc, pure_bind]
    funext s
    cases h : s.sv.getClientRef client.2 with
    | none =>
      have hmissing : derefClient client.2 s = .error .undefinedBehaviour s := by
        simp only [derefClient, get_bind_run, h, throw_run]
      have hout : alone (processOutput b.serverMsg client.2 : Steps cfg (Bool × ServerMessage)) s =
          .error .undefinedBehaviour s := by
        rw [processOutput, alone_bind, refClient_alone, bind_of_error hmissing]
      rw [bind_of_error hout, bind_of_error hmissing]
    | some cl =>
      rw [bind_of_ok (derefClient_run h)]
      exact processOutput_alone b h
  · rfl

theorem handleInput_alone {client : Int × Int} (h : s.sv.getClientRef client.2 = some cl)
    (ev : Events) (b : Buffers) :
    alone (handleInput ev client true b : Steps cfg (Bool × Buffers)) s =
      ChatApp.handleInput ev client b s := by
  have hid := getClientRef_id h
  rw [handleInput, ChatApp.handleInput, alone_bind, alone_call]
  cases hr : receiveMsg b.msgFrame client.2 (ev.recv client.1) s with
  | error e t => rw [bind_of_error hr, bind_of_error hr]
  | ok r t =>
    obtain ⟨rfl, _⟩ := receiveMsg_ok hr
    rw [bind_of_ok hr, bind_of_ok hr]
    simp only [Bool.not_true, Bool.false_eq_true, if_false]
    split_ifs
    · rw [alone_bind, refClient_alone, bind_of_ok (derefClient_run h), alone_bind,
        bind_of_ok (updateClient_alone h _), bind_of_ok (derefClient_run h), hid]
      rfl
    · simp only [alone_bind, alone_checked, alone_pure, get_bind_run, h, Option.isNone_some,
        Bool.false_eq_true, if_false]

theorem handleClient_alone {client : Int × Int} (h : s.sv.getClientRef client.2 = some cl)
    (ev : Events) (listenerEvfd : Int) (b : Buffers) :
    (alone (handleClient ev listenerEvfd client b : Steps cfg (Bool × Buffers)) >>=
      flushed client.2) s = ChatApp.handleClient ev listenerEvfd client b s := by
  have hcurrent : hasClient client.2 s = .ok true s := by
    simp only [hasClient, get_bind_run, h, pure_run, Option.isSome_some]
  rw [handleClient, ChatApp.handleClient, alone_bind, alone_call, bind_assoc, bind_of_ok hcurrent,
    alone_bind, checkEvent_alone, bind_assoc]
  cases hp : ChatApp.checkEvent client.1 ev.pollIn s with
  | error e t => rw [bind_of_error hp, bind_of_error hp]
  | ok poll t =>
    obtain ⟨rfl, _⟩ := checkEvent_ok hp
    rw [bind_of_ok hp, bind_of_ok hp]
    split_ifs
    · rw [alone_bind, bind_assoc, bind_run, handleInput_alone h, bind_run]
      cases hr : ChatApp.handleInput ev client b t with
      | error e u => rfl
      | ok r u =>
        simp only
        cases hgone : r.1 with
        | true => simp [flushed]
        | false =>
          have hsame : u = t := by
            cases handleInput_incoming hr with
            | closed _ _ => cases hgone
            | message _ _ _ _ => rfl
          subst hsame
          simp only [Bool.false_eq_true, if_false]
          rw [alone_bind, bind_assoc, bind_run, processInput_alone _ h,
            bind_of_ok (derefClient_run h), bind_run]
          cases ChatApp.processInput r.2.serverMsg cl listenerEvfd u with
          | error e v => rfl
          | ok m v => exact congrFun (handleOutput_alone ev client _) v
    · exact congrFun (handleOutput_alone ev client b) t

theorem signalled_alone {client : Int × Int} (h : s.sv.getClientRef client.2 = some cl)
    (personalIndex : Nat) (m : ServerMessage) :
    alone (signalled personalIndex client m : Steps cfg (Option ServerMessage)) s =
      .ok (if cl.initState = disconnectState then some (goneMsg m personalIndex client.2 cl)
        else none) s := by
  simp only [signalled, alone_bind, alone_ite, alone_pure, refClient_alone]
  rw [bind_of_ok (derefClient_run h)]
  split_ifs
  · rw [bind_of_ok (derefClient_run h), bind_of_ok (derefClient_run h)]
    rfl
  · rfl

theorem workerPrologue_alone (l : Launch) (frame : MessageFrame) :
    alone (workerPrologue l frame : Steps cfg WorkerState) = ChatApp.workerPrologue l frame := by
  simp only [workerPrologue, ChatApp.workerPrologue, alone_bind, alone_pure, addMonitoredFd_alone]

end Worker

section Listener

theorem unicastLoop_alone (exceptedId : Int) (msg : Str) (ids : List Int) :
    alone (unicastLoop exceptedId msg ids : Steps cfg Unit) =
      ChatApp.unicastLoop exceptedId msg ids := by
  induction ids with
  | nil => rfl
  | cons clId ids ih =>
    simp only [unicastLoop, ChatApp.unicastLoop, alone_ite, alone_bind, alone_call, alone_raise, ih,
      hasClient, bind_assoc, pure_bind]
    split_ifs
    · rfl
    · refine bind_congr fun s => ?_
      cases s.sv.getClientRef clId <;> rfl

theorem unicastRepeated_alone (exceptedId : Int) (ids : List Int) (msg : Str) :
    alone (unicastRepeated exceptedId ids msg : Steps cfg Unit) =
      ChatApp.unicastRepeated exceptedId ids msg := by
  simp only [unicastRepeated, ChatApp.unicastRepeated, alone_bind, alone_call, unicastLoop_alone]

theorem workerClientDisconnect_alone (i : Int) :
    alone (workerClientDisconnect i : Steps cfg Unit) = ChatApp.workerClientDisconnect i := by
  simp only [workerClientDisconnect, ChatApp.workerClientDisconnect, alone_bind, alone_call]
  refine bind_congr fun w => ?_
  cases w with
  | none => rfl
  | some w =>
    simp only [alone_ite, alone_raise, alone_bind, alone_call, releaseWorker, resetWorker]
    split_ifs
    · rfl
    · simp only [bind_assoc]
    · rfl

theorem processClDisconnected_alone (m : ServerMessage) (ids : List Int) :
    alone (processClDisconnected m ids : Steps cfg Unit) =
      ChatApp.processClDisconnected m ids := by
  simp only [processClDisconnected, ChatApp.processClDisconnected, alone_bind, alone_call,
    alone_checked]
  cases stoi m.id with
  | error e => rfl
  | ok clId =>
    change onServer (Server.disconnectClient clId) >>= _ =
      onServer (Server.disconnectClient clId) >>= _
    refine bind_congr fun _ => ?_
    cases stoi m.threadNumber with
    | error e => rfl
    | ok i =>
      change workerAt i >>= _ = workerAt i >>= _
      refine bind_congr fun w => ?_
      cases w with
      | none => rfl
      | some w =>
        simp only [alone_ite, alone_raise, alone_bind, unicastRepeated_alone,
          workerClientDisconnect_alone]
        rfl

theorem dispatch_alone (m : ServerMessage) (text : Str) (ids : List Int) :
    alone (dispatch m text ids : Steps cfg Unit) = ChatApp.dispatch m text ids := by
  simp only [dispatch, ChatApp.dispatch, alone_ite, alone_bind, alone_checked, alone_pure,
    processClDisconnected_alone, unicastRepeated_alone]

theorem listenerProcess_alone (listenerEvfd : Int) :
    alone (listenerProcessWorkerToListenerQ listenerEvfd : Steps cfg Unit) =
      ChatApp.listenerProcessWorkerToListenerQ listenerEvfd := by
  simp only [listenerProcessWorkerToListenerQ, ChatApp.listenerProcessWorkerToListenerQ, alone_bind,
    alone_ite, alone_call, alone_pure]
  refine bind_congr fun told => ?_
  split_ifs
  · rfl
  · refine bind_congr fun popped => ?_
    cases popped with
    | none => rfl
    | some text =>
      simp only [processMessage, ChatApp.processMessage, alone_bind, alone_checked, alone_call,
        alone_ite, alone_pure, dispatch_alone, bind_assoc, pure_bind]

theorem stdinBranch_alone (buffer : Option Str) :
    alone (stdinBranch buffer : Steps cfg Unit) = ChatApp.stdinBranch buffer := by
  simp only [stdinBranch, ChatApp.stdinBranch, alone_ite, alone_bind, alone_call, alone_pure]

theorem assignTo_alone (i : Nat) (socket id : Int) :
    alone (assignTo i socket id : Steps cfg Unit) = ChatApp.assignTo i socket id := by
  simp only [assignTo, ChatApp.assignTo, assignClientToWorker, ChatApp.assignClientToWorker,
    alone_bind, alone_call, alone_ite, alone_raise]

theorem setWorker_setWorker (i : Nat) (x y : Option WorkerEntry) :
    (setWorker i x >>= fun _ => setWorker i y) = (setWorker i y : Prog cfg Unit) := by
  funext s
  exact congrArg (fun ws => EStateM.Result.ok ()
    { s with mgr := { s.mgr with workerThreads := ws } }) (Slots.set_set _ i x y)

-- nobody sees the entry empty
theorem emplaceNewWorker_alone (socket id : Int) (nrThr : Nat) (listenerEvfd eventfd : Int) :
    alone (emplaceNewWorker socket id nrThr listenerEvfd eventfd : Steps cfg Unit) =
      ChatApp.emplaceNewWorker socket id nrThr listenerEvfd eventfd := by
  simp only [emplaceNewWorker, ChatApp.emplaceNewWorker, alone_bind, alone_call]
  refine bind_congr fun evfd => ?_
  funext s
  simp only [nextEntry, bind_assoc, pure_bind, get_bind_run]
  cases s.mgr.workerThreads.entries[s.mgr.nrOfLaunchedThreads]? with
  | none => rfl
  | some old =>
    simp only [alone_bind, alone_call, launch, resetWorker, bind_assoc, pure_bind, get_bind_run]
    refine congrFun (bind_congr fun _ => bind_congr fun _ => ?_) s
    rw [← bind_assoc, setWorker_setWorker]

theorem processNewClient_alone (socket id listenerEvfd eventfd : Int) :
    alone (processNewClient socket id listenerEvfd eventfd : Steps cfg Unit) =
      ChatApp.processNewClient socket id listenerEvfd eventfd := by
  simp only [processNewClient, ChatApp.processNewClient, alone_bind, alone_call, bind_assoc,
    pure_bind]
  refine bind_congr fun s => ?_
  rw [alone_ite, emplaceNewWorker_alone]
  congr 1
  cases getMinAndIdx s.mgr.workerThreads with
  | none => exact emplaceNewWorker_alone _ _ _ _ _
  | some b =>
    simp only [alone_ite, alone_bind, alone_call, alone_raise, assignTo_alone,
      emplaceNewWorker_alone]

theorem recovered_alone (p : Steps cfg Unit) (s : Shared cfg) :
    alone (p.handle recover) s =
      match alone p s with
      | .ok _ t => .ok () t
      | .error .undefinedBehaviour t => .error .undefinedBehaviour t
      | .error (.serverFullException _) t => .ok () t
      | .error (.threadManagingException _) t => .ok () t
      | .error _ t => onServer Server.setIsDone t := by
  induction p generalizing s with
  | done a => rfl
  | act f k ih => exact ih s (f s)
  | fail d =>
    cases d with
    | emptyOptional => rfl
    | thrown e =>
      cases e with
      | undefinedBehaviour | serverFullException | threadManagingException => rfl
      | _ => exact congrFun (alone_call _) s

theorem acceptBranch_alone (listenerEvfd : Int) (env : AcceptEnv) :
    alone (acceptBranch listenerEvfd env : Steps cfg Unit) =
      ChatApp.acceptBranch listenerEvfd env := by
  have hbody : alone (do
      let pair ← call (acceptClient env)
      processNewClient pair.1 pair.2 listenerEvfd env.eventfd : Steps cfg Unit) =
        acceptBranchBody listenerEvfd env := by
    simp only [alone_bind, alone_call, processNewClient_alone]
    rfl
  funext s
  rw [acceptBranch, recovered_alone, hbody]
  rfl

end Listener

end Interleaved

end ChatApp
