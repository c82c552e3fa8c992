import ChatApp.Library.Scripts
import ChatApp.System

namespace ChatApp

namespace Interleaved

open Effects Scripts

variable {cfg : Config}

-- what ends a script: an exception, or a get_client_ref(...)->get() of worker_loop without a client
inductive Fault where
  | thrown (e : Exn)
  | emptyOptional
  deriving DecidableEq

-- the functions of the server once more, each operation on the table, on a queue, on an eventfd
-- or on a socket a step of its own
abbrev Steps (cfg : Config) (α : Type) := Script (Shared cfg) Fault α

def call {α : Type} (m : Prog cfg α) : Steps cfg α := .op .thrown m

def raise {α : Type} (e : Exn) : Steps cfg α := .fail (.thrown e)

def checked {α : Type} (x : Except Exn α) : Steps cfg α := .lift .thrown x

section Clients

def hasClient (clId : Int) : Prog cfg Bool := do
  return ((← get).sv.getClientRef clId).isSome

-- a read through the reference
def refClient (clId : Int) : Steps cfg ClientData :=
  .act id fun s =>
    match s.sv.getClientRef clId with
    | some c => .done c
    | none => .fail .emptyOptional

-- a write through the reference
def updateClient (clId : Int) (f : ClientData → ClientData) : Steps cfg Unit :=
  .act (fun s => { s with sv := s.sv.modifyClient clId f }) fun s =>
    match s.sv.getClientRef clId with
    | some _ => .done ()
    | none => .fail .emptyOptional

end Clients

section Worker

def checkEvent (fd : Int) (poll : Int → Bool) : Steps cfg Bool :=
  if fd < 0 then raise (.invalidArgument "Bad passed FD\n") else pure (poll fd)

def addMonitoredFd (fd : Int) : Steps cfg Unit :=
  if fd < 0 then raise (.runtimeError "Failed to initialize epoll ctl\n") else pure ()

-- send_msg once get_selected_client_fd has returned
def transmit (msg : Str) (clId : Int) : Prog cfg Unit := do
  let s ← get
  match s.kernel.sends with
  | [] => set { s with hist := { s.hist with sent := s.hist.sent ++ [(clId, msg)] } }
  | .whole :: rest =>
    set { s with
      hist := { s.hist with sent := s.hist.sent ++ [(clId, msg)] }
      kernel := { s.kernel with sends := rest } }
  | .part n :: rest =>
    set { s with
      hist := { s.hist with sent := s.hist.sent ++ [(clId, msg.take n)] }
      kernel := { s.kernel with sends := rest } }
  | .failed :: rest => do
    set { s with kernel := { s.kernel with sends := rest } }
    throw (.runtimeError "Failed to send msg\n")

def sendMsg (msg : Str) (clId : Int) : Steps cfg Unit := do
  let _ ← call (onServer (Server.getSelectedClientFd clId))
  call (transmit msg clId)

-- worker_push up to its write
def pushUp (m : ServerMessage) (listenerEvfd : Int) : Steps cfg Unit :=
  if listenerEvfd < 0 then raise (.runtimeError "Server listener event fd is invalid!\n")
  else do
    let pushed ← call (tryPushWorkerToListener m.getConcatenatedMsg)
    if !pushed then raise (.queueException "Failed to push disconnect client msg to Queue!\n")
    else pure ()

def notify (listenerEvfd : Int) : Steps cfg Unit :=
  call (writeEvfd listenerEvfd "Failed to send to listener eventfd\n")

def workerPush (m : ServerMessage) (listenerEvfd : Int) : Steps cfg Unit := do
  pushUp m listenerEvfd
  notify listenerEvfd

def markLeft (m : ServerMessage) (clId : Int) : Steps cfg Unit :=
  if m.action = getAction .clDisconnected then updateClient clId (·.setState disconnectState)
  else pure ()

def takeName (m : ServerMessage) (clId : Int) : Steps cfg Unit :=
  if m.action = getAction .initReq then do
    updateClient clId ClientData.incState
    updateClient clId fun c => { c with name := m.name }
  else pure ()

-- process_client_state(true, ...); clId is the client the reference points to
def processInput (m : ServerMessage) (clId listenerEvfd : Int) : Steps cfg ServerMessage := do
  markLeft m clId
  let cl ← refClient clId
  if cl.initState = initialState then do
    takeName m clId
    return m.resetMsg
  else if cl.initState = sentInitConfirmation then
    if m.action = getAction .initDone then do
      updateClient clId ClientData.incState
      let cl ← refClient clId
      sendMsg (helloMsg m cl).getConcatenatedMsg cl.personalId
      workerPush (joinedMsg (helloMsg m cl) cl) listenerEvfd
      return m.resetMsg
    else return m
  else if cl.initState = initDone then
    if m.action = getAction .unicastRepeated then do
      workerPush m listenerEvfd
      return m.resetMsg
    else return m
  else return m

-- process_client_state(false, ...) up to the loop over the send_queue: whether it comes to it
def processOutput (m : ServerMessage) (clId : Int) : Steps cfg (Bool × ServerMessage) := do
  let cl ← refClient clId
  if cl.initState = requestedInit then do
    updateClient clId ClientData.incState
    let cl ← refClient clId
    sendMsg (initReplyMsg m cl).getConcatenatedMsg cl.personalId
    return (false, initReplyMsg m cl)
  else return (decide (cl.initState = initDone), m)

-- one try_pop of that loop
def popQueue (clId : Int) : Steps cfg (Option Str) :=
  .act (fun s => { s with sv := s.sv.modifyClient clId fun c =>
      { c with sendQueue := c.sendQueue.tail } }) fun s =>
    match s.sv.getClientRef clId with
    | some c => .done c.sendQueue.head?
    | none => .fail .emptyOptional

-- current says whether get_client_ref found the client at the head of its turn
def handleOutput (ev : Events) (client : Int × Int) (current : Bool) (b : Buffers) :
    Steps cfg (Bool × Buffers) := do
  if ← checkEvent client.1 ev.pollOut then
    if !current then .fail .emptyOptional
    else do
      let r ← processOutput b.serverMsg client.2
      return (r.1, { b with serverMsg := r.2 })
  else return (false, b)

-- the result says whether the loop goes on to the next client
def handleInput (ev : Events) (client : Int × Int) (current : Bool) (b : Buffers) :
    Steps cfg (Bool × Buffers) := do
  let r ← call (receiveMsg b.msgFrame client.2 (ev.recv client.1))
  if r.1 = 0 then do
    let _ ← refClient client.2
    updateClient client.2 (·.setState disconnectState)
    return (true, { b with msgFrame := r.2 })
  else if !current then return (true, { b with msgFrame := r.2 })
  else do
    let str ← checked r.2.toStdString
    let m ← checked (b.serverMsg.constructFromString str)
    return (false, ⟨r.2.clearMsg, m⟩)

-- the turn of one client, up to the loop over its send_queue
def handleClient (ev : Events) (listenerEvfd : Int) (client : Int × Int) (b : Buffers) :
    Steps cfg (Bool × Buffers) := do
  let current ← call (hasClient client.2)
  if ← checkEvent client.1 ev.pollIn then do
    let r ← handleInput ev client current b
    if r.1 then return (false, r.2)
    else do
      let m ← processInput r.2.serverMsg client.2 listenerEvfd
      handleOutput ev client current { r.2 with serverMsg := m }
  else handleOutput ev client current b

-- the predicate of remove_if up to its worker_push
def signalled (personalIndex : Nat) (client : Int × Int) (m : ServerMessage) :
    Steps cfg (Option ServerMessage) := do
  let cl ← refClient client.2
  if cl.initState = disconnectState then do
    let named ← refClient client.2
    let coloured ← refClient client.2
    return some (goneMsg m personalIndex client.2 { named with colorId := coloured.colorId })
  else return none

def takeAccept (msg : ServerMessage) (personalIndex : Nat) : Steps cfg QueueAction := do
  if msg.threadNumber ≠ Decimal.toString personalIndex then return {}
  else do
    let tmpFd ← checked (stoi msg.fd)
    let tmpId ← checked (stoi msg.id)
    addMonitoredFd tmpFd
    return ⟨Actions.accept.code, tmpFd, tmpId⟩

def processQueued (personalIndex : Nat) (qRecvMsg : Str) : Steps cfg QueueAction := do
  let msg ← checked (({} : ServerMessage).constructFromString qRecvMsg)
  if msg.action = getAction .accept then takeAccept msg personalIndex
  else do
    let pushed ← call (tryPushListenerToWorker qRecvMsg)
    if !pushed then raise (.queueException "Failed to put back rejected message\n")
    else return {}

def workerProcessListenerToWorkerQ (personalIndex : Nat) (personalEvfd : Int) :
    Steps cfg QueueAction := do
  let told ← call (readEvfd personalEvfd)
  if !told then return {}
  else do
    let popped ← call tryPopListenerToWorker
    match popped with
    | none => return {}
    | some qRecvMsg => processQueued personalIndex qRecvMsg

def pollQueue (ev : Events) (l : Launch) : Steps cfg QueueAction := do
  if ← checkEvent l.personalEvfd ev.pollIn then
    workerProcessListenerToWorkerQ l.personalIndex l.personalEvfd
  else return {}

def takeUp (q : QueueAction) (clients : List (Int × Int)) : Steps cfg (List (Int × Int)) := do
  if q.action = Actions.accept.code then
    if q.fd < 0 ∨ q.id < 0 then
      raise (.clientConnectionException "Invalid client socket or id\n")
    else return clients ++ [(q.fd, q.id)]
  else return clients

def workerPrologue (l : Launch) (frame : MessageFrame) : Steps cfg WorkerState := do
  addMonitoredFd l.clFd
  addMonitoredFd l.personalEvfd
  return ⟨[(l.clFd, l.clId)], ⟨frame, {}⟩⟩

end Worker

section Listener

def unicastLoop (exceptedId : Int) (msgToPush : Str) : List Int → Steps cfg Unit
  | [] => pure ()
  | clId :: ids => do
    if exceptedId = clId then unicastLoop exceptedId msgToPush ids
    else do
      let found ← call (hasClient clId)
      if !found then unicastLoop exceptedId msgToPush ids
      else do
        let pushed ← call (pushToClient clId msgToPush)
        if !pushed then
          raise (.queueException "Failed to push message to corresponding client\n")
        else unicastLoop exceptedId msgToPush ids

def unicastRepeated (exceptedId : Int) (populatedIDs : List Int) (msgToPush : Str) :
    Steps cfg Unit := do
  call (modify fun s => { s with hist := { s.hist with
    broadcasts := s.hist.broadcasts ++ [(exceptedId, msgToPush)] } })
  unicastLoop exceptedId msgToPush populatedIDs

-- reset empties the entry and joins its thread; the next step waits for that
def resetWorker (i : Nat) (old : Option WorkerEntry) : Prog cfg Unit := do
  joinOf old
  setWorker i none

def releaseWorker (i : Nat) (w : WorkerEntry) : Steps cfg Unit :=
  if w.count = 1 then do
    call (resetWorker i (some w))
    call (modify fun s => { s with mgr := { s.mgr with
      nrOfLaunchedThreads := s.mgr.nrOfLaunchedThreads - 1 } })
  else call (setWorker i (some { w with count := w.count - 1 }))

def workerClientDisconnect (thrPersonalIdx : Int) : Steps cfg Unit := do
  match ← call (workerAt thrPersonalIdx) with
  | none => raise (.threadManagingException "Can't disconnect from a thread that isn't running\n")
  | some w =>
    if w.count = 0 then
      raise (.threadManagingException "Can't disconnect from a thread that has no connections\n")
    else do
      releaseWorker thrPersonalIdx.toNat w
      call (modify fun s => { s with mgr := { s.mgr with
        maxClientsPerThread := (getMaxAndIdx s.mgr.workerThreads).1 } })

def processClDisconnected (msg : ServerMessage) (populatedIDs : List Int) : Steps cfg Unit := do
  let clId ← checked (stoi msg.id)
  call (onServer (Server.disconnectClient clId))
  let i ← checked (stoi msg.threadNumber)
  match ← call (workerAt i) with
  | none => raise (.threadManagingException "Can't disconnect a client from an empty optional\n")
  | some w =>
    if w.count = 0 then
      raise (.threadManagingException "Can't disconnect a client from a thread with 0 clients\n")
    else do
      unicastRepeated clId populatedIDs (leftMsg msg).getConcatenatedMsg
      workerClientDisconnect i

def dispatch (msg : ServerMessage) (recvMessage : Str) (populatedIDs : List Int) :
    Steps cfg Unit := do
  if msg.action = getAction .clDisconnected then processClDisconnected msg populatedIDs
  else if msg.action = getAction .unicastRepeated then do
    let clId ← checked (stoi msg.id)
    unicastRepeated clId populatedIDs recvMessage
  else if msg.action = getAction .svDisconnected then
    unicastRepeated (-1) populatedIDs recvMessage
  else if msg.action = getAction .initDone then do
    let clId ← checked (stoi msg.id)
    unicastRepeated clId populatedIDs
      { msg with action := getAction .unicastRepeated }.getConcatenatedMsg
  else pure ()

def processMessage (recvMessage : Str) : Steps cfg Unit := do
  let msg ← checked (({} : ServerMessage).constructFromString recvMessage)
  let populatedIDs ← call (do return (← get).sv.getConnectedIDs)
  if populatedIDs = [] then pure () else dispatch msg recvMessage populatedIDs

def listenerProcessWorkerToListenerQ (listenerEvfd : Int) : Steps cfg Unit := do
  let told ← call (readEvfd listenerEvfd)
  if !told then pure ()
  else do
    let popped ← call tryPopWorkerToListener
    match popped with
    | none => pure ()
    | some recvMessage => processMessage recvMessage

def assignClientToWorker (threadIndex : Nat) (socket id eventFd : Int) : Steps cfg Unit := do
  let pushed ← call (tryPushListenerToWorker (acceptMsg threadIndex socket id).getConcatenatedMsg)
  if !pushed || eventFd < 0 then raise (.queueException "Failed to push new worker to queue")
  else call (writeEvfd eventFd "Failed to send event_fd")

def assignTo (minIdx : Nat) (socket id : Int) : Steps cfg Unit := do
  call (incCount minIdx)
  let w ← call (derefWorker minIdx)
  assignClientToWorker minIdx socket id w.evfd

-- worker_threads[nr_of_launched_threads], with that number
def nextEntry : Prog cfg (Nat × Option (Option WorkerEntry)) := do
  let m := (← get).mgr
  return (m.nrOfLaunchedThreads, m.workerThreads.entries[m.nrOfLaunchedThreads]?)

-- the jthread of the tuple that emplace is given starts at once; the result is the thread
def launch (l : Launch) : Prog cfg Nat := do
  let k := (← get).kernel.spawned.length
  modify fun s => { s with kernel := { s.kernel with spawned := s.kernel.spawned ++ [l] } }
  return k

-- emplace destroys what the entry held before it moves the tuple in
def emplaceNewWorker (socket id : Int) (nrThr : Nat) (listenerEvfd eventfd : Int) :
    Steps cfg Unit := do
  let evfd ← call (getEvfd eventfd)
  match ← call nextEntry with
  | (_, none) => raise .undefinedBehaviour
  | (slot, some old) => do
    let k ← call (launch ⟨socket, id, nrThr, evfd, listenerEvfd⟩)
    call (resetWorker slot old)
    call (setWorker slot (some ⟨0, evfd, k⟩))
    call (incCount nrThr)
    call (modify fun s => { s with mgr := { s.mgr with
      nrOfLaunchedThreads := s.mgr.nrOfLaunchedThreads + 1 } })

-- the load balancer is read and written by the listener alone
def processNewClient (socket id listenerEvfd eventfd : Int) : Steps cfg Unit := do
  let mgr ← call (do return (← get).mgr)
  if mgr.nrOfLaunchedThreads = 0 then emplaceNewWorker socket id 0 listenerEvfd eventfd
  else match getMinAndIdx mgr.workerThreads with
    | none => emplaceNewWorker socket id 0 listenerEvfd eventfd
    | some (min, minIdx) =>
      if min < mgr.maxClientsPerThread then assignTo minIdx socket id
      else if mgr.nrOfLaunchedThreads = cfg.maxNrOfThreads then do
        call (modify fun s => { s with mgr := { s.mgr with
          maxClientsPerThread := s.mgr.maxClientsPerThread + 1 } })
        if cfg.maxClientsPerThread < mgr.maxClientsPerThread + 1 then
          raise (.serverFullException "Server full, all threads are occupied!\n")
        else assignTo minIdx socket id
      else if cfg.maxNrOfThreads ≤ mgr.nrOfLaunchedThreads then
        raise (.serverFullException "Server full, can't launch more new workers!\n")
      else
        emplaceNewWorker socket id mgr.nrOfLaunchedThreads listenerEvfd eventfd

-- the catch clauses around the accept branch
def recover : Fault → Steps cfg Unit
  | .emptyOptional => .fail .emptyOptional
  | .thrown .undefinedBehaviour => raise .undefinedBehaviour
  | .thrown (.serverFullException _) => pure ()
  | .thrown (.threadManagingException _) => pure ()
  | .thrown _ => call (onServer Server.setIsDone)

def acceptBranch (listenerEvfd : Int) (env : AcceptEnv) : Steps cfg Unit :=
  Script.handle recover do
    let pair ← call (acceptClient env)
    processNewClient pair.1 pair.2 listenerEvfd env.eventfd

def stdinBranch (buffer : Option Str) : Steps cfg Unit := do
  if buffer = some quitMsg then do
    call (onServer Server.setIsDone)
    let _ ← call (tryPushWorkerToListener svDisconnectedMsg.getConcatenatedMsg)
  else pure ()

end Listener

-- where worker_loop stands; w has the list of clients as it is until erase and emplace_back
inductive Phase (cfg : Config) where
  | launched
  | head (w : WorkerState)
  | waiting (w : WorkerState)
  | polling (ev : Events) (w : WorkerState) (p : Steps cfg QueueAction)
  | serving (ev : Events) (w : WorkerState) (q : QueueAction) (client : Int × Int)
    (todo : List (Int × Int)) (p : Steps cfg (Bool × Buffers))
  | popping (ev : Events) (w : WorkerState) (q : QueueAction) (client : Int × Int)
    (todo : List (Int × Int)) (b : Buffers) (p : Steps cfg (Option Str))
  | sending (ev : Events) (w : WorkerState) (q : QueueAction) (client : Int × Int)
    (todo : List (Int × Int)) (b : Buffers) (p : Steps cfg Unit)
  | checking (w : WorkerState) (q : QueueAction) (kept : List (Int × Int)) (client : Int × Int)
    (rest : List (Int × Int)) (b : Buffers) (p : Steps cfg (Option ServerMessage))
  | pushing (w : WorkerState) (q : QueueAction) (kept : List (Int × Int)) (client : Int × Int)
    (rest : List (Int × Int)) (b : Buffers) (p : Steps cfg Unit)
  | notifying (w : WorkerState) (q : QueueAction) (kept rest : List (Int × Int)) (b : Buffers)
    (p : Steps cfg Unit)
  | erasing (w : WorkerState) (q : QueueAction) (kept : List (Int × Int)) (b : Buffers)
  | ended (w : WorkerState)

structure Thread (cfg : Config) where
  launch : Launch
  phase : Phase cfg

def Thread.isEnded (th : Thread cfg) : Bool :=
  match th.phase with
  | .ended _ => true
  | _ => false

namespace Phase

-- where a script leads once it has no operation before it
def settle {α : Type} (p : Steps cfg α) (now : Steps cfg α → Phase cfg)
    (next : α → Except Fault (Phase cfg)) : Except Fault (Phase cfg) :=
  match p with
  | .done a => next a
  | .fail d => .error d
  | .act f k => .ok (now (.act f k))

def check (l : Launch) (w : WorkerState) (q : QueueAction) (kept : List (Int × Int))
    (b : Buffers) : List (Int × Int) → Except Fault (Phase cfg)
  | [] => .ok (.erasing w q kept b)
  | client :: rest =>
    .ok (.checking w q kept client rest b (signalled l.personalIndex client b.serverMsg))

def serve (l : Launch) (ev : Events) (w : WorkerState) (q : QueueAction) (b : Buffers) :
    List (Int × Int) → Except Fault (Phase cfg)
  | [] => check l w q [] b w.clients
  | client :: todo =>
    .ok (.serving ev w q client todo (handleClient ev l.listenerEvfd client b))

def flush (ev : Events) (w : WorkerState) (q : QueueAction) (client : Int × Int)
    (todo : List (Int × Int)) (b : Buffers) : Except Fault (Phase cfg) :=
  .ok (.popping ev w q client todo b (popQueue client.2))

def push (l : Launch) (w : WorkerState) (q : QueueAction) (kept : List (Int × Int))
    (client : Int × Int) (rest : List (Int × Int)) (b : Buffers) (p : Steps cfg Unit) :
    Except Fault (Phase cfg) :=
  settle p (.pushing w q kept client rest b) fun _ =>
    .ok (.notifying w q kept rest b (notify l.listenerEvfd))

-- the next operation of the iteration
def act (l : Launch) (s : Shared cfg) : Phase cfg → Option (Shared cfg × Except Fault (Phase cfg))
  | .polling ev w p => some ((p.next s).1, settle (p.next s).2 (.polling ev w) fun q =>
      serve l ev w q w.buffers w.clients)
  | .serving ev w q client todo p =>
    some ((p.next s).1, settle (p.next s).2 (.serving ev w q client todo) fun r =>
      if r.1 then flush ev w q client todo r.2 else serve l ev w q r.2 todo)
  | .popping ev w q client todo b p =>
    some ((p.next s).1, settle (p.next s).2 (.popping ev w q client todo b) fun popped =>
      match popped with
      | none => serve l ev w q b todo
      | some msg => .ok (.sending ev w q client todo b (sendMsg msg client.2)))
  | .sending ev w q client todo b p =>
    some ((p.next s).1, settle (p.next s).2 (.sending ev w q client todo b) fun _ =>
      flush ev w q client todo b)
  | .checking w q kept client rest b p =>
    some ((p.next s).1, settle (p.next s).2 (.checking w q kept client rest b) fun m =>
      match m with
      | none => check l w q (kept ++ [client]) b rest
      | some m => push l w q kept client rest { b with serverMsg := m } (pushUp m l.listenerEvfd))
  | .pushing w q kept client rest b p =>
    some ((p.next s).1, push l w q kept client rest b (p.next s).2)
  | .notifying w q kept rest b p =>
    some ((p.next s).1, settle (p.next s).2 (.notifying w q kept rest b) fun _ =>
      check l w q kept b rest)
  | _ => none

end Phase

-- where listener_loop stands, with the events of its last epoll_wait it has still to look at
inductive ListenerPc (cfg : Config) where
  | head
  | reading (stdin socket : Bool) (p : Steps cfg Unit)
  | atStdin (stdin socket : Bool)
  | typing (socket : Bool) (p : Steps cfg Unit)
  | atAccept (socket : Bool)
  | accepting (p : Steps cfg Unit)
  | ended

structure State (cfg : Config) where
  shared : Shared cfg
  threads : List (Thread cfg) := []
  listener : ListenerPc cfg := .head
  listenerEvfd : Int
  -- what has ended the process
  fault : Option Fault := none

inductive Label where
  | poll (evfd stdin socket : Bool)
  | stdin (buffer : Option Str)
  | accept (env : AcceptEnv)
  | listener
  | start (k : Nat) (frame : MessageFrame)
  | wait (k : Nat)
  | wake (k : Nat) (ev : Events)
  | act (k : Nat)
  | erase (k : Nat)
  | leave (k : Nat)
  -- what the next sends will answer
  | answers (sends : List SendResult)

namespace State

def init (cfg : Config) (svSocket listenerEvfd : Nat) : State cfg where
  shared := ⟨{}, { svSocket := svSocket }, {}, {}⟩
  listenerEvfd := listenerEvfd

def openFds (s : State cfg) : List Int :=
  s.shared.sv.svSocket :: s.listenerEvfd :: s.shared.kernel.spawned.map Launch.personalEvfd ++
    s.shared.sv.clients.values.map ClientData.fd

-- the kernel hands out descriptors that are not open, the generator draws from 1 to 14
def envOk (s : State cfg) (env : AcceptEnv) : Bool :=
  (1 ≤ env.color && env.color ≤ 14) &&
  (match env.accept4 with
    | .fd n => (n : Int) ≤ Decimal.intMax && (n : Int) ∉ s.openFds && (n : Int) ≠ env.eventfd
    | _ => true) &&
  (env.eventfd < 0 || (env.eventfd ≤ Decimal.intMax && env.eventfd ∉ s.openFds))

-- epoll_wait returns once one of the descriptors is ready
def reports (s : State cfg) (ev : Events) : Bool :=
  s.openFds.any fun fd => ev.pollIn fd || ev.pollOut fd

-- the listener is not blocked in the destructor of a jthread
def joined (s : State cfg) : Bool :=
  match s.shared.kernel.joining with
  | none => true
  | some k => (s.threads[k]?).all Thread.isEnded

-- the threads that an operation has launched are there after it
def withShared (s : State cfg) (sh : Shared cfg) : State cfg :=
  { s with
    shared := sh
    threads := s.threads ++
      (sh.kernel.spawned.drop s.threads.length).map fun l => ⟨l, .launched⟩ }

def setPhase (s : State cfg) (k : Nat) (th : Thread cfg) : Except Fault (Phase cfg) → State cfg
  | .ok ph => { s with threads := s.threads.set k { th with phase := ph } }
  | .error d => { s with fault := some d }

-- what listener_loop does after an operation: its catch clauses take everything but what has no
-- meaning
def settle (s : State cfg) (p : Steps cfg Unit) (now : Steps cfg Unit → ListenerPc cfg)
    (next : ListenerPc cfg) : State cfg :=
  match p with
  | .done _ => { s with listener := next }
  | .fail .emptyOptional => { s with fault := some .emptyOptional }
  | .fail (.thrown .undefinedBehaviour) => { s with fault := some (.thrown .undefinedBehaviour) }
  | .fail (.thrown _) => { s with listener := .ended }
  | .act f k => { s with listener := now (.act f k) }

def listen (s : State cfg) (p : Steps cfg Unit) (now : Steps cfg Unit → ListenerPc cfg)
    (next : ListenerPc cfg) : State cfg :=
  (s.withShared (p.next s.shared).1).settle (p.next s.shared).2 now next

def goTo (s : State cfg) (pc : ListenerPc cfg) : State cfg := { s with listener := pc }

def listenerStep (s : State cfg) : Label → Option (State cfg)
  | .poll evfd stdin socket =>
    match s.listener with
    | .head =>
      if s.shared.sv.checkIsDone then some (s.goTo .ended)
      else if evfd then some (s.goTo (.reading stdin socket
        (listenerProcessWorkerToListenerQ s.listenerEvfd)))
      else some (s.goTo (.atStdin stdin socket))
    | _ => none
  | .stdin buffer =>
    match s.listener with
    | .atStdin stdin socket =>
      if stdin then some (s.settle (stdinBranch buffer) (.typing socket) (.atAccept socket))
      else some (s.goTo (.atAccept socket))
    | _ => none
  | .accept env =>
    match s.listener with
    | .atAccept socket =>
      if socket then
        if s.envOk env then some (s.listen (acceptBranch s.listenerEvfd env) .accepting .head)
        else none
      else some (s.goTo .head)
    | _ => none
  | .listener =>
    match s.listener with
    | .reading stdin socket p => some (s.listen p (.reading stdin socket) (.atStdin stdin socket))
    | .typing socket p => some (s.listen p (.typing socket) (.atAccept socket))
    | .accepting p => some (s.listen p .accepting .head)
    | _ => none
  | _ => none

def threadStep (s : State cfg) (k : Nat) (th : Thread cfg) : Label → Option (State cfg)
  | .start _ frame =>
    match th.phase with
    | .launched => some (s.setPhase k th
        (Phase.settle (workerPrologue th.launch frame) (fun _ => .launched) fun w => .ok (.head w)))
    | _ => none
  | .wait _ =>
    match th.phase with
    | .head w =>
      if w.clients ≠ [] ∧ s.shared.sv.checkIsDone = false then
        some (s.setPhase k th (.ok (.waiting w)))
      else none
    | _ => none
  | .wake _ ev =>
    match th.phase with
    | .waiting w =>
      if s.reports ev then
        some (s.setPhase k th (Phase.settle (pollQueue ev th.launch) (.polling ev w) fun q =>
          Phase.serve th.launch ev w q w.buffers w.clients))
      else none
    | _ => none
  | .act _ =>
    (th.phase.act th.launch s.shared).map fun r => (s.withShared r.1).setPhase k th r.2
  | .erase _ =>
    match th.phase with
    | .erasing _ q kept b => some (s.setPhase k th
        (Phase.settle (takeUp q kept) (fun _ => th.phase) fun clients => .ok (.head ⟨clients, b⟩)))
    | _ => none
  | .leave _ =>
    match th.phase with
    | .head w =>
      if w.clients = [] ∨ s.shared.sv.checkIsDone = true then
        some (s.setPhase k th (.ok (.ended w)))
      else none
    | _ => none
  | _ => none

def step (s : State cfg) (l : Label) : Option (State cfg) :=
  if s.fault.isSome then none
  else match l with
    | .start k _ | .wait k | .wake k _ | .act k | .erase k | .leave k =>
      (s.threads[k]?).bind fun th => s.threadStep k th l
    | .answers sends =>
      some { s with shared := { s.shared with kernel := { s.shared.kernel with sends := sends } } }
    | _ => if s.joined then s.listenerStep l else none

end State

end Interleaved

end ChatApp
