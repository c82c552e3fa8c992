import ChatApp.ServerThreadManager

namespace ChatApp

variable {cfg : Config}

-- one return of epoll_wait and what recv and send answer until the next one
structure Events where
  pollIn : Int → Bool
  pollOut : Int → Bool
  recv : Int → RecvResult
  sends : List SendResult := []

structure Buffers where
  msgFrame : MessageFrame
  serverMsg : ServerMessage
  deriving DecidableEq

def checkEvent (fd : Int) (poll : Int → Bool) : Prog cfg Bool :=
  if fd < 0 then throw (.invalidArgument "Bad passed FD\n") else pure (poll fd)

def addMonitoredFd (fd : Int) : Prog cfg Unit :=
  if fd < 0 then throw (.runtimeError "Failed to initialize epoll ctl\n") else pure ()

def sendMsg (msg : Str) (clId : Int) : Prog cfg Unit := do
  let _ ← onServer (Server.getSelectedClientFd clId)
  let s ← get
  match s.kernel.sends with
  | [] => set { s with hist := { s.hist with sent := s.hist.sent ++ [(clId, msg)] } }
  | .whole :: rest =>
    set { s with
      hist := { s.hist with sent := s.hist.sent ++ [(clId, msg)] }
      kernel := { s.kernel with sends := rest } }
  | .part n :: rest =>
    set { s with
      hist := { s.hist with sent := s.hist.sent ++ [(clId, msg.take n)] }
      kernel := { s.kernel with sends := rest } }
  | .failed :: rest => do
    set { s with kernel := { s.kernel with sends := rest } }
    throw (.runtimeError "Failed to send msg\n")

def receiveMsg (f : MessageFrame) (clId : Int) (r : RecvResult) :
    Prog cfg (Nat × MessageFrame) := do
  let _ ← onServer (Server.getSelectedClientFd clId)
  match r with
  | .chunk c => return (c.bytes.length, f.recv c)
  | .zero => return (0, f)
  | .failed => throw (.runtimeError "Failed to receive msg\n")

def workerPush (m : ServerMessage) (listenerEvfd : Int) : Prog cfg Unit := do
  if listenerEvfd < 0 then throw (.runtimeError "Server listener event fd is invalid!\n")
  else if !(← tryPushWorkerToListener m.getConcatenatedMsg) then
    throw (.queueException "Failed to push disconnect client msg to Queue!\n")
  else writeEvfd listenerEvfd "Failed to send to listener eventfd\n"

def modifyClient (clId : Int) (f : ClientData → ClientData) : Prog cfg Unit :=
  modify fun s => { s with sv := s.sv.modifyClient clId f }

def helloMsg (m : ServerMessage) (cl : ClientData) : ServerMessage :=
  { m with
    action := getAction .unicastRepeated
    name := serverName
    id := Decimal.toString cl.personalId
    colorId := Decimal.toString cl.colorId
    msgContent := "Hello ".toList ++ cl.name ++ ", now you can chat!".toList }

def joinedMsg (m : ServerMessage) (cl : ClientData) : ServerMessage :=
  { m with
    action := getAction .initDone
    name := serverName
    id := Decimal.toString cl.personalId
    msgContent := cl.name ++ " Has Just Connected!".toList }

def initReplyMsg (m : ServerMessage) (cl : ClientData) : ServerMessage :=
  { m with
    action := getAction .initReq
    name := cl.name
    colorId := Decimal.toString cl.colorId
    id := Decimal.toString cl.personalId }

-- process_client_state(true, ...): cl is the entry the reference points to
def processInput (m : ServerMessage) (cl : ClientData) (listenerEvfd : Int) :
    Prog cfg ServerMessage := do
  let clId := cl.personalId
  if m.action = getAction .clDisconnected then
    modifyClient clId (·.setState disconnectState)
  let state := if m.action = getAction .clDisconnected then disconnectState else cl.initState
  if state = initialState then do
    if m.action = getAction .initReq then
      modifyClient clId fun c => { c.incState with name := m.name }
    return m.resetMsg
  else if state = sentInitConfirmation then
    if m.action = getAction .initDone then do
      modifyClient clId ClientData.incState
      sendMsg (helloMsg m cl).getConcatenatedMsg clId
      workerPush (joinedMsg (helloMsg m cl) cl) listenerEvfd
      return m.resetMsg
    else return m
  else if state = initDone then
    if m.action = getAction .unicastRepeated then do
      workerPush m listenerEvfd
      return m.resetMsg
    else return m
  else return m

def flushQueue (clId : Int) : List Str → Prog cfg Unit
  | [] => pure ()
  | msg :: rest => do
    modifyClient clId fun c => { c with sendQueue := rest }
    sendMsg msg clId
    flushQueue clId rest

-- process_client_state(false, ...)
def processOutput (m : ServerMessage) (cl : ClientData) : Prog cfg ServerMessage := do
  let clId := cl.personalId
  if cl.initState = requestedInit then do
    modifyClient clId ClientData.incState
    sendMsg (initReplyMsg m cl).getConcatenatedMsg clId
    return initReplyMsg m cl
  else if cl.initState = initDone then do
    flushQueue clId cl.sendQueue
    return m
  else return m

def derefClient (clId : Int) : Prog cfg ClientData := do
  match (← get).sv.getClientRef clId with
  | none => throw .undefinedBehaviour
  | some c => return c

def handleOutput (ev : Events) (client : Int × Int) (b : Buffers) : Prog cfg Buffers := do
  if ← checkEvent client.1 ev.pollOut then do
    let cl ← derefClient client.2
    let m ← processOutput b.serverMsg cl
    return { b with serverMsg := m }
  else return b

-- the result says whether the loop goes on to the next client
def handleInput (ev : Events) (client : Int × Int) (b : Buffers) :
    Prog cfg (Bool × Buffers) := do
  let r ← receiveMsg b.msgFrame client.2 (ev.recv client.1)
  if r.1 = 0 then do
    let cl ← derefClient client.2
    modifyClient cl.personalId (·.setState disconnectState)
    return (true, { b with msgFrame := r.2 })
  else if ((← get).sv.getClientRef client.2).isNone then
    return (true, { b with msgFrame := r.2 })
  else do
    let str ← liftExcept r.2.toStdString
    let m ← liftExcept (b.serverMsg.constructFromString str)
    return (false, ⟨r.2.clearMsg, m⟩)

def handleClient (ev : Events) (listenerEvfd : Int) (client : Int × Int) (b : Buffers) :
    Prog cfg Buffers := do
  if ← checkEvent client.1 ev.pollIn then do
    let r ← handleInput ev client b
    if r.1 then return r.2
    else do
      let cl ← derefClient client.2
      let m ← processInput r.2.serverMsg cl listenerEvfd
      handleOutput ev client { r.2 with serverMsg := m }
  else handleOutput ev client b

def handleClients (ev : Events) (listenerEvfd : Int) :
    List (Int × Int) → Buffers → Prog cfg Buffers
  | [], b => pure b
  | client :: rest, b => do
    let b ← handleClient ev listenerEvfd client b
    handleClients ev listenerEvfd rest b

def goneMsg (m : ServerMessage) (personalIndex : Nat) (clId : Int) (cl : ClientData) :
    ServerMessage :=
  { m with
    action := getAction .clDisconnected
    name := cl.name
    threadNumber := Decimal.toString personalIndex
    id := Decimal.toString clId
    colorId := Decimal.toString cl.colorId }

-- remove_if calls its predicate once on each client, in order
def removeDisconnected (personalIndex : Nat) (listenerEvfd : Int) :
    List (Int × Int) → ServerMessage → Prog cfg (List (Int × Int) × ServerMessage)
  | [], m => pure ([], m)
  | client :: rest, m => do
    let cl ← derefClient client.2
    if cl.initState = disconnectState then do
      workerPush (goneMsg m personalIndex client.2 cl) listenerEvfd
      removeDisconnected personalIndex listenerEvfd rest (goneMsg m personalIndex client.2 cl)
    else do
      let r ← removeDisconnected personalIndex listenerEvfd rest m
      return (client :: r.1, r.2)

structure QueueAction where
  action : Int := -1
  fd : Int := -1
  id : Int := -1
  deriving DecidableEq, Repr

def takeAccept (msg : ServerMessage) (personalIndex : Nat) : Prog cfg QueueAction := do
  if msg.threadNumber ≠ Decimal.toString personalIndex then return {}
  else do
    let tmpFd ← liftExcept (stoi msg.fd)
    let tmpId ← liftExcept (stoi msg.id)
    addMonitoredFd tmpFd
    return ⟨Actions.accept.code, tmpFd, tmpId⟩

def processQueued (personalIndex : Nat) (qRecvMsg : Str) : Prog cfg QueueAction := do
  let msg ← liftExcept (({} : ServerMessage).constructFromString qRecvMsg)
  if msg.action = getAction .accept then takeAccept msg personalIndex
  else if !(← tryPushListenerToWorker qRecvMsg) then
    throw (.queueException "Failed to put back rejected message\n")
  else return {}

def workerProcessListenerToWorkerQ (personalIndex : Nat) (personalEvfd : Int) :
    Prog cfg QueueAction := do
  if !(← readEvfd personalEvfd) then return {}
  else match ← tryPopListenerToWorker with
    | none => return {}
    | some qRecvMsg => processQueued personalIndex qRecvMsg

structure WorkerState where
  clients : List (Int × Int)
  buffers : Buffers
  deriving DecidableEq

def takeUp (q : QueueAction) (clients : List (Int × Int)) : Prog cfg (List (Int × Int)) := do
  if q.action = Actions.accept.code then
    if q.fd < 0 ∨ q.id < 0 then
      throw (.clientConnectionException "Invalid client socket or id\n")
    else return clients ++ [(q.fd, q.id)]
  else return clients

def pollQueue (ev : Events) (l : Launch) : Prog cfg QueueAction := do
  if ← checkEvent l.personalEvfd ev.pollIn then
    workerProcessListenerToWorkerQ l.personalIndex l.personalEvfd
  else return {}

-- the body of worker_loop after epoll_wait has reported events
def workerIteration (ev : Events) (l : Launch) (w : WorkerState) : Prog cfg WorkerState := do
  let q ← pollQueue ev l
  let b ← handleClients ev l.listenerEvfd w.clients w.buffers
  let r ← removeDisconnected l.personalIndex l.listenerEvfd w.clients b.serverMsg
  let clients ← takeUp q r.1
  return ⟨clients, { b with serverMsg := r.2 }⟩

-- what worker_loop does before its loop
def workerPrologue (l : Launch) (frame : MessageFrame) : Prog cfg WorkerState := do
  addMonitoredFd l.clFd
  addMonitoredFd l.personalEvfd
  return ⟨[(l.clFd, l.clId)], ⟨frame, {}⟩⟩

end ChatApp
