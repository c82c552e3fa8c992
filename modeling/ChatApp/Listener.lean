import ChatApp.ServerThreadManager

namespace ChatApp

variable {cfg : Config}

def pushToClient (id : Int) (msg : Str) : Prog cfg Bool := do
  let s ← get
  match s.sv.getClientRef id with
  | none => throw .undefinedBehaviour
  | some c =>
    if cfg.hasRoom c.sendQueue then do
      set { s with sv := s.sv.modifyClient id fun c =>
        { c with sendQueue := c.sendQueue ++ [msg] } }
      return true
    else return false

def unicastLoop (exceptedId : Int) (msgToPush : Str) : List Int → Prog cfg Unit
  | [] => pure ()
  | id :: ids => do
    if exceptedId = id then unicastLoop exceptedId msgToPush ids
    else if ((← get).sv.getClientRef id).isNone then unicastLoop exceptedId msgToPush ids
    else if !(← pushToClient id msgToPush) then
      throw (.queueException "Failed to push message to corresponding client\n")
    else unicastLoop exceptedId msgToPush ids

def unicastRepeated (exceptedId : Int) (populatedIDs : List Int) (msgToPush : Str) :
    Prog cfg Unit := do
  modify fun s => { s with hist := { s.hist with
    broadcasts := s.hist.broadcasts ++ [(exceptedId, msgToPush)] } }
  unicastLoop exceptedId msgToPush populatedIDs

def leftMsg (msg : ServerMessage) : ServerMessage :=
  { msg with
    action := getAction .unicastRepeated
    msgContent := msg.name ++ " Has just left!".toList
    name := serverName }

def processClDisconnected (msg : ServerMessage) (populatedIDs : List Int) : Prog cfg Unit := do
  onServer (Server.disconnectClient (← liftExcept (stoi msg.id)))
  match ← workerAt (← liftExcept (stoi msg.threadNumber)) with
  | none => throw (.threadManagingException "Can't disconnect a client from an empty optional\n")
  | some w =>
    if w.count = 0 then
      throw (.threadManagingException "Can't disconnect a client from a thread with 0 clients\n")
    else do
      unicastRepeated (← liftExcept (stoi msg.id)) populatedIDs (leftMsg msg).getConcatenatedMsg
      workerClientDisconnect (← liftExcept (stoi msg.threadNumber))

def dispatch (msg : ServerMessage) (recvMessage : Str) (populatedIDs : List Int) :
    Prog cfg Unit := do
  if msg.action = getAction .clDisconnected then processClDisconnected msg populatedIDs
  else if msg.action = getAction .unicastRepeated then do
    unicastRepeated (← liftExcept (stoi msg.id)) populatedIDs recvMessage
  else if msg.action = getAction .svDisconnected then
    unicastRepeated (-1) populatedIDs recvMessage
  else if msg.action = getAction .initDone then do
    unicastRepeated (← liftExcept (stoi msg.id)) populatedIDs
      { msg with action := getAction .unicastRepeated }.getConcatenatedMsg
  else pure ()

def processMessage (recvMessage : Str) : Prog cfg Unit := do
  let msg ← liftExcept (({} : ServerMessage).constructFromString recvMessage)
  let populatedIDs := (← get).sv.getConnectedIDs
  if populatedIDs = [] then pure () else dispatch msg recvMessage populatedIDs

def listenerProcessWorkerToListenerQ (listenerEvfd : Int) : Prog cfg Unit := do
  if !(← readEvfd listenerEvfd) then pure ()
  else match ← tryPopWorkerToListener with
    | none => pure ()
    | some recvMessage => processMessage recvMessage

def acceptClient (env : AcceptEnv) : Prog cfg (Int × Int) := do
  let pair ← onServer (Server.acceptClient true env)
  if 0 ≤ pair.2 then
    modify fun s => { s with hist := { s.hist with
      arrivals := s.hist.arrivals ++ [(pair.2, s.hist.broadcasts.length)] } }
  return pair

def acceptBranchBody (listenerEvfd : Int) (env : AcceptEnv) : Prog cfg Unit := do
  let pair ← acceptClient env
  processNewClient pair.1 pair.2 listenerEvfd env.eventfd

-- the handlers of listener_loop: a full server is reported, anything else stops the server
def acceptBranch (listenerEvfd : Int) (env : AcceptEnv) : Prog cfg Unit := fun s =>
  match acceptBranchBody listenerEvfd env s with
  | .ok _ t => .ok () t
  | .error .undefinedBehaviour t => .error .undefinedBehaviour t
  | .error (.serverFullException _) t => .ok () t
  | .error (.threadManagingException _) t => .ok () t
  | .error _ t => onServer Server.setIsDone t

def svDisconnectedMsg : ServerMessage :=
  { action := getAction .svDisconnected, msgContent := "SERVER DISCONNECTED".toList }

-- none is a getline that failed
def stdinBranch (buffer : Option Str) : Prog cfg Unit := do
  if buffer = some quitMsg then do
    onServer Server.setIsDone
    let _ ← tryPushWorkerToListener svDisconnectedMsg.getConcatenatedMsg
  else pure ()

end ChatApp
