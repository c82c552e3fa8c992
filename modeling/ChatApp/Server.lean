import ChatApp.Library.Slots
import ChatApp.Library.Effects
import ChatApp.Messages

namespace ChatApp

structure ClientData where
  personalId : Int
  fd : Int
  name : Str := []
  colorId : Int
  initState : Int := initialState
  sendQueue : List Str := []
  deriving DecidableEq, Repr

namespace ClientData

def incState (c : ClientData) : ClientData := { c with initState := c.initState + 1 }

def setState (c : ClientData) (s : Int) : ClientData := { c with initState := s }

@[simp] theorem incState_personalId (c : ClientData) : c.incState.personalId = c.personalId := rfl

@[simp] theorem setState_personalId (c : ClientData) (s : Int) :
    (c.setState s).personalId = c.personalId := rfl

end ClientData

inductive Accept4 where
  | fd (n : Nat)
  | wouldBlock
  | failed
  deriving DecidableEq, Repr

-- what the kernel and the random generator answer while one connection is accepted
structure AcceptEnv where
  accept4 : Accept4
  getFlagsOk : Bool := true
  setFlagsOk : Bool := true
  color : Int := 7
  eventfd : Int
  deriving DecidableEq, Repr

structure Server (cfg : Config) where
  svSocket : Int
  nrOfConnections : Int := 0
  clients : Slots ClientData cfg.maxClients := Slots.empty _ _
  -- the static counter Client_Data::id
  clientDataId : Nat := 0
  done : Bool := false
  closed : List Int := []

namespace Server

variable {cfg : Config}

def hasId (id : Int) (c : ClientData) : Bool := c.personalId == id

def getClientRef (sv : Server cfg) (clId : Int) : Option ClientData := sv.clients.find? (hasId clId)

-- a write through the reference that get_client_ref returns
def modifyClient (sv : Server cfg) (clId : Int) (f : ClientData → ClientData) : Server cfg :=
  { sv with clients := sv.clients.modify (hasId clId) f }

def getConnectedIDs (sv : Server cfg) : List Int := sv.clients.values.map ClientData.personalId

def getSelectedClientFd (clId : Int) : EStateM Exn (Server cfg) Int := do
  let sv ← get
  if sv.svSocket < 0 then throw (.runtimeError "SV socket not initialized\n")
  else match sv.getClientRef clId with
    | none => throw (.runtimeError "Client not available\n")
    | some c =>
      if c.fd < 0 then throw (.runtimeError "Invalid client ID\n") else return c.fd

def close (fd : Int) : EStateM Exn (Server cfg) Unit :=
  modify fun sv => { sv with closed := sv.closed ++ [fd] }

def disconnectClient (clId : Int) : EStateM Exn (Server cfg) Unit := do
  match (← get).getClientRef clId with
  | none => throw (.runtimeError "Client not found\n")
  | some c =>
    close c.fd
    modify fun sv => { sv with
      nrOfConnections := sv.nrOfConnections - 1
      clients := sv.clients.clear (hasId clId) }

-- Client_Data(fd): fetch_add gives negative ids after 2^31 accepts, and the model ends there; what
-- is proved of runs is about those with at most 2^31 accepts
def newClientData (fd : Int) (color : Int) : EStateM Exn (Server cfg) ClientData := do
  let sv ← get
  if Decimal.intMax < sv.clientDataId then throw .undefinedBehaviour
  else do
    modify fun sv => { sv with clientDataId := sv.clientDataId + 1 }
    return { personalId := sv.clientDataId, fd := fd, colorId := color }

def acceptClient (makeNonBlocking : Bool) (env : AcceptEnv) :
    EStateM Exn (Server cfg) (Int × Int) := do
  if (← get).svSocket < 0 then throw (.runtimeError "SV socket not initialized\n")
  else match env.accept4 with
    | .wouldBlock => return (-1, -1)
    | .failed => throw (.runtimeError "Failed to accept client\n")
    | .fd n =>
      if makeNonBlocking && !env.getFlagsOk then do
        close n
        throw (.runtimeError "Failed to get flags on client\n")
      else if makeNonBlocking && !env.setFlagsOk then do
        close n
        throw (.runtimeError "Failed fcntl call\n")
      else if (← get).clients.isFull then do
        close n
        return (-1, -1)
      else do
        let c ← newClientData n env.color
        modify fun sv => { sv with
          clients := sv.clients.fill c
          nrOfConnections := sv.nrOfConnections + 1 }
        return ((n : Int), c.personalId)

def checkIsDone (sv : Server cfg) : Bool := sv.done

def setIsDone : EStateM Exn (Server cfg) Unit := do
  if (← get).done then throw (.runtimeError "Server did not finish\n")
  else modify fun sv => { sv with done := true }

end Server

end ChatApp
