import ChatApp.Library.Effects
import ChatApp.Messages

namespace ChatApp

structure Client where
  name : Str
  id : Str := []
  colorId : Int := 7
  initReq : Bool := false
  initDone : Bool := false
  doneRequested : Bool := false
  deriving DecidableEq, Repr

inductive ClientOut where
  | sent (msg : Str)
  | shown (msg : ServerMessage)
  | reported (e : Exn)
  deriving DecidableEq, Repr

structure ClientState where
  client : Client
  frame : MessageFrame
  out : List ClientOut := []
  deriving DecidableEq

-- what recv, the eventfd and send answer during one call of receive_msg_from_sv; a recv that
-- would block counts as a zero read
structure ClientEnv where
  recv : RecvResult
  wakeOk : Bool := true
  sendOk : Bool := true

abbrev CProg (α : Type) := EStateM Exn ClientState α

namespace Client

def nrOfColors : Int := 15

-- COLOR_ARR[color_type] is not checked
def getColor (colorType : Int) : Except Exn Int :=
  if 0 ≤ colorType ∧ colorType < nrOfColors then .ok colorType else .error .undefinedBehaviour

def lift {α : Type} (x : Except Exn α) : CProg α :=
  match x with
  | .ok a => pure a
  | .error e => throw e

def emit (o : ClientOut) : CProg Unit := modify fun s => { s with out := s.out ++ [o] }

def updateColor (colorId : Int) : CProg Unit := do
  modify fun s => { s with client := { s.client with colorId := colorId } }
  let _ ← lift (getColor colorId)

def sendMsg (env : ClientEnv) (msg : Str) : CProg Unit := do
  if env.sendOk then emit (.sent msg) else throw (.runtimeError "Failed to send msg\n")

def initDoneMsg : ServerMessage := { action := getAction .initDone }

def finalizeInit (env : ClientEnv) (m : ServerMessage) : CProg Unit := do
  if m.action = getAction .initReq then do
    updateColor (← lift (stoi m.colorId))
    modify fun s => { s with client := { s.client with id := m.id, initDone := true } }
    sendMsg env initDoneMsg.getConcatenatedMsg
  else pure ()

def stdoutFormattedMsg (m : ServerMessage) : CProg Unit := do
  if m.action = getAction .unicastRepeated then
    match stoi m.colorId with
    | .error e => emit (.reported e)
    | .ok c => do
      let _ ← lift (getColor c)
      let _ ← lift (getColor (← get).client.colorId)
      emit (.shown m)
  else pure ()

-- what follows a decoded message; the frame is cleared only when it does not throw
def handleMessage (env : ClientEnv) (m : ServerMessage) : CProg Unit := do
  if (← get).client.initDone then stdoutFormattedMsg m else finalizeInit env m
  modify fun s => { s with frame := s.frame.clearMsg }

def receiveBody (env : ClientEnv) : CProg Unit := do
  match env.recv with
  | .failed => throw (.runtimeError "Failed read\n")
  | .zero => do
    modify fun s => { s with client := { s.client with doneRequested := true } }
    if env.wakeOk then pure ()
    else throw (.runtimeError "Failed to write to event fd to wake up send loop\n")
  | .chunk c => do
    modify fun s => { s with frame := s.frame.recv c }
    let s ← get
    if s.client.initReq then do
      let str ← lift s.frame.toStdString
      let m ← lift (({} : ServerMessage).constructFromString str)
      handleMessage env m
    else pure ()

def receiveMsgFromSv (env : ClientEnv) : CProg Unit := fun s =>
  match receiveBody env s with
  | .ok _ t => .ok () t
  | .error .undefinedBehaviour t => .error .undefinedBehaviour t
  | .error e t => .ok () { t with out := t.out ++ [.reported e] }

end Client

end ChatApp
