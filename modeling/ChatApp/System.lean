import ChatApp.Listener
import ChatApp.Worker

namespace ChatApp

inductive Phase where
  | launched
  | head (w : WorkerState)
  | waiting (w : WorkerState)
  | ended (w : WorkerState)
  deriving DecidableEq

structure Thread where
  launch : Launch
  phase : Phase
  deriving DecidableEq

def Thread.isEnded (t : Thread) : Bool :=
  match t.phase with
  | .ended _ => true
  | _ => false

-- where listener_loop stands, with the events of its last epoll_wait it has still to look at
inductive ListenerPc where
  | head
  | queue (evfd stdin socket : Bool)
  | stdin (stdin socket : Bool)
  | accept (socket : Bool)
  | ended
  deriving DecidableEq, Repr

structure State (cfg : Config) where
  shared : Shared cfg
  threads : List Thread := []
  listener : ListenerPc := .head
  listenerEvfd : Int
  terminated : Bool := false

inductive Label where
  | poll (evfd stdin socket : Bool)
  | queue
  | stdin (buffer : Option Str)
  | accept (env : AcceptEnv)
  | start (t : Nat) (frame : MessageFrame)
  | wait (t : Nat)
  | iterate (t : Nat) (ev : Events)
  | leave (t : Nat)

namespace State

variable {cfg : Config}

def init (cfg : Config) (svSocket listenerEvfd : Nat) : State cfg where
  shared := ⟨{}, { svSocket := svSocket }, {}, {}⟩
  listenerEvfd := listenerEvfd

def openFds (s : State cfg) : List Int :=
  s.shared.sv.svSocket :: s.listenerEvfd :: s.shared.kernel.spawned.map Launch.personalEvfd ++
    s.shared.sv.clients.values.map ClientData.fd

-- the kernel hands out descriptors that are not open, the generator draws from 1 to 14
def envOk (s : State cfg) (env : AcceptEnv) : Bool :=
  (1 ≤ env.color && env.color ≤ 14) &&
  (match env.accept4 with
    | .fd n => (n : Int) ≤ Decimal.intMax && (n : Int) ∉ s.openFds && (n : Int) ≠ env.eventfd
    | _ => true) &&
  (env.eventfd < 0 || (env.eventfd ≤ Decimal.intMax && env.eventfd ∉ s.openFds))

-- the listener is not blocked in the destructor of a jthread
def joined (s : State cfg) : Bool :=
  match s.shared.kernel.joining with
  | none => true
  | some t => (s.threads[t]?).all Thread.isEnded

def withShared (s : State cfg) (sh : Shared cfg) (pc : ListenerPc) : State cfg :=
  { s with
    shared := sh
    listener := pc
    threads := s.threads ++
      (sh.kernel.spawned.drop s.threads.length).map fun l => ⟨l, .launched⟩ }

def runListener (s : State cfg) (m : Prog cfg Unit) (next : ListenerPc) : State cfg :=
  match m s.shared with
  | .ok _ sh => s.withShared sh next
  | .error .undefinedBehaviour _ => { s with terminated := true }
  | .error _ sh => s.withShared sh .ended

def setPhase (s : State cfg) (t : Nat) (th : Thread) (p : Phase) : State cfg :=
  { s with threads := s.threads.set t { th with phase := p } }

-- an exception that leaves worker_loop ends the process
def runWorker (s : State cfg) (t : Nat) (th : Thread) (m : Prog cfg WorkerState) : State cfg :=
  match m s.shared with
  | .ok w sh => { s with shared := sh }.setPhase t th (.head w)
  | .error _ _ => { s with terminated := true }

def withSends (s : State cfg) (sends : List SendResult) : State cfg :=
  { s with shared := { s.shared with kernel := { s.shared.kernel with sends := sends } } }

def listenerStep (s : State cfg) : Label → Option (State cfg)
  | .poll evfd stdin socket =>
    if s.listener = .head then
      if s.shared.sv.checkIsDone then some { s with listener := .ended }
      else some { s with listener := .queue evfd stdin socket }
    else none
  | .queue =>
    match s.listener with
    | .queue evfd stdin socket =>
      if evfd then
        some (s.runListener (listenerProcessWorkerToListenerQ s.listenerEvfd) (.stdin stdin socket))
      else some { s with listener := .stdin stdin socket }
    | _ => none
  | .stdin buffer =>
    match s.listener with
    | .stdin stdin socket =>
      if stdin then some (s.runListener (stdinBranch buffer) (.accept socket))
      else some { s with listener := .accept socket }
    | _ => none
  | .accept env =>
    match s.listener with
    | .accept socket =>
      if socket then
        if s.envOk env then some (s.runListener (acceptBranch s.listenerEvfd env) .head) else none
      else some { s with listener := .head }
    | _ => none
  | _ => none

def threadStep (s : State cfg) (t : Nat) (th : Thread) : Label → Option (State cfg)
  | .start _ frame =>
    match th.phase with
    | .launched => some (s.runWorker t th (workerPrologue th.launch frame))
    | _ => none
  | .wait _ =>
    match th.phase with
    | .head w =>
      if w.clients ≠ [] ∧ s.shared.sv.checkIsDone = false then
        some (s.setPhase t th (.waiting w))
      else none
    | _ => none
  -- whether epoll_wait has had a reason to return is not asked here but by Process.wake
  | .iterate _ ev =>
    match th.phase with
    | .waiting w => some ((s.withSends ev.sends).runWorker t th (workerIteration ev th.launch w))
    | _ => none
  | .leave _ =>
    match th.phase with
    | .head w =>
      if w.clients = [] ∨ s.shared.sv.checkIsDone = true then
        some (s.setPhase t th (.ended w))
      else none
    | _ => none
  | _ => none

def step (s : State cfg) (l : Label) : Option (State cfg) :=
  if s.terminated then none
  else match l with
    | .start t _ | .wait t | .iterate t _ | .leave t =>
      (s.threads[t]?).bind fun th => s.threadStep t th l
    | _ => if s.joined then s.listenerStep l else none

end State

section Schedules

-- one round of listener_loop
def listenerRound (evfd socket : Bool) (env : AcceptEnv) : List Label :=
  [.poll evfd false socket, .queue, .stdin none, .accept env]

def workerRound (t : Nat) (ev : Events) : List Label := [.wait t, .iterate t ev]

def connection (fd : Nat) (eventfd : Int) : AcceptEnv := { accept4 := .fd fd, eventfd := eventfd }

-- one socket has something to read
def receiving (fd : Int) (r : RecvResult) : Events where
  pollIn x := x = fd
  pollOut x := x = fd
  recv _ := r

-- recv returns one whole message
def encoded (m : ServerMessage) : RecvResult :=
  if h : 0 < m.getConcatenatedMsg.length ∧ m.getConcatenatedMsg.length ≤ maxLen then
    .chunk ⟨m.getConcatenatedMsg, h.1, h.2⟩
  else .failed

def handshake (t : Nat) (fd : Int) : List Label :=
  workerRound t (receiving fd (encoded { action := getAction .initReq })) ++
  workerRound t (receiving fd (encoded { action := getAction .initDone }))

end Schedules

end ChatApp
