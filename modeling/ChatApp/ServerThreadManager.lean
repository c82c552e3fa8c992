import ChatApp.Server

namespace ChatApp

-- an entry of worker_threads: allocated clients, personal eventfd, and which thread it owns
structure WorkerEntry where
  count : Nat
  evfd : Int
  thread : Nat
  deriving DecidableEq, Repr

-- what the lambda of a jthread captured; its position is the thread's number
structure Launch where
  clFd : Int
  clId : Int
  personalIndex : Nat
  personalEvfd : Int
  listenerEvfd : Int
  deriving DecidableEq, Repr

inductive SendResult where
  | whole
  | part (n : Nat)
  | failed
  deriving DecidableEq, Repr

structure ServerThreadManager (cfg : Config) where
  maxClientsPerThread : Nat := 1
  nrOfLaunchedThreads : Nat := 0
  qWorkerToListener : List Str := []
  qListenerToWorker : List Str := []
  workerThreads : Slots WorkerEntry cfg.maxNrOfThreads := Slots.empty _ _

structure Kernel where
  evfd : Int → Nat := fun _ => 0
  sends : List SendResult := []
  spawned : List Launch := []
  -- the thread that the destructor of a jthread is joining
  joining : Option Nat := none

-- ghost records: bytes sent by client id, broadcasts with the id they leave out, and how many
-- broadcasts there had been when a client entered the table
structure History where
  sent : List (Int × Str) := []
  broadcasts : List (Int × Str) := []
  arrivals : List (Int × Nat) := []

structure Shared (cfg : Config) where
  mgr : ServerThreadManager cfg
  sv : Server cfg
  kernel : Kernel
  hist : History

abbrev Prog (cfg : Config) (α : Type) := EStateM Exn (Shared cfg) α

variable {cfg : Config}

def onServer {α : Type} (m : EStateM Exn (Server cfg) α) : Prog cfg α := fun s =>
  match m s.sv with
  | .ok a sv => .ok a { s with sv := sv }
  | .error e sv => .error e { s with sv := sv }

def liftExcept {α : Type} (x : Except Exn α) : Prog cfg α :=
  match x with
  | .ok a => pure a
  | .error e => throw e

-- an eventfd holds at most 2^64 - 2
def evfdMax : Nat := 18446744073709551614

def writeEvfd (fd : Int) (what : String) : Prog cfg Unit := do
  let s ← get
  if s.kernel.evfd fd < evfdMax then
    set { s with kernel := { s.kernel with
      evfd := fun x => if x = fd then s.kernel.evfd fd + 1 else s.kernel.evfd x } }
  else throw (.runtimeError what)

-- false is EAGAIN: the counter is zero
def readEvfd (fd : Int) : Prog cfg Bool := do
  let s ← get
  if s.kernel.evfd fd = 0 then return false
  else do
    set { s with kernel := { s.kernel with
      evfd := fun x => if x = fd then 0 else s.kernel.evfd x } }
    return true

def tryPushWorkerToListener (msg : Str) : Prog cfg Bool := do
  let s ← get
  if cfg.hasRoom s.mgr.qWorkerToListener then do
    set { s with mgr := { s.mgr with qWorkerToListener := s.mgr.qWorkerToListener ++ [msg] } }
    return true
  else return false

def tryPopWorkerToListener : Prog cfg (Option Str) := do
  let s ← get
  match s.mgr.qWorkerToListener with
  | [] => return none
  | msg :: rest => do
    set { s with mgr := { s.mgr with qWorkerToListener := rest } }
    return some msg

def tryPushListenerToWorker (msg : Str) : Prog cfg Bool := do
  let s ← get
  if cfg.hasRoom s.mgr.qListenerToWorker then do
    set { s with mgr := { s.mgr with qListenerToWorker := s.mgr.qListenerToWorker ++ [msg] } }
    return true
  else return false

def tryPopListenerToWorker : Prog cfg (Option Str) := do
  let s ← get
  match s.mgr.qListenerToWorker with
  | [] => return none
  | msg :: rest => do
    set { s with mgr := { s.mgr with qListenerToWorker := rest } }
    return some msg

section Primitives

open Effects

namespace Shared

def pushWorkerToListener (s : Shared cfg) (msg : Str) : Shared cfg :=
  { s with mgr := { s.mgr with qWorkerToListener := s.mgr.qWorkerToListener ++ [msg] } }

def setWorkerToListener (s : Shared cfg) (q : List Str) : Shared cfg :=
  { s with mgr := { s.mgr with qWorkerToListener := q } }

def pushListenerToWorker (s : Shared cfg) (msg : Str) : Shared cfg :=
  { s with mgr := { s.mgr with qListenerToWorker := s.mgr.qListenerToWorker ++ [msg] } }

def setListenerToWorker (s : Shared cfg) (q : List Str) : Shared cfg :=
  { s with mgr := { s.mgr with qListenerToWorker := q } }

def setEvfd (s : Shared cfg) (fd : Int) (n : Nat) : Shared cfg :=
  { s with kernel := { s.kernel with evfd := fun x => if x = fd then n else s.kernel.evfd x } }

@[simp] theorem setEvfd_mgr (s : Shared cfg) (fd : Int) (n : Nat) :
    (s.setEvfd fd n).mgr = s.mgr := rfl

@[simp] theorem setEvfd_self (s : Shared cfg) (fd : Int) (n : Nat) :
    (s.setEvfd fd n).kernel.evfd fd = n := if_pos rfl

theorem setEvfd_of_ne {fd x : Int} (h : x ≠ fd) (s : Shared cfg) (n : Nat) :
    (s.setEvfd fd n).kernel.evfd x = s.kernel.evfd x := if_neg h

@[simp] theorem setEvfd_sv (s : Shared cfg) (fd : Int) (n : Nat) :
    (s.setEvfd fd n).sv = s.sv := rfl

@[simp] theorem setEvfd_hist (s : Shared cfg) (fd : Int) (n : Nat) :
    (s.setEvfd fd n).hist = s.hist := rfl

end Shared

variable {s : Shared cfg}

theorem writeEvfd_run {fd : Int} (h : s.kernel.evfd fd < evfdMax) (what : String) :
    writeEvfd fd what s = .ok () (s.setEvfd fd (s.kernel.evfd fd + 1)) := by
  simp only [writeEvfd, get_bind_run, h, if_true, set_run]
  rfl

theorem writeEvfd_full {fd : Int} (h : ¬ s.kernel.evfd fd < evfdMax) (what : String) :
    writeEvfd fd what s = .error (.runtimeError what) s := by
  simp [writeEvfd, h]

theorem readEvfd_zero {fd : Int} (h : s.kernel.evfd fd = 0) : readEvfd fd s = .ok false s := by
  simp [readEvfd, h]

theorem readEvfd_pos {fd : Int} (h : s.kernel.evfd fd ≠ 0) :
    readEvfd fd s = .ok true (s.setEvfd fd 0) := by
  simp only [readEvfd, get_bind_run, h, if_false, set_bind_run, pure_run]
  rfl

theorem tryPushWorkerToListener_room {msg : Str}
    (h : cfg.hasRoom s.mgr.qWorkerToListener = true) :
    tryPushWorkerToListener msg s = .ok true (s.pushWorkerToListener msg) := by
  simp only [tryPushWorkerToListener, get_bind_run, h, if_true, set_bind_run, pure_run]
  rfl

theorem tryPushWorkerToListener_full {msg : Str}
    (h : cfg.hasRoom s.mgr.qWorkerToListener = false) :
    tryPushWorkerToListener msg s = .ok false s := by
  simp [tryPushWorkerToListener, h]

theorem tryPushListenerToWorker_room {msg : Str}
    (h : cfg.hasRoom s.mgr.qListenerToWorker = true) :
    tryPushListenerToWorker msg s = .ok true (s.pushListenerToWorker msg) := by
  simp only [tryPushListenerToWorker, get_bind_run, h, if_true, set_bind_run, pure_run]
  rfl

theorem tryPushListenerToWorker_full {msg : Str}
    (h : cfg.hasRoom s.mgr.qListenerToWorker = false) :
    tryPushListenerToWorker msg s = .ok false s := by
  simp [tryPushListenerToWorker, h]

theorem tryPopWorkerToListener_nil (h : s.mgr.qWorkerToListener = []) :
    tryPopWorkerToListener s = .ok none s := by
  simp [tryPopWorkerToListener, h]

theorem tryPopWorkerToListener_cons {msg : Str} {rest : List Str}
    (h : s.mgr.qWorkerToListener = msg :: rest) :
    tryPopWorkerToListener s = .ok (some msg) (s.setWorkerToListener rest) := by
  simp only [tryPopWorkerToListener, get_bind_run, h, set_bind_run, pure_run]
  rfl

theorem tryPopListenerToWorker_nil (h : s.mgr.qListenerToWorker = []) :
    tryPopListenerToWorker s = .ok none s := by
  simp [tryPopListenerToWorker, h]

theorem tryPopListenerToWorker_cons {msg : Str} {rest : List Str}
    (h : s.mgr.qListenerToWorker = msg :: rest) :
    tryPopListenerToWorker s = .ok (some msg) (s.setListenerToWorker rest) := by
  simp only [tryPopListenerToWorker, get_bind_run, h, set_bind_run, pure_run]
  rfl

theorem onServer_ok {α : Type} {m : EStateM Exn (Server cfg) α} {a : α} {sv : Server cfg}
    (h : m s.sv = .ok a sv) : onServer m s = .ok a { s with sv := sv } := by
  simp [onServer, h]

theorem onServer_error {α : Type} {m : EStateM Exn (Server cfg) α} {e : Exn} {sv : Server cfg}
    (h : m s.sv = .error e sv) : onServer m s = .error e { s with sv := sv } := by
  simp [onServer, h]

@[simp] theorem liftExcept_ok {α : Type} (a : α) :
    (liftExcept (.ok a) : Prog cfg α) s = .ok a s := rfl

@[simp] theorem liftExcept_error {α : Type} (e : Exn) :
    (liftExcept (.error e) : Prog cfg α) s = .error e s := rfl

end Primitives

-- the scan starts from INT_MAX with index -1, here none: no entry counts that many clients
def minFrom (best : Option (Nat × Nat)) (idx : Nat) : List (Option WorkerEntry) → Option (Nat × Nat)
  | [] => best
  | none :: l => minFrom best (idx + 1) l
  | some w :: l =>
    match best with
    | none => minFrom (some (w.count, idx)) (idx + 1) l
    | some (min, minIdx) =>
      if w.count < min then minFrom (some (w.count, idx)) (idx + 1) l
      else minFrom (some (min, minIdx)) (idx + 1) l

def getMinAndIdx {n : Nat} (arr : Slots WorkerEntry n) : Option (Nat × Nat) :=
  minFrom none 0 arr.entries

def maxFrom (max : Nat) (maxIdx : Int) (idx : Nat) : List (Option WorkerEntry) → Nat × Int
  | [] => (max, maxIdx)
  | none :: l => maxFrom max maxIdx (idx + 1) l
  | some w :: l =>
    if max < w.count then maxFrom w.count idx (idx + 1) l else maxFrom max maxIdx (idx + 1) l

def getMaxAndIdx {n : Nat} (arr : Slots WorkerEntry n) : Nat × Int := maxFrom 0 (-1) 0 arr.entries

-- *worker_threads[i]: meaningless outside the array and on an empty entry
def derefWorker (i : Nat) : Prog cfg WorkerEntry := do
  match (← get).mgr.workerThreads.entries[i]? with
  | some (some w) => return w
  | _ => throw .undefinedBehaviour

def setWorker (i : Nat) (w : Option WorkerEntry) : Prog cfg Unit :=
  modify fun s => { s with mgr := { s.mgr with workerThreads := s.mgr.workerThreads.set i w } }

def incCount (i : Nat) : Prog cfg Unit := do
  let w ← derefWorker i
  setWorker i (some { w with count := w.count + 1 })

def acceptMsg (threadIndex : Nat) (socket id : Int) : ServerMessage where
  threadNumber := Decimal.toString threadIndex
  action := getAction .accept
  fd := Decimal.toString socket
  id := Decimal.toString id

def assignClientToWorker (threadIndex : Nat) (socket id eventFd : Int) : Prog cfg Unit := do
  let pushed ← tryPushListenerToWorker (acceptMsg threadIndex socket id).getConcatenatedMsg
  if !pushed || eventFd < 0 then throw (.queueException "Failed to push new worker to queue")
  else writeEvfd eventFd "Failed to send event_fd"

-- destroying the jthread of a live entry joins it before the listener goes on
def joinOf (old : Option WorkerEntry) : Prog cfg Unit :=
  match old with
  | none => pure ()
  | some w => modify fun s => { s with kernel := { s.kernel with joining := some w.thread } }

def getEvfd (evfd : Int) : Prog cfg Int := do
  if evfd < 0 then throw (.runtimeError "eventfd error\n")
  else do
    modify fun s => { s with kernel := { s.kernel with
      evfd := fun x => if x = evfd then 0 else s.kernel.evfd x } }
    return evfd

-- what is there once the entry is filled; until then, while its old jthread is joined, the entry
-- is empty and the new one belongs to the tuple, which Interleaved.emplaceNewWorker shows
def emplaceNewWorker (socket id : Int) (nrThr : Nat) (listenerEvfd eventfd : Int) :
    Prog cfg Unit := do
  let evfd ← getEvfd eventfd
  let s ← get
  let slot := s.mgr.nrOfLaunchedThreads
  match s.mgr.workerThreads.entries[slot]? with
  | none => throw .undefinedBehaviour
  | some old => do
    modify fun s => { s with kernel := { s.kernel with
      spawned := s.kernel.spawned ++ [⟨socket, id, nrThr, evfd, listenerEvfd⟩] } }
    joinOf old
    setWorker slot (some ⟨0, evfd, s.kernel.spawned.length⟩)
    incCount nrThr
    modify fun s => { s with mgr := { s.mgr with
      nrOfLaunchedThreads := s.mgr.nrOfLaunchedThreads + 1 } }

def assignTo (minIdx : Nat) (socket id : Int) : Prog cfg Unit := do
  incCount minIdx
  let w ← derefWorker minIdx
  assignClientToWorker minIdx socket id w.evfd

def processNewClient (socket id listenerEvfd eventfd : Int) : Prog cfg Unit := do
  let s ← get
  if s.mgr.nrOfLaunchedThreads = 0 then emplaceNewWorker socket id 0 listenerEvfd eventfd
  else match getMinAndIdx s.mgr.workerThreads with
    | none => emplaceNewWorker socket id 0 listenerEvfd eventfd
    | some (min, minIdx) =>
      if min < s.mgr.maxClientsPerThread then assignTo minIdx socket id
      else if s.mgr.nrOfLaunchedThreads = cfg.maxNrOfThreads then do
        modify fun s => { s with mgr := { s.mgr with
          maxClientsPerThread := s.mgr.maxClientsPerThread + 1 } }
        if cfg.maxClientsPerThread < s.mgr.maxClientsPerThread + 1 then
          throw (.serverFullException "Server full, all threads are occupied!\n")
        else assignTo minIdx socket id
      else if cfg.maxNrOfThreads ≤ s.mgr.nrOfLaunchedThreads then
        throw (.serverFullException "Server full, can't launch more new workers!\n")
      else
        emplaceNewWorker socket id s.mgr.nrOfLaunchedThreads listenerEvfd eventfd

def workerAt (i : Int) : Prog cfg (Option WorkerEntry) := do
  if i < 0 then throw .undefinedBehaviour
  else match (← get).mgr.workerThreads.entries[i.toNat]? with
    | none => throw .undefinedBehaviour
    | some w => return w

def workerClientDisconnect (thrPersonalIdx : Int) : Prog cfg Unit := do
  match ← workerAt thrPersonalIdx with
  | none => throw (.threadManagingException "Can't disconnect from a thread that isn't running\n")
  | some w =>
    if w.count = 0 then
      throw (.threadManagingException "Can't disconnect from a thread that has no connections\n")
    else do
      if w.count = 1 then do
        joinOf (some w)
        setWorker thrPersonalIdx.toNat none
        modify fun s => { s with mgr := { s.mgr with
          nrOfLaunchedThreads := s.mgr.nrOfLaunchedThreads - 1 } }
      else setWorker thrPersonalIdx.toNat (some { w with count := w.count - 1 })
      modify fun s => { s with mgr := { s.mgr with
        maxClientsPerThread := (getMaxAndIdx s.mgr.workerThreads).1 } }

end ChatApp
