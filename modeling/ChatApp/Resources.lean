import ChatApp.Library.Decimal

namespace ChatApp

abbrev Str := List Char

inductive Actions where
  | accept
  | accepted
  | initReq
  | initDone
  | unicastRepeated
  | svDisconnected
  | thrDisconnected
  | clDisconnected
  deriving DecidableEq, Repr

def Actions.code : Actions → Int
  | .accept => 0
  | .accepted => 1
  | .initReq => 2
  | .initDone => 3
  | .unicastRepeated => 4
  | .svDisconnected => 5
  | .thrDisconnected => 6
  | .clDisconnected => 7

def getAction : Actions → Str
  | .accept => "ACCEPT".toList
  | .accepted => "ACCEPTED".toList
  | .initReq => "INIT_REQ".toList
  | .initDone => "INIT_DONE".toList
  | .unicastRepeated => "UNICAST_REPEATED".toList
  | .svDisconnected => "SV_DISCONNECTED".toList
  | .thrDisconnected => "THR_DISCONNECTED".toList
  | .clDisconnected => "CL_DISCONNECTED".toList

theorem getAction_injective : Function.Injective getAction := by
  intro a b
  cases a <;> cases b <;> decide

@[simp] theorem getAction_inj {a b : Actions} : getAction a = getAction b ↔ a = b :=
  getAction_injective.eq_iff

def serverName : Str := "SERVER".toList

def quitMsg : Str := "#quit".toList

def maxLen : Nat := 512

def disconnectState : Int := -1

def initialState : Int := 0

def requestedInit : Int := 1

def sentInitConfirmation : Int := 2

def initDone : Int := 3

inductive Exn where
  | runtimeError (what : String)
  | queueException (what : String)
  | serverFullException (what : String)
  | clientConnectionException (what : String)
  | threadManagingException (what : String)
  | invalidArgument (what : String)
  | outOfRange (what : String)
  -- no exception: the code reads or writes where the language gives it no meaning
  | undefinedBehaviour
  deriving DecidableEq, Repr

structure Config where
  maxNrOfThreads : Nat
  maxClientsPerThread : Nat
  -- none stands for a queue that never overflows
  queueSize : Option Nat
  threads_pos : 1 ≤ maxNrOfThreads
  clients_pos : 1 ≤ maxClientsPerThread

namespace Config

def maxClients (cfg : Config) : Nat := cfg.maxNrOfThreads * cfg.maxClientsPerThread

def hasRoom (cfg : Config) (q : List Str) : Bool :=
  match cfg.queueSize with
  | none => true
  | some n => q.length < n

-- the values the repository is compiled with
def deployed : Config := ⟨2, 3, some 128, by decide, by decide⟩

end Config

def stoi (s : Str) : Except Exn Int :=
  match Decimal.stoi s with
  | .ok n => .ok n
  | .error .invalidArgument => .error (.invalidArgument "stoi")
  | .error .outOfRange => .error (.outOfRange "stoi")

theorem stoi_toString {n : Int} (h : Decimal.InRange n) : stoi (Decimal.toString n) = .ok n := by
  simp [stoi, Decimal.stoi_toString h]

theorem eq_of_stoi_toString {m n : Int} (h : stoi (Decimal.toString n) = .ok m) : m = n := by
  rw [stoi, Decimal.stoi_toString_eq] at h
  by_cases hr : Decimal.InRange n
  · rw [if_pos hr] at h
    exact (Except.ok.inj h).symm
  · rw [if_neg hr] at h
    cases h

end ChatApp
