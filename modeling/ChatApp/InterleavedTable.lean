import ChatApp.InterleavedIds
import ChatApp.InterleavedListener

namespace ChatApp

namespace Interleaved

open Effects Scripts Relation Runs

variable {cfg : Config}

namespace Thread

-- those of the list for which remove_if has pushed no CL_DISCONNECTED
def unsignalled (th : Thread cfg) : List (Int × Int) :=
  match th.phase with
  | .checking _ _ kept client rest _ _ => kept ++ client :: rest
  | .pushing _ _ kept client rest _ _ => kept ++ client :: rest
  | .notifying _ _ kept rest _ _ => kept ++ rest
  | .erasing _ _ kept _ => kept
  | _ => th.clients

end Thread

-- p ends with h in hand
def Leaves {α : Type} (ws h : List (Int × Int)) (Q : α → Prop) (p : Steps cfg α)
    (g : List (Int × Int)) : Prop := Holds Accounted ws (fun g' a => g' = h ∧ Q a) p g

def Sockets (ps : List (Int × Int)) : Prop := ∀ p ∈ ps, 0 ≤ p.1

-- what remove_if pushes for a client
def Farewell (cfg : Config) (client : Int × Int) (m : ServerMessage) : Prop :=
  m.Clean ∧ UpOk cfg m ∧ goneId m = some client.2

-- the clients a worker holds, by where it stands
inductive Hand (l : Launch) : Phase cfg → List (Int × Int) → Prop
  | launched : Hand l .launched [l.client]
  | head {w : WorkerState} (hs : Sockets w.clients) (hm : w.buffers.serverMsg.Clean) :
    Hand l (.head w) w.clients
  | waiting {w : WorkerState} (hs : Sockets w.clients) (hm : w.buffers.serverMsg.Clean) :
    Hand l (.waiting w) w.clients
  | polling {ev : Events} {w : WorkerState} {p : Steps cfg QueueAction} {g : List (Int × Int)}
    (hs : Sockets w.clients) (hm : w.buffers.serverMsg.Clean) (hp : Holds Accounted w.clients Took p g) :
    Hand l (.polling ev w p) (g ++ w.clients)
  | serving {ev : Events} {w : WorkerState} {q : QueueAction} {client : Int × Int}
    {todo g : List (Int × Int)} {p : Steps cfg (Bool × Buffers)}
    (hs : Sockets (taken q ++ w.clients)) (hin : ∀ c ∈ client :: todo, c ∈ w.clients)
    (hp : Leaves w.clients (taken q) (fun r => r.2.serverMsg.Clean) p g) :
    Hand l (.serving ev w q client todo p) (g ++ w.clients)
  | popping {ev : Events} {w : WorkerState} {q : QueueAction} {client : Int × Int}
    {todo g : List (Int × Int)} {b : Buffers} {p : Steps cfg (Option Str)}
    (hs : Sockets (taken q ++ w.clients)) (hin : ∀ c ∈ client :: todo, c ∈ w.clients)
    (hm : b.serverMsg.Clean) (hp : Leaves w.clients (taken q) (fun _ => True) p g) :
    Hand l (.popping ev w q client todo b p) (g ++ w.clients)
  | sending {ev : Events} {w : WorkerState} {q : QueueAction} {client : Int × Int}
    {todo g : List (Int × Int)} {b : Buffers} {p : Steps cfg Unit}
    (hs : Sockets (taken q ++ w.clients)) (hin : ∀ c ∈ client :: todo, c ∈ w.clients)
    (hm : b.serverMsg.Clean) (hp : Leaves w.clients (taken q) (fun _ => True) p g) :
    Hand l (.sending ev w q client todo b p) (g ++ w.clients)
  | checking {w : WorkerState} {q : QueueAction} {kept rest g : List (Int × Int)}
    {client : Int × Int} {b : Buffers} {p : Steps cfg (Option ServerMessage)}
    (hs : Sockets (taken q ++ (kept ++ client :: rest)))
    (hsub : (kept ++ client :: rest).Sublist w.clients) (hm : b.serverMsg.Clean)
    (hp : Leaves (kept ++ client :: rest) (taken q)
      (fun x => ∀ m, x = some m → Farewell cfg client m) p g) :
    Hand l (.checking w q kept client rest b p) (g ++ (kept ++ client :: rest))
  | pushing {w : WorkerState} {q : QueueAction} {kept rest : List (Int × Int)}
    {client : Int × Int} {b : Buffers} {m : ServerMessage}
    (hs : Sockets (taken q ++ (kept ++ client :: rest)))
    (hsub : (kept ++ client :: rest).Sublist w.clients) (hm : b.serverMsg.Clean)
    (hgone : Farewell cfg client m) :
    Hand l (.pushing w q kept client rest b (pushUp m l.listenerEvfd))
      (taken q ++ (kept ++ client :: rest))
  | notifying {w : WorkerState} {q : QueueAction} {kept rest g : List (Int × Int)} {b : Buffers}
    {p : Steps cfg Unit} (hs : Sockets (taken q ++ (kept ++ rest)))
    (hsub : (kept ++ rest).Sublist w.clients) (hm : b.serverMsg.Clean)
    (hp : Leaves (kept ++ rest) (taken q) (fun _ => True) p g) :
    Hand l (.notifying w q kept rest b p) (g ++ (kept ++ rest))
  | erasing {w : WorkerState} {q : QueueAction} {kept : List (Int × Int)} {b : Buffers}
    (hs : Sockets (taken q ++ kept)) (hsub : kept.Sublist w.clients) (hm : b.serverMsg.Clean) :
    Hand l (.erasing w q kept b) (taken q ++ kept)
  | ended {w : WorkerState} : Hand l (.ended w) []

def custody (cfg : Config) : Custody cfg where
  table := Accounted
  hand := Hand
  listener := Ends Accounted []
  fault := Harmless

abbrev Lands (l : Launch) (g : List (Int × Int)) (res : Except Fault (Phase cfg)) : Prop :=
  (custody cfg).Lands l g res

section Landing

variable {l : Launch} {ev : Events} {w : WorkerState} {q : QueueAction} {b : Buffers}
variable {kept rest todo ws g r : List (Int × Int)} {client : Int × Int} {s t : Shared cfg}

theorem Sockets.sublist (h : Sockets ws) (hs : g.Sublist ws) : Sockets g :=
  fun p hp => h p (hs.subset hp)

theorem Sockets.append (hg : Sockets g) (hw : Sockets ws) : Sockets (g ++ ws) :=
  fun p hp => (List.mem_append.mp hp).elim (hg p) (hw p)

theorem Move.whole (h : Move Accounted ws r g s kept t) : Move Accounted [] r [] s (kept ++ ws) t := by
  obtain ⟨new, hspawn, hidx, hacc⟩ := h
  refine ⟨new, hspawn, hidx, ?_⟩
  rwa [List.nil_append, List.append_assoc]

end Landing

section Phases

variable {l : Launch} {ev : Events} {w : WorkerState} {q : QueueAction} {b : Buffers}
variable {kept g : List (Int × Int)}

end Phases

section Unsignalled

variable {l : Launch} {ph : Phase cfg} {g : List (Int × Int)}

theorem Hand.unsignalled (h : Hand l ph g) :
    (⟨l, ph⟩ : Thread cfg).unsignalled.Sublist g ∧
      Sockets (⟨l, ph⟩ : Thread cfg).unsignalled := by
  cases h with
  | launched => exact ⟨List.nil_sublist _, fun _ hp => absurd hp List.not_mem_nil⟩
  | head hs _ => exact ⟨.refl _, hs⟩
  | waiting hs _ => exact ⟨.refl _, hs⟩
  | polling hs _ _ => exact ⟨List.sublist_append_right _ _, hs⟩
  | serving hs _ _ | popping hs _ _ _ | sending hs _ _ _ | checking hs _ _ _ | notifying hs _ _ _ =>
    exact ⟨List.sublist_append_right _ _, hs.sublist (List.sublist_append_right _ _)⟩
  | pushing hs _ _ _ =>
    exact ⟨List.sublist_append_right _ _, hs.sublist (List.sublist_append_right _ _)⟩
  | erasing hs _ _ =>
    exact ⟨List.sublist_append_right _ _, hs.sublist (List.sublist_append_right _ _)⟩
  | ended => exact ⟨.refl _, fun _ hp => absurd hp List.not_mem_nil⟩

end Unsignalled

namespace State

-- all of the lists, without the clients that have been signalled
def unsignalled (s : State cfg) : List (Int × Int) := s.threads.flatMap Thread.unsignalled

section Unsignalled

variable {s : State cfg}

theorem Divided.unsignalled {lg : List (Int × Int)} {ts : List (Thread cfg × List (Int × Int))}
    (h : s.Divided (custody cfg) lg ts) : Accounted s.unsignalled s.shared ∧ Sockets s.unsignalled := by
  have hsub : s.unsignalled.Sublist (ts.flatMap Prod.snd) := by
    rw [State.unsignalled, h.threads]
    have hhands := h.hands
    clear h
    induction ts with
    | nil => exact .refl _
    | cons x ts ih =>
      obtain ⟨hx, hts⟩ := List.forall_mem_cons.mp hhands
      exact (Hand.unsignalled hx).1.append (ih hts)
  refine ⟨h.table.sublist (hsub.trans (List.sublist_append_right _ _)), fun p hp => ?_⟩
  obtain ⟨th, hth, hp⟩ := List.mem_flatMap.mp hp
  rw [h.threads] at hth
  obtain ⟨x, hx, rfl⟩ := List.mem_map.mp hth
  exact (Hand.unsignalled (h.hands x hx)).2 p hp

end Unsignalled

-- one descriptor is readable; what is read there is the end of the connection
def readable (fd : Int) : Events where
  pollIn x := x = fd
  pollOut _ := false
  recv _ := .zero

def accepts (fd : Nat) (eventfd : Int) (operations : Nat) : List Label :=
  [.poll false false true, .stdin none, .accept (connection fd eventfd)] ++
    List.replicate operations .listener

-- worker k looks at its eventfd and takes up the client that waits in the queue
def takesUp (k : Nat) (eventfd : Int) : List Label :=
  [.wait k, .wake k (readable eventfd)] ++ List.replicate 4 (.act k) ++ [.erase k]

-- worker k signals the first of its two clients, which leaves, and comes to the second; the listener
-- takes the CL_DISCONNECTED
def leaves (k : Nat) (fd : Int) (socket : Bool) (operations : Nat) : List Label :=
  [.wait k, .wake k (readable fd)] ++ List.replicate 10 (.act k) ++ [.poll true false socket] ++
    List.replicate operations .listener ++ [.stdin none]

end State

end Interleaved

end ChatApp
