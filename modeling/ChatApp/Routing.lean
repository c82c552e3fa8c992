import ChatApp.Library.Runs
import ChatApp.LoadBalancer
import ChatApp.Worker

namespace ChatApp

open Effects Runs

variable {cfg : Config}

def acceptText (i : Nat) (fd id : Int) : Str := (acceptMsg i fd id).getConcatenatedMsg

theorem acceptMsg_clean (i : Nat) (fd id : Int) : (acceptMsg i fd id).Clean := by
  intro f hf
  have hi := splitToken_not_mem_toString i
  have hfd := splitToken_not_mem_toString fd
  have hid := splitToken_not_mem_toString id
  have ha := splitToken_not_mem_getAction .accept
  simp only [acceptMsg, ServerMessage.toFields, List.mem_cons, List.not_mem_nil, or_false] at hf
  rcases hf with rfl | rfl | rfl | rfl | rfl | rfl | rfl | rfl
  · exact hi
  · exact ha
  · exact hfd
  · exact hid
  all_goals exact List.not_mem_nil

theorem acceptText_inj {i j : Nat} {fd fd' id id' : Int} :
    acceptText i fd id = acceptText j fd' id' ↔ i = j ∧ fd = fd' ∧ id = id' := by
  constructor
  · intro h
    have hm := ServerMessage.getConcatenatedMsg_injective (acceptMsg_clean i fd id)
      (acceptMsg_clean j fd' id') h
    simp only [acceptMsg, ServerMessage.mk.injEq, Decimal.toString_inj, true_and, and_true] at hm
    exact ⟨by omega, hm.2⟩
  · rintro ⟨rfl, rfl, rfl⟩
    rfl

-- an ACCEPT that carries the number i
def addressed (i : Nat) (msg : Str) : Bool :=
  match ({} : ServerMessage).constructFromString msg with
  | .ok m => m.action = getAction .accept && m.threadNumber = Decimal.toString i
  | .error _ => false

theorem addressed_acceptText (i j : Nat) (fd id : Int) :
    addressed i (acceptText j fd id) = true ↔ j = i := by
  rw [addressed, acceptText,
    ServerMessage.constructFromString_getConcatenatedMsg {} (acceptMsg_clean j fd id)]
  simp only [acceptMsg, Decimal.toString_inj, decide_true, Bool.true_and, decide_eq_true_eq]
  omega

section Reader

variable {s t : Shared cfg} {i p : Nat} {fd id : Int}

theorem workerProcessListenerToWorkerQ_eq (p : Nat) (evfd : Int) (s : Shared cfg) :
    workerProcessListenerToWorkerQ p evfd s =
      if s.kernel.evfd evfd = 0 then .ok {} s
      else match s.mgr.qListenerToWorker with
        | [] => .ok {} (s.setEvfd evfd 0)
        | msg :: rest => processQueued p msg ((s.setEvfd evfd 0).setListenerToWorker rest) := by
  unfold workerProcessListenerToWorkerQ
  split_ifs with h
  · rw [bind_of_ok (readEvfd_zero h)]
    rfl
  · rw [bind_of_ok (readEvfd_pos h)]
    simp only [Bool.not_true, Bool.false_eq_true, if_false]
    cases hq : s.mgr.qListenerToWorker with
    | nil =>
      rw [bind_of_ok (tryPopListenerToWorker_nil (s := s.setEvfd evfd 0) hq)]
      rfl
    | cons msg rest =>
      rw [bind_of_ok (tryPopListenerToWorker_cons (s := s.setEvfd evfd 0) hq)]

theorem processQueued_accept (hfd : Decimal.InRange fd) (hid : Decimal.InRange id) :
    processQueued p (acceptText i fd id) s =
      if i = p then
        if fd < 0 then .error (.runtimeError "Failed to initialize epoll ctl\n") s
        else .ok ⟨Actions.accept.code, fd, id⟩ s
      else .ok {} s := by
  have hdec : ({} : ServerMessage).constructFromString (acceptText i fd id) =
      .ok (acceptMsg i fd id) :=
    ServerMessage.constructFromString_getConcatenatedMsg {} (acceptMsg_clean i fd id)
  have hact : (acceptMsg i fd id).action = getAction .accept := rfl
  have hnum : (acceptMsg i fd id).threadNumber ≠ Decimal.toString p ↔ i ≠ p := by
    simp only [acceptMsg, ne_eq, Decimal.toString_inj]
    omega
  rw [processQueued, hdec, bind_of_ok (liftExcept_ok _)]
  simp only [hact, if_true, takeAccept, hnum]
  by_cases hip : i = p
  · simp only [hip, ne_eq, not_true_eq_false, if_false, if_true]
    have hf : stoi (acceptMsg p fd id).fd = .ok fd := stoi_toString hfd
    have hi : stoi (acceptMsg p fd id).id = .ok id := stoi_toString hid
    rw [hf, hi, bind_of_ok (liftExcept_ok fd), bind_of_ok (liftExcept_ok id)]
    unfold addMonitoredFd
    split_ifs <;> rfl
  · simp [hip]

theorem takeAccept_ok {msg : ServerMessage} {a : QueueAction}
    (h : takeAccept msg p s = .ok a t) : t = s := by
  unfold takeAccept at h
  split_ifs at h with hn
  · cases h
    rfl
  · cases hfd : stoi msg.fd with
    | error e =>
      rw [hfd] at h
      cases h
    | ok fd' =>
      cases hid : stoi msg.id with
      | error e =>
        rw [hfd, hid] at h
        cases h
      | ok id' =>
        rw [hfd, hid, bind_of_ok (liftExcept_ok fd'), bind_of_ok (liftExcept_ok id')] at h
        unfold addMonitoredFd at h
        split_ifs at h
        · cases h
        · cases h
          rfl

-- only what is not an ACCEPT is put back
theorem processQueued_ok {msg : Str} {a : QueueAction}
    (h : processQueued p msg s = .ok a t) :
    t = s ∨ (t = s.pushListenerToWorker msg ∧ ∀ i, addressed i msg = false) := by
  unfold processQueued at h
  cases hm : ({} : ServerMessage).constructFromString msg with
  | error e =>
    rw [hm] at h
    cases h
  | ok m =>
    rw [hm, bind_of_ok (liftExcept_ok m)] at h
    split_ifs at h with ha
    · exact .inl (takeAccept_ok h)
    · refine .inr ⟨?_, fun i => by simp [addressed, hm, ha]⟩
      cases hr : cfg.hasRoom s.mgr.qListenerToWorker with
      | true =>
        rw [bind_of_ok (tryPushListenerToWorker_room hr)] at h
        cases h
        rfl
      | false =>
        rw [bind_of_ok (tryPushListenerToWorker_full hr)] at h
        cases h

end Reader

-- the listener and the workers on the queue they share, with what was pushed and what was
-- returned as an ACCEPT by which worker
structure Routing (cfg : Config) where
  shared : Shared cfg
  pushed : List (Nat × Int × Int) := []
  returned : List (Nat × Int × Int) := []

inductive RoutingCall where
  | assign (i : Nat) (socket id : Int)
  | process (i : Nat)
  deriving DecidableEq, Repr

def Config.unbounded (cfg : Config) : Config := { cfg with queueSize := none }

namespace Routing

def text (a : Nat × Int × Int) : Str := acceptText a.1 a.2.1 a.2.2

def record (i : Nat) (q : QueueAction) : List (Nat × Int × Int) :=
  if q.action = Actions.accept.code then [(i, q.fd, q.id)] else []

-- socket and id are ints
def step (evfd : Nat → Nat) (r : Routing cfg) : RoutingCall → Option (Routing cfg)
  | .assign i socket id =>
    if Decimal.InRange socket ∧ Decimal.InRange id then
      some { r with
        shared := final (assignClientToWorker i socket id (evfd i) r.shared)
        pushed := r.pushed ++ [(i, socket, id)] }
    else none
  | .process i =>
    match workerProcessListenerToWorkerQ i (evfd i) r.shared with
    | .ok q t => some { r with shared := t, returned := r.returned ++ record i q }
    | .error _ t => some { r with shared := t }

def start (s : Shared cfg) : Routing cfg where
  shared := s.setListenerToWorker []

-- every message pushed is queued or was returned by the worker it names, and no other is
def Routed (_ : Routing cfg) (_ : RoutingCall) (t : Routing cfg) : Prop :=
  (t.pushed.map text).Perm (t.shared.mgr.qListenerToWorker ++ t.returned.map text)

-- the worker that reads finds a message of its own in front, with a socket it can watch
def HeadIsReaders (evfd : Nat → Nat) (s : Routing cfg) (c : RoutingCall) (_ : Routing cfg) : Prop :=
  match c with
  | .assign _ _ _ => True
  | .process i => s.shared.kernel.evfd (evfd i) ≠ 0 →
      ∀ msg ∈ s.shared.mgr.qListenerToWorker.head?, ∃ fd id : Int, 0 ≤ fd ∧ msg = acceptText i fd id

section Steps

variable {evfd : Nat → Nat} {s t : Routing cfg}

def PushesKept (s : Routing cfg) : Prop :=
  (s.pushed.map text).Perm (s.shared.mgr.qListenerToWorker ++ s.returned.map text) ∧
    ∀ a ∈ s.pushed, Decimal.InRange a.2.1 ∧ Decimal.InRange a.2.2

theorem assign_pushesKept {i : Nat} {socket id : Int} (hq : cfg.queueSize = none)
    (h : PushesKept s) (ht : step evfd s (.assign i socket id) = some t) : PushesKept t := by
  simp only [step, Option.ite_none_right_eq_some, Option.some.injEq] at ht
  obtain ⟨hr, rfl⟩ := ht
  have hroom : cfg.hasRoom s.shared.mgr.qListenerToWorker = true := by simp [Config.hasRoom, hq]
  have hqueue : (final (assignClientToWorker i socket id (evfd i) s.shared)).mgr.qListenerToWorker =
      s.shared.mgr.qListenerToWorker ++ [acceptText i socket id] := by
    rw [assignClientToWorker_eq, if_pos hroom]
    simp only
    split
    · rfl
    · split <;> rfl
  refine ⟨?_, fun a ha => ?_⟩
  · rw [hqueue]
    simp only [List.map_append, List.map_cons, List.map_nil, List.append_assoc]
    refine (h.1.append_right [acceptText i socket id]).trans ?_
    rw [List.append_assoc]
    exact List.perm_append_comm.append_left _
  · rcases List.mem_append.mp ha with ha | ha
    · exact h.2 a ha
    · obtain rfl := List.mem_singleton.mp ha
      exact hr

theorem process_routed {i : Nat} (h : PushesKept s) (ht : step evfd s (.process i) = some t) :
    Routed s (.process i) t ↔ HeadIsReaders evfd s (.process i) t := by
  simp only [step, workerProcessListenerToWorkerQ_eq] at ht
  by_cases hc : s.shared.kernel.evfd (evfd i) = 0
  · simp only [hc, if_true, Option.some.injEq] at ht
    subst ht
    refine iff_of_true ?_ (fun hne => absurd hc hne)
    simpa [Routed, record, Actions.code] using h.1
  · simp only [hc, if_false] at ht
    cases hq : s.shared.mgr.qListenerToWorker with
    | nil =>
      simp only [hq, Option.some.injEq] at ht
      subst ht
      refine iff_of_true ?_ (by simp [HeadIsReaders, hq])
      simpa [Routed, record, Actions.code] using h.1
    | cons msg rest =>
      have hperm := h.1
      rw [hq] at hperm
      have hmem : msg ∈ s.pushed.map text := hperm.mem_iff.mpr (by simp)
      obtain ⟨⟨j, fd, id⟩, ha, rfl⟩ := List.mem_map.mp hmem
      obtain ⟨hfd, hid⟩ := h.2 _ ha
      have hlost : ¬ (s.pushed.map text).Perm (rest ++ s.returned.map text) := by
        intro hp
        have h1 := hp.length_eq
        have h2 := hperm.length_eq
        simp only [List.length_append, List.length_cons] at h1 h2
        omega
      have hhead : HeadIsReaders evfd s (.process i) t ↔ 0 ≤ fd ∧ j = i := by
        simp only [HeadIsReaders, hq, ne_eq, hc, not_false_eq_true, true_imp_iff, List.head?_cons,
          Option.mem_some_iff, forall_eq', text, acceptText_inj]
        constructor
        · rintro ⟨fd', id', h0, hj, rfl, rfl⟩
          exact ⟨h0, hj⟩
        · rintro ⟨h0, hj⟩
          exact ⟨fd, id, h0, hj, rfl, rfl⟩
      rw [hhead]
      simp only [hq, text, processQueued_accept hfd hid] at ht
      by_cases hj : j = i
      · by_cases h0 : fd < 0
        · simp only [hj, if_true, h0, Option.some.injEq] at ht
          subst ht
          exact iff_of_false hlost (by omega)
        · simp only [hj, if_true, h0, if_false, Option.some.injEq] at ht
          subst ht
          refine iff_of_true ?_ ⟨by omega, hj⟩
          subst hj
          simp only [Routed, record, if_true, Shared.setListenerToWorker, List.map_append,
            List.map_cons, List.map_nil]
          refine hperm.trans ?_
          rw [List.cons_append, ← List.append_assoc]
          exact (List.perm_append_singleton _ _).symm
      · simp only [hj, if_false, Option.some.injEq] at ht
        subst ht
        refine iff_of_false ?_ (fun h => hj h.2)
        simpa [Routed, record, Actions.code, Shared.setListenerToWorker] using hlost

theorem step_routed {c : RoutingCall} (hq : cfg.queueSize = none) (h : PushesKept s)
    (ht : step evfd s c = some t) : Routed s c t ↔ HeadIsReaders evfd s c t := by
  cases c with
  | assign i socket id => exact iff_of_true (assign_pushesKept hq h ht).1 trivial
  | process i => exact process_routed h ht

theorem pushed_process {i : Nat} (ht : step evfd s (.process i) = some t) :
    t.pushed = s.pushed := by
  simp only [step] at ht
  split at ht <;> cases ht <;> rfl

theorem step_pushesKept {c : RoutingCall} (hq : cfg.queueSize = none) (h : PushesKept s)
    (ht : step evfd s c = some t) (hr : Routed s c t) : PushesKept t := by
  cases c with
  | assign i socket id => exact assign_pushesKept hq h ht
  | process i => exact ⟨hr, by rw [pushed_process ht]; exact h.2⟩

end Steps

theorem accepts_routed (cfg : Config) (evfd : Nat → Nat) (s : Shared cfg.unbounded)
    (cs : List RoutingCall) :
    Every (step evfd) Routed (start s) cs ↔
      Every (step evfd) (HeadIsReaders evfd) (start s) cs := by
  have h0 : PushesKept (start s) := by simp [PushesKept, start, Shared.setListenerToWorker]
  constructor
  · refine Every.imp (I := PushesKept) h0 cs fun s c t hI ht hp => ?_
    exact ⟨(step_routed rfl hI ht).mp hp, step_pushesKept rfl hI ht hp⟩
  · refine Every.imp (I := PushesKept) h0 cs fun s c t hI ht hp => ?_
    have hr := (step_routed rfl hI ht).mpr hp
    exact ⟨hr, step_pushesKept rfl hI ht hr⟩

def deployedRouting : Routing Config.deployed.unbounded :=
  start ⟨{}, { svSocket := 3 }, {}, {}⟩

-- two clients are assigned before worker 1 wakes up: it pops the message of worker 0
def wokenOutOfTurn : List RoutingCall := [.assign 0 5 0, .assign 1 7 1, .process 1]

theorem wokenOutOfTurn_discards :
    ¬ Every (step fun i => 10 + i) Routed deployedRouting wokenOutOfTurn := by
  refine not_every_of_run (q := fun t => t.pushed.length ==
    t.shared.mgr.qListenerToWorker.length + t.returned.length) (by decide)
    (fun s c t h => ?_) (by decide)
  have hl : (t.pushed.map text).length = _ := h.length_eq
  simpa using hl

end Routing

end ChatApp
