import ChatApp.ServerThreadManager

namespace ChatApp

open Effects

variable {cfg : Config}

section Search

theorem minFrom_none_iff {best : Option (Nat × Nat)} {idx : Nat} {l : List (Option WorkerEntry)} :
    minFrom best idx l = none ↔ best = none ∧ l.reduceOption = [] := by
  induction l generalizing best idx with
  | nil => simp [minFrom]
  | cons x l ih =>
    cases x with
    | none => simpa [minFrom] using ih
    | some w =>
      cases best with
      | none => simp [minFrom, ih]
      | some b =>
        simp only [minFrom]
        split <;> simp [ih]

-- what a pair found so far says about the entries scanned so far
def LeastIn (l : List (Option WorkerEntry)) (b : Nat × Nat) : Prop :=
  (∃ w, l[b.2]? = some (some w) ∧ w.count = b.1) ∧ ∀ w ∈ l.reduceOption, b.1 ≤ w.count

theorem minFrom_least (pre : List (Option WorkerEntry)) {l : List (Option WorkerEntry)}
    {best : Option (Nat × Nat)} {b : Nat × Nat} (hb : ∀ p, best = some p → LeastIn pre p)
    (hn : best = none → pre.reduceOption = []) (h : minFrom best pre.length l = some b) :
    LeastIn (pre ++ l) b := by
  induction l generalizing pre best with
  | nil =>
    rw [List.append_nil]
    exact hb b h
  | cons x l ih =>
    have hlen : (pre ++ [x]).length = pre.length + 1 := by simp
    rw [show pre ++ x :: l = (pre ++ [x]) ++ l by simp]
    cases x with
    | none =>
      have keep {p : Nat × Nat} (hp : LeastIn pre p) : LeastIn (pre ++ [none]) p := by
        obtain ⟨⟨w, hw, hc⟩, hle⟩ := hp
        have hi : p.2 < pre.length := (List.getElem?_eq_some_iff.mp hw).1
        exact ⟨⟨w, by rwa [List.getElem?_append_left hi], hc⟩,
        by simpa [List.reduceOption_append] using hle⟩
      refine ih _ (fun p hp => keep (hb p hp))
        (fun h0 => by simpa [List.reduceOption_append] using hn h0) ?_
      rwa [hlen]
    | some w =>
      have take (hle : ∀ v ∈ pre.reduceOption, w.count ≤ v.count) :
          LeastIn (pre ++ [some w]) (w.count, pre.length) := by
        refine ⟨⟨w, by simp, rfl⟩, fun v hv => ?_⟩
        rw [List.reduceOption_append, List.mem_append] at hv
        rcases hv with hv | hv
        · exact hle v hv
        · obtain rfl : v = w := by simpa using hv
          exact le_refl _
      cases best with
      | none =>
        have h' : minFrom (some (w.count, pre.length)) (pre ++ [some w]).length l = some b := by
          rw [hlen]
          exact h
        refine ih _ ?_ (by simp) h'
        rintro p ⟨⟩
        exact take (by simp [hn rfl])
      | some p =>
        have hp := hb p rfl
        simp only [minFrom] at h
        split at h
        · rename_i hlt
          rw [← hlen] at h
          refine ih _ ?_ (by simp) h
          rintro q ⟨⟩
          exact take fun v hv => by have := hp.2 v hv; omega
        · rename_i hlt
          rw [← hlen] at h
          refine ih _ ?_ (by simp) h
          rintro q ⟨⟩
          obtain ⟨⟨u, hu, hc⟩, hle⟩ := hp
          have hi : p.2 < pre.length := (List.getElem?_eq_some_iff.mp hu).1
          refine ⟨⟨u, by rwa [List.getElem?_append_left hi], hc⟩, fun v hv => ?_⟩
          rw [List.reduceOption_append, List.mem_append] at hv
          rcases hv with hv | hv
          · exact hle v hv
          · obtain rfl : v = w := by simpa using hv
            omega

theorem getMinAndIdx_none_iff {n : Nat} {arr : Slots WorkerEntry n} :
    getMinAndIdx arr = none ↔ arr.values = [] := by
  simp [getMinAndIdx, minFrom_none_iff, Slots.values]

theorem getMinAndIdx_least {n : Nat} {arr : Slots WorkerEntry n} {b : Nat × Nat}
    (h : getMinAndIdx arr = some b) : LeastIn arr.entries b := by
  have := minFrom_least [] (l := arr.entries) (by simp) (by simp) h
  simpa using this

end Search

-- process_new_client decides from its own fields alone
inductive Choice where
  | launch (nrThr : Nat)
  | assign (i : Nat)
  | raise (i : Nat)
  | overLimit
  | allLaunched
  deriving DecidableEq, Repr

def choose (m : ServerThreadManager cfg) : Choice :=
  if m.nrOfLaunchedThreads = 0 then .launch 0
  else match getMinAndIdx m.workerThreads with
    | none => .launch 0
    | some (min, minIdx) =>
      if min < m.maxClientsPerThread then .assign minIdx
      else if m.nrOfLaunchedThreads = cfg.maxNrOfThreads then
        if cfg.maxClientsPerThread < m.maxClientsPerThread + 1 then .overLimit else .raise minIdx
      else if cfg.maxNrOfThreads ≤ m.nrOfLaunchedThreads then .allLaunched
      else .launch m.nrOfLaunchedThreads

-- the entry whose count the new client raises
def slotFor (m : ServerThreadManager cfg) : Option Nat :=
  match choose m with
  | .launch n => some n
  | .assign i => some i
  | .raise i => some i
  | _ => none

def Shared.raiseMax (s : Shared cfg) : Shared cfg :=
  { s with mgr := { s.mgr with maxClientsPerThread := s.mgr.maxClientsPerThread + 1 } }

theorem processNewClient_eq (socket id listenerEvfd eventfd : Int) (s : Shared cfg) :
    processNewClient socket id listenerEvfd eventfd s =
      match choose s.mgr with
      | .launch n => emplaceNewWorker socket id n listenerEvfd eventfd s
      | .assign i => assignTo i socket id s
      | .raise i => assignTo i socket id s.raiseMax
      | .overLimit =>
        .error (.serverFullException "Server full, all threads are occupied!\n") s.raiseMax
      | .allLaunched =>
        .error (.serverFullException "Server full, can't launch more new workers!\n") s := by
  simp only [processNewClient, choose, get_bind_run]
  by_cases h0 : s.mgr.nrOfLaunchedThreads = 0
  · simp only [h0, if_true]
  · simp only [h0, if_false]
    cases getMinAndIdx s.mgr.workerThreads with
    | none => rfl
    | some b =>
      simp only
      split
      · rfl
      · split
        · simp only [modify_bind_run]
          split <;> rfl
        · split <;> rfl

section Effect

variable {s : Shared cfg} {i : Nat} {w : WorkerEntry}

def Shared.setWorkers (s : Shared cfg) (arr : Slots WorkerEntry cfg.maxNrOfThreads) : Shared cfg :=
  { s with mgr := { s.mgr with workerThreads := arr } }

theorem derefWorker_run (h : s.mgr.workerThreads.entries[i]? = some (some w)) :
    derefWorker i s = .ok w s := by simp [derefWorker, h]

theorem incCount_run (h : s.mgr.workerThreads.entries[i]? = some (some w)) :
    incCount i s = .ok () (s.setWorkers
      (s.mgr.workerThreads.set i (some { w with count := w.count + 1 }))) := by
  rw [incCount, bind_of_ok (derefWorker_run h)]
  rfl

def Shared.launch (s : Shared cfg) (socket id : Int) (nrThr : Nat) (listenerEvfd evfd : Int)
    (old : Option WorkerEntry) : Shared cfg where
  mgr := { s.mgr with
    nrOfLaunchedThreads := s.mgr.nrOfLaunchedThreads + 1
    workerThreads := s.mgr.workerThreads.set s.mgr.nrOfLaunchedThreads
      (some ⟨1, evfd, s.kernel.spawned.length⟩) }
  sv := s.sv
  kernel := { s.kernel with
    evfd := fun x => if x = evfd then 0 else s.kernel.evfd x
    spawned := s.kernel.spawned ++ [⟨socket, id, nrThr, evfd, listenerEvfd⟩]
    joining := (old.map WorkerEntry.thread).or s.kernel.joining }
  hist := s.hist

-- when the slot written and the slot counted are the same one
theorem emplaceNewWorker_run {socket id listenerEvfd evfd : Int} {old : Option WorkerEntry}
    (he : 0 ≤ evfd)
    (h : s.mgr.workerThreads.entries[s.mgr.nrOfLaunchedThreads]? = some old) :
    emplaceNewWorker socket id s.mgr.nrOfLaunchedThreads listenerEvfd evfd s =
      .ok () (s.launch socket id s.mgr.nrOfLaunchedThreads listenerEvfd evfd old) := by
  have hlt := Slots.lt_of_get h
  have hneg : ¬ evfd < 0 := by omega
  simp only [emplaceNewWorker, getEvfd, hneg, if_false, bind_run, modify_run, pure_run, get_run, h]
  cases old with
  | none =>
    simp only [joinOf, pure_run, setWorker, modify_run]
    rw [incCount_run (w := ⟨0, evfd, s.kernel.spawned.length⟩) (by simp [Slots.get_set, hlt])]
    simp [Shared.launch, Shared.setWorkers, Slots.set_set]
  | some w =>
    simp only [joinOf, setWorker, modify_run]
    rw [incCount_run (w := ⟨0, evfd, s.kernel.spawned.length⟩) (by simp [Slots.get_set, hlt])]
    simp [Shared.launch, Shared.setWorkers, Slots.set_set]

theorem emplaceNewWorker_eventfd {socket id listenerEvfd evfd : Int} {n : Nat} (he : evfd < 0) :
    emplaceNewWorker socket id n listenerEvfd evfd s =
      .error (.runtimeError "eventfd error\n") s := by
  simp [emplaceNewWorker, getEvfd, he, bind_run]

def Shared.assign (s : Shared cfg) (i : Nat) (w : WorkerEntry) (socket id : Int) : Shared cfg where
  mgr := { s.mgr with
    workerThreads := s.mgr.workerThreads.set i (some { w with count := w.count + 1 })
    qListenerToWorker := s.mgr.qListenerToWorker ++ [(acceptMsg i socket id).getConcatenatedMsg] }
  sv := s.sv
  kernel := { s.kernel with
    evfd := fun x => if x = w.evfd then s.kernel.evfd w.evfd + 1 else s.kernel.evfd x }
  hist := s.hist

theorem assignTo_eq (h : s.mgr.workerThreads.entries[i]? = some (some w)) (socket id : Int) :
    assignTo i socket id s =
      assignClientToWorker i socket id w.evfd (s.setWorkers
        (s.mgr.workerThreads.set i (some { w with count := w.count + 1 }))) := by
  have hlt := Slots.lt_of_get h
  rw [assignTo, bind_of_ok (incCount_run h), bind_of_ok (derefWorker_run
    (w := { w with count := w.count + 1 }) (by simp [Shared.setWorkers, Slots.get_set, hlt]))]

-- the push may fail, the descriptor may be bad, the eventfd may be full: in this order
theorem assignClientToWorker_eq (socket id evfd : Int) :
    assignClientToWorker i socket id evfd s =
      if cfg.hasRoom s.mgr.qListenerToWorker then
        let t := s.pushListenerToWorker (acceptMsg i socket id).getConcatenatedMsg
        if evfd < 0 then .error (.queueException "Failed to push new worker to queue") t
        else if s.kernel.evfd evfd < evfdMax then .ok () (t.setEvfd evfd (s.kernel.evfd evfd + 1))
        else .error (.runtimeError "Failed to send event_fd") t
      else .error (.queueException "Failed to push new worker to queue") s := by
  rw [assignClientToWorker]
  by_cases hr : cfg.hasRoom s.mgr.qListenerToWorker = true
  · rw [bind_of_ok (tryPushListenerToWorker_room hr), if_pos hr]
    by_cases he : evfd < 0
    · simp [he]
    · by_cases hc : s.kernel.evfd evfd < evfdMax
      · simp only [Bool.not_true, he, decide_false, Bool.or_false, Bool.false_eq_true, if_false,
          if_pos hc]
        exact writeEvfd_run (s := s.pushListenerToWorker _) hc _
      · simp only [Bool.not_true, he, decide_false, Bool.or_false, Bool.false_eq_true, if_false,
          if_neg hc]
        exact writeEvfd_full (s := s.pushListenerToWorker _) hc _
  · rw [bind_of_ok (tryPushListenerToWorker_full (by simpa using hr)), if_neg hr]
    simp

theorem assignTo_ok {t : Shared cfg} {socket id : Int}
    (h : s.mgr.workerThreads.entries[i]? = some (some w)) (ht : assignTo i socket id s = .ok () t) :
    t = s.assign i w socket id ∧ 0 ≤ w.evfd := by
  rw [assignTo_eq h, assignClientToWorker_eq] at ht
  split at ht
  · simp only at ht
    split at ht
    · cases ht
    · split at ht
      · cases ht
        exact ⟨rfl, by omega⟩
      · cases ht
  · cases ht

theorem assignTo_of_room {socket id : Int} (h : s.mgr.workerThreads.entries[i]? = some (some w))
    (hr : cfg.hasRoom s.mgr.qListenerToWorker = true) (he : 0 ≤ w.evfd)
    (hc : s.kernel.evfd w.evfd < evfdMax) :
    assignTo i socket id s = .ok () (s.assign i w socket id) := by
  have hn : ¬ w.evfd < 0 := by omega
  rw [assignTo_eq h, assignClientToWorker_eq]
  simp only [Shared.setWorkers, hr, if_true, hn, if_false, hc]
  rfl

-- whatever becomes of the push and of the eventfd, the client has been counted
theorem assignTo_final (h : s.mgr.workerThreads.entries[i]? = some (some w)) (socket id : Int) :
    ∃ q, (final (assignTo i socket id s)).mgr =
      { s.mgr with
        workerThreads := s.mgr.workerThreads.set i (some { w with count := w.count + 1 })
        qListenerToWorker := q } := by
  rw [assignTo_eq h, assignClientToWorker_eq]
  split
  · simp only
    split
    · exact ⟨_, rfl⟩
    · split <;> exact ⟨_, rfl⟩
  · exact ⟨_, rfl⟩

def Shared.release (s : Shared cfg) (i : Nat) (w : WorkerEntry) : Shared cfg :=
  let arr := s.mgr.workerThreads.set i
    (if w.count = 1 then none else some { w with count := w.count - 1 })
  { s with
    mgr := { s.mgr with
      workerThreads := arr
      nrOfLaunchedThreads :=
        if w.count = 1 then s.mgr.nrOfLaunchedThreads - 1 else s.mgr.nrOfLaunchedThreads
      maxClientsPerThread := (getMaxAndIdx arr).1 }
    kernel := { s.kernel with
      joining := if w.count = 1 then some w.thread else s.kernel.joining } }

theorem workerAt_run {x : Option WorkerEntry} (h : s.mgr.workerThreads.entries[i]? = some x) :
    workerAt (i : Int) s = .ok x s := by
  have hn : ¬ (i : Int) < 0 := by omega
  simp only [workerAt, hn, if_false, get_bind_run, Int.toNat_natCast, h, pure_run]

theorem workerClientDisconnect_run (h : s.mgr.workerThreads.entries[i]? = some (some w))
    (hc : 0 < w.count) : workerClientDisconnect i s = .ok () (s.release i w) := by
  rw [workerClientDisconnect, bind_of_ok (workerAt_run h)]
  have h0 : w.count ≠ 0 := by omega
  by_cases h1 : w.count = 1
  · simp only [h1, Nat.one_ne_zero, if_false, if_true, joinOf, Int.toNat_natCast, setWorker,
      bind_run, modify_run, Shared.release]
  · simp only [h0, h1, if_false, Int.toNat_natCast, setWorker, bind_run, modify_run,
      Shared.release]

theorem workerClientDisconnect_empty (h : s.mgr.workerThreads.entries[i]? = some none) :
    workerClientDisconnect i s = .error
      (.threadManagingException "Can't disconnect from a thread that isn't running\n") s := by
  rw [workerClientDisconnect, bind_of_ok (workerAt_run h)]
  rfl

end Effect

end ChatApp
