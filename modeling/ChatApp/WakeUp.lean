import ChatApp.ListenerFrames
import ChatApp.Routing

namespace ChatApp

open Effects Runs

variable {cfg : Config}

inductive WakePc where
  | idle
  -- between try_push and the write to the listener's eventfd
  | pushed
  -- between the read of its own eventfd and try_pop
  | read
  | ended
  deriving DecidableEq, Repr

structure WakeThread where
  index : Nat
  evfd : Nat
  pc : WakePc := .idle
  deriving DecidableEq, Repr

inductive WakeListener where
  | idle
  -- between try_push and the write to this worker's eventfd
  | pushed (evfd : Nat)
  | read
  deriving DecidableEq, Repr

structure Wakeups (cfg : Config) where
  shared : Shared cfg
  workers : List WakeThread := []
  -- the eventfd kept in each entry of worker_threads
  slot : Nat → Option Nat := fun _ => none
  listener : WakeListener := .idle

inductive WakeLabel where
  | launch (i evfd : Nat)
  | leave (t : Nat)
  | push (t : Nat) (msg : Str)
  | notify (t : Nat)
  | read (t : Nat)
  | pop (t : Nat)
  | assign (i : Nat) (socket id : Int)
  | notifyWorker
  | readListener
  | popListener
  | quit
  deriving DecidableEq, Repr

namespace Wakeups

def used (listenerEvfd : Nat) (s : Wakeups cfg) : List Nat :=
  listenerEvfd :: s.workers.map WakeThread.evfd

def setPc (s : Wakeups cfg) (t : Nat) (pc : WakePc) : Wakeups cfg :=
  { s with workers := s.workers.modify t fun w => { w with pc := pc } }

def withListener (s : Wakeups cfg) (l : WakeListener) : Wakeups cfg := { s with listener := l }

-- a primitive that throws ends its thread, so that this interleaving goes no further
def advance {α : Type} (s : Wakeups cfg) (m : Prog cfg α)
    (next : α → Wakeups cfg → Wakeups cfg) : Option (Wakeups cfg) :=
  match m s.shared with
  | .ok a sh => some (next a { s with shared := sh })
  | .error _ _ => none

def onWorker (s : Wakeups cfg) (t : Nat) (pc : WakePc)
    (f : WakeThread → Option (Wakeups cfg)) : Option (Wakeups cfg) :=
  match s.workers[t]? with
  | some w => if w.pc = pc then f w else none
  | none => none

def pushUp (msg : Str) : Prog cfg Unit := do
  if !(← tryPushWorkerToListener msg) then
    throw (.queueException "Failed to push disconnect client msg to Queue!\n")

def pushDown (msg : Str) : Prog cfg Unit := do
  if !(← tryPushListenerToWorker msg) then
    throw (.queueException "Failed to push new worker to queue")

def popDown (index : Nat) : Prog cfg QueueAction := do
  match ← tryPopListenerToWorker with
  | none => return {}
  | some msg => processQueued index msg

def step (listenerEvfd : Nat) (s : Wakeups cfg) : WakeLabel → Option (Wakeups cfg)
  | .launch i e =>
    if s.listener = .idle ∧ e ∉ s.used listenerEvfd then
      some { s with
        shared := s.shared.setEvfd e 0
        workers := s.workers ++ [⟨i, e, .idle⟩]
        slot := fun x => if x = i then some e else s.slot x }
    else none
  | .leave t => s.onWorker t .idle fun _ => some (s.setPc t .ended)
  | .push t msg =>
    s.onWorker t .idle fun _ => s.advance (pushUp msg) fun _ s => s.setPc t .pushed
  | .notify t =>
    s.onWorker t .pushed fun _ =>
      s.advance (writeEvfd listenerEvfd "Failed to send to listener eventfd\n")
        fun _ s => s.setPc t .idle
  | .read t =>
    s.onWorker t .idle fun w =>
      s.advance (readEvfd w.evfd) fun woken s => if woken then s.setPc t .read else s
  | .pop t =>
    s.onWorker t .read fun w => s.advance (popDown w.index) fun _ s => s.setPc t .idle
  | .assign i socket id =>
    if s.listener = .idle then
      (s.slot i).bind fun e =>
        s.advance (pushDown (acceptText i socket id)) fun _ s => s.withListener (.pushed e)
    else none
  | .notifyWorker =>
    match s.listener with
    | .pushed e =>
      s.advance (writeEvfd e "Failed to send event_fd") fun _ s => s.withListener .idle
    | _ => none
  | .readListener =>
    if s.listener = .idle then
      s.advance (readEvfd listenerEvfd) fun woken s => if woken then s.withListener .read else s
    else none
  | .popListener =>
    if s.listener = .read then
      s.advance tryPopWorkerToListener fun _ s => s.withListener .idle
    else none
  | .quit =>
    if s.listener = .idle then
      s.advance (tryPushWorkerToListener svDisconnectedMsg.getConcatenatedMsg) fun _ s => s
    else none

-- no thread is between a push and its write or between a read and its pop
def Settled (s : Wakeups cfg) : Prop :=
  s.listener = .idle ∧ ∀ w ∈ s.workers, w.pc ≠ .pushed ∧ w.pc ≠ .read

def NothingLost (listenerEvfd : Nat) (s : Wakeups cfg) : Prop :=
  s.Settled →
    (s.shared.kernel.evfd listenerEvfd = 0 → s.shared.mgr.qWorkerToListener = []) ∧
    ∀ w ∈ s.workers, w.pc ≠ .ended → s.shared.kernel.evfd w.evfd = 0 →
      ∀ msg ∈ s.shared.mgr.qListenerToWorker, addressed w.index msg = false

-- a message somebody waits for has a notification that is counted, on its way or being served
def Covered (q : List Str) (mine : Str → Bool) (count : Nat) (writing reading : Prop) : Prop :=
  (∃ msg ∈ q, mine msg = true) → count ≠ 0 ∨ writing ∨ reading

def Pushing (s : Wakeups cfg) : Prop := ∃ w ∈ s.workers, w.pc = .pushed

def NothingLeftBehind (listenerEvfd : Nat) (s : Wakeups cfg) : WakeLabel → Prop
  | .popListener =>
    s.shared.mgr.qWorkerToListener.length ≤ 1 ∨ s.shared.kernel.evfd listenerEvfd ≠ 0 ∨ s.Pushing
  | .pop t => ∀ w, s.workers[t]? = some w →
    (∀ msg ∈ s.shared.mgr.qListenerToWorker.tail, addressed w.index msg = false) ∨
      s.shared.kernel.evfd w.evfd ≠ 0 ∨ s.listener = .pushed w.evfd
  | .launch i _ =>
    (∀ w ∈ s.workers, w.index = i → w.pc = .ended) ∧
      ∀ msg ∈ s.shared.mgr.qListenerToWorker, addressed i msg = false
  | .quit =>
    cfg.hasRoom s.shared.mgr.qWorkerToListener = false ∨
      s.shared.kernel.evfd listenerEvfd ≠ 0 ∨ s.Pushing
  | _ => True

structure Notified (listenerEvfd : Nat) (s : Wakeups cfg) : Prop where
  distinct : (s.used listenerEvfd).Nodup
  slots : ∀ w ∈ s.workers, w.pc ≠ .ended → s.slot w.index = some w.evfd
  up : Covered s.shared.mgr.qWorkerToListener (fun _ => true) (s.shared.kernel.evfd listenerEvfd)
    s.Pushing (s.listener = .read)
  down : ∀ w ∈ s.workers, w.pc ≠ .ended →
    Covered s.shared.mgr.qListenerToWorker (addressed w.index) (s.shared.kernel.evfd w.evfd)
      (s.listener = .pushed w.evfd) (w.pc = .read)

section Cover

variable {q : List Str} {mine : Str → Bool} {n : Nat} {writing reading : Prop}

theorem Covered.of_count (h : n ≠ 0) : Covered q mine n writing reading := fun _ => .inl h

theorem Covered.of_writing (h : writing) : Covered q mine n writing reading :=
  fun _ => .inr (.inl h)

theorem Covered.of_reading (h : reading) : Covered q mine n writing reading :=
  fun _ => .inr (.inr h)

theorem Covered.of_none (h : ∀ msg ∈ q, mine msg = false) : Covered q mine n writing reading := by
  rintro ⟨msg, hm, ht⟩
  rw [h msg hm] at ht
  cases ht

theorem Covered.mono {q' : List Str} {n' : Nat} {writing' reading' : Prop}
    (h : Covered q mine n writing reading) (hq : ∀ msg ∈ q', mine msg = true → msg ∈ q)
    (hn : n ≠ 0 → n' ≠ 0) (hw : writing → writing') (hr : reading → reading') :
    Covered q' mine n' writing' reading' := by
  rintro ⟨msg, hm, ht⟩
  rcases h ⟨msg, hq msg hm ht, ht⟩ with h | h | h
  · exact .inl (hn h)
  · exact .inr (.inl (hw h))
  · exact .inr (.inr (hr h))

end Cover

section Lookup

variable {s t : Wakeups cfg} {k : Nat} {w v : WakeThread} {pc : WakePc}

theorem onWorker_some {f : WakeThread → Option (Wakeups cfg)} (h : s.onWorker k pc f = some t) :
    ∃ w, s.workers[k]? = some w ∧ w.pc = pc ∧ f w = some t := by
  unfold onWorker at h
  split at h
  · rename_i w hw
    split_ifs at h with hpc
    exact ⟨w, hw, hpc, h⟩
  · cases h

theorem advance_some {α : Type} {m : Prog cfg α} {next : α → Wakeups cfg → Wakeups cfg}
    (h : s.advance m next = some t) :
    ∃ a sh, m s.shared = .ok a sh ∧ t = next a { s with shared := sh } := by
  unfold advance at h
  split at h
  · rename_i a sh hm
    exact ⟨a, sh, hm, (Option.some.inj h).symm⟩
  · cases h

theorem mem_setPc (h : v ∈ (s.setPc k pc).workers) :
    (∃ w, s.workers[k]? = some w ∧ v = { w with pc := pc }) ∨
      ∃ j, j ≠ k ∧ s.workers[j]? = some v := by
  obtain ⟨j, hj⟩ := List.mem_iff_getElem?.mp h
  simp only [setPc, List.getElem?_modify] at hj
  split at hj
  · rename_i hk
    subst hk
    obtain ⟨w, hw, rfl⟩ := Option.map_eq_some_iff.mp hj
    exact .inl ⟨w, hw, rfl⟩
  · rename_i hk
    exact .inr ⟨j, fun h => hk h.symm, by simpa using hj⟩

theorem mem_setPc_self (h : s.workers[k]? = some w) :
    { w with pc := pc } ∈ (s.setPc k pc).workers :=
  List.mem_iff_getElem?.mpr ⟨k, by simp [setPc, h]⟩

theorem mem_setPc_other {j : Nat} (hj : j ≠ k) (h : s.workers[j]? = some v) :
    v ∈ (s.setPc k pc).workers :=
  List.mem_iff_getElem?.mpr ⟨j, by simp [setPc, h, hj.symm]⟩

theorem used_setPc (L k : Nat) (pc : WakePc) (s : Wakeups cfg) :
    (s.setPc k pc).used L = s.used L := by
  have : (s.setPc k pc).workers.map WakeThread.evfd = s.workers.map WakeThread.evfd := by
    apply List.ext_getElem?
    intro j
    simp only [setPc, List.getElem?_map, List.getElem?_modify]
    by_cases hj : k = j
    · simp only [hj, if_true, Option.map_eq_map, Option.map_map]
      rfl
    · simp [hj]
  rw [used, this, used]

theorem pushing_of_not_pushed (h : s.workers[k]? = some w) (hw : w.pc ≠ .pushed)
    (hp : s.Pushing) : (s.setPc k pc).Pushing := by
  obtain ⟨v, hv, hvp⟩ := hp
  obtain ⟨j, hj⟩ := List.mem_iff_getElem?.mp hv
  refine ⟨v, mem_setPc_other (fun e => hw ?_) hj, hvp⟩
  subst e
  rw [h] at hj
  cases hj
  exact hvp

variable {L : Nat}

theorem evfd_ne_listener (h : (s.used L).Nodup) (hw : w ∈ s.workers) : w.evfd ≠ L := by
  intro e
  have := (List.nodup_cons.mp h).1
  exact this (List.mem_map.mpr ⟨w, hw, e⟩)

theorem evfd_inj {j : Nat} (h : (s.used L).Nodup) (hj : s.workers[j]? = some v)
    (hk : s.workers[k]? = some w) (he : v.evfd = w.evfd) : j = k := by
  have hlt : j < (s.workers.map WakeThread.evfd).length := by
    rw [List.length_map]
    exact (List.getElem?_eq_some_iff.mp hj).1
  exact (List.getElem?_inj hlt (List.nodup_cons.mp h).2).mp (by simp [hj, hk, he])

end Lookup

section Primitives

variable {s t : Shared cfg}

theorem pushUp_ok {msg : Str} {a : Unit} (h : pushUp msg s = .ok a t) :
    t = s.pushWorkerToListener msg := by
  unfold pushUp at h
  cases hr : cfg.hasRoom s.mgr.qWorkerToListener with
  | true =>
    rw [bind_of_ok (tryPushWorkerToListener_room hr)] at h
    cases h
    rfl
  | false =>
    rw [bind_of_ok (tryPushWorkerToListener_full hr)] at h
    cases h

theorem pushDown_ok {msg : Str} {a : Unit} (h : pushDown msg s = .ok a t) :
    t = s.pushListenerToWorker msg := by
  unfold pushDown at h
  cases hr : cfg.hasRoom s.mgr.qListenerToWorker with
  | true =>
    rw [bind_of_ok (tryPushListenerToWorker_room hr)] at h
    cases h
    rfl
  | false =>
    rw [bind_of_ok (tryPushListenerToWorker_full hr)] at h
    cases h

theorem writeEvfd_ok {fd : Int} {what : String} {a : Unit} (h : writeEvfd fd what s = .ok a t) :
    t = s.setEvfd fd (s.kernel.evfd fd + 1) := by
  by_cases hlt : s.kernel.evfd fd < evfdMax
  · rw [writeEvfd_run hlt] at h
    cases h
    rfl
  · rw [writeEvfd_full hlt] at h
    cases h

theorem readEvfd_ok {fd : Int} {a : Bool} (h : readEvfd fd s = .ok a t) :
    (s.kernel.evfd fd = 0 ∧ a = false ∧ t = s) ∨ (a = true ∧ t = s.setEvfd fd 0) := by
  by_cases h0 : s.kernel.evfd fd = 0
  · rw [readEvfd_zero h0] at h
    cases h
    exact .inl ⟨h0, rfl, rfl⟩
  · rw [readEvfd_pos h0] at h
    cases h
    exact .inr ⟨rfl, rfl⟩

theorem popDown_ok {p : Nat} {a : QueueAction} (h : popDown p s = .ok a t) :
    t.kernel = s.kernel ∧ t.mgr.qWorkerToListener = s.mgr.qWorkerToListener ∧
      ∀ i, ∀ msg ∈ t.mgr.qListenerToWorker, addressed i msg = true →
        msg ∈ s.mgr.qListenerToWorker.tail := by
  unfold popDown at h
  cases hq : s.mgr.qListenerToWorker with
  | nil =>
    rw [bind_of_ok (tryPopListenerToWorker_nil hq)] at h
    cases h
    exact ⟨rfl, rfl, fun i msg hm => by simp [hq] at hm⟩
  | cons x rest =>
    rw [bind_of_ok (tryPopListenerToWorker_cons hq)] at h
    rcases processQueued_ok h with rfl | ⟨rfl, hx⟩
    · exact ⟨rfl, rfl, fun i msg hm _ => hm⟩
    · refine ⟨rfl, rfl, fun i msg hm ha => ?_⟩
      rcases List.mem_append.mp hm with hm | hm
      · exact hm
      · rw [List.mem_singleton.mp hm, hx i] at ha
        cases ha

theorem tryPopWorkerToListener_ok {a : Option Str} (h : tryPopWorkerToListener s = .ok a t) :
    t = s.setWorkerToListener s.mgr.qWorkerToListener.tail := by
  cases hq : s.mgr.qWorkerToListener with
  | nil =>
    rw [tryPopWorkerToListener_nil hq] at h
    cases h
    rw [Shared.setWorkerToListener, List.tail_nil, ← hq]
  | cons x rest =>
    rw [tryPopWorkerToListener_cons hq] at h
    cases h
    rfl

theorem tryPushWorkerToListener_ok {msg : Str} {a : Bool}
    (h : tryPushWorkerToListener msg s = .ok a t) :
    (cfg.hasRoom s.mgr.qWorkerToListener = false ∧ t = s) ∨
      (cfg.hasRoom s.mgr.qWorkerToListener = true ∧ t = s.pushWorkerToListener msg) := by
  cases hr : cfg.hasRoom s.mgr.qWorkerToListener with
  | true =>
    rw [tryPushWorkerToListener_room hr] at h
    cases h
    exact .inr ⟨rfl, rfl⟩
  | false =>
    rw [tryPushWorkerToListener_full hr] at h
    cases h
    exact .inl ⟨rfl, rfl⟩

end Primitives

section Steps

variable {L : Nat} {s t : Wakeups cfg} {sh : Shared cfg} {k : Nat} {w : WakeThread} {pc : WakePc}

theorem setEvfd_nat {x e : Nat} (h : x ≠ e) (sh : Shared cfg) (n : Nat) :
    (sh.setEvfd e n).kernel.evfd x = sh.kernel.evfd x :=
  Shared.setEvfd_of_ne (by omega) sh n

theorem notified_setPc (h : Notified L s) (hw : s.workers[k]? = some w) (hrun : w.pc ≠ .ended)
    (hup : Covered sh.mgr.qWorkerToListener (fun _ => true) (sh.kernel.evfd L)
      (s.setPc k pc).Pushing (s.listener = .read))
    (hself : pc ≠ .ended → Covered sh.mgr.qListenerToWorker (addressed w.index)
      (sh.kernel.evfd w.evfd) (s.listener = .pushed w.evfd) (pc = .read))
    (hother : ∀ j v, j ≠ k → s.workers[j]? = some v → v.pc ≠ .ended →
      Covered sh.mgr.qListenerToWorker (addressed v.index) (sh.kernel.evfd v.evfd)
        (s.listener = .pushed v.evfd) (v.pc = .read)) :
    Notified L ({ s with shared := sh }.setPc k pc) where
  distinct := by
    rw [used_setPc]
    exact h.distinct
  slots := by
    intro v hv hvp
    rcases mem_setPc hv with ⟨w', hw', rfl⟩ | ⟨j, hj, hv⟩
    · rw [hw] at hw'
      cases hw'
      exact h.slots w (List.mem_of_getElem? hw) hrun
    · exact h.slots v (List.mem_of_getElem? hv) hvp
  up := hup
  down := by
    intro v hv hvp
    rcases mem_setPc hv with ⟨w', hw', rfl⟩ | ⟨j, hj, hv⟩
    · rw [hw] at hw'
      cases hw'
      exact hself hvp
    · exact hother j v hj hv hvp

theorem notified_listener {l : WakeListener} (h : Notified L s)
    (hup : Covered sh.mgr.qWorkerToListener (fun _ => true) (sh.kernel.evfd L) s.Pushing
      (l = .read))
    (hdown : ∀ w ∈ s.workers, w.pc ≠ .ended →
      Covered sh.mgr.qListenerToWorker (addressed w.index) (sh.kernel.evfd w.evfd)
        (l = .pushed w.evfd) (w.pc = .read)) :
    Notified L ({ s with shared := sh }.withListener l) :=
  ⟨h.distinct, h.slots, hup, hdown⟩

theorem launch_notified {i e : Nat} (h : Notified L s)
    (hc : NothingLeftBehind L s (.launch i e)) (ht : step L s (.launch i e) = some t) :
    Notified L t := by
  simp only [step, Option.ite_none_right_eq_some, Option.some.injEq] at ht
  obtain ⟨⟨hl, he⟩, rfl⟩ := ht
  have hne {v : WakeThread} (hv : v ∈ s.workers) : v.evfd ≠ e := by
    rintro rfl
    exact he (List.mem_cons_of_mem _ (List.mem_map.mpr ⟨v, hv, rfl⟩))
  have heL : L ≠ e := by
    rintro rfl
    exact he List.mem_cons_self
  constructor
  · have hd := h.distinct
    simp only [used, List.map_append, List.map_cons, List.map_nil] at hd he ⊢
    rw [← List.cons_append, List.nodup_append]
    refine ⟨hd, by simp, fun a ha b hb hab => he ?_⟩
    rw [← List.mem_singleton.mp hb, ← hab]
    exact ha
  · intro v hv hvp
    rcases List.mem_append.mp hv with hv | hv
    · have hvi : v.index ≠ i := fun e => hvp (hc.1 v hv e)
      simpa [hvi] using h.slots v hv hvp
    · rw [List.mem_singleton.mp hv]
      simp
  · refine h.up.mono (fun _ hm _ => hm) ?_ ?_ id
    · rw [setEvfd_nat heL]
      exact id
    · rintro ⟨v, hv, hvp⟩
      exact ⟨v, List.mem_append_left _ hv, hvp⟩
  · intro v hv hvp
    rcases List.mem_append.mp hv with hv | hv
    · have hd := h.down v hv hvp
      rwa [← setEvfd_nat (hne hv) s.shared 0] at hd
    · rw [List.mem_singleton.mp hv]
      exact .of_none hc.2

theorem leave_notified (h : Notified L s) (ht : step L s (.leave k) = some t) : Notified L t := by
  obtain ⟨w, hw, hpc, ht⟩ := onWorker_some ht
  cases ht
  refine notified_setPc h hw (by simp [hpc]) ?_ (fun hn => absurd rfl hn) ?_
  · exact h.up.mono (fun _ hm _ => hm) id (pushing_of_not_pushed hw (by simp [hpc])) id
  · intro j v _ hv hvp
    exact h.down v (List.mem_of_getElem? hv) hvp

theorem push_notified {msg : Str} (h : Notified L s) (ht : step L s (.push k msg) = some t) :
    Notified L t := by
  obtain ⟨w, hw, hpc, ht⟩ := onWorker_some ht
  obtain ⟨_, sh, hm, rfl⟩ := advance_some ht
  obtain rfl := pushUp_ok hm
  refine notified_setPc h hw (by simp [hpc]) ?_ (fun _ => ?_) ?_
  · exact .of_writing ⟨_, mem_setPc_self hw, rfl⟩
  · have hd := h.down w (List.mem_of_getElem? hw) (by simp [hpc])
    exact hd.mono (fun _ hm _ => hm) id id (by simp [hpc])
  · intro j v _ hv hvp
    exact h.down v (List.mem_of_getElem? hv) hvp

theorem notify_notified (h : Notified L s) (ht : step L s (.notify k) = some t) :
    Notified L t := by
  obtain ⟨w, hw, hpc, ht⟩ := onWorker_some ht
  obtain ⟨_, sh, hm, rfl⟩ := advance_some ht
  obtain rfl := writeEvfd_ok hm
  have hkeep {v : WakeThread} (hv : v ∈ s.workers) :
      (s.shared.setEvfd L (s.shared.kernel.evfd L + 1)).kernel.evfd v.evfd =
        s.shared.kernel.evfd v.evfd :=
    setEvfd_nat (evfd_ne_listener h.distinct hv) _ _
  refine notified_setPc h hw (by simp [hpc]) ?_ (fun _ => ?_) ?_
  · exact .of_count (by simp)
  · have hmem := List.mem_of_getElem? hw
    have hd := h.down w hmem (by simp [hpc])
    rw [hkeep hmem]
    exact hd.mono (fun _ hm _ => hm) id id (by simp [hpc])
  · intro j v _ hv hvp
    have hmem := List.mem_of_getElem? hv
    rw [hkeep hmem]
    exact h.down v hmem hvp

theorem read_notified (h : Notified L s) (ht : step L s (.read k) = some t) : Notified L t := by
  obtain ⟨w, hw, hpc, ht⟩ := onWorker_some ht
  obtain ⟨woken, sh, hm, rfl⟩ := advance_some ht
  rcases readEvfd_ok hm with ⟨_, rfl, rfl⟩ | ⟨rfl, rfl⟩
  · exact h
  · have hL := evfd_ne_listener h.distinct (List.mem_of_getElem? hw)
    refine notified_setPc h hw (by simp [hpc]) ?_ (fun _ => .of_reading rfl) ?_
    · refine h.up.mono (fun _ hm _ => hm) ?_ (pushing_of_not_pushed hw (by simp [hpc])) id
      rw [setEvfd_nat hL.symm]
      exact id
    · intro j v hj hv hvp
      have hne : v.evfd ≠ w.evfd := fun e => hj (evfd_inj h.distinct hv hw e)
      rw [setEvfd_nat hne]
      exact h.down v (List.mem_of_getElem? hv) hvp

theorem pop_notified (h : Notified L s) (hc : NothingLeftBehind L s (.pop k))
    (ht : step L s (.pop k) = some t) : Notified L t := by
  obtain ⟨w, hw, hpc, ht⟩ := onWorker_some ht
  obtain ⟨_, sh, hm, rfl⟩ := advance_some ht
  obtain ⟨hkernel, hup, hdown⟩ := popDown_ok hm
  refine notified_setPc h hw (by simp [hpc]) ?_ (fun _ => ?_) ?_
  · rw [hup, hkernel]
    exact h.up.mono (fun _ hm _ => hm) id (pushing_of_not_pushed hw (by simp [hpc])) id
  · rw [hkernel]
    rcases hc w hw with htail | hcount | hwriting
    · refine .of_none fun msg hmsg => ?_
      cases ha : addressed w.index msg with
      | false => rfl
      | true => exact ha.symm.trans (htail msg (hdown _ _ hmsg ha))
    · exact .of_count hcount
    · exact .of_writing hwriting
  · intro j v _ hv hvp
    rw [hkernel]
    refine (h.down v (List.mem_of_getElem? hv) hvp).mono (fun msg hmsg ha => ?_) id id id
    exact List.mem_of_mem_tail (hdown _ _ hmsg ha)

theorem assign_notified {i : Nat} {socket clId : Int} (h : Notified L s)
    (ht : step L s (.assign i socket clId) = some t) : Notified L t := by
  simp only [step, Option.ite_none_right_eq_some] at ht
  obtain ⟨hl, ht⟩ := ht
  obtain ⟨e, he, ht⟩ := Option.bind_eq_some_iff.mp ht
  obtain ⟨_, sh, hm, rfl⟩ := advance_some ht
  obtain rfl := pushDown_ok hm
  refine notified_listener h ?_ ?_
  · exact h.up.mono (fun _ hm _ => hm) id id (by simp [hl])
  · intro w hw hwp
    by_cases hi : w.index = i
    · have hslot := h.slots w hw hwp
      rw [hi, he] at hslot
      exact .of_writing (by rw [Option.some.inj hslot])
    · refine (h.down w hw hwp).mono (fun msg hmsg ha => ?_) id (by simp [hl]) id
      rcases List.mem_append.mp hmsg with hmsg | hmsg
      · exact hmsg
      · rw [List.mem_singleton.mp hmsg, addressed_acceptText] at ha
        exact absurd ha.symm hi

theorem notifyWorker_notified (h : Notified L s) (ht : step L s .notifyWorker = some t) :
    Notified L t := by
  simp only [step] at ht
  split at ht
  · rename_i e hl
    obtain ⟨_, sh, hm, rfl⟩ := advance_some ht
    obtain rfl := writeEvfd_ok hm
    have hraise (x : Int) (hx : s.shared.kernel.evfd x ≠ 0) :
        (s.shared.setEvfd e (s.shared.kernel.evfd e + 1)).kernel.evfd x ≠ 0 := by
      by_cases hxe : x = e
      · simp [hxe]
      · rwa [Shared.setEvfd_of_ne hxe]
    refine notified_listener h ?_ ?_
    · exact h.up.mono (fun _ hm _ => hm) (hraise L) id (by simp [hl])
    · intro w hw hwp
      by_cases hwe : w.evfd = e
      · exact .of_count (by simp [hwe])
      · refine (h.down w hw hwp).mono (fun _ hm _ => hm) (hraise w.evfd) ?_ id
        intro hp
        rw [hl] at hp
        cases hp
        exact absurd rfl hwe
  · cases ht

theorem readListener_notified (h : Notified L s) (ht : step L s .readListener = some t) :
    Notified L t := by
  simp only [step, Option.ite_none_right_eq_some] at ht
  obtain ⟨hl, ht⟩ := ht
  obtain ⟨woken, sh, hm, rfl⟩ := advance_some ht
  rcases readEvfd_ok hm with ⟨_, rfl, rfl⟩ | ⟨rfl, rfl⟩
  · exact h
  · refine notified_listener h (.of_reading rfl) ?_
    intro w hw hwp
    have hne := evfd_ne_listener h.distinct hw
    rw [setEvfd_nat hne]
    exact (h.down w hw hwp).mono (fun _ hm _ => hm) id (by simp [hl]) id

theorem popListener_notified (h : Notified L s) (hc : NothingLeftBehind L s .popListener)
    (ht : step L s .popListener = some t) : Notified L t := by
  simp only [step, Option.ite_none_right_eq_some] at ht
  obtain ⟨hl, ht⟩ := ht
  obtain ⟨_, sh, hm, rfl⟩ := advance_some ht
  obtain rfl := tryPopWorkerToListener_ok hm
  refine notified_listener h ?_ ?_
  · rcases hc with hlen | hcount | hpush
    · have htail : s.shared.mgr.qWorkerToListener.tail = [] := by
        rw [← List.length_eq_zero_iff, List.length_tail]
        omega
      exact .of_none (by simp [Shared.setWorkerToListener, htail])
    · exact .of_count hcount
    · exact .of_writing hpush
  · intro w hw hwp
    exact (h.down w hw hwp).mono (fun _ hm _ => hm) id (by simp [hl]) id

theorem quit_notified (h : Notified L s) (hc : NothingLeftBehind L s .quit)
    (ht : step L s .quit = some t) : Notified L t := by
  simp only [step, Option.ite_none_right_eq_some] at ht
  obtain ⟨hl, ht⟩ := ht
  obtain ⟨_, sh, hm, rfl⟩ := advance_some ht
  rcases tryPushWorkerToListener_ok hm with ⟨_, rfl⟩ | ⟨hroom, rfl⟩
  · exact h
  · refine ⟨h.distinct, h.slots, ?_, h.down⟩
    rcases hc with hfull | hcount | hpush
    · rw [hfull] at hroom
      cases hroom
    · exact .of_count hcount
    · exact .of_writing hpush

theorem step_notified (l : WakeLabel) (h : Notified L s) (hc : NothingLeftBehind L s l)
    (ht : step L s l = some t) : Notified L t := by
  cases l with
  | launch i e => exact launch_notified h hc ht
  | leave k => exact leave_notified h ht
  | push k msg => exact push_notified h ht
  | notify k => exact notify_notified h ht
  | read k => exact read_notified h ht
  | pop k => exact pop_notified h hc ht
  | assign i socket id => exact assign_notified h ht
  | notifyWorker => exact notifyWorker_notified h ht
  | readListener => exact readListener_notified h ht
  | popListener => exact popListener_notified h hc ht
  | quit => exact quit_notified h hc ht

theorem nothingLost_of_notified (h : Notified L s) : NothingLost L s := by
  rintro ⟨hl, hw⟩
  constructor
  · intro h0
    by_contra hne
    obtain ⟨msg, rest, hq⟩ := List.exists_cons_of_ne_nil hne
    rcases h.up ⟨msg, by simp [hq], rfl⟩ with hc | ⟨w, hm, hp⟩ | hr
    · exact hc h0
    · exact (hw w hm).1 hp
    · rw [hl] at hr
      cases hr
  · intro w hm hwp h0 msg hmsg
    by_contra ha
    rcases h.down w hm hwp ⟨msg, hmsg, by simpa using ha⟩ with hc | hp | hr
    · exact hc h0
    · rw [hl] at hp
      cases hp
    · exact (hw w hm).2 hr

end Steps

section Handlers

-- what the protocol is about
def mail (s : Shared cfg) : List Str × List Str × (Int → Nat) :=
  (s.mgr.qWorkerToListener, s.mgr.qListenerToWorker, s.kernel.evfd)

theorem processMessage_mail (msg : Str) : Frame mail (processMessage msg : Prog cfg Unit) :=
  .of_keeps fun c => (Outside.of_frame (fun _ _ => rfl) (fun _ _ => rfl) (fun _ _ _ => rfl)
    c).processMessage msg

variable {L : Nat} {s : Wakeups cfg} {sh : Shared cfg} {k : Nat} {w : WakeThread}

theorem setPc_setPc (pc : WakePc) (hw : s.workers[k]? = some w) :
    (s.setPc k pc).setPc k w.pc = s := by
  have : (s.workers.modify k fun v => { v with pc := pc }).modify k
      (fun v => { v with pc := w.pc }) = s.workers := by
    apply List.ext_getElem?
    intro j
    simp only [List.getElem?_modify]
    by_cases hj : k = j
    · subst hj
      simp [hw]
    · simp [hj]
  simp only [setPc, this]

theorem onWorker_eq {pc : WakePc} {f : WakeThread → Option (Wakeups cfg)}
    (hw : s.workers[k]? = some w) (hpc : w.pc = pc) : s.onWorker k pc f = f w := by
  simp [onWorker, hw, hpc]

theorem advance_eq {α : Type} {m : Prog cfg α} {a : α}
    (next : α → Wakeups cfg → Wakeups cfg) (h : m s.shared = .ok a sh) :
    s.advance m next = some (next a { s with shared := sh }) := by
  simp [advance, h]

theorem getElem?_setPc_self {pc : WakePc} (hw : s.workers[k]? = some w) :
    (s.setPc k pc).workers[k]? = some { w with pc := pc } := by
  simp [setPc, hw]

theorem workerPush_steps {m : ServerMessage} (hw : s.workers[k]? = some w) (hpc : w.pc = .idle)
    (h : workerPush m L s.shared = .ok () sh) :
    run (step L) s [.push k m.getConcatenatedMsg, .notify k] = some { s with shared := sh } := by
  have hL : ¬ (L : Int) < 0 := by omega
  simp only [workerPush, hL, if_false] at h
  cases hr : cfg.hasRoom s.shared.mgr.qWorkerToListener with
  | false =>
    rw [bind_of_ok (tryPushWorkerToListener_full hr)] at h
    cases h
  | true =>
    have hpush : tryPushWorkerToListener m.getConcatenatedMsg s.shared = .ok true _ :=
      tryPushWorkerToListener_room hr
    rw [bind_of_ok hpush] at h
    have hup : pushUp m.getConcatenatedMsg s.shared =
        .ok () (s.shared.pushWorkerToListener m.getConcatenatedMsg) := by
      rw [pushUp, bind_of_ok hpush]
      rfl
    have h1 : step L s (.push k m.getConcatenatedMsg) =
        some ({ s with shared := s.shared.pushWorkerToListener m.getConcatenatedMsg }.setPc k
          .pushed) := (onWorker_eq hw hpc).trans (advance_eq _ hup)
    have hwrite : writeEvfd (L : Int) "Failed to send to listener eventfd\n"
        (s.shared.pushWorkerToListener m.getConcatenatedMsg) = .ok () sh := h
    let u : Wakeups cfg :=
      { s with shared := s.shared.pushWorkerToListener m.getConcatenatedMsg }
    have h2 : step L (u.setPc k .pushed) (.notify k) =
        some (({ s with shared := sh }.setPc k .pushed).setPc k .idle) :=
      (onWorker_eq (getElem?_setPc_self (s := u) hw) rfl).trans
        (advance_eq (s := u.setPc k .pushed) _ hwrite)
    have hback := setPc_setPc (s := { s with shared := sh }) .pushed hw
    rw [hpc] at hback
    rw [hback] at h2
    simp only [run, h1, h2, u, Option.bind_some]

theorem assignClientToWorker_steps {i e : Nat} {socket clId : Int} (hl : s.listener = .idle)
    (he : s.slot i = some e) (h : assignClientToWorker i socket clId e s.shared = .ok () sh) :
    run (step L) s [.assign i socket clId, .notifyWorker] = some { s with shared := sh } := by
  have hn : ¬ (e : Int) < 0 := by omega
  cases hr : cfg.hasRoom s.shared.mgr.qListenerToWorker with
  | false =>
    rw [assignClientToWorker, bind_of_ok (tryPushListenerToWorker_full hr)] at h
    cases h
  | true =>
    have hpush : tryPushListenerToWorker (acceptMsg i socket clId).getConcatenatedMsg s.shared =
        .ok true _ := tryPushListenerToWorker_room hr
    rw [assignClientToWorker, bind_of_ok hpush] at h
    simp only [Bool.not_true, hn, decide_false, Bool.or_false, Bool.false_eq_true, if_false] at h
    have hdown : pushDown (acceptText i socket clId) s.shared =
        .ok () (s.shared.pushListenerToWorker (acceptText i socket clId)) := by
      rw [pushDown, acceptText, bind_of_ok hpush]
      rfl
    have h1 : step L s (.assign i socket clId) =
        some ({ s with shared := s.shared.pushListenerToWorker (acceptText i socket clId)
                }.withListener (.pushed e)) := by
      simp only [step, hl, if_true, he, Option.bind_some]
      exact advance_eq _ hdown
    let u : Wakeups cfg :=
      { s with shared := s.shared.pushListenerToWorker (acceptText i socket clId) }
    have h2 : step L (u.withListener (.pushed e)) .notifyWorker =
        some { s with shared := sh } := by
      have hback : ({ s with shared := sh, listener := .idle } : Wakeups cfg) =
          { s with shared := sh } := by rw [← hl]
      exact (advance_eq (s := u.withListener (.pushed e)) (fun _ s => s.withListener .idle)
        h).trans (congrArg some hback)
    simp only [run, h1, h2, u, Option.bind_some]

theorem workerProcess_steps {q : QueueAction} (hw : s.workers[k]? = some w) (hpc : w.pc = .idle)
    (h : workerProcessListenerToWorkerQ w.index w.evfd s.shared = .ok q sh) :
    run (step L) s
      (if s.shared.kernel.evfd w.evfd = 0 then [.read k] else [.read k, .pop k]) =
        some { s with shared := sh } := by
  have hbody : workerProcessListenerToWorkerQ w.index w.evfd =
      (do if !(← readEvfd w.evfd) then return {} else popDown w.index : Prog cfg QueueAction) := rfl
  rw [hbody] at h
  split_ifs with h0
  · rw [bind_of_ok (readEvfd_zero h0)] at h
    cases h
    have h1 : step L s (.read k) = some s :=
      (onWorker_eq hw hpc).trans (advance_eq _ (readEvfd_zero h0))
    simp only [run, h1, Option.bind_some]
  · rw [bind_of_ok (readEvfd_pos h0)] at h
    have h1 : step L s (.read k) =
        some ({ s with shared := s.shared.setEvfd w.evfd 0 }.setPc k .read) :=
      (onWorker_eq hw hpc).trans (advance_eq _ (readEvfd_pos h0))
    let u : Wakeups cfg := { s with shared := s.shared.setEvfd w.evfd 0 }
    have h2 : step L (u.setPc k .read) (.pop k) =
        some (({ s with shared := sh }.setPc k .read).setPc k .idle) :=
      (onWorker_eq (getElem?_setPc_self (s := u) hw) rfl).trans
        (advance_eq (s := u.setPc k .read) _ h)
    have hback := setPc_setPc (s := { s with shared := sh }) .read hw
    rw [hpc] at hback
    rw [hback] at h2
    simp only [run, h1, h2, u, Option.bind_some]

-- what the listener does with the message it popped stays outside the protocol
theorem listenerProcess_steps (hl : s.listener = .idle)
    (h : listenerProcessWorkerToListenerQ L s.shared = .ok () sh) :
    ∃ u : Shared cfg, mail u = mail sh ∧ run (step L) s
      (if s.shared.kernel.evfd L = 0 then [.readListener] else [.readListener, .popListener]) =
        some { s with shared := u } := by
  unfold listenerProcessWorkerToListenerQ at h
  split_ifs with h0
  · rw [bind_of_ok (readEvfd_zero h0)] at h
    cases h
    have h1 : step L s .readListener = some s := by
      simp only [step, hl, if_true]
      exact advance_eq _ (readEvfd_zero h0)
    exact ⟨s.shared, rfl, by simp only [run, h1, Option.bind_some]⟩
  · rw [bind_of_ok (readEvfd_pos h0)] at h
    have h1 : step L s .readListener =
        some ({ s with shared := s.shared.setEvfd L 0 }.withListener .read) := by
      simp only [step, hl, if_true]
      exact advance_eq _ (readEvfd_pos h0)
    let v : Wakeups cfg := { s with shared := s.shared.setEvfd L 0 }
    have pop {a : Option Str} {u : Shared cfg}
        (hp : tryPopWorkerToListener (s.shared.setEvfd L 0) = .ok a u) :
        step L (v.withListener .read) .popListener = some { s with shared := u } := by
      have hback : ({ s with shared := u, listener := .idle } : Wakeups cfg) =
          { s with shared := u } := by rw [← hl]
      exact (advance_eq (s := v.withListener .read) (fun _ s => s.withListener .idle)
        hp).trans (congrArg some hback)
    simp only [Bool.not_true, Bool.false_eq_true, if_false] at h
    cases hq : s.shared.mgr.qWorkerToListener with
    | nil =>
      have hp := tryPopWorkerToListener_nil (s := s.shared.setEvfd L 0) hq
      rw [bind_of_ok hp] at h
      cases h
      exact ⟨_, rfl, by simp only [run, h1, pop hp, v, Option.bind_some]⟩
    | cons msg rest =>
      have hp := tryPopWorkerToListener_cons (s := s.shared.setEvfd L 0) hq
      rw [bind_of_ok hp] at h
      exact ⟨_, ((processMessage_mail msg).ok h).symm,
        by simp only [run, h1, pop hp, v, Option.bind_some]⟩

end Handlers

def start (sv : Server cfg) (kernel : Kernel) (hist : History) : Wakeups cfg where
  shared := ⟨{}, sv, kernel, hist⟩

theorem start_notified (L : Nat) (sv : Server cfg) (kernel : Kernel) (hist : History) :
    Notified L (start sv kernel hist) where
  distinct := by simp [used, start]
  slots := by simp [start]
  up := .of_none (by simp [start])
  down := by simp [start]

theorem nothing_lost (L : Nat) (sv : Server cfg) (kernel : Kernel) (hist : History)
    (s : Wakeups cfg) (h : Reach (step L) (NothingLeftBehind L) (start sv kernel hist) s) :
    NothingLost L s :=
  nothingLost_of_notified <| h.invariant (start_notified L sv kernel hist)
    fun _ l _ hI hc ht => step_notified l hI hc ht

def deployedStart : Wakeups Config.deployed := start { svSocket := 3 } {} {}

instance (s : Wakeups cfg) : Decidable s.Pushing :=
  inferInstanceAs (Decidable (∃ w ∈ s.workers, w.pc = .pushed))

instance (L : Nat) (s : Wakeups cfg) (l : WakeLabel) :
    Decidable (NothingLeftBehind L s l) := by
  cases l <;> unfold NothingLeftBehind <;> infer_instance

-- two workers push and a third client is assigned to the first of them, in turns
def takenInTurn : List WakeLabel :=
  [.launch 0 10, .launch 1 12, .push 0 "x".toList, .push 1 "y".toList, .notify 0, .readListener,
    .popListener, .assign 0 9 2, .notify 1, .notifyWorker, .read 0, .readListener, .pop 0,
    .popListener]

instance (s : Wakeups cfg) : Decidable s.Settled := by
  unfold Settled
  infer_instance

instance (L : Nat) (s : Wakeups cfg) : Decidable (NothingLost L s) := by
  unfold NothingLost
  infer_instance

theorem nothing_lost_takenInTurn : ∃ s : Wakeups Config.deployed,
    Reach (step 4) (NothingLeftBehind 4) deployedStart s ∧
    s.shared.mgr.qWorkerToListener = [] ∧ s.shared.mgr.qListenerToWorker = [] ∧
    NothingLost 4 s := by
  have hrun : (run (guarded (step 4) (NothingLeftBehind 4)) deployedStart takenInTurn).any
      (fun s => s.shared.mgr.qWorkerToListener = [] ∧ s.shared.mgr.qListenerToWorker = []) =
        true := by
    decide +kernel
  obtain ⟨s, hr, hs⟩ := exists_of_guarded hrun
  obtain ⟨hup, hdown⟩ := of_decide_eq_true hs
  exact ⟨s, hr, hup, hdown, nothing_lost 4 { svSocket := 3 } {} {} s hr⟩

-- one read absorbs two writes, one pop takes one message
def twoPushesOneRead : List WakeLabel :=
  [.launch 0 10, .push 0 "x".toList, .notify 0, .push 0 "y".toList, .notify 0, .readListener,
    .popListener]

theorem twoPushesOneRead_loses : ∃ s : Wakeups Config.deployed,
    Reach (step 4) (fun _ _ => True) deployedStart s ∧ ¬ NothingLost 4 s := by
  have hrun : (run (step 4) deployedStart twoPushesOneRead).any
      (fun s => !decide (NothingLost 4 s)) = true := by decide
  obtain ⟨s, hs, hp⟩ := exists_of_run (fun _ _ => trivial) hrun
  exact ⟨s, hs, by simpa using hp⟩

end Wakeups

end ChatApp
