import ChatApp.Descriptors
import ChatApp.EndedWorkers

namespace ChatApp

open Effects Runs

variable {cfg : Config}

-- main after listen_connections: the jthread that launch_server_loop returns is joined at once,
-- then ~Server closes its sockets, and the destructor of worker_threads goes from the last entry
-- down
inductive MainPc where
  | joinListener
  | closing (fds : List Int)
  | joinWorkers (n : Nat)
  | returned
  deriving DecidableEq, Repr

structure Process (cfg : Config) where
  server : State cfg
  main : MainPc := .joinListener
  -- what ~Server has closed
  closed : List Int := []
  -- the epoll set of each worker; a descriptor that is closed leaves it
  monitored : Nat → List Int := fun _ => []
  -- the events of an epoll_wait that has returned and whose worker has not gone on yet
  reported : Nat → Option ((Int → Bool) × (Int → Bool)) := fun _ => none

inductive ProcessLabel where
  | server (l : Label)
  | wake (k : Nat) (pollIn pollOut : Int → Bool)
  | main

def Label.worker : Label → Option Nat
  | .start k _ | .wait k | .iterate k _ | .leave k => some k
  | _ => none

namespace State

variable {s t : State cfg} {l : Label} {k : Nat} {th : Thread}

theorem step_worker (hl : l.worker = some k) (h : s.step l = some t) :
    ∃ th, s.threads[k]? = some th ∧ s.threadStep k th l = some t := by
  have h := (Option.ite_none_left_eq_some.mp h).2
  cases l with
  | start j frame | wait j | iterate j ev | leave j =>
    cases hl
    exact Option.bind_eq_some_iff.mp h
  | _ => cases hl

theorem step_of_worker (hl : l.worker = some k) (hth : s.threads[k]? = some th)
    (h : s.step l = some t) : s.threadStep k th l = some t := by
  obtain ⟨th', hth', h⟩ := step_worker hl h
  rwa [Option.some.inj (hth'.symm.trans hth)] at h

theorem step_listener (hl : l.worker = none) (h : s.step l = some t) :
    s.joined = true ∧ s.listenerStep l = some t := by
  have h := (Option.ite_none_left_eq_some.mp h).2
  cases l with
  | start j frame | wait j | iterate j ev | leave j => cases hl
  | _ => exact Option.ite_none_right_eq_some.mp h

end State

namespace Process

def init (cfg : Config) (svSocket listenerEvfd : Nat) : Process cfg where
  server := State.init cfg svSocket listenerEvfd

-- an exception leaves worker_loop
def crash (p : Process cfg) : Process cfg :=
  { p with server := { p.server with terminated := true } }

def without (p : Process cfg) (fds : List Int) : Nat → List Int :=
  fun k => (p.monitored k).filter (· ∉ fds)

-- epoll_ctl fails on a descriptor that ~Server has closed
def start (p : Process cfg) (k : Nat) (frame : MessageFrame) : Option (Process cfg) :=
  (p.server.threads[k]?).bind fun th =>
    (p.server.step (.start k frame)).map fun s =>
      if s.terminated || th.launch.clFd ∈ p.closed then p.crash
      else { p with
        server := s
        monitored :=
          Function.update p.monitored k [th.launch.clFd, th.launch.personalEvfd] }

-- recv fails on a closed socket; what send answers is left to the label
def events (p : Process cfg) (r : (Int → Bool) × (Int → Bool)) (ev : Events) : Events :=
  { ev with
    pollIn := r.1
    pollOut := r.2
    recv := fun fd => if fd ∈ p.closed then .failed else ev.recv fd }

-- the socket of an ACCEPT that the iteration takes up
def accepted (p : Process cfg) (th : Thread) (ev : Events) : List Int :=
  match pollQueue ev th.launch (p.server.withSends ev.sends).shared with
  | .ok q _ => (taken q).map Prod.fst
  | .error _ _ => []

def iterate (p : Process cfg) (k : Nat) (ev : Events) : Option (Process cfg) :=
  (p.server.threads[k]?).bind fun th => (p.reported k).bind fun r =>
    (p.server.step (.iterate k (p.events r ev))).map fun s =>
      if s.terminated || (p.accepted th (p.events r ev)).any (· ∈ p.closed) then p.crash
      else { p with
        server := s
        monitored :=
          Function.update p.monitored k (p.monitored k ++ p.accepted th (p.events r ev))
        reported := Function.update p.reported k none }

def serverStep (p : Process cfg) : Label → Option (Process cfg)
  | .start k frame => p.start k frame
  | .iterate k ev => p.iterate k ev
  | .wait k => (p.server.step (.wait k)).map fun s => { p with server := s }
  | .leave k => (p.server.step (.leave k)).map fun s => { p with server := s }
  | l => (p.server.step l).map fun s => { p with
      server := s
      monitored := p.without (s.shared.sv.closed.drop p.server.shared.sv.closed.length) }

-- an eventfd is readable when its count is not zero, a socket when the kernel says so
def readable (p : Process cfg) (k : Nat) (l : Launch) (pollIn : Int → Bool) (fd : Int) : Bool :=
  fd ∈ p.monitored k && pollIn fd &&
    (fd ≠ l.personalEvfd || p.server.shared.kernel.evfd fd ≠ 0)

def writable (p : Process cfg) (k : Nat) (l : Launch) (pollOut : Int → Bool) (fd : Int) : Bool :=
  fd ∈ p.monitored k && pollOut fd && fd ≠ l.personalEvfd

-- epoll_wait returns once something in the worker's set is ready
def wake (p : Process cfg) (k : Nat) (pollIn pollOut : Int → Bool) : Option (Process cfg) :=
  match p.server.threads[k]? with
  | some ⟨l, .waiting _⟩ =>
    if (p.reported k).isNone && (p.monitored k).any (fun fd =>
        p.readable k l pollIn fd || p.writable k l pollOut fd) then
      some { p with
        reported := Function.update p.reported k
          (some (p.readable k l pollIn, p.writable k l pollOut)) }
    else none
  | _ => none

def sockets (p : Process cfg) : List Int :=
  p.server.shared.sv.clients.values.map ClientData.fd ++ [p.server.shared.sv.svSocket]

def joinable (p : Process cfg) (i : Nat) : Bool :=
  match threadAt p.server.shared i with
  | none => true
  | some k => (p.server.threads[k]?).all Thread.isEnded

def mainStep (p : Process cfg) : Option (Process cfg) :=
  match p.main with
  | .joinListener =>
    if p.server.listener = .ended ∧ p.server.joined = true then
      some { p with main := .closing p.sockets }
    else none
  | .closing [] => some { p with main := .joinWorkers cfg.maxNrOfThreads }
  | .closing (fd :: fds) =>
    some { p with
      main := .closing fds
      closed := fd :: p.closed
      monitored := p.without [fd] }
  | .joinWorkers 0 => some { p with main := .returned }
  | .joinWorkers (n + 1) => if p.joinable n then some { p with main := .joinWorkers n } else none
  | .returned => none

def step (p : Process cfg) (l : ProcessLabel) : Option (Process cfg) :=
  if p.server.terminated then none
  else match l with
    | .server l => p.serverStep l
    | .wake k pollIn pollOut => p.wake k pollIn pollOut
    | .main => p.mainStep

section Steps

variable {p q : Process cfg} {l : ProcessLabel}

inductive Went (p : Process cfg) : ProcessLabel → Process cfg → Prop
  | listened {l : Label} {s : State cfg} (hj : p.server.joined = true)
    (hs : p.server.listenerStep l = some s) :
    Went p (.server l) { p with
      server := s
      monitored := p.without (s.shared.sv.closed.drop p.server.shared.sv.closed.length) }
  | started {k : Nat} {frame : MessageFrame} {th : Thread} {s : State cfg}
    (hth : p.server.threads[k]? = some th)
    (hs : p.server.threadStep k th (.start k frame) = some s) (hrun : s.terminated = false)
    (hopen : th.launch.clFd ∉ p.closed) :
    Went p (.server (.start k frame)) { p with
      server := s
      monitored := Function.update p.monitored k [th.launch.clFd, th.launch.personalEvfd] }
  | iterated {k : Nat} {ev : Events} {r : (Int → Bool) × (Int → Bool)} {th : Thread}
    {s : State cfg} (hth : p.server.threads[k]? = some th) (hr : p.reported k = some r)
    (hs : p.server.threadStep k th (.iterate k (p.events r ev)) = some s)
    (hrun : s.terminated = false) (hopen : ∀ fd ∈ p.accepted th (p.events r ev), fd ∉ p.closed) :
    Went p (.server (.iterate k ev)) { p with
      server := s
      monitored :=
        Function.update p.monitored k (p.monitored k ++ p.accepted th (p.events r ev))
      reported := Function.update p.reported k none }
  | turned {k : Nat} {l : Label} {th : Thread} {s : State cfg}
    (hth : p.server.threads[k]? = some th) (hl : l = .wait k ∨ l = .leave k)
    (hs : p.server.threadStep k th l = some s) : Went p (.server l) { p with server := s }
  | crashed {k : Nat} {l : Label} {th : Thread} {s : State cfg}
    (hth : p.server.threads[k]? = some th) (hs : p.server.threadStep k th l = some s)
    {l' : ProcessLabel} : Went p l' p.crash
  | woken {k : Nat} {pollIn pollOut : Int → Bool} {launch : Launch} {w : WorkerState}
    (hth : p.server.threads[k]? = some ⟨launch, .waiting w⟩) (hr : p.reported k = none)
    (hready : ∃ fd ∈ p.monitored k,
      (p.readable k launch pollIn fd || p.writable k launch pollOut fd) = true) :
    Went p (.wake k pollIn pollOut) { p with
      reported := Function.update p.reported k
        (some (p.readable k launch pollIn, p.writable k launch pollOut)) }
  | main {q : Process cfg} (hq : p.mainStep = some q) : Went p .main q

theorem step_went (h : p.step l = some q) : p.server.terminated = false ∧ p.Went l q := by
  unfold step at h
  split_ifs at h with hterm
  refine ⟨by simpa using hterm, ?_⟩
  cases l with
  | main => exact .main h
  | wake k pollIn pollOut =>
    simp only [wake] at h
    split at h
    · rename_i launch w hth
      split_ifs at h with hc
      cases h
      simp only [Bool.and_eq_true, Option.isNone_iff_eq_none, List.any_eq_true] at hc
      exact .woken hth hc.1 hc.2
    · cases h
  | server l =>
    cases l with
    | start k frame =>
      obtain ⟨th, hth, h⟩ := Option.bind_eq_some_iff.mp h
      obtain ⟨s, hs, h⟩ := Option.map_eq_some_iff.mp h
      have hs := State.step_of_worker (l := .start k frame) rfl hth hs
      split_ifs at h with hc <;> cases h
      · exact .crashed hth hs
      · simp only [Bool.or_eq_true, decide_eq_true_eq, not_or] at hc
        exact .started hth hs (by simpa using hc.1) hc.2
    | iterate k ev =>
      obtain ⟨th, hth, h⟩ := Option.bind_eq_some_iff.mp h
      obtain ⟨r, hr, h⟩ := Option.bind_eq_some_iff.mp h
      obtain ⟨s, hs, h⟩ := Option.map_eq_some_iff.mp h
      have hs := State.step_of_worker (l := .iterate k (p.events r ev)) rfl hth hs
      split_ifs at h with hc <;> cases h
      · exact .crashed hth hs
      · simp only [Bool.or_eq_true, List.any_eq_true, decide_eq_true_eq, not_or, not_exists,
          not_and] at hc
        exact .iterated hth hr hs (by simpa using hc.1) hc.2
    | wait k =>
      obtain ⟨s, hs, rfl⟩ := Option.map_eq_some_iff.mp h
      obtain ⟨th, hth, hs⟩ := State.step_worker (l := .wait k) rfl hs
      exact .turned hth (.inl rfl) hs
    | leave k =>
      obtain ⟨s, hs, rfl⟩ := Option.map_eq_some_iff.mp h
      obtain ⟨th, hth, hs⟩ := State.step_worker (l := .leave k) rfl hs
      exact .turned hth (.inr rfl) hs
    | poll evfd stdin socket | queue | stdin buffer | accept env =>
      obtain ⟨s, hs, rfl⟩ := Option.map_eq_some_iff.mp h
      obtain ⟨hj, hs⟩ := State.step_listener rfl hs
      exact .listened hj hs

end Steps

section Invariant

-- ~Server knows every socket, and nobody is left to change the table
structure Closing (s : State cfg) (closed fds : List Int) : Prop where
  listener : s.listener = .ended
  joined : s.joined = true
  known : ∀ fd ∈ closed ++ fds, (∃ q ∈ s.shared.sv.pairs, q.1 = fd) ∨ fd = s.shared.sv.svSocket
  all : ∀ q ∈ s.shared.sv.pairs, q.1 ∈ closed ++ fds

-- the workers in the entries from n on have been joined
def JoinedFrom (s : State cfg) (n : Nat) : Prop :=
  ∀ i k th, n ≤ i → threadAt s.shared i = some k → s.threads[k]? = some th → th.isEnded = true

def Stage (p : Process cfg) : Prop :=
  match p.main with
  | .joinListener => p.closed = []
  | .closing fds => Closing p.server p.closed fds
  | .joinWorkers n => Closing p.server p.closed [] ∧ JoinedFrom p.server n
  | .returned => Closing p.server p.closed [] ∧ JoinedFrom p.server 0

structure Valid (p : Process cfg) : Prop where
  tabled : p.server.Tabled
  manned : p.server.Manned
  apart : p.server.Apart
  watched : ∀ (k : Nat) (th : Thread), p.server.threads[k]? = some th →
    ∀ fd ∈ p.monitored k, fd = th.launch.personalEvfd ∨
      fd ∉ p.closed ∧ ∃ q ∈ p.server.shared.sv.pairs, q.1 = fd
  awaited : ∀ (k : Nat) (th : Thread), p.server.threads[k]? = some th → th.phase ≠ .launched →
    th.launch.personalEvfd ∈ p.monitored k
  unborn : ∀ k, p.server.threads.length ≤ k → p.monitored k = []
  stage : p.Stage

variable {p q : Process cfg}

theorem init_valid (cfg : Config) (svSocket listenerEvfd : Nat) :
    (init cfg svSocket listenerEvfd).Valid where
  tabled := State.init_tabled cfg svSocket listenerEvfd
  manned := State.init_manned cfg svSocket listenerEvfd
  apart := State.init_apart cfg svSocket listenerEvfd
  watched := fun k th hth => by simp [init, State.init] at hth
  awaited := fun k th hth => by simp [init, State.init] at hth
  unborn := fun _ _ => rfl
  stage := rfl

-- who only works on the clients leaves main where it is
theorem Stage.congr (h : p.Stage) (hm : q.main = p.main) (hc : q.closed = p.closed)
    (hl : q.server.listener = p.server.listener)
    (hj : p.server.joined = true → q.server.joined = true)
    (hp : q.server.shared.sv.pairs = p.server.shared.sv.pairs)
    (hv : q.server.shared.sv.svSocket = p.server.shared.sv.svSocket)
    (hf : ∀ n, JoinedFrom p.server n → JoinedFrom q.server n) : q.Stage := by
  have hclosing (fds : List Int) (h : Closing p.server p.closed fds) :
      Closing q.server q.closed fds := by
    refine ⟨hl.trans h.listener, hj h.joined, ?_, ?_⟩
    · rw [hc, hp, hv]
      exact h.known
    · rw [hc, hp]
      exact h.all
  unfold Stage at h ⊢
  rw [hm]
  split at h
  · exact hc.trans h
  · exact hclosing _ h
  · exact ⟨hclosing _ h.1, hf _ h.2⟩
  · exact ⟨hclosing _ h.1, hf _ h.2⟩

theorem Valid.crash (h : p.Valid) : p.crash.Valid where
  tabled := ⟨State.sound_terminated h.tabled.sound, h.tabled.fds, h.tabled.sockets⟩
  manned := h.manned.terminated
  apart := h.apart.terminated
  watched := h.watched
  awaited := h.awaited
  unborn := h.unborn
  stage := h.stage.congr rfl rfl rfl id rfl rfl fun _ h => h

-- the listener runs only before ~Server does
theorem Valid.serving (h : p.Valid) (hl : p.server.listener ≠ .ended) :
    p.main = .joinListener ∧ p.closed = [] := by
  have hstage := h.stage
  unfold Stage at hstage
  split at hstage
  · exact ⟨‹_›, hstage⟩
  · exact absurd hstage.listener hl
  · exact absurd hstage.1.listener hl
  · exact absurd hstage.1.listener hl

theorem Valid.listened {l : Label} {s : State cfg} (h : p.Valid) (hj : p.server.joined = true)
    (hs : p.server.listenerStep l = some s) : Valid { p with
      server := s
      monitored := p.without (s.shared.sv.closed.drop p.server.shared.sv.closed.length) } := by
  obtain ⟨hmain, hclosed⟩ := h.serving (State.listener_of_step hs)
  obtain ⟨new, hnew, hleft, hevfds, more, hthreads⟩ := State.listenerStep_listened h.apart hs
  have hdrop : s.shared.sv.closed.drop p.server.shared.sv.closed.length = new := by
    rw [hnew, List.drop_left]
  rw [hdrop]
  -- a thread of s is old, or it has no epoll set yet
  have hold (k : Nat) (th : Thread) (hth : s.threads[k]? = some th) :
      p.server.threads[k]? = some th ∨ p.monitored k = [] ∧ th.phase = .launched := by
    rw [hthreads] at hth
    by_cases hk : k < p.server.threads.length
    · exact .inl (by rwa [List.getElem?_append_left hk] at hth)
    · refine .inr ⟨h.unborn k (by omega), ?_⟩
      rw [List.getElem?_append_right (by omega), List.getElem?_map] at hth
      obtain ⟨_, _, rfl⟩ := Option.map_eq_some_iff.mp hth
      rfl
  refine ⟨State.listenerStep_tabled h.tabled hs, State.listenerStep_manned h.manned hj hs,
    State.listenerStep_apart h.apart hs, fun k th hth fd hfd => ?_, fun k th hth hp => ?_,
    fun k hk => ?_, ?_⟩
  · obtain ⟨hfd, hopen⟩ := List.mem_filter.mp hfd
    rcases hold k th hth with hth | ⟨hnone, _⟩
    · rcases h.watched k th hth fd hfd with he | ⟨hc, q, hq, he⟩
      · exact .inl he
      · refine .inr ⟨hc, ?_⟩
        rcases hleft q hq with hq | hq
        · exact ⟨q, hq, he⟩
        · rw [he] at hq
          simp only [hq, not_true, decide_false] at hopen
          cases hopen
    · rw [hnone] at hfd
      cases hfd
  · rcases hold k th hth with hth | ⟨_, hl⟩
    · refine List.mem_filter.mpr ⟨h.awaited k th hth hp, ?_⟩
      simpa using hevfds th (List.mem_of_getElem? hth)
    · exact absurd hl hp
  · rw [hthreads, List.length_append] at hk
    change (p.monitored k).filter _ = []
    rw [h.unborn k (by omega), List.filter_nil]
  · unfold Stage
    simp only [hmain]
    exact hclosed

theorem Valid.turn {k : Nat} {th : Thread} {l : Label} {s : State cfg} {m : Nat → List Int}
    {r : Nat → Option ((Int → Bool) × (Int → Bool))} (h : p.Valid)
    (hth : p.server.threads[k]? = some th) (hs : p.server.threadStep k th l = some s)
    (hother : ∀ j, j ≠ k → m j = p.monitored j) (hevfd : th.launch.personalEvfd ∈ m k)
    (hown : ∀ fd ∈ m k, fd = th.launch.personalEvfd ∨
      fd ∉ p.closed ∧ ∃ q ∈ p.server.shared.sv.pairs, q.1 = fd) :
    Valid { p with server := s, monitored := m, reported := r } := by
  have hend := State.not_ended_of_step hs
  have hk := (List.getElem?_eq_some_iff.mp hth).1
  obtain ⟨hl, _, hpairs, hsocket, hjth, ph, hthreads⟩ :=
    State.threadStep_worked h.tabled.sound hth hs
  simp only [jthreads, Prod.mk.injEq] at hjth
  obtain ⟨hat, _, hjoin⟩ := hjth
  have hold (j : Nat) (x : Thread) (hx : s.threads[j]? = some x) :
      j = k ∧ x.launch = th.launch ∨ j ≠ k ∧ p.server.threads[j]? = some x := by
    rw [hthreads] at hx
    by_cases hj : j = k
    · rw [hj, List.getElem?_set_self hk] at hx
      obtain rfl := Option.some.inj hx
      exact .inl ⟨hj, rfl⟩
    · rw [List.getElem?_set_ne (Ne.symm hj)] at hx
      exact .inr ⟨hj, hx⟩
  refine ⟨State.threadStep_tabled h.tabled hth hs, State.threadStep_manned h.manned hth hs,
    State.threadStep_apart h.apart hth hs, fun j x hx fd hfd => ?_, fun j x hx hp => ?_,
    fun j hj => ?_, ?_⟩
  · rw [hpairs]
    rcases hold j x hx with ⟨rfl, hx⟩ | ⟨hj, hx⟩
    · rw [hx]
      exact hown fd hfd
    · exact h.watched j x hx fd (hother j hj ▸ hfd)
  · rcases hold j x hx with ⟨rfl, hx⟩ | ⟨hj, hx⟩
    · rw [hx]
      exact hevfd
    · have hm : m j = p.monitored j := hother j hj
      change _ ∈ m j
      rw [hm]
      exact h.awaited j x hx hp
  · rw [hthreads, List.length_set] at hj
    exact (hother j (by omega)).trans (h.unborn j hj)
  · refine h.stage.congr rfl rfl hl (fun hj => ?_) hpairs hsocket fun n hf i j x hi hx hjx => ?_
    · unfold State.joined at hj ⊢
      rw [hjoin]
      split at hj
      · rfl
      · rename_i j hjn
        cases hx : s.threads[j]? with
        | none => rfl
        | some x =>
          rcases hold j x hx with ⟨rfl, _⟩ | ⟨_, hx'⟩
          · rw [hth, Option.all_some, hend] at hj
            cases hj
          · simpa only [hx', Option.all_some] using hj
    · rw [hat] at hx
      rcases hold j x hjx with ⟨rfl, _⟩ | ⟨_, hx'⟩
      · have := hf i j th hi hx hth
        rw [hend] at this
        cases this
      · exact hf i j x hi hx hx'

theorem Valid.started {k : Nat} {frame : MessageFrame} {th : Thread} {s : State cfg} (h : p.Valid)
    (hth : p.server.threads[k]? = some th)
    (hs : p.server.threadStep k th (.start k frame) = some s) (hrun : s.terminated = false)
    (hopen : th.launch.clFd ∉ p.closed) : Valid { p with
      server := s
      monitored := Function.update p.monitored k [th.launch.clFd, th.launch.personalEvfd] } := by
  have hk := (List.getElem?_eq_some_iff.mp hth).1
  have htabled := State.threadStep_tabled h.tabled hth hs
  have hpairs := (State.threadStep_worked h.tabled.sound hth hs).pairs
  have hclient : th.launch.client ∈ s.clients := by
    cases State.threadStep_turned h.tabled.sound hth hs with
    | started _ =>
      refine List.mem_flatMap.mpr ⟨_, List.mem_of_getElem? (List.getElem?_set_self hk), ?_⟩
      exact List.mem_singleton_self _
    | threw _ => cases hrun
  refine h.turn hth hs (fun j hj => Function.update_of_ne hj _ _) ?_ fun fd hfd => ?_
  · rw [Function.update_self]
    exact List.mem_cons_of_mem _ (List.mem_singleton_self _)
  · rw [Function.update_self] at hfd
    rcases List.mem_cons.mp hfd with rfl | hfd
    · exact .inr ⟨hopen, _, hpairs ▸ htabled.clients_known _ hclient, rfl⟩
    · exact .inl (List.mem_singleton.mp hfd)

theorem Valid.iterated {k : Nat} {ev : Events} {th : Thread} {s : State cfg}
    {r : Nat → Option ((Int → Bool) × (Int → Bool))} (h : p.Valid)
    (hth : p.server.threads[k]? = some th)
    (hs : p.server.threadStep k th (.iterate k ev) = some s) (hrun : s.terminated = false)
    (hopen : ∀ fd ∈ p.accepted th ev, fd ∉ p.closed) : Valid { p with
      server := s
      monitored := Function.update p.monitored k (p.monitored k ++ p.accepted th ev)
      reported := r } := by
  have hk := (List.getElem?_eq_some_iff.mp hth).1
  have htabled := State.threadStep_tabled h.tabled hth hs
  have hpairs := (State.threadStep_worked h.tabled.sound hth hs).pairs
  cases State.threadStep_turned h.tabled.sound hth hs with
  | threw _ => cases hrun
  | @iterated _ _ _ w' _ q _ _ _ hphase _ hit =>
    have haccepted : p.accepted th ev = (taken q).map Prod.fst := by
      simp only [accepted, hit.polled]
    refine h.turn hth hs (fun j hj => Function.update_of_ne hj _ _) ?_ fun fd hfd => ?_
    · rw [Function.update_self]
      exact List.mem_append_left _ (h.awaited k th hth (by simp [hphase]))
    · rw [Function.update_self] at hfd
      rcases List.mem_append.mp hfd with hfd | hfd
      · exact h.watched k th hth fd hfd
      · refine .inr ⟨hopen fd hfd, ?_⟩
        rw [haccepted] at hfd
        obtain ⟨c, hc, rfl⟩ := List.mem_map.mp hfd
        refine ⟨c, hpairs ▸ htabled.clients_known c ?_, rfl⟩
        refine List.mem_flatMap.mpr ⟨_, List.mem_of_getElem? (List.getElem?_set_self hk), ?_⟩
        change c ∈ w'.clients
        rw [hit.clients]
        exact List.mem_append_right _ hc

theorem mem_sockets {fd : Int} : fd ∈ p.sockets ↔
    (∃ q ∈ p.server.shared.sv.pairs, q.1 = fd) ∨ fd = p.server.shared.sv.svSocket := by
  simp only [sockets, Server.pairs_eq, List.mem_append, List.mem_map, List.mem_singleton,
    exists_exists_and_eq_and]

theorem Valid.at_main {m : MainPc} (h : p.Valid) (hs : Stage { p with main := m }) :
    Valid { p with main := m } :=
  ⟨h.tabled, h.manned, h.apart, h.watched, h.awaited, h.unborn, hs⟩

theorem Valid.closing {fd : Int} {fds : List Int} (h : p.Valid)
    (hc : Closing p.server p.closed (fd :: fds)) : Valid { p with
      main := .closing fds
      closed := fd :: p.closed
      monitored := p.without [fd] } := by
  have hmem (x : Int) : x ∈ p.closed ++ fd :: fds ↔ x ∈ fd :: p.closed ++ fds :=
    List.perm_middle.mem_iff
  refine ⟨h.tabled, h.manned, h.apart, fun k th hth x hx => ?_, fun k th hth hp => ?_,
    fun k hk => ?_, ?_⟩
  · obtain ⟨hx, hne⟩ := List.mem_filter.mp hx
    refine (h.watched k th hth x hx).imp id fun ⟨hopen, hpair⟩ => ⟨?_, hpair⟩
    rw [List.mem_cons, not_or]
    exact ⟨by simpa using hne, hopen⟩
  · refine List.mem_filter.mpr ⟨h.awaited k th hth hp, ?_⟩
    obtain ⟨hsv, hpair⟩ := h.apart.sockets th (List.mem_of_getElem? hth)
    have hne : th.launch.personalEvfd ≠ fd := by
      rintro he
      rcases hc.known fd (List.mem_append_right _ List.mem_cons_self) with ⟨q, hq, hqe⟩ | hfd
      · exact hpair q hq (he.trans hqe.symm)
      · exact hsv (he.trans hfd)
    simpa using hne
  · change (p.monitored k).filter _ = []
    rw [h.unborn k hk, List.filter_nil]
  · exact ⟨hc.listener, hc.joined, fun x hx => hc.known x ((hmem x).mpr hx),
      fun q hq => (hmem q.1).mp (hc.all q hq)⟩

theorem Valid.mainStep (h : p.Valid) (hq : p.mainStep = some q) : q.Valid := by
  have hstage := h.stage
  unfold Process.mainStep at hq
  unfold Stage at hstage
  split at hq
  · rename_i hmain
    split_ifs at hq with hend
    cases hq
    rw [hmain] at hstage
    refine h.at_main ⟨hend.1, hend.2, fun fd hfd => ?_, fun c hc => ?_⟩
    · change fd ∈ p.closed ++ p.sockets at hfd
      rw [show p.closed = [] from hstage] at hfd
      exact mem_sockets.mp hfd
    · exact List.mem_append_right _ (mem_sockets.mpr (.inl ⟨c, hc, rfl⟩))
  · rename_i hmain
    cases hq
    rw [hmain] at hstage
    refine h.at_main ⟨hstage, fun i k th hi hat hth => ?_⟩
    unfold threadAt at hat
    split at hat
    · exact absurd (Slots.lt_of_get ‹_›) (Nat.not_lt.mpr hi)
    · cases hat
  · rename_i fd fds hmain
    cases hq
    rw [hmain] at hstage
    exact h.closing hstage
  · rename_i hmain
    cases hq
    rw [hmain] at hstage
    exact h.at_main hstage
  · rename_i n hmain
    split_ifs at hq with hjoin
    cases hq
    rw [hmain] at hstage
    refine h.at_main ⟨hstage.1, fun i k th hi hat hth => ?_⟩
    rcases Nat.eq_or_lt_of_le hi with rfl | hi
    · have hat : threadAt p.server.shared n = some k := hat
      have hth : p.server.threads[k]? = some th := hth
      simpa only [joinable, hat, hth, Option.all_some] using hjoin
    · exact hstage.2 i k th hi hat hth
  · cases hq

theorem step_valid {l : ProcessLabel} (h : p.Valid) (hq : p.step l = some q) : q.Valid := by
  cases (step_went hq).2 with
  | listened hj hs => exact h.listened hj hs
  | started hth hs hrun hopen => exact h.started hth hs hrun hopen
  | iterated hth _ hs hrun hopen => exact h.iterated hth hs hrun hopen
  | @turned k _ th _ hth hl hs =>
    have hp : th.phase ≠ .launched := by
      rintro hp
      rcases hl with rfl | rfl <;> simp [State.threadStep, hp] at hs
    exact h.turn hth hs (fun _ _ => rfl) (h.awaited k th hth hp) (h.watched k th hth)
  | crashed _ _ => exact h.crash
  | woken _ _ _ => exact ⟨h.tabled, h.manned, h.apart, h.watched, h.awaited, h.unborn, h.stage⟩
  | main hm => exact h.mainStep hm

theorem valid_of_reach {svSocket listenerEvfd : Nat}
    (hr : Reach step (fun _ _ => True) (init cfg svSocket listenerEvfd) p) : p.Valid :=
  hr.invariant (init_valid cfg svSocket listenerEvfd) fun _ _ _ h _ hs => step_valid h hs

end Invariant

end Process

end ChatApp
