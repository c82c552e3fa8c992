import ChatApp.ListenerSteps

namespace ChatApp

open Effects

variable {cfg : Config}

section Enrol

variable {held : List (Int × Int)} {accepts : List (Nat × Int × Int)} {ups : List ServerMessage}
variable {s t : Shared cfg}

def Server.enrol (sv : Server cfg) (n : Nat) (color : Int) : Server cfg :=
  { sv with
    clientDataId := sv.clientDataId + 1
    clients := sv.clients.fill { personalId := sv.clientDataId, fd := n, colorId := color }
    nrOfConnections := sv.nrOfConnections + 1 }

def Shared.enrol (s : Shared cfg) (n : Nat) (color : Int) : Shared cfg :=
  { s with
    sv := s.sv.enrol n color
    hist := { s.hist with
      arrivals := s.hist.arrivals ++ [((s.sv.clientDataId : Int), s.hist.broadcasts.length)] } }

def Shared.withClosed (s : Shared cfg) (fds : List Int) : Shared cfg :=
  { s with sv := { s.sv with closed := fds } }

def Server.closing (sv : Server cfg) (fd : Int) : Server cfg :=
  { sv with closed := sv.closed ++ [fd] }

theorem acceptClient_eq (sv : Server cfg) (env : AcceptEnv) :
    Server.acceptClient true env sv =
      if sv.svSocket < 0 then .error (.runtimeError "SV socket not initialized\n") sv
      else match env.accept4 with
        | .wouldBlock => .ok (-1, -1) sv
        | .failed => .error (.runtimeError "Failed to accept client\n") sv
        | .fd n =>
          if !env.getFlagsOk then
            .error (.runtimeError "Failed to get flags on client\n") (sv.closing n)
          else if !env.setFlagsOk then
            .error (.runtimeError "Failed fcntl call\n") (sv.closing n)
          else if sv.clients.isFull then .ok (-1, -1) (sv.closing n)
          else if Decimal.intMax < sv.clientDataId then .error .undefinedBehaviour sv
          else .ok ((n : Int), (sv.clientDataId : Int)) (sv.enrol n env.color) := by
  simp only [Server.acceptClient, get_bind_run]
  by_cases hs : sv.svSocket < 0
  · simp only [hs, if_true]
    rfl
  · simp only [hs, if_false]
    cases env.accept4 with
    | wouldBlock => rfl
    | failed => rfl
    | fd n =>
      simp only [Bool.true_and]
      cases env.getFlagsOk with
      | false => rfl
      | true =>
        cases env.setFlagsOk with
        | false => rfl
        | true =>
          simp only [Bool.not_true, Bool.false_eq_true, if_false, get_bind_run]
          split_ifs with hf hm
          · rfl
          · simp only [Server.newClientData, bind_run, get_run, hm, if_true, throw_run]
          · simp only [Server.newClientData, bind_run, get_run, hm, if_false, modify_run, pure_run]
            rfl

-- a refusal or an exception leaves the table alone
theorem acceptClient_ok {sv sv' : Server cfg} {env : AcceptEnv} {pair : Int × Int}
    (h : Server.acceptClient true env sv = .ok pair sv') :
    (pair = (-1, -1) ∧ ∃ fds, sv' = { sv with closed := fds }) ∨
    ∃ n : Nat, env.accept4 = .fd n ∧ sv.clients.isFull = false ∧
      (sv.clientDataId : Int) ≤ Decimal.intMax ∧
      pair = ((n : Int), (sv.clientDataId : Int)) ∧ sv' = sv.enrol n env.color := by
  rw [acceptClient_eq] at h
  split at h
  · cases h
  · split at h
    · cases h
      exact .inl ⟨rfl, _, rfl⟩
    · cases h
    · rename_i n ha
      split_ifs at h with hg hf hfull hmax
      · cases h
        exact .inl ⟨rfl, _, rfl⟩
      · cases h
        exact .inr ⟨n, ha, by simpa using hfull, by omega, rfl, rfl⟩

theorem acceptClient_error {sv sv' : Server cfg} {env : AcceptEnv} {e : Exn}
    (h : Server.acceptClient true env sv = .error e sv') :
    (∃ fds, sv' = { sv with closed := fds }) ∧
      (e = .undefinedBehaviour ∨ ∃ what, e = .runtimeError what) := by
  rw [acceptClient_eq] at h
  split at h
  · cases h
    exact ⟨⟨_, rfl⟩, .inr ⟨_, rfl⟩⟩
  · split at h
    · cases h
    · cases h
      exact ⟨⟨_, rfl⟩, .inr ⟨_, rfl⟩⟩
    · split_ifs at h <;> cases h
      · exact ⟨⟨_, rfl⟩, .inr ⟨_, rfl⟩⟩
      · exact ⟨⟨_, rfl⟩, .inr ⟨_, rfl⟩⟩
      · exact ⟨⟨_, rfl⟩, .inl rfl⟩

theorem values_enrol {sv : Server cfg} (h : sv.clients.isFull = false) (n : Nat) (color : Int) :
    (sv.enrol n color).clients.values.Perm
      ({ personalId := sv.clientDataId, fd := n, colorId := color } :: sv.clients.values) :=
  Slots.values_fill h _

theorem pairs_enrol {sv : Server cfg} (h : sv.clients.isFull = false) (n : Nat) (color : Int) :
    (sv.enrol n color).pairs.Perm (((n : Int), (sv.clientDataId : Int)) :: sv.pairs) := by
  rw [Server.pairs_eq, Server.pairs_eq]
  exact (values_enrol h n color).map _

theorem Owned.id_fresh (h : Owned held accepts ups s) : (s.sv.clientDataId : Int) ∉ s.sv.ids := by
  intro hm
  obtain ⟨p, hp, he⟩ := List.mem_map.mp hm
  have := (h.range p hp).2.2
  omega

theorem Owned.enrol (h : Owned held accepts ups s) (hfull : s.sv.clients.isFull = false)
    (hmax : (s.sv.clientDataId : Int) ≤ Decimal.intMax) {n : Nat} (hn : (n : Int) ≤ Decimal.intMax)
    (color : Int) :
    Owned (((n : Int), (s.sv.clientDataId : Int)) :: held) accepts ups (s.enrol n color) := by
  have hp := pairs_enrol hfull n color
  have hids : (s.sv.enrol n color).ids.Perm ((s.sv.clientDataId : Int) :: s.sv.ids) :=
    hp.map Prod.snd
  refine ⟨h.socket, ?_, ?_, ?_, ?_, h.downQueue, h.indexes, h.upQueue, h.upsOk, ?_, ?_⟩
  · exact hids.nodup_iff.mpr (List.nodup_cons.mpr ⟨h.id_fresh, h.nodup⟩)
  · intro p hpm
    have hid : ((s.sv.enrol n color).clientDataId : Int) = s.sv.clientDataId + 1 := rfl
    rcases List.mem_cons.mp (hp.mem_iff.mp hpm) with rfl | hpm
    · refine ⟨⟨by omega, hn⟩, by omega, ?_⟩
      change (s.sv.clientDataId : Int) < (s.sv.enrol n color).clientDataId
      omega
    · have hr := h.range p hpm
      refine ⟨hr.1, hr.2.1, ?_⟩
      change p.2 < (s.sv.enrol n color).clientDataId
      omega
  · change ((s.sv.clientDataId + 1 : Nat) : Int) ≤ Decimal.intMax + 1
    omega
  · intro c hc
    rcases List.mem_cons.mp ((values_enrol hfull n color).mem_iff.mp hc) with rfl | hc
    · exact List.not_mem_nil
    · exact h.names c hc
  · intro p hpm
    rcases List.mem_cons.mp hpm with rfl | hpm
    · exact .inr (hp.mem_iff.mpr List.mem_cons_self)
    · exact (h.known p hpm).imp id fun hm => hp.mem_iff.mpr (List.mem_cons_of_mem _ hm)
  · intro x hx
    have hh := h.holders x hx
    change _ ≤ (s.sv.enrol n color).ids.count x
    rw [hids.count_eq]
    simp only [List.map_cons, List.count_cons]
    omega

theorem Owned.refused (h : Owned held accepts ups s) :
    Owned ((-1, -1) :: held) accepts ups s where
  socket := h.socket
  nodup := h.nodup
  range := h.range
  counter := h.counter
  names := h.names
  downQueue := h.downQueue
  indexes := h.indexes
  upQueue := h.upQueue
  upsOk := h.upsOk
  known := by
    intro p hp
    rcases List.mem_cons.mp hp with rfl | hp
    · exact .inl rfl
    · exact h.known p hp
  holders := fun x hx => by
    have hne : ((-1 : Int) == x) = false := by simp; omega
    simpa [List.count_cons, hne] using h.holders x hx

theorem Owned.forget {p : Int × Int} (h : Owned (p :: held) accepts ups s) :
    Owned held accepts ups s where
  socket := h.socket
  nodup := h.nodup
  range := h.range
  counter := h.counter
  names := h.names
  downQueue := h.downQueue
  indexes := h.indexes
  upQueue := h.upQueue
  upsOk := h.upsOk
  known := fun q hq => h.known q (List.mem_cons_of_mem _ hq)
  holders := fun x hx => by
    have := h.holders x hx
    simp only [List.map_cons, List.count_cons] at this
    omega

-- the listener hands a client over by queueing an ACCEPT
theorem Owned.handOver {p : Int × Int} {i : Nat} (h : Owned (p :: held) accepts ups s)
    (hi : i < cfg.maxNrOfThreads) :
    Owned held (accepts ++ [(i, p)]) ups (s.pushListenerToWorker (acceptText i p.1 p.2)) where
  socket := h.socket
  nodup := h.nodup
  range := h.range
  counter := h.counter
  names := h.names
  downQueue := by
    have := h.downQueue
    simp [Shared.pushListenerToWorker, this, acceptTexts, Routing.text]
  indexes := by
    intro a ha
    rcases List.mem_append.mp ha with ha | ha
    · exact h.indexes a ha
    · rw [List.mem_singleton.mp ha]
      exact hi
  upQueue := h.upQueue
  upsOk := h.upsOk
  known := by
    intro q hq
    refine h.known q ?_
    simp only [List.map_append, List.map_cons, List.map_nil, List.mem_append, List.mem_cons,
      List.not_mem_nil, or_false] at hq ⊢
    tauto
  holders := fun x hx => by
    have hh := h.holders x hx
    simp only [List.map_append, List.map_cons, List.map_nil, List.count_append, List.count_cons,
      List.count_nil] at hh ⊢
    change _ ≤ s.sv.ids.count x
    omega

end Enrol

section Assign

variable {s t : Shared cfg} {socket clId listenerEvfd eventfd : Int}

theorem choose_entry {m : ServerThreadManager cfg} {i : Nat}
    (h : choose m = .assign i ∨ choose m = .raise i) :
    ∃ w, m.workerThreads.entries[i]? = some (some w) := by
  unfold choose at h
  by_cases h0 : m.nrOfLaunchedThreads = 0
  · simp [h0] at h
  · simp only [h0, if_false] at h
    cases hm : getMinAndIdx m.workerThreads with
    | none => simp [hm] at h
    | some b =>
      obtain ⟨⟨w, hw, _⟩, _⟩ := getMinAndIdx_least hm
      simp only [hm] at h
      have hi : b.2 = i := by
        rcases h with h | h <;> split_ifs at h <;> cases h <;> rfl
      exact ⟨w, hi ▸ hw⟩

-- what process_new_client does to the queue and to the threads, whatever it throws
inductive Placed (s : Shared cfg) (socket clId listenerEvfd : Int) (t : Shared cfg) : Prop
  | queued {i : Nat} (hi : i < cfg.maxNrOfThreads)
    (hq : t.mgr.qListenerToWorker = s.mgr.qListenerToWorker ++ [acceptText i socket clId])
    (hs : t.kernel.spawned = s.kernel.spawned)
  | nowhere (hq : t.mgr.qListenerToWorker = s.mgr.qListenerToWorker)
    (hs : t.kernel.spawned = s.kernel.spawned)
  | launched {i : Nat} {evfd : Int} (hi : i < cfg.maxNrOfThreads) (he : 0 ≤ evfd)
    (hq : t.mgr.qListenerToWorker = s.mgr.qListenerToWorker)
    (hs : t.kernel.spawned = s.kernel.spawned ++ [⟨socket, clId, i, evfd, listenerEvfd⟩])

theorem incCount_cases (n : Nat) (s : Shared cfg) :
    incCount n s = .error .undefinedBehaviour s ∨
    ∃ w, s.mgr.workerThreads.entries[n]? = some (some w) := by
  cases he : s.mgr.workerThreads.entries[n]? with
  | none => exact .inl (by simp [incCount, derefWorker, bind_run, he])
  | some x =>
    cases x with
    | none => exact .inl (by simp [incCount, derefWorker, bind_run, he])
    | some w => exact .inr ⟨w, rfl⟩

-- a new worker is in the array and running, but counts no client yet
def Shared.spawn (s : Shared cfg) (l : Launch) (old : Option WorkerEntry) : Shared cfg :=
  { s with
    mgr := { s.mgr with
      workerThreads := s.mgr.workerThreads.set s.mgr.nrOfLaunchedThreads
        (some ⟨0, l.personalEvfd, s.kernel.spawned.length⟩) }
    kernel := { s.kernel with
      evfd := fun x => if x = l.personalEvfd then 0 else s.kernel.evfd x
      spawned := s.kernel.spawned ++ [l]
      joining := (old.map WorkerEntry.thread).or s.kernel.joining } }

theorem emplaceNewWorker_spawn {n : Nat} {old : Option WorkerEntry} (he : ¬ eventfd < 0)
    (hold : s.mgr.workerThreads.entries[s.mgr.nrOfLaunchedThreads]? = some old) :
    emplaceNewWorker socket clId n listenerEvfd eventfd s =
      (do
        incCount n
        modify fun s => { s with mgr := { s.mgr with
          nrOfLaunchedThreads := s.mgr.nrOfLaunchedThreads + 1 } } : Prog cfg Unit)
        (s.spawn ⟨socket, clId, n, eventfd, listenerEvfd⟩ old) := by
  simp only [emplaceNewWorker, getEvfd, he, if_false, bind_run, modify_run, pure_run, get_run, hold]
  cases old <;> rfl

def Shared.counted (s : Shared cfg) (n : Nat) (w : WorkerEntry) : Shared cfg :=
  { s with mgr := { s.mgr with
      workerThreads := s.mgr.workerThreads.set n (some { w with count := w.count + 1 })
      nrOfLaunchedThreads := s.mgr.nrOfLaunchedThreads + 1 } }

-- eventfd() fails, the counted entry is empty or outside the array, or the worker is launched
theorem emplaceNewWorker_cases (socket clId listenerEvfd eventfd : Int) (n : Nat) (s : Shared cfg) :
    (eventfd < 0 ∧ emplaceNewWorker socket clId n listenerEvfd eventfd s =
      .error (.runtimeError "eventfd error\n") s) ∨
    0 ≤ eventfd ∧
      ((∃ u, emplaceNewWorker socket clId n listenerEvfd eventfd s = .error .undefinedBehaviour u) ∨
      ∃ old w, s.mgr.workerThreads.entries[s.mgr.nrOfLaunchedThreads]? = some old ∧
        (s.spawn ⟨socket, clId, n, eventfd, listenerEvfd⟩ old).mgr.workerThreads.entries[n]? =
          some (some w) ∧
        emplaceNewWorker socket clId n listenerEvfd eventfd s =
          .ok () ((s.spawn ⟨socket, clId, n, eventfd, listenerEvfd⟩ old).counted n w)) := by
  by_cases he : eventfd < 0
  · exact .inl ⟨he, emplaceNewWorker_eventfd he⟩
  · refine .inr ⟨by omega, ?_⟩
    cases hold : s.mgr.workerThreads.entries[s.mgr.nrOfLaunchedThreads]? with
    | none =>
      refine .inl ⟨{ s with kernel := { s.kernel with
        evfd := fun x => if x = eventfd then 0 else s.kernel.evfd x } }, ?_⟩
      simp only [emplaceNewWorker, getEvfd, he, if_false, bind_run, modify_run, pure_run, get_run,
        hold, throw_run]
    | some old =>
      rw [emplaceNewWorker_spawn he hold]
      rcases incCount_cases n (s.spawn ⟨socket, clId, n, eventfd, listenerEvfd⟩ old) with
        h | ⟨w, hw⟩
      · exact .inl ⟨_, bind_of_error h⟩
      · exact .inr ⟨old, w, rfl, hw, bind_of_ok (incCount_run hw)⟩

theorem emplaceNewWorker_final {n : Nat} :
    (∃ u, emplaceNewWorker socket clId n listenerEvfd eventfd s = .error .undefinedBehaviour u) ∨
    ((final (emplaceNewWorker socket clId n listenerEvfd eventfd s)).sv = s.sv ∧
      (final (emplaceNewWorker socket clId n listenerEvfd eventfd s)).hist = s.hist ∧
      (final (emplaceNewWorker socket clId n listenerEvfd eventfd s)).mgr.qWorkerToListener =
        s.mgr.qWorkerToListener ∧
      Placed s socket clId listenerEvfd
        (final (emplaceNewWorker socket clId n listenerEvfd eventfd s))) := by
  rcases emplaceNewWorker_cases socket clId listenerEvfd eventfd n s with
    ⟨_, h⟩ | ⟨he, hub | ⟨old, w, _, hw, h⟩⟩
  · rw [h]
    exact .inr ⟨rfl, rfl, rfl, .nowhere rfl rfl⟩
  · exact .inl hub
  · rw [h]
    exact .inr ⟨rfl, rfl, rfl, .launched (Slots.lt_of_get hw) he rfl rfl⟩

theorem assignTo_placed (socket clId listenerEvfd : Int) {i : Nat} {w : WorkerEntry}
    (h : s.mgr.workerThreads.entries[i]? = some (some w)) :
    (final (assignTo i socket clId s)).sv = s.sv ∧
      (final (assignTo i socket clId s)).hist = s.hist ∧
      (final (assignTo i socket clId s)).mgr.qWorkerToListener = s.mgr.qWorkerToListener ∧
      Placed s socket clId listenerEvfd (final (assignTo i socket clId s)) := by
  have hi := Slots.lt_of_get h
  rw [assignTo_eq h, assignClientToWorker_eq]
  split_ifs
  · exact ⟨rfl, rfl, rfl, .queued hi rfl rfl⟩
  · exact ⟨rfl, rfl, rfl, .queued hi rfl rfl⟩
  · exact ⟨rfl, rfl, rfl, .queued hi rfl rfl⟩
  · exact ⟨rfl, rfl, rfl, .nowhere rfl rfl⟩

theorem processNewClient_final :
    (∃ u, processNewClient socket clId listenerEvfd eventfd s = .error .undefinedBehaviour u) ∨
    ((final (processNewClient socket clId listenerEvfd eventfd s)).sv = s.sv ∧
      (final (processNewClient socket clId listenerEvfd eventfd s)).hist = s.hist ∧
      (final (processNewClient socket clId listenerEvfd eventfd s)).mgr.qWorkerToListener =
        s.mgr.qWorkerToListener ∧
      Placed s socket clId listenerEvfd
        (final (processNewClient socket clId listenerEvfd eventfd s))) := by
  rw [processNewClient_eq]
  cases hc : choose s.mgr with
  | launch n => exact emplaceNewWorker_final
  | assign i =>
    obtain ⟨w, hw⟩ := choose_entry (.inl hc)
    exact .inr (assignTo_placed socket clId listenerEvfd hw)
  | raise i =>
    obtain ⟨w, hw⟩ := choose_entry (.inr hc)
    have hplaced := assignTo_placed socket clId listenerEvfd (s := s.raiseMax) hw
    refine .inr ⟨hplaced.1, hplaced.2.1, hplaced.2.2.1, ?_⟩
    cases hplaced.2.2.2 with
    | queued hi hq hs => exact .queued hi hq hs
    | nowhere hq hs => exact .nowhere hq hs
    | launched hi he hq hs => exact .launched hi he hq hs
  | overLimit => exact .inr ⟨rfl, rfl, rfl, .nowhere rfl rfl⟩
  | allLaunched => exact .inr ⟨rfl, rfl, rfl, .nowhere rfl rfl⟩

end Assign

section Accept

variable {held : List (Int × Int)} {accepts : List (Nat × Int × Int)} {ups : List ServerMessage}
variable {s t : Shared cfg}

def Launch.client (l : Launch) : Int × Int := (l.clFd, l.clId)

-- where a pair that accept_client returned can be after process_new_client
theorem Owned.placed {p : Int × Int} {L : Int} (h : Owned (p :: held) accepts ups s)
    (hsv : t.sv = s.sv) (hup : t.mgr.qWorkerToListener = s.mgr.qWorkerToListener)
    (hp : Placed s p.1 p.2 L t) :
    ∃ (accepts' : List (Nat × Int × Int)) (new : List Launch),
      Owned (new.map Launch.client ++ held) accepts' ups t ∧
      t.kernel.spawned = s.kernel.spawned ++ new ∧
      (∀ l ∈ new, l.personalIndex < cfg.maxNrOfThreads ∧ 0 ≤ l.personalEvfd ∧ l.listenerEvfd = L) ∧
      ∀ q ∈ new.map Launch.client ++ accepts'.map Prod.snd, q = p ∨ q ∈ accepts.map Prod.snd := by
  have move {hs : List (Int × Int)} {as : List (Nat × Int × Int)} {u : Shared cfg}
      (ho : Owned hs as ups u) (hv : u.sv = s.sv) (hu : u.mgr.qWorkerToListener =
        s.mgr.qWorkerToListener) (hd : u.mgr.qListenerToWorker = t.mgr.qListenerToWorker) :
      Owned hs as ups t := by
    refine ho.congr ?_ ?_ ?_ ?_ hd.symm (hup.trans hu.symm)
    · rw [hsv, hv]
    · rw [hsv, hv]
    · rw [hsv, hv]
    · rw [hsv]
      exact h.names
  cases hp with
  | @queued i hi hq hs =>
    refine ⟨accepts ++ [(i, p)], [], move (h.handOver hi) rfl rfl hq.symm, by simp [hs], by simp,
      ?_⟩
    intro q hq
    simp only [List.map_nil, List.nil_append, List.map_append, List.map_cons, List.mem_append,
      List.mem_cons, List.not_mem_nil, or_false] at hq
    tauto
  | nowhere hq hs =>
    exact ⟨accepts, [], move h.forget rfl rfl hq.symm, by simp [hs], by simp,
      fun q hm => .inr (by simpa using hm)⟩
  | @launched i evfd hi he hq hs =>
    refine ⟨accepts, [⟨p.1, p.2, i, evfd, L⟩], move h rfl rfl hq.symm, hs, ?_, ?_⟩
    · intro l hl
      rw [List.mem_singleton.mp hl]
      exact ⟨hi, he, rfl⟩
    · intro q hm
      simpa [Launch.client] using hm

-- what one turn of the accept branch leaves behind
structure Admitted (held : List (Int × Int)) (accepts : List (Nat × Int × Int))
    (ups : List ServerMessage) (L : Int) (s t : Shared cfg) (accepts' : List (Nat × Int × Int))
    (new : List Launch) : Prop where
  owned : Owned (new.map Launch.client ++ held) accepts' ups t
  spawned : t.kernel.spawned = s.kernel.spawned ++ new
  launches : ∀ l ∈ new,
    l.personalIndex < cfg.maxNrOfThreads ∧ 0 ≤ l.personalEvfd ∧ l.listenerEvfd = L
  pairs : ∀ q ∈ new.map Launch.client ++ accepts'.map Prod.snd,
    q ∈ accepts.map Prod.snd ∨ q.2 ∉ s.sv.ids
  table : ∀ c ∈ t.sv.clients.values, c ∈ s.sv.clients.values ∨ c.initState = initialState

theorem Owned.neg_not_mem (h : Owned held accepts ups s) : (-1 : Int) ∉ s.sv.ids := by
  intro hm
  obtain ⟨p, hp, he⟩ := List.mem_map.mp hm
  have := (h.range p hp).2.1
  omega

-- accept_client refuses, or the client takes the next id and a free entry of the table
inductive Entered (env : AcceptEnv) (s : Shared cfg) : Int × Int → Shared cfg → Prop
  | refused (fds : List Int) :
    Entered env s (-1, -1) (s.withClosed fds)
  | entered {n : Nat} (hn : env.accept4 = .fd n) (hfull : s.sv.clients.isFull = false)
    (hmax : (s.sv.clientDataId : Int) ≤ Decimal.intMax) :
    Entered env s ((n : Int), (s.sv.clientDataId : Int)) (s.enrol n env.color)

theorem acceptClient_entered {env : AcceptEnv} {p : Int × Int}
    (h : acceptClient env s = .ok p t) : Entered env s p t := by
  obtain ⟨pair, u, hu, h₁⟩ := bind_ok h
  unfold onServer at hu
  split at hu
  · rename_i pair' sv hr
    cases hu
    rcases acceptClient_ok hr with ⟨rfl, fds, rfl⟩ | ⟨n, hn, hfull, hmax, rfl, rfl⟩
    · cases h₁
      exact .refused fds
    · have h0 : (0 : Int) ≤ s.sv.clientDataId := by omega
      simp only [h0, if_true] at h₁
      cases h₁
      exact .entered hn hfull hmax
  · cases hu

theorem acceptClient_throws {env : AcceptEnv} {e : Exn} (h : acceptClient env s = .error e t) :
    (∃ fds, t = s.withClosed fds) ∧
      (e = .undefinedBehaviour ∨ ∃ what, e = .runtimeError what) := by
  rw [acceptClient, bind_run] at h
  cases hu : onServer (Server.acceptClient true env) s with
  | ok pair u =>
    rw [hu] at h
    simp only at h
    split_ifs at h <;> cases h
  | error e' u =>
    rw [hu] at h
    cases h
    unfold onServer at hu
    split at hu
    · cases hu
    · rename_i sv hr
      cases hu
      obtain ⟨⟨fds, rfl⟩, hkind⟩ := acceptClient_error hr
      exact ⟨⟨fds, rfl⟩, hkind⟩

-- accept_client throws, or process_new_client runs on what it returned
theorem acceptBranchBody_cases (L : Int) (env : AcceptEnv) (s : Shared cfg) :
    (∃ u, acceptBranchBody L env s = .error .undefinedBehaviour u) ∨
    (∃ fds, final (acceptBranchBody L env s) = s.withClosed fds) ∨
    ∃ p u, Entered env s p u ∧ (final (acceptBranchBody L env s)).sv = u.sv ∧
      (final (acceptBranchBody L env s)).hist = u.hist ∧
      (final (acceptBranchBody L env s)).mgr.qWorkerToListener = u.mgr.qWorkerToListener ∧
      Placed u p.1 p.2 L (final (acceptBranchBody L env s)) := by
  cases hr : acceptClient env s with
  | error e u =>
    obtain ⟨⟨fds, hu⟩, _⟩ := acceptClient_throws hr
    rw [acceptBranchBody, bind_of_error hr]
    exact .inr (.inl ⟨fds, hu⟩)
  | ok p u =>
    rw [acceptBranchBody, bind_of_ok hr]
    refine processNewClient_final.imp_right fun h => .inr ?_
    exact ⟨p, u, acceptClient_entered hr, h⟩

theorem Entered.admitted {env : AcceptEnv} {p : Int × Int} {u : Shared cfg} {L : Int}
    (he : Entered env s p u) (h : Owned held accepts ups s)
    (henv : ∀ n : Nat, env.accept4 = .fd n → (n : Int) ≤ Decimal.intMax)
    (hsv : t.sv = u.sv) (hup : t.mgr.qWorkerToListener = u.mgr.qWorkerToListener)
    (hp : Placed u p.1 p.2 L t) : ∃ accepts' new, Admitted held accepts ups L s t accepts' new := by
  cases he with
  | refused fds =>
    have h₁ : Owned held accepts ups (s.withClosed fds) := h.congr rfl rfl rfl h.names rfl rfl
    obtain ⟨accepts', new, ho, hs, hl, hpairs⟩ := h₁.refused.placed hsv hup hp
    refine ⟨accepts', new, ho, hs, hl, fun q hq => ?_, ?_⟩
    · rcases hpairs q hq with rfl | hq
      · exact .inr h.neg_not_mem
      · exact .inl hq
    · rw [hsv]
      exact fun c hc => .inl hc
  | @entered n hn hfull hmax =>
    obtain ⟨accepts', new, ho, hs, hl, hpairs⟩ :=
      (h.enrol hfull hmax (henv n hn) env.color).placed hsv hup hp
    refine ⟨accepts', new, ho, hs, hl, fun q hq => ?_, ?_⟩
    · rcases hpairs q hq with rfl | hq
      · exact .inr h.id_fresh
      · exact .inl hq
    · intro c hc
      rw [hsv] at hc
      rcases List.mem_cons.mp ((values_enrol hfull n env.color).mem_iff.mp hc) with rfl | hc
      · exact .inr rfl
      · exact .inl hc

theorem acceptBranchBody_admitted {L : Int} {env : AcceptEnv} (h : Owned held accepts ups s)
    (henv : ∀ n : Nat, env.accept4 = .fd n → (n : Int) ≤ Decimal.intMax) :
    (∃ u, acceptBranchBody L env s = .error .undefinedBehaviour u) ∨
    ∃ accepts' new,
      Admitted held accepts ups L s (final (acceptBranchBody L env s)) accepts' new := by
  rcases acceptBranchBody_cases L env s with hub | ⟨fds, hf⟩ | ⟨p, u, he, hsv, _, hup, hp⟩
  · exact .inl hub
  · refine .inr ⟨accepts, [], ?_⟩
    rw [hf]
    refine ⟨h.congr rfl rfl rfl h.names rfl rfl, (List.append_nil _).symm, by simp, ?_,
      fun c hc => .inl hc⟩
    exact fun q hq => .inl (by simpa using hq)
  · exact .inr (he.admitted h henv hsv hup hp)

theorem setIsDone_final (s : Shared cfg) :
    ∃ d, final (onServer Server.setIsDone s) = { s with sv := { s.sv with done := d } } := by
  unfold onServer Server.setIsDone
  simp only [get_bind_run]
  split_ifs <;> exact ⟨_, rfl⟩

-- whatever the body threw, its handler changes the done flag at most
theorem acceptBranch_final (L : Int) (env : AcceptEnv) (s : Shared cfg) :
    (∃ u, acceptBranch L env s = .error .undefinedBehaviour u) ∨
    (∀ u, acceptBranchBody L env s ≠ .error .undefinedBehaviour u) ∧
    ∃ d, final (acceptBranch L env s) =
      { final (acceptBranchBody L env s) with
        sv := { (final (acceptBranchBody L env s)).sv with done := d } } := by
  unfold acceptBranch
  cases hr : acceptBranchBody L env s with
  | ok _ t => exact .inr ⟨by simp, t.sv.done, rfl⟩
  | error e t =>
    cases e with
    | undefinedBehaviour => exact .inl ⟨t, rfl⟩
    | serverFullException _ => exact .inr ⟨by simp, t.sv.done, rfl⟩
    | threadManagingException _ => exact .inr ⟨by simp, t.sv.done, rfl⟩
    | _ => exact .inr ⟨by simp, setIsDone_final t⟩

theorem acceptBranch_queue {L : Int} {env : AcceptEnv} {s : Shared cfg}
    (hub : ∀ u, acceptBranch L env s ≠ .error .undefinedBehaviour u) :
    (final (acceptBranch L env s)).mgr.qWorkerToListener = s.mgr.qWorkerToListener := by
  rcases acceptBranch_final L env s with ⟨u, hu⟩ | ⟨hbody, d, hd⟩
  · exact absurd hu (hub u)
  · rw [hd]
    rcases acceptBranchBody_cases L env s with ⟨u, hu⟩ | ⟨fds, hf⟩ | ⟨p, u, he, _, _, hup, _⟩
    · exact absurd hu (hbody u)
    · rw [hf]
      rfl
    · refine hup.trans ?_
      cases he <;> rfl

theorem acceptBranch_undefined {L : Int} {env : AcceptEnv}
    (h : acceptBranch L env s = .error .undefinedBehaviour t) :
    ∃ u, acceptBranchBody L env s = .error .undefinedBehaviour u := by
  have hdone (u : Shared cfg) : onServer Server.setIsDone u ≠ .error .undefinedBehaviour t := by
    unfold onServer Server.setIsDone
    simp only [get_bind_run]
    split_ifs <;> simp
  unfold acceptBranch at h
  cases hr : acceptBranchBody L env s with
  | ok _ u =>
    rw [hr] at h
    cases h
  | error e u =>
    rw [hr] at h
    cases e with
    | undefinedBehaviour => exact ⟨u, rfl⟩
    | serverFullException _ => cases h
    | threadManagingException _ => cases h
    | _ => exact absurd h (hdone u)

theorem Admitted.setDone {L : Int} {accepts' : List (Nat × Int × Int)} {new : List Launch}
    (d : Bool)
    (h : Admitted held accepts ups L s t accepts' new) :
    Admitted held accepts ups L s { t with sv := { t.sv with done := d } } accepts' new where
  owned := h.owned.congr rfl rfl rfl h.owned.names rfl rfl
  spawned := h.spawned
  launches := h.launches
  pairs := h.pairs
  table := h.table

theorem acceptBranch_admitted {L : Int} {env : AcceptEnv} (h : Owned held accepts ups s)
    (henv : ∀ n : Nat, env.accept4 = .fd n → (n : Int) ≤ Decimal.intMax) :
    (∃ u, acceptBranch L env s = .error .undefinedBehaviour u) ∨
    ∃ accepts' new, Admitted held accepts ups L s (final (acceptBranch L env s)) accepts' new := by
  rcases acceptBranch_final L env s with hub | ⟨hbody, d, hd⟩
  · exact .inl hub
  · rcases acceptBranchBody_admitted (L := L) h henv with ⟨u, hu⟩ | ⟨accepts', new, ha⟩
    · exact absurd hu (hbody u)
    · rw [hd]
      exact .inr ⟨accepts', new, ha.setDone d⟩

theorem Admitted.alive {L : Int} {accepts' : List (Nat × Int × Int)} {new : List Launch}
    (h : Admitted held accepts ups L s t accepts' new)
    (ha : Alive (held ++ accepts.map Prod.snd) s.sv) :
    Alive (new.map Launch.client ++ held ++ accepts'.map Prod.snd) t.sv := by
  intro p hp c hc hid
  rcases h.table c hc with hold | hnew
  · have hmem : c.personalId ∈ s.sv.ids := by
      rw [Server.ids_eq]
      exact List.mem_map_of_mem hold
    have hq : p ∈ held ∨ p ∈ new.map Launch.client ++ accepts'.map Prod.snd := by
      simp only [List.mem_append] at hp ⊢
      tauto
    rcases hq with hq | hq
    · exact ha p (List.mem_append_left _ hq) c hold hid
    · rcases h.pairs p hq with hq | hq
      · exact ha p (List.mem_append_right _ hq) c hold hid
      · exact absurd (hid ▸ hmem) hq
  · rw [hnew]
    decide

def Shared.setDone (s : Shared cfg) (d : Bool) : Shared cfg :=
  { s with sv := { s.sv with done := d } }

-- quitting sets the done flag and, unless the queue is full, queues the message that says so
theorem stdinBranch_final (buffer : Option Str) (s : Shared cfg) : ∃ d,
    final (stdinBranch buffer s) = s.setDone d ∨
    final (stdinBranch buffer s) =
      (s.setDone d).pushWorkerToListener svDisconnectedMsg.getConcatenatedMsg := by
  unfold stdinBranch
  split_ifs
  · obtain ⟨d, hd⟩ := setIsDone_final s
    refine ⟨d, ?_⟩
    cases hr : onServer Server.setIsDone s with
    | error e t =>
      rw [bind_of_error hr]
      rw [hr] at hd
      exact .inl hd
    | ok _ t =>
      rw [hr] at hd
      obtain rfl : t = s.setDone d := hd
      rw [bind_of_ok hr]
      cases hroom : cfg.hasRoom (s.setDone d).mgr.qWorkerToListener with
      | false =>
        rw [bind_of_ok (tryPushWorkerToListener_full hroom)]
        exact .inl rfl
      | true =>
        rw [bind_of_ok (tryPushWorkerToListener_room hroom)]
        exact .inr rfl
  · exact ⟨s.sv.done, .inl rfl⟩

theorem stdinBranch_owned (buffer : Option Str) (h : Owned held accepts ups s) :
    ∃ ups', Owned held accepts ups' (final (stdinBranch buffer s)) ∧
      (final (stdinBranch buffer s)).sv.clients = s.sv.clients ∧
      (final (stdinBranch buffer s)).kernel = s.kernel := by
  obtain ⟨d, hd⟩ := stdinBranch_final buffer s
  have hdone : Owned held accepts ups (s.setDone d) := h.congr rfl rfl rfl h.names rfl rfl
  rcases hd with hd | hd
  · rw [hd]
    exact ⟨ups, hdone, rfl, rfl⟩
  · rw [hd]
    have hne : svDisconnectedMsg.action ≠ getAction .clDisconnected := by decide
    have hne' : svDisconnectedMsg.action ≠ getAction .initDone := by decide
    have hpush := hdone.pushUp (by decide) (upOk_of_ne hne hne') (goneId_of_ne hne) 0
    exact ⟨ups ++ [svDisconnectedMsg], hpush.of_core rfl, rfl, rfl⟩

end Accept

end ChatApp
