import ChatApp.Handovers

namespace ChatApp

open Effects Runs

variable {cfg : Config}

namespace State

-- the listener takes up the message that the server stops, and tells everyone
def Announces (s : State cfg) (l : Label) (t : State cfg) : Prop :=
  l = .queue ∧ (∃ stdin socket, s.listener = .queue true stdin socket) ∧
  s.shared.kernel.evfd s.listenerEvfd ≠ 0 ∧
  (∃ rest, s.shared.mgr.qWorkerToListener = svDisconnectedMsg.getConcatenatedMsg :: rest) ∧
  ∀ c ∈ s.shared.sv.clients.values, t.shared.sv.getClientRef c.personalId =
    some { c with sendQueue := c.sendQueue ++ [svDisconnectedMsg.getConcatenatedMsg] }

-- whatever happens until listener_loop ends, the message has gone out by then
def Announced (s : State cfg) : Prop :=
  ∀ ls t, run step s ls = some t → t.listener = .ended → Sometime step Announces s ls

-- the rest of the loop's body is all the listener will still do
def Stopping (s : State cfg) : Prop :=
  s.listener = .ended ∨
  s.shared.sv.done = true ∧ (s.listener = .head ∨ ∃ socket, s.listener = .accept socket)

section Steps

variable {s t : State cfg} {l : Label} {socket : Bool}

theorem stopping_undisturbed (h : s.Stopping) (hl : t.listener = s.listener)
    (hd : t.shared.sv.done = s.shared.sv.done) : t.Stopping := by
  rw [Stopping, hl, hd]
  exact h

theorem listenerStep_stopping (h : s.Stopping) (ht : s.listenerStep l = some t) :
    t.Stopping ∧ l ≠ .queue := by
  rcases h with hend | ⟨hdone, hhead | ⟨socket, hacc⟩⟩
  · cases l <;> simp [listenerStep, hend] at ht
  · cases l with
    | poll evfd stdin socket =>
      simp only [listenerStep, hhead, if_true, Server.checkIsDone, hdone] at ht
      cases ht
      exact ⟨.inl rfl, by simp⟩
    | _ => simp [listenerStep, hhead] at ht
  · cases l with
    | accept env =>
      refine ⟨?_, by simp⟩
      simp only [listenerStep, hacc] at ht
      split_ifs at ht with hsocket henv
      · cases ht
        have hdone' (hub : ∀ u, acceptBranch s.listenerEvfd env s.shared ≠
            .error .undefinedBehaviour u) := acceptBranch_done hub hdone
        unfold runListener
        cases hr : acceptBranch s.listenerEvfd env s.shared with
        | ok _ u =>
          rw [hr] at hdone'
          exact .inr ⟨hdone' (by simp), .inl rfl⟩
        | error e u =>
          cases e with
          | undefinedBehaviour => exact .inr ⟨hdone, .inr ⟨socket, hacc⟩⟩
          | _ => exact .inl rfl
      · cases ht
        exact .inr ⟨hdone, .inl rfl⟩
    | _ => simp [listenerStep, hacc] at ht

theorem step_stopping (h : s.Sound ∧ s.Stopping) (ht : s.step l = some t) :
    (t.Sound ∧ t.Stopping) ∧ ¬ Announces s l t := by
  have hsound := step_sound h.1 ht
  obtain ⟨_, ⟨_, hs⟩ | ⟨k, th, hth, hs⟩⟩ := step_cases ht
  · obtain ⟨hc, hne⟩ := listenerStep_stopping h.2 hs
    exact ⟨⟨hsound, hc⟩, fun ha => hne ha.1⟩
  · have hne : l ≠ .queue := by
      rintro rfl
      simp [threadStep] at hs
    refine ⟨⟨hsound, ?_⟩, fun ha => hne ha.1⟩
    cases threadStep_turned h.1 hth hs with
    | started _ => exact stopping_undisturbed h.2 rfl rfl
    | waits _ _ _ => exact stopping_undisturbed h.2 rfl rfl
    | left _ _ => exact stopping_undisturbed h.2 rfl rfl
    | threw sends => exact stopping_undisturbed h.2 rfl rfl
    | @iterated _ ev _ _ _ _ _ _ _ _ _ hit =>
      obtain ⟨accepts, ups, ho, _⟩ := h.1.owned
      have ho₁ : Owned s.held accepts ups (s.withSends ev.sends).shared := ho.of_core rfl
      obtain ⟨_, _, _, rfl⟩ := pollQueue_polled ho₁ hit.polled
      exact stopping_undisturbed h.2 rfl hit.kept.done

theorem stdinBranch_quit (s : Shared cfg) :
    (s.sv.done = true ∧ ∃ what, stdinBranch (some quitMsg) s = .error (.runtimeError what) s) ∨
    (s.sv.done = false ∧ ∃ u, stdinBranch (some quitMsg) s = .ok () u ∧ u.sv.done = true ∧
      u.kernel = s.kernel) := by
  unfold stdinBranch
  rw [if_pos rfl]
  cases hd : s.sv.done with
  | true =>
    have herr : onServer Server.setIsDone s =
        .error (.runtimeError "Server did not finish\n") s := by
      simp [onServer, Server.setIsDone, hd]
    exact .inl ⟨rfl, _, bind_of_error herr⟩
  | false =>
    have hset : onServer Server.setIsDone s = .ok () (s.setDone true) := by
      simp [onServer, Server.setIsDone, hd, Shared.setDone]
    refine .inr ⟨rfl, ?_⟩
    rw [bind_of_ok hset]
    cases hroom : cfg.hasRoom (s.setDone true).mgr.qWorkerToListener with
    | false =>
      rw [bind_of_ok (tryPushWorkerToListener_full hroom)]
      exact ⟨_, rfl, rfl, rfl⟩
    | true =>
      rw [bind_of_ok (tryPushWorkerToListener_room hroom)]
      exact ⟨_, rfl, rfl, rfl⟩

theorem step_stdin_true {buffer : Option Str} (hl : s.listener = .stdin true socket)
    (ht : s.step (.stdin buffer) = some t) :
    s.terminated = false ∧ s.joined = true ∧
      t = s.runListener (stdinBranch buffer) (.accept socket) := by
  unfold step at ht
  split_ifs at ht with hterm hj
  simp only [listenerStep, hl, if_true, Option.some.injEq] at ht
  exact ⟨by simpa using hterm, hj, ht.symm⟩

theorem joined_withShared {sh : Shared cfg} (h : s.Sound) (hk : sh.kernel = s.shared.kernel)
    (pc : ListenerPc) : (s.withShared sh pc).joined = s.joined := by
  have hs : sh.kernel.spawned = s.shared.kernel.spawned ++ [] := by rw [hk, List.append_nil]
  have hth := threads_withShared h hs pc
  rw [List.map_nil, List.append_nil] at hth
  have hkernel : (s.withShared sh pc).shared.kernel = s.shared.kernel := hk
  simp only [joined, hth, hkernel]

theorem quit_stopping (h : s.Sound) (hl : s.listener = .stdin true socket)
    (ht : s.step (.stdin (some quitMsg)) = some t) :
    t.Stopping ∧ t.terminated = false ∧ t.joined = true := by
  obtain ⟨hterm, hj, rfl⟩ := step_stdin_true hl ht
  unfold runListener
  rcases stdinBranch_quit s.shared with ⟨_, what, hr⟩ | ⟨_, u, hr, hdone, hk⟩
  · rw [hr]
    exact ⟨.inl rfl, hterm, (joined_withShared h rfl _).trans hj⟩
  · rw [hr]
    exact ⟨.inr ⟨hdone, .inr ⟨socket, rfl⟩⟩, hterm, (joined_withShared h hk _).trans hj⟩

-- an accept4 that fails is answered by set_is_done, which throws when the server is stopping
def failedAccept : AcceptEnv := { accept4 := .failed, eventfd := -1 }

theorem acceptBranch_failed {L : Int} {sh : Shared cfg} (hd : sh.sv.done = true) :
    ∃ what, acceptBranch L failedAccept sh = .error (.runtimeError what) sh := by
  have hbody : ∃ what, acceptBranchBody L failedAccept sh = .error (.runtimeError what) sh := by
    have hsock : ∃ what, onServer (Server.acceptClient true failedAccept) sh =
        .error (.runtimeError what) sh := by
      unfold onServer Server.acceptClient
      by_cases hs : sh.sv.svSocket < 0
      · exact ⟨_, by simp [hs]; rfl⟩
      · exact ⟨_, by simp [hs, failedAccept]; rfl⟩
    obtain ⟨what, hw⟩ := hsock
    exact ⟨what, bind_of_error (bind_of_error hw)⟩
  obtain ⟨what, hw⟩ := hbody
  refine ⟨"Server did not finish\n", ?_⟩
  simp only [acceptBranch, hw, onServer, Server.setIsDone, get_bind_run, hd, if_true, throw_run]

theorem head_ends (hterm : s.terminated = false) (hj : s.joined = true)
    (hl : s.listener = .head) (hd : s.shared.sv.done = true) :
    ∃ t, s.step (.poll false false false) = some t ∧ t.listener = .ended := by
  refine ⟨{ s with listener := .ended }, ?_, rfl⟩
  simp [step, hterm, hj, listenerStep, hl, Server.checkIsDone, hd]

theorem stopping_ends (h : s.Stopping) (hterm : s.terminated = false) (hj : s.joined = true) :
    ∃ ls t, run step s ls = some t ∧ t.listener = .ended := by
  rcases h with hend | ⟨hdone, hhead | ⟨socket, hacc⟩⟩
  · exact ⟨[], s, rfl, hend⟩
  · obtain ⟨t, ht, hend⟩ := head_ends hterm hj hhead hdone
    exact ⟨[_], t, by rw [run, ht]; rfl, hend⟩
  · cases socket with
    | true =>
      obtain ⟨what, hw⟩ := acceptBranch_failed (L := s.listenerEvfd) hdone
      have henv : s.envOk failedAccept = true := by simp [envOk, failedAccept]
      have hs : s.step (.accept failedAccept) = some (s.withShared s.shared .ended) := by
        simp [step, hterm, hj, listenerStep, hacc, henv, runListener, hw]
      exact ⟨[_], _, by rw [run, hs]; rfl, rfl⟩
    | false =>
      have hs : s.step (.accept failedAccept) = some { s with listener := .head } := by
        simp [step, hterm, hj, listenerStep, hacc]
      obtain ⟨t, ht, hend⟩ := head_ends (s := { s with listener := .head }) hterm hj rfl hdone
      exact ⟨[_, _], t, by rw [run, hs, Option.bind_some, run, ht]; rfl, hend⟩

theorem stopping_never_announces (h : s.Sound) (hc : s.Stopping) (ls : List Label) :
    ¬ Sometime step Announces s ls :=
  not_sometime (I := fun s => s.Sound ∧ s.Stopping) ⟨h, hc⟩ fun _ _ _ hI ht => step_stopping hI ht

end Steps

end State

-- once the operator quits, nobody is told any more
theorem quit_unannounced {svSocket listenerEvfd : Nat} {s t : State cfg} {socket : Bool}
    (hr : Reach State.step (fun _ _ => True) (State.init cfg svSocket listenerEvfd) s)
    (hl : s.listener = .stdin true socket) (ht : s.step (.stdin (some quitMsg)) = some t) :
    (∀ ls, ¬ Sometime State.step State.Announces t ls) ∧ ¬ t.Announced := by
  have hsound := State.sound_of_reach hr
  obtain ⟨hstopping, hterm, hj⟩ := State.quit_stopping hsound hl ht
  have hnever := State.stopping_never_announces (State.step_sound hsound ht) hstopping
  refine ⟨hnever, fun h => ?_⟩
  obtain ⟨ls, u, hrun, hend⟩ := State.stopping_ends hstopping hterm hj
  exact hnever ls (h ls u hrun hend)

-- a client is connected when the operator asks for the input to be looked at
def untilInput : List Label :=
  listenerRound false true (connection 5 6) ++ [.poll false true false, .queue]

theorem untilInput_reached {q : State Config.deployed → Bool}
    (h : (run State.step (State.init Config.deployed 3 4) untilInput).any (fun s =>
      s.listener = .stdin true false && (s.step (.stdin (some quitMsg))).isSome && q s) = true) :
    ∃ s t : State Config.deployed,
      Reach State.step (fun _ _ => True) (State.init Config.deployed 3 4) s ∧
      s.listener = .stdin true false ∧ s.step (.stdin (some quitMsg)) = some t ∧ q s = true := by
  obtain ⟨s, hr, hs⟩ := exists_of_run (fun _ _ => trivial) h
  simp only [Bool.and_eq_true, decide_eq_true_eq] at hs
  obtain ⟨⟨hl, hstep⟩, hq⟩ := hs
  obtain ⟨t, ht⟩ := Option.isSome_iff_exists.mp hstep
  exact ⟨s, t, hr, hl, ht, hq⟩

theorem quit_unannounced_connected : ∃ s t : State Config.deployed,
    s.shared.sv.clients.values.length = 1 ∧ s.step (.stdin (some quitMsg)) = some t ∧
    (∀ ls, ¬ Sometime State.step State.Announces t ls) ∧ ¬ t.Announced := by
  have hrun : (run State.step (State.init Config.deployed 3 4) untilInput).any (fun s =>
      s.listener = .stdin true false && (s.step (.stdin (some quitMsg))).isSome &&
        s.shared.sv.clients.values.length = 1) = true := by
    decide +kernel
  obtain ⟨s, t, hr, hl, ht, hone⟩ := untilInput_reached hrun
  exact ⟨s, t, of_decide_eq_true hone, ht, quit_unannounced hr hl ht⟩

-- the queues are empty, and listener_loop ends with the message still in the one it reads
theorem connected_not_announced : ¬ ∀ (s t : State Config.deployed) (socket : Bool),
    Reach State.step (fun _ _ => True) (State.init Config.deployed 3 4) s →
    s.listener = .stdin true socket →
    Config.deployed.hasRoom s.shared.mgr.qWorkerToListener = true →
    (∀ c ∈ s.shared.sv.clients.values, Config.deployed.hasRoom c.sendQueue = true) →
    s.step (.stdin (some quitMsg)) = some t → t.Announced := by
  intro hall
  have hrun : (run State.step (State.init Config.deployed 3 4) untilInput).any (fun s =>
      s.listener = .stdin true false && (s.step (.stdin (some quitMsg))).isSome &&
        (s.shared.sv.clients.values.length = 1 && s.shared.mgr.qWorkerToListener = [] &&
          s.shared.sv.clients.values.all fun c => c.sendQueue = [])) = true := by
    decide +kernel
  obtain ⟨s, t, hr, hl, ht, hq⟩ := untilInput_reached hrun
  simp only [Bool.and_eq_true, decide_eq_true_eq] at hq
  obtain ⟨⟨_, hempty⟩, hqueues⟩ := hq
  have hroom : Config.deployed.hasRoom s.shared.mgr.qWorkerToListener = true := by
    rw [hempty]
    decide
  have hrooms (c : ClientData) (hc : c ∈ s.shared.sv.clients.values) :
      Config.deployed.hasRoom c.sendQueue = true := by
    rw [of_decide_eq_true (List.all_eq_true.mp hqueues c hc)]
    decide
  have hsound := State.sound_of_reach hr
  obtain ⟨hstopping, hterm, hj⟩ := State.quit_stopping hsound hl ht
  obtain ⟨ls, u, hls, hend⟩ := State.stopping_ends hstopping hterm hj
  exact State.stopping_never_announces (State.step_sound hsound ht) hstopping ls
    (hall s t false hr hl hroom hrooms ht ls u hls hend)

end ChatApp
