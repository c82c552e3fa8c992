import ChatApp.Shutdown
import Mathlib.Algebra.BigOperators.Group.List.Basic

namespace ChatApp

open Effects Runs

variable {cfg : Config}

-- how many steps a thread has before it once the server is told to stop
def Phase.stepsToEnd : Phase → Nat
  | .launched => 2
  | .waiting _ => 2
  | .head _ => 1
  | .ended _ => 0

-- at .accept the listener may still launch a worker
def ListenerPc.stepsToEnd : ListenerPc → Nat
  | .queue _ _ _ => 6
  | .stdin _ _ => 5
  | .accept _ => 4
  | .head => 1
  | .ended => 0

def stepsToEndOf (threads : List Thread) : Nat := (threads.map fun th => th.phase.stepsToEnd).sum

section Threads

variable {threads : List Thread} {k : Nat} {th : Thread}

theorem stepsToEndOf_cons (th : Thread) (threads : List Thread) :
    stepsToEndOf (th :: threads) = th.phase.stepsToEnd + stepsToEndOf threads := rfl

theorem stepsToEndOf_launched (threads : List Thread) (new : List Launch) :
    stepsToEndOf (threads ++ new.map fun l => ⟨l, .launched⟩) =
      stepsToEndOf threads + 2 * new.length := by
  induction threads with
  | nil =>
    induction new with
    | nil => rfl
    | cons l new ih =>
      simp only [List.nil_append, List.map_cons, stepsToEndOf_cons, List.length_cons] at ih ⊢
      rw [ih, Phase.stepsToEnd]
      omega
  | cons th threads ih =>
    rw [List.cons_append, stepsToEndOf_cons, ih, stepsToEndOf_cons, Nat.add_assoc]

theorem stepsToEndOf_set (h : threads[k]? = some th) (p : Phase) :
    stepsToEndOf (threads.set k { th with phase := p }) + th.phase.stepsToEnd =
      stepsToEndOf threads + p.stepsToEnd := by
  induction threads generalizing k with
  | nil => simp at h
  | cons x xs ih =>
    cases k with
    | zero =>
      obtain rfl : x = th := by simpa using h
      simp only [List.set_cons_zero, stepsToEndOf_cons]
      omega
    | succ k =>
      have := ih (k := k) (by simpa using h)
      simp only [List.set_cons_succ, stepsToEndOf_cons]
      omega

theorem stepsToEndOf_le (threads : List Thread) : stepsToEndOf threads ≤ 2 * threads.length := by
  induction threads with
  | nil => exact le_refl _
  | cons th threads ih =>
    have hone : th.phase.stepsToEnd ≤ 2 := by
      cases hp : th.phase <;> simp [Phase.stepsToEnd]
    rw [stepsToEndOf_cons, List.length_cons]
    omega

theorem stepsToEnd_le_stepsToEndOf (h : threads[k]? = some th) :
    th.phase.stepsToEnd ≤ stepsToEndOf threads :=
  List.le_sum_of_mem (List.mem_map_of_mem (List.mem_of_getElem? h))

end Threads

namespace State

def stepsToRest (s : State cfg) : Nat :=
  if s.terminated then 0 else s.listener.stepsToEnd + stepsToEndOf s.threads

-- the server has been told to stop
structure Quitting (s : State cfg) : Prop where
  sound : s.Sound
  done : s.shared.sv.done = true

section Steps

variable {s t : State cfg} {l : Label}

theorem stepsToRest_running (h : s.terminated = false) :
    s.stepsToRest = s.listener.stepsToEnd + stepsToEndOf s.threads := by
  rw [stepsToRest, h]
  rfl

theorem stepsToRest_withShared {sh : Shared cfg} {new : List Launch} (h : s.Sound)
    (hterm : s.terminated = false) (hs : sh.kernel.spawned = s.shared.kernel.spawned ++ new)
    (pc : ListenerPc) : (s.withShared sh pc).stepsToRest =
      pc.stepsToEnd + (stepsToEndOf s.threads + 2 * new.length) := by
  have hrun : (s.withShared sh pc).terminated = false := hterm
  rw [stepsToRest_running hrun, threads_withShared h hs, stepsToEndOf_launched]
  rfl

theorem runListener_stepsToRest {m : Prog cfg Unit} {next : ListenerPc} (h : s.Sound)
    (hterm : s.terminated = false)
    (hm : (∀ u, m s.shared ≠ .error .undefinedBehaviour u) →
      ∃ new, (final (m s.shared)).kernel.spawned = s.shared.kernel.spawned ++ new ∧
        next.stepsToEnd + 2 * new.length < s.listener.stepsToEnd)
    (hpos : 0 < s.listener.stepsToEnd) : (s.runListener m next).stepsToRest < s.stepsToRest := by
  rw [stepsToRest_running hterm]
  unfold runListener
  cases hr : m s.shared with
  | ok _ u =>
    rw [hr] at hm
    obtain ⟨new, hs, hlt⟩ := hm (by simp)
    have hnext : (s.withShared u next).stepsToRest = _ := stepsToRest_withShared h hterm hs next
    change (s.withShared u next).stepsToRest < _
    omega
  | error e u =>
    cases e with
    | undefinedBehaviour => exact Nat.add_pos_left hpos _
    | _ =>
      rw [hr] at hm
      obtain ⟨new, hs, hlt⟩ := hm (by simp)
      have hend : (s.withShared u .ended).stepsToRest = 0 + _ :=
        stepsToRest_withShared h hterm hs .ended
      change (s.withShared u .ended).stepsToRest < _
      omega

theorem queue_stepsToRest (h : s.Sound) (hterm : s.terminated = false) {stdin socket : Bool}
    (hl : s.listener = .queue true stdin socket) :
    (s.runListener (listenerProcessWorkerToListenerQ s.listenerEvfd)
      (.stdin stdin socket)).stepsToRest < s.stepsToRest := by
  obtain ⟨_, _, ho, _⟩ := h.owned
  obtain ⟨_, _, _, hs⟩ := listenerProcess_owned s.listenerEvfd ho
  refine runListener_stepsToRest h hterm (fun _ => ⟨[], by rw [hs, List.append_nil], ?_⟩) ?_
  · simp [hl, ListenerPc.stepsToEnd]
  · simp [hl, ListenerPc.stepsToEnd]

theorem stdin_stepsToRest (h : s.Sound) (hterm : s.terminated = false) {socket : Bool}
    (hl : s.listener = .stdin true socket) (buffer : Option Str) :
    (s.runListener (stdinBranch buffer) (.accept socket)).stepsToRest < s.stepsToRest := by
  obtain ⟨_, _, ho, _⟩ := h.owned
  obtain ⟨_, _, _, hk⟩ := stdinBranch_owned buffer ho
  refine runListener_stepsToRest h hterm (fun _ => ⟨[], by rw [hk, List.append_nil], ?_⟩) ?_
  · simp [hl, ListenerPc.stepsToEnd]
  · simp [hl, ListenerPc.stepsToEnd]

-- one turn of the accept branch launches at most one worker
theorem accept_stepsToRest (h : s.Sound) (hterm : s.terminated = false)
    (hl : s.listener = .accept true) (env : AcceptEnv) :
    (s.runListener (acceptBranch s.listenerEvfd env) .head).stepsToRest < s.stepsToRest := by
  refine runListener_stepsToRest h hterm (fun hub => ?_) ?_
  · obtain ⟨hover, _⟩ := acceptBranch_handover hub rfl
    have hless (n : Nat) (hn : n ≤ 1) :
        ListenerPc.head.stepsToEnd + 2 * n < s.listener.stepsToEnd := by
      simp only [hl, ListenerPc.stepsToEnd]
      omega
    cases hover with
    | nobody _ _ hs => exact ⟨[], by rw [hs, List.append_nil], hless 0 (by decide)⟩
    | chosen _ _ _ _ hs => exact ⟨[], by rw [hs, List.append_nil], hless 0 (by decide)⟩
    | @launched n l _ _ _ _ hs => exact ⟨[l], hs, hless 1 (le_refl _)⟩
  · simp [hl, ListenerPc.stepsToEnd]

theorem listener_stepsToRest {pc : ListenerPc} (hterm : s.terminated = false)
    (hlt : pc.stepsToEnd < s.listener.stepsToEnd) :
    State.stepsToRest { s with listener := pc } < s.stepsToRest := by
  have hrun : State.terminated { s with listener := pc } = false := hterm
  rw [stepsToRest_running hterm, stepsToRest_running hrun]
  exact Nat.add_lt_add_right hlt _

theorem listenerStep_stepsToRest (h : s.Quitting) (hterm : s.terminated = false)
    (ht : s.listenerStep l = some t) : t.stepsToRest < s.stepsToRest := by
  cases l with
  | poll evfd stdin socket =>
    simp only [listenerStep, Server.checkIsDone, h.done, if_true] at ht
    split_ifs at ht with hl
    cases ht
    exact listener_stepsToRest hterm (by simp [hl, ListenerPc.stepsToEnd])
  | queue =>
    simp only [listenerStep] at ht
    split at ht
    · rename_i evfd stdin socket hl
      split_ifs at ht with hevfd <;> cases ht
      · exact queue_stepsToRest h.sound hterm (hevfd ▸ hl)
      · exact listener_stepsToRest hterm (by simp [hl, ListenerPc.stepsToEnd])
    · cases ht
  | stdin buffer =>
    simp only [listenerStep] at ht
    split at ht
    · rename_i stdin socket hl
      split_ifs at ht with hstdin <;> cases ht
      · exact stdin_stepsToRest h.sound hterm (hstdin ▸ hl) buffer
      · exact listener_stepsToRest hterm (by simp [hl, ListenerPc.stepsToEnd])
    · cases ht
  | accept env =>
    simp only [listenerStep] at ht
    split at ht
    · rename_i socket hl
      split_ifs at ht with hsocket henv <;> cases ht
      · exact accept_stepsToRest h.sound hterm (hsocket ▸ hl) env
      · exact listener_stepsToRest hterm (by simp [hl, ListenerPc.stepsToEnd])
    · cases ht
  | _ => cases ht

theorem stepsToEnd_pos {k : Nat} {th : Thread} (ht : s.threadStep k th l = some t) :
    0 < th.phase.stepsToEnd := by
  cases hp : th.phase with
  | ended w => cases l <;> simp [threadStep, hp] at ht
  | _ => simp [Phase.stepsToEnd]

theorem setPhase_stepsToRest {k : Nat} {th : Thread} {p : Phase} (hterm : s.terminated = false)
    (hth : s.threads[k]? = some th) (hlt : p.stepsToEnd < th.phase.stepsToEnd) (sh : Shared cfg) :
    ({ s with shared := sh }.setPhase k th p).stepsToRest < s.stepsToRest := by
  have hrun : ({ s with shared := sh }.setPhase k th p).terminated = false := hterm
  have hset := stepsToEndOf_set hth p
  rw [stepsToRest_running hterm, stepsToRest_running hrun]
  change s.listener.stepsToEnd + stepsToEndOf (s.threads.set k { th with phase := p }) < _
  omega

theorem threadStep_stepsToRest {k : Nat} {th : Thread} (h : s.Quitting)
    (hterm : s.terminated = false) (hth : s.threads[k]? = some th)
    (ht : s.threadStep k th l = some t) : t.stepsToRest < s.stepsToRest := by
  have hpos := stepsToEnd_pos ht
  cases threadStep_turned h.sound hth ht with
  | started hp => exact setPhase_stepsToRest hterm hth (by simp [hp, Phase.stepsToEnd]) s.shared
  | waits _ _ hd =>
    rw [h.done] at hd
    cases hd
  | left hp _ => exact setPhase_stepsToRest hterm hth (by simp [hp, Phase.stepsToEnd]) s.shared
  | iterated hp _ _ => exact setPhase_stepsToRest hterm hth (by simp [hp, Phase.stepsToEnd]) _
  | threw sends =>
    have := stepsToEnd_le_stepsToEndOf hth
    rw [stepsToRest_running hterm]
    change 0 < _
    omega

theorem listenerStep_done (h : s.Quitting) (ht : s.listenerStep l = some t) :
    t.shared.sv.done = true := by
  obtain ⟨_, _, ho, _⟩ := h.sound.owned
  have stays {m : Prog cfg Unit} (next : ListenerPc)
      (hm : (∀ u, m s.shared ≠ .error .undefinedBehaviour u) →
        (final (m s.shared)).sv.done = true) :
      (s.runListener m next).shared.sv.done = true :=
    runListener_shared (P := fun sh => sh.sv.done = true) next h.done hm
  cases listenerStep_turn ht with
  | moved pc _ _ => exact h.done
  | queue _ =>
    exact stays _ fun _ => (listenerProcess_frame s.listenerEvfd ho).2.trans h.done
  | stdin buffer socket => exact stays _ fun _ => stdinBranch_done buffer s.shared h.done
  | accept _ _ => exact stays _ fun hub => acceptBranch_done hub h.done

theorem threadStep_done {k : Nat} {th : Thread} (h : s.Sound) (hth : s.threads[k]? = some th)
    (ht : s.threadStep k th l = some t) : t.shared.sv.done = s.shared.sv.done := by
  cases threadStep_turned h hth ht with
  | @iterated _ ev _ _ _ _ _ _ _ _ _ hit =>
    obtain ⟨accepts, ups, ho, _⟩ := h.owned
    have ho₁ : Owned s.held accepts ups (s.withSends ev.sends).shared := ho.of_core rfl
    obtain ⟨_, _, _, rfl⟩ := pollQueue_polled ho₁ hit.polled
    exact hit.kept.done
  | _ => rfl

theorem listener_enabled (hl : s.listener ≠ .ended) : ∃ l, (s.listenerStep l).isSome = true := by
  have henv : s.envOk failedAccept = true := by simp [envOk, failedAccept]
  cases hpc : s.listener with
  | head =>
    refine ⟨.poll false false false, ?_⟩
    simp only [listenerStep, hpc, if_true]
    split_ifs <;> rfl
  | queue evfd stdin socket =>
    refine ⟨.queue, ?_⟩
    simp only [listenerStep, hpc]
    split_ifs <;> rfl
  | stdin stdin socket =>
    refine ⟨.stdin none, ?_⟩
    simp only [listenerStep, hpc]
    split_ifs <;> rfl
  | accept socket =>
    refine ⟨.accept failedAccept, ?_⟩
    simp only [listenerStep, hpc, henv, if_true]
    split_ifs <;> rfl
  | ended => exact absurd hpc hl

end Steps

end State

end ChatApp
