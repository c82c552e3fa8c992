import ChatApp.ServerExit
import Mathlib.Data.Finset.Card

namespace ChatApp

open Effects Runs

variable {cfg : Config}

-- how many steps main has before it; ~Server has a socket of its own
def MainPc.stepsToReturn (cfg : Config) : MainPc → Nat
  | .joinListener => cfg.maxClients + cfg.maxNrOfThreads + 4
  | .closing fds => fds.length + cfg.maxNrOfThreads + 2
  | .joinWorkers n => n + 1
  | .returned => 0

namespace Process

-- in epoll_wait, with nothing in the eventfd
def asleep (p : Process cfg) (k : Nat) : Bool :=
  match p.server.threads[k]? with
  | some ⟨l, .waiting _⟩ =>
    (p.reported k).isNone && p.server.shared.kernel.evfd l.personalEvfd = 0
  | _ => false

-- in epoll_wait, which has not returned yet
def isWaiting (p : Process cfg) (k : Nat) : Bool :=
  match p.server.threads[k]? with
  | some ⟨_, .waiting _⟩ => (p.reported k).isNone
  | _ => false

def waiting (p : Process cfg) : Finset Nat :=
  (Finset.range p.server.threads.length).filter fun k => p.isWaiting k = true

-- beside the steps of the server itself, each epoll_wait returns once
def stepsToExit (p : Process cfg) : Nat :=
  if p.server.terminated then 0
  else p.server.stepsToRest + p.main.stepsToReturn cfg + p.waiting.card

structure Quitting (p : Process cfg) : Prop where
  valid : p.Valid
  done : p.server.shared.sv.done = true

section Waiting

variable {p q : Process cfg} {k : Nat} {th : Thread}

theorem asleep_iff : p.asleep k = true ↔ ∃ launch w,
    p.server.threads[k]? = some ⟨launch, .waiting w⟩ ∧ p.reported k = none ∧
      p.server.shared.kernel.evfd launch.personalEvfd = 0 := by
  unfold asleep
  split
  · rename_i launch w hth
    simp [hth]
  · rename_i hth
    simp only [Bool.false_eq_true, false_iff, not_exists, not_and]
    exact fun launch w h => absurd h (hth launch w)

theorem isWaiting_iff : p.isWaiting k = true ↔ ∃ launch w,
    p.server.threads[k]? = some ⟨launch, .waiting w⟩ ∧ p.reported k = none := by
  unfold isWaiting
  split
  · rename_i launch w hth
    simp [hth]
  · rename_i hth
    simp only [Bool.false_eq_true, false_iff, not_exists, not_and]
    exact fun launch w h => absurd h (hth launch w)

theorem mem_waiting : k ∈ p.waiting ↔ p.isWaiting k = true := by
  rw [waiting, Finset.mem_filter, Finset.mem_range, and_iff_right_iff_imp]
  intro h
  obtain ⟨launch, w, hth, _⟩ := isWaiting_iff.mp h
  exact (List.getElem?_eq_some_iff.mp hth).1

theorem waiting_card_le (p : Process cfg) : p.waiting.card ≤ p.server.threads.length := by
  have hle := Finset.card_filter_le (Finset.range p.server.threads.length)
    fun k => p.isWaiting k = true
  rwa [Finset.card_range] at hle

-- a worker that is on its way is not in epoll_wait, and those just launched are not either
theorem waiting_turned {s : State cfg} {m : Nat → List Int}
    {r : Nat → Option ((Int → Bool) × (Int → Bool))} {ph : Phase}
    (hthreads : s.threads = p.server.threads.set k { th with phase := ph })
    (hph : ∀ w, ph ≠ .waiting w) (hr : ∀ j, j ≠ k → r j = p.reported j) :
    waiting { p with server := s, monitored := m, reported := r } ⊆ p.waiting := by
  intro j hj
  rw [mem_waiting, isWaiting_iff] at hj ⊢
  obtain ⟨launch, w, hj, hnone⟩ := hj
  change s.threads[j]? = _ at hj
  by_cases he : j = k
  · subst he
    rw [hthreads, List.getElem?_set, if_pos rfl] at hj
    split_ifs at hj
    cases hj
    exact absurd rfl (hph w)
  · rw [hthreads, List.getElem?_set_ne (Ne.symm he)] at hj
    exact ⟨launch, w, hj, (hr j he).symm.trans hnone⟩

theorem waiting_launched {s : State cfg} {m : Nat → List Int} {new : List Launch}
    (hthreads : s.threads = p.server.threads ++ new.map fun l => ⟨l, .launched⟩) :
    waiting { p with server := s, monitored := m } ⊆ p.waiting := by
  intro j hj
  rw [mem_waiting, isWaiting_iff] at hj ⊢
  obtain ⟨launch, w, hj, hnone⟩ := hj
  change s.threads[j]? = _ at hj
  rw [hthreads, List.getElem?_append] at hj
  split_ifs at hj
  · exact ⟨launch, w, hj, hnone⟩
  · rw [List.getElem?_map, Option.map_eq_some_iff] at hj
    obtain ⟨_, _, hj⟩ := hj
    cases hj

theorem woken_waiting {x : (Int → Bool) × (Int → Bool)} (hk : k ∈ p.waiting) :
    waiting { p with reported := Function.update p.reported k (some x) } ⊂ p.waiting := by
  refine (Finset.ssubset_iff_of_subset fun j hj => ?_).mpr ⟨k, hk, fun hj => ?_⟩
  · rw [mem_waiting, isWaiting_iff] at hj ⊢
    obtain ⟨launch, w, hth, hnone⟩ := hj
    refine ⟨launch, w, hth, ?_⟩
    by_cases he : j = k
    · rw [he] at hnone
      simp at hnone
    · change Function.update p.reported k (some x) j = none at hnone
      rwa [Function.update_of_ne he] at hnone
  · obtain ⟨_, _, _, hnone⟩ := isWaiting_iff.mp (mem_waiting.mp hj)
    simp at hnone

end Waiting

section Steps

variable {p q : Process cfg} {l : ProcessLabel} {k : Nat} {th : Thread}

theorem Quitting.server (h : p.Quitting) : p.server.Quitting := ⟨h.valid.tabled.sound, h.done⟩

theorem stepsToExit_running (h : p.server.terminated = false) :
    p.stepsToExit = p.server.stepsToRest + p.main.stepsToReturn cfg + p.waiting.card := by
  rw [stepsToExit, h]
  rfl

-- the server has gone on
theorem stepsToExit_lt (hterm : p.server.terminated = false)
    (hlt : q.server.stepsToRest < p.server.stepsToRest) (hm : q.main = p.main)
    (hw : q.waiting ⊆ p.waiting) : q.stepsToExit < p.stepsToExit := by
  have hcard := Finset.card_le_card hw
  rw [stepsToExit_running hterm, stepsToExit, hm]
  split_ifs <;> omega

theorem sockets_length_le (p : Process cfg) : p.sockets.length ≤ cfg.maxClients + 1 := by
  have hle := List.reduceOption_length_le p.server.shared.sv.clients.entries
  rw [p.server.shared.sv.clients.size] at hle
  simpa [sockets, Slots.values] using hle

theorem mainStep_server (hq : p.mainStep = some q) :
    q.server = p.server ∧ q.reported = p.reported := by
  unfold Process.mainStep at hq
  split at hq <;> (try split_ifs at hq) <;> cases hq <;> exact ⟨rfl, rfl⟩

theorem mainStep_lt (hq : p.mainStep = some q) :
    q.main.stepsToReturn cfg < p.main.stepsToReturn cfg := by
  unfold Process.mainStep at hq
  split at hq
  · rename_i hm
    split_ifs at hq
    cases hq
    have hle := p.sockets_length_le
    simp only [hm, MainPc.stepsToReturn]
    omega
  · rename_i hm
    cases hq
    simp [hm, MainPc.stepsToReturn]
  · rename_i hm
    cases hq
    simp [hm, MainPc.stepsToReturn]
  · rename_i hm
    cases hq
    simp [hm, MainPc.stepsToReturn]
  · rename_i hm
    split_ifs at hq
    cases hq
    simp [hm, MainPc.stepsToReturn]
  · cases hq

theorem step_main (hq : p.step l = some q) :
    q.main.stepsToReturn cfg ≤ p.main.stepsToReturn cfg := by
  cases (step_went hq).2 with
  | main hm => exact (mainStep_lt hm).le
  | _ => exact le_refl _

theorem step_done (h : p.Quitting) (hq : p.step l = some q) :
    q.server.shared.sv.done = true := by
  have hsound := h.valid.tabled.sound
  cases (step_went hq).2 with
  | listened _ hs => exact State.listenerStep_done h.server hs
  | started hth hs _ _ => exact (State.threadStep_done hsound hth hs).trans h.done
  | iterated hth _ hs _ _ => exact (State.threadStep_done hsound hth hs).trans h.done
  | turned hth _ hs => exact (State.threadStep_done hsound hth hs).trans h.done
  | crashed _ _ => exact h.done
  | woken _ _ _ => exact h.done
  | main hm => rw [(mainStep_server hm).1, h.done]

theorem step_stepsToExit (h : p.Quitting) (hq : p.step l = some q) :
    q.stepsToExit < p.stepsToExit := by
  obtain ⟨hterm, hwent⟩ := step_went hq
  have hsound := h.valid.tabled.sound
  cases hwent with
  | listened _ hs =>
    obtain ⟨_, _, _, _, new, hthreads⟩ := State.listenerStep_listened h.valid.apart hs
    exact stepsToExit_lt hterm (State.listenerStep_stepsToRest h.server hterm hs) rfl
      (waiting_launched hthreads)
  | started hth hs hrun _ =>
    refine stepsToExit_lt hterm (State.threadStep_stepsToRest h.server hterm hth hs) rfl ?_
    cases State.threadStep_turned hsound hth hs with
    | started _ => exact waiting_turned rfl (by simp) fun _ _ => rfl
    | threw _ => cases hrun
  | iterated hth _ hs hrun _ =>
    refine stepsToExit_lt hterm (State.threadStep_stepsToRest h.server hterm hth hs) rfl ?_
    cases State.threadStep_turned hsound hth hs with
    | iterated _ _ _ =>
      exact waiting_turned rfl (by simp) fun j hj => Function.update_of_ne hj _ _
    | threw _ => cases hrun
  | turned hth hl hs =>
    refine stepsToExit_lt hterm (State.threadStep_stepsToRest h.server hterm hth hs) rfl ?_
    cases State.threadStep_turned hsound hth hs with
    | waits _ _ hgoing =>
      rw [h.done] at hgoing
      cases hgoing
    | left _ _ => exact waiting_turned rfl (by simp) fun _ _ => rfl
    | threw _ => exact subset_of_eq rfl
    | _ => rcases hl with hl | hl <;> cases hl
  | crashed hth hs =>
    refine stepsToExit_lt hterm ?_ rfl (subset_of_eq rfl)
    have hpos := State.threadStep_stepsToRest h.server hterm hth hs
    exact Nat.lt_of_le_of_lt (Nat.zero_le _) hpos
  | @woken k pollIn pollOut launch w hth hr hready =>
    have hmem : k ∈ p.waiting := mem_waiting.mpr (isWaiting_iff.mpr ⟨launch, w, hth, hr⟩)
    have hcard := Finset.card_lt_card (woken_waiting
      (x := (p.readable k launch pollIn, p.writable k launch pollOut)) hmem)
    have hrun : p.server.terminated = false := hterm
    rw [stepsToExit_running hterm, stepsToExit]
    simp only [hrun, Bool.false_eq_true, if_false]
    exact Nat.add_lt_add_left hcard _
  | main hm =>
    obtain ⟨hserver, hreported⟩ := mainStep_server hm
    have hlt := mainStep_lt hm
    have hsame : q.waiting = p.waiting := Finset.ext fun k => by
      rw [mem_waiting, mem_waiting, isWaiting, isWaiting, hserver, hreported]
    rw [stepsToExit_running hterm, stepsToExit, hserver, hterm, hsame]
    simp only [Bool.false_eq_true, if_false]
    omega

theorem step_quitting (h : p.Quitting) (hq : p.step l = some q) :
    q.Quitting ∧ q.stepsToExit < p.stepsToExit :=
  ⟨⟨step_valid h.valid hq, step_done h hq⟩, step_stepsToExit h hq⟩

-- a worker that does not sleep goes on until its loop ends
theorem Valid.enabled (h : p.Valid) (hterm : p.server.terminated = false)
    (hd : p.server.shared.sv.done = true) (hth : p.server.threads[k]? = some th)
    (hawake : p.asleep k = false) (hend : th.isEnded = false) :
    ∃ l, (p.step l).isSome = true := by
  obtain ⟨launch, phase⟩ := th
  cases phase with
  | launched =>
    refine ⟨.server (.start k freshFrame), ?_⟩
    simp [step, hterm, serverStep, start, hth, State.step, State.threadStep]
  | head w =>
    refine ⟨.server (.leave k), ?_⟩
    simp [step, hterm, serverStep, hth, State.step, State.threadStep, Server.checkIsDone, hd]
  | waiting w =>
    cases hr : p.reported k with
    | some r =>
      refine ⟨.server (.iterate k ⟨fun _ => false, fun _ => false, fun _ => .zero, []⟩), ?_⟩
      simp [step, hterm, serverStep, iterate, hth, hr, State.step, State.threadStep]
    | none =>
      have hevfd : p.server.shared.kernel.evfd launch.personalEvfd ≠ 0 := by
        simpa [asleep, hth, hr] using hawake
      have hmem : launch.personalEvfd ∈ p.monitored k := h.awaited k _ hth (by simp)
      refine ⟨.wake k (fun _ => true) fun _ => true, ?_⟩
      have hready : (p.monitored k).any (fun fd => p.readable k launch (fun _ => true) fd ||
          p.writable k launch (fun _ => true) fd) = true := by
        refine List.any_eq_true.mpr ⟨_, hmem, ?_⟩
        simp [readable, hmem, hevfd]
      simp [step, hterm, wake, hth, hr, hready]
  | ended w => simp [Thread.isEnded] at hend

theorem listener_enabled {l : Label} (hterm : p.server.terminated = false)
    (hj : p.server.joined = true) (hl : (p.server.listenerStep l).isSome = true) :
    (p.step (.server l)).isSome = true := by
  have hrun : (p.step (.server l)) = p.serverStep l := by simp [step, hterm]
  rw [hrun]
  cases l with
  | start k frame | wait k | iterate k ev | leave k => cases hl
  | poll evfd stdin socket | queue | stdin buffer | accept env =>
    simp only [serverStep, State.step, hterm, hj, Bool.false_eq_true, if_false, if_true]
    rwa [Option.isSome_map]

theorem main_enabled (hterm : p.server.terminated = false) (hl : p.server.listener = .ended)
    (hj : p.server.joined = true) (hm : p.main ≠ .returned)
    (hall : ∀ (k : Nat) (th : Thread), p.server.threads[k]? = some th → th.isEnded = true) :
    (p.step .main).isSome = true := by
  have hrun : p.step .main = p.mainStep := by simp [step, hterm]
  rw [hrun, mainStep]
  cases hp : p.main with
  | joinListener => simp [hl, hj]
  | closing fds => cases fds <;> rfl
  | joinWorkers n =>
    cases n with
    | zero => rfl
    | succ n =>
      have hjoin : p.joinable n = true := by
        unfold joinable
        split
        · rfl
        · rename_i k _
          cases hth : p.server.threads[k]? with
          | none => rfl
          | some th => exact hall k th hth
      simp [hjoin]
  | returned => exact absurd hp hm

-- at rest, unless a worker sleeps, everybody has come to the end
theorem Quitting.stuck (h : p.Quitting) (hterm : p.server.terminated = false)
    (hs : Stuck step p) : (∃ k, p.asleep k = true) ∨ p.main = .returned ∧
      p.server.listener = .ended ∧ ∀ th ∈ p.server.threads, th.isEnded = true := by
  refine or_iff_not_imp_left.mpr fun hno => ?_
  simp only [not_exists, Bool.not_eq_true] at hno
  have blocked (l : ProcessLabel) (hl : (p.step l).isSome = true) : False := by
    rw [hs l] at hl
    cases hl
  have hall (k : Nat) (th : Thread) (hth : p.server.threads[k]? = some th) :
      th.isEnded = true := by
    cases he : th.isEnded with
    | true => rfl
    | false =>
      obtain ⟨l, hl⟩ := h.valid.enabled hterm h.done hth (hno k) he
      exact (blocked l hl).elim
  have hj : p.server.joined = true := by
    unfold State.joined
    split
    · rfl
    · rename_i k _
      cases hth : p.server.threads[k]? with
      | none => rfl
      | some th => exact hall k th hth
  have hend : p.server.listener = .ended := by
    by_contra hl
    obtain ⟨l, hl⟩ := State.listener_enabled hl
    exact blocked _ (listener_enabled hterm hj hl)
  have hret : p.main = .returned := by
    by_contra hm
    exact blocked _ (main_enabled hterm hend hj hm hall)
  refine ⟨hret, hend, fun th hth => ?_⟩
  obtain ⟨k, hk, rfl⟩ := List.getElem_of_mem hth
  exact hall k _ (List.getElem?_eq_getElem hk)

theorem stepsToExit_le (p : Process cfg) : p.stepsToExit ≤
    p.server.listener.stepsToEnd + 3 * p.server.threads.length + p.main.stepsToReturn cfg := by
  have hwaiting := p.waiting_card_le
  have hthreads := stepsToEndOf_le p.server.threads
  unfold stepsToExit State.stepsToRest
  split_ifs <;> omega

end Steps

-- once it has been told to stop the process comes to rest, whatever its clients go on sending
theorem quit_comes_to_rest {svSocket listenerEvfd : Nat} {p : Process cfg}
    (hr : Reach step (fun _ _ => True) (init cfg svSocket listenerEvfd) p)
    (hd : p.server.shared.sv.done = true) :
    (∀ ls q, run step p ls = some q →
      ls.length ≤ 3 * p.server.threads.length + cfg.maxClients + cfg.maxNrOfThreads + 10 ∧
      (Stuck step q → q.server.terminated = true ∨ (∃ k, q.asleep k = true) ∨
        q.main = .returned ∧ q.server.listener = .ended ∧
          ∀ th ∈ q.server.threads, th.isEnded = true)) ∧
    ∃ ls q, run step p ls = some q ∧ Stuck step q := by
  have hq : p.Quitting := ⟨valid_of_reach hr, hd⟩
  have hstep (p : Process cfg) (l : ProcessLabel) (q : Process cfg) (h : p.Quitting)
      (hs : p.step l = some q) := step_quitting h hs
  refine ⟨fun ls q hrun => ⟨?_, fun hstuck => ?_⟩, exists_stuck hq hstep⟩
  · have hlen := run_length_le hq hstep hrun
    have hbound := p.stepsToExit_le
    have hlistener : p.server.listener.stepsToEnd ≤ 6 := by
      cases p.server.listener <;> simp [ListenerPc.stepsToEnd]
    have hmain : p.main.stepsToReturn cfg ≤ cfg.maxClients + cfg.maxNrOfThreads + 4 :=
      hr.invariant (I := fun p => p.main.stepsToReturn cfg ≤
        cfg.maxClients + cfg.maxNrOfThreads + 4) (le_refl _)
        fun _ _ _ hI _ hs => (step_main hs).trans hI
    omega
  · have hqt := run_invariant hq (fun p l q h hs => (hstep p l q h hs).1) hrun
    cases hterm : q.server.terminated with
    | true => exact .inl rfl
    | false => exact .inr (hqt.stuck hterm hstuck)

-- a client is connected, and its worker waits for it
def quitWhileWaiting : List Label := untilInput ++ [.start 0 freshFrame, .wait 0, .stdin (some quitMsg)]

theorem quit_comes_to_rest_connected : ∃ p : Process Config.deployed,
    p.server.shared.sv.clients.values.length = 1 ∧ p.waiting.card = 1 ∧
    (∀ ls q, run step p ls = some q → ls.length ≤ 21) ∧
    ∃ ls q, run step p ls = some q ∧ Stuck step q := by
  have hrun : (run step (init Config.deployed 3 4)
      (quitWhileWaiting.map .server)).any (fun p =>
        p.server.shared.sv.done && (p.server.shared.sv.clients.values.length = 1 &&
          (p.waiting.card = 1 && p.server.threads.length = 1))) = true := by
    decide +kernel
  obtain ⟨p, hr, hp⟩ := exists_of_run (fun _ _ => trivial) hrun
  simp only [Bool.and_eq_true, decide_eq_true_eq] at hp
  obtain ⟨hd, hone, hwait, hthreads⟩ := hp
  obtain ⟨hall, hrest⟩ := quit_comes_to_rest hr hd
  refine ⟨p, hone, hwait, fun ls q hrun => ?_, hrest⟩
  have hle := (hall ls q hrun).1
  rw [hthreads] at hle
  exact hle.trans (by decide)

end Process

end ChatApp
