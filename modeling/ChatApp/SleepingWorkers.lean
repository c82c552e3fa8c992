import ChatApp.ComingToRest

namespace ChatApp

open Effects Runs

variable {cfg : Config}

namespace Process

section Sleeping

variable {p q : Process cfg} {l : ProcessLabel} {k : Nat} {th : Thread}

theorem awake_of_phase (hth : p.server.threads[k]? = some th) (hw : ∀ w, th.phase ≠ .waiting w) :
    p.asleep k = false := by
  refine Bool.eq_false_iff.mpr fun h => ?_
  obtain ⟨launch, w, hth', _⟩ := asleep_iff.mp h
  obtain rfl := Option.some.inj (hth.symm.trans hth')
  exact hw w rfl

theorem awake_of_reported (hr : p.reported k ≠ none) : p.asleep k = false :=
  Bool.eq_false_iff.mpr fun h => hr (asleep_iff.mp h).choose_spec.choose_spec.2.1

-- the other workers sleep on
theorem Valid.asleep_other {j : Nat} {l : Label} {s : State cfg} {m : Nat → List Int}
    {r : Nat → Option ((Int → Bool) × (Int → Bool))} (h : p.Valid)
    (hth : p.server.threads[j]? = some th) (hs : p.server.threadStep j th l = some s)
    (hk : k ≠ j) (hr : r k = p.reported k) :
    asleep { p with server := s, monitored := m, reported := r } k = p.asleep k := by
  obtain ⟨ph, hthreads⟩ := (State.threadStep_worked h.tabled.sound hth hs).threads
  have hsame : s.threads[k]? = p.server.threads[k]? := by
    rw [hthreads, List.getElem?_set_ne (Ne.symm hk)]
  unfold asleep
  simp only [hsame, hr]
  split
  · rename_i launch w hx
    rw [State.threadStep_evfd h.tabled.sound hth hs (h.apart.evfd_ne hx hth hk)
      (h.apart.evfd_ne_listener hx)]
  · rfl

-- nothing but its eventfd wakes a worker whose sockets are closed
theorem Valid.ready_evfd {launch : Launch} {w : WorkerState} {pollIn pollOut : Int → Bool}
    (h : p.Valid) (hc : Closing p.server p.closed [])
    (hth : p.server.threads[k]? = some ⟨launch, .waiting w⟩)
    (hready : ∃ fd ∈ p.monitored k,
      (p.readable k launch pollIn fd || p.writable k launch pollOut fd) = true) :
    p.server.shared.kernel.evfd launch.personalEvfd ≠ 0 := by
  obtain ⟨fd, hfd, hready⟩ := hready
  rcases h.watched k _ hth fd hfd with rfl | ⟨hopen, c, hc', rfl⟩
  · simp only [readable, writable, Bool.or_eq_true, Bool.and_eq_true, decide_eq_true_eq] at hready
    rcases hready with ⟨_, hne | h0⟩ | ⟨_, hne⟩
    · exact absurd rfl hne
    · exact h0
    · exact absurd rfl hne
  · have := hc.all c hc'
    rw [List.append_nil] at this
    exact absurd this hopen

-- only a worker that enters epoll_wait falls asleep, and nobody wakes
theorem step_asleep (h : p.Valid) (hc : Closing p.server p.closed []) (hq : p.step l = some q)
    (k : Nat) :
    q.asleep k = p.asleep k ∨ p.asleep k = false ∧ p.server.shared.sv.done = false := by
  cases (step_went hq).2 with
  | listened _ hs => exact absurd hc.listener (State.listener_of_step hs)
  | @started j frame th s hth hs hrun _ =>
    refine .inl ?_
    by_cases hk : k = j
    · subst hk
      have hlt := (List.getElem?_eq_some_iff.mp hth).1
      cases State.threadStep_turned h.tabled.sound hth hs with
      | started hphase =>
        rw [awake_of_phase hth (by simp [hphase])]
        exact awake_of_phase (List.getElem?_set_self hlt) (by simp)
      | threw _ => cases hrun
    · exact h.asleep_other hth hs hk rfl
  | @iterated j ev r th s hth hr hs hrun _ =>
    refine .inl ?_
    by_cases hk : k = j
    · subst hk
      have hlt := (List.getElem?_eq_some_iff.mp hth).1
      cases State.threadStep_turned h.tabled.sound hth hs with
      | iterated _ _ _ =>
        have hbefore : p.reported k ≠ none := by simp [hr]
        rw [awake_of_reported hbefore]
        exact awake_of_phase (List.getElem?_set_self hlt) (by simp)
      | threw _ => cases hrun
    · exact h.asleep_other hth hs hk (Function.update_of_ne hk _ _)
  | @turned j l th s hth hl hs =>
    by_cases hk : k = j
    · subst hk
      have hlt := (List.getElem?_eq_some_iff.mp hth).1
      cases State.threadStep_turned h.tabled.sound hth hs with
      | waits hphase _ hd => exact .inr ⟨awake_of_phase hth (by simp [hphase]), hd⟩
      | left hphase _ =>
        refine .inl ?_
        rw [awake_of_phase hth (by simp [hphase])]
        exact awake_of_phase (List.getElem?_set_self hlt) (by simp)
      | threw _ => exact .inl rfl
      | _ => rcases hl with hl | hl <;> cases hl
    · exact .inl (h.asleep_other hth hs hk rfl)
  | crashed _ _ => exact .inl rfl
  | @woken j pollIn pollOut launch w hth hr hready =>
    refine .inl ?_
    by_cases hk : k = j
    · subst hk
      have hevfd := h.ready_evfd hc hth hready
      have hbefore : p.asleep k = false := by
        simp [asleep, hth, hevfd]
      rw [hbefore]
      exact awake_of_reported (by simp)
    · simp only [asleep, Function.update_of_ne hk]
  | main hm =>
    obtain ⟨hserver, hreported⟩ := mainStep_server hm
    exact .inl (by simp only [asleep, hserver, hreported])

end Sleeping

section Leaving

-- ~Server has closed its sockets, and main waits for the workers or has gone
structure Leaving (p : Process cfg) : Prop where
  valid : p.Valid
  main : (∃ n, p.main = .joinWorkers n) ∨ p.main = .returned

variable {p q : Process cfg} {l : ProcessLabel} {k : Nat}

theorem Leaving.closing (h : p.Leaving) : Closing p.server p.closed [] := by
  have hstage := h.valid.stage
  unfold Stage at hstage
  rcases h.main with ⟨n, hn⟩ | hr
  · rw [hn] at hstage
    exact hstage.1
  · rw [hr] at hstage
    exact hstage.1

theorem step_leaving (h : p.Leaving) (hq : p.step l = some q) : q.Leaving := by
  refine ⟨step_valid h.valid hq, ?_⟩
  cases (step_went hq).2 with
  | main hm =>
    unfold Process.mainStep at hm
    split at hm
    · exact absurd h.main (by simp [*])
    · cases hm
      exact .inl ⟨_, rfl⟩
    · exact absurd h.main (by simp [*])
    · cases hm
      exact .inr rfl
    · split_ifs at hm
      cases hm
      exact .inl ⟨_, rfl⟩
    · cases hm
  | _ => exact h.main

-- who sleeps is never joined
theorem Leaving.hangs (h : p.Leaving) (ha : p.asleep k = true) : p.main ≠ .returned := by
  intro hm
  have hstage := h.valid.stage
  unfold Stage at hstage
  rw [hm] at hstage
  obtain ⟨launch, w, hth, _⟩ := asleep_iff.mp ha
  obtain ⟨i, hi⟩ := h.valid.manned.here hstage.1.joined hth rfl
  have := hstage.2 i k _ (Nat.zero_le i) hi hth
  cases this

end Leaving

-- once ~Server has closed the sockets, the workers then asleep decide whether main returns
theorem exit_decided {svSocket listenerEvfd n : Nat} {p : Process cfg}
    (hr : Reach step (fun _ _ => True) (init cfg svSocket listenerEvfd) p)
    (hm : p.main = .joinWorkers n) :
    (∀ k, p.asleep k = true → ∀ ls q, run step p ls = some q → q.main ≠ .returned) ∧
    (p.server.shared.sv.done = true →
      (∀ ls q, run step p ls = some q →
        ls.length ≤ 3 * p.server.threads.length + n + 1 ∧
        (Stuck step q → q.server.terminated = true ∨
          (q.main = .returned ↔ ∀ k, p.asleep k = false))) ∧
      ∃ ls q, run step p ls = some q ∧ Stuck step q) := by
  have h : p.Leaving := ⟨valid_of_reach hr, .inl ⟨n, hm⟩⟩
  have hsleeps (k : Nat) (ha : p.asleep k = true) (ls : List ProcessLabel) (q : Process cfg)
      (hrun : run step p ls = some q) : q.main ≠ .returned := by
    have hq := run_invariant (I := fun q => q.Leaving ∧ q.asleep k = true) ⟨h, ha⟩
      (fun p l q hI hs => ⟨step_leaving hI.1 hs, ?_⟩) hrun
    · exact hq.1.hangs hq.2
    · rcases step_asleep hI.1.valid hI.1.closing hs k with hk | ⟨hk, _⟩
      · rw [hk, hI.2]
      · rw [hI.2] at hk
        cases hk
  refine ⟨hsleeps, fun hd => ?_⟩
  have hquit : p.Quitting := ⟨h.valid, hd⟩
  have hsteps (p : Process cfg) (l : ProcessLabel) (q : Process cfg) (h : p.Quitting)
      (hs : p.step l = some q) := step_quitting h hs
  have hstep (q : Process cfg) (l : ProcessLabel) (q' : Process cfg)
      (hI : q.Leaving ∧ q.server.shared.sv.done = true ∧ ∀ k, q.asleep k = p.asleep k)
      (hs : q.step l = some q') :
      q'.Leaving ∧ q'.server.shared.sv.done = true ∧ ∀ k, q'.asleep k = p.asleep k := by
    obtain ⟨hl, hd, ha⟩ := hI
    refine ⟨step_leaving hl hs, step_done ⟨hl.valid, hd⟩ hs, fun k => ?_⟩
    rcases step_asleep hl.valid hl.closing hs k with hk | ⟨_, hgoing⟩
    · exact hk.trans (ha k)
    · rw [hd] at hgoing
      cases hgoing
  refine ⟨fun ls q hrun => ⟨?_, fun hstuck => ?_⟩, exists_stuck hquit hsteps⟩
  · have hlen := run_length_le hquit hsteps hrun
    have hbound := p.stepsToExit_le
    rw [hm, h.closing.listener] at hbound
    simp only [MainPc.stepsToReturn, ListenerPc.stepsToEnd] at hbound
    omega
  · obtain ⟨hl, hdq, ha⟩ := run_invariant ⟨h, hd, fun _ => rfl⟩ hstep hrun
    cases hterm : q.server.terminated with
    | true => exact .inl rfl
    | false =>
      refine .inr ⟨fun hret k => ?_, fun hawake => ?_⟩
      · rw [← ha k]
        exact Bool.eq_false_iff.mpr fun hk => hl.hangs hk hret
      · rcases Quitting.stuck ⟨hl.valid, hdq⟩ hterm hstuck with ⟨k, hk⟩ | ⟨hret, _⟩
        · rw [ha k, hawake k] at hk
          cases hk
        · exact hret

-- the worker goes into epoll_wait before the operator quits, and finds nothing there
def sleptOver : List Label :=
  listenerRound false true (connection 5 6) ++ [.start 0 freshFrame, .wait 0] ++
  [.poll false true false, .queue, .stdin (some quitMsg), .accept State.failedAccept,
    .poll false false false]

theorem exit_decided_sleptOver : ∃ p : Process Config.deployed,
    p.server.shared.sv.done = true ∧ p.asleep 0 = true ∧
    (∀ ls q, run step p ls = some q → q.main ≠ .returned) ∧
    ∃ ls q, run step p ls = some q ∧ Stuck step q := by
  have hrun : (run step (init Config.deployed 3 4)
      (sleptOver.map .server ++ List.replicate 4 .main)).any (fun p =>
      p.server.shared.sv.done && p.asleep 0 &&
        p.main = .joinWorkers Config.deployed.maxNrOfThreads) = true := by
    decide +kernel
  obtain ⟨p, hr, hp⟩ := exists_of_run (fun _ _ => trivial) hrun
  simp only [Bool.and_eq_true, decide_eq_true_eq] at hp
  obtain ⟨⟨hd, ha⟩, hm⟩ := hp
  obtain ⟨hsleeps, hends⟩ := exit_decided hr hm
  exact ⟨p, hd, ha, hsleeps 0 ha, (hends hd).2⟩

end Process

end ChatApp
