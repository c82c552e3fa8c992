import ChatApp.Handovers

namespace ChatApp

open Effects Runs

variable {cfg : Config}

-- the clients that the threads with number i hold
def heldAt (threads : List Thread) (i : Nat) : Nat :=
  (threads.map fun th => if th.launch.personalIndex = i then th.held.length else 0).sum

section Threads

variable {threads : List Thread} {k : Nat} {th : Thread}

theorem heldAt_cons (th : Thread) (threads : List Thread) (i : Nat) :
    heldAt (th :: threads) i =
      (if th.launch.personalIndex = i then th.held.length else 0) + heldAt threads i := rfl

theorem heldAt_append (threads new : List Thread) (i : Nat) :
    heldAt (threads ++ new) i = heldAt threads i + heldAt new i := by
  simp [heldAt]

theorem heldAt_set (h : threads[k]? = some th) (p : Phase) (i : Nat) :
    heldAt (threads.set k { th with phase := p }) i +
      (if th.launch.personalIndex = i then th.held.length else 0) =
    heldAt threads i +
      if th.launch.personalIndex = i then ({ th with phase := p } : Thread).held.length else 0 := by
  induction threads generalizing k with
  | nil => simp at h
  | cons x xs ih =>
    cases k with
    | zero =>
      obtain rfl : x = th := by simpa using h
      simp only [List.set_cons_zero, heldAt_cons]
      omega
    | succ k =>
      have := ih (k := k) (by simpa using h)
      simp only [List.set_cons_succ, heldAt_cons]
      omega

end Threads

namespace State

-- the loop of the worker in entry i goes on
def runsAt (s : State cfg) (i : Nat) : Bool :=
  match s.shared.mgr.workerThreads.entries[i]? with
  | some (some w) => (s.threads[w.thread]?).any fun th => !th.isEnded
  | _ => false

def NoneLate (s : State cfg) : Prop :=
  ∀ text ∈ s.shared.mgr.qListenerToWorker, ∀ i, addressed i text = true → s.runsAt i = true

-- a taken entry gains a client, or an ACCEPT, only while its worker's loop goes on
def HandedToRunning (s : State cfg) (_ : Label) (t : State cfg) : Prop :=
  t.NoneLate ∧ ∀ i w, s.shared.mgr.workerThreads.entries[i]? = some (some w) →
    countAt s.shared.mgr.workerThreads i < countAt t.shared.mgr.workerThreads i ∨
      toSlot s.shared i < toSlot t.shared i → s.runsAt i = true

-- a new worker gets a free entry; one in the array is chosen only while the server goes on and
-- it has a client that is not said to have left
def Fresh (s : State cfg) : Choice → Prop
  | .launch _ => s.shared.mgr.workerThreads.entries[s.shared.mgr.nrOfLaunchedThreads]? = some none
  | .assign i | .raise i =>
    s.shared.sv.done = false ∧ fromSlot s.shared i < countAt s.shared.mgr.workerThreads i
  | _ => True

-- all that its entry counts are said to have left; while the server stops, no one is on the way
def MayLeave (s : State cfg) (i : Nat) : Prop :=
  countAt s.shared.mgr.workerThreads i ≤ fromSlot s.shared i ∨
    s.shared.sv.done = true ∧ toSlot s.shared i = 0

instance (s : State cfg) (c : Choice) : Decidable (s.Fresh c) :=
  match c with
  | .launch _ => inferInstanceAs (Decidable (_ = _))
  | .assign _ | .raise _ => inferInstanceAs (Decidable (_ ∧ _))
  | .overLimit | .allLaunched => inferInstanceAs (Decidable True)

instance (s : State cfg) (i : Nat) : Decidable (s.MayLeave i) :=
  inferInstanceAs (Decidable (_ ∨ _))

def InTime (s : State cfg) : Label → State cfg → Prop
  | .accept env, _ => s.listener = .accept true → (∃ p u, acceptClient env s.shared = .ok p u) →
    s.Fresh (choose s.shared.mgr)
  | .leave k, _ => ∀ th, s.threads[k]? = some th → s.MayLeave th.launch.personalIndex
  | _, _ => True

-- no ACCEPT is under way to the worker, and the listener will not choose it
def Spent (s : State cfg) (i : Nat) : Prop :=
  toSlot s.shared i = 0 ∧ (s.listener = .ended ∨ s.shared.sv.done = true ∨
    countAt s.shared.mgr.workerThreads i ≤ fromSlot s.shared i)

-- each count covers the clients that are held, on their way to the worker or said to have left
structure Staffed (s : State cfg) : Prop where
  sound : s.Sound
  owner : ∀ (i : Nat) (w : WorkerEntry), s.shared.mgr.workerThreads.entries[i]? = some (some w) →
    ∃ th : Thread, s.threads[w.thread]? = some th ∧ th.launch.personalIndex = i
  tally : ∀ i, heldAt s.threads i + toSlot s.shared i + fromSlot s.shared i ≤
    countAt s.shared.mgr.workerThreads i
  idle : ∀ (i : Nat) (w : WorkerEntry),
    s.shared.mgr.workerThreads.entries[i]? = some (some w) → s.runsAt i = false → s.Spent i

section Turns

variable {s t : State cfg} {k : Nat} {th : Thread}

theorem runsAt_entry {i : Nat} {w : WorkerEntry}
    (h : s.shared.mgr.workerThreads.entries[i]? = some (some w)) :
    s.runsAt i = (s.threads[w.thread]?).any fun th => !th.isEnded := by
  simp [runsAt, h]

theorem Spent.mono {i : Nat} (h : s.Spent i) (hto : toSlot t.shared i ≤ toSlot s.shared i)
    (hl : s.listener = .ended → t.listener = .ended)
    (hd : s.shared.sv.done = true → t.shared.sv.done = true)
    (hc : countAt s.shared.mgr.workerThreads i ≤ fromSlot s.shared i →
      countAt t.shared.mgr.workerThreads i ≤ fromSlot t.shared i) : t.Spent i := by
  obtain ⟨h0, hspent⟩ := h
  exact ⟨by omega, hspent.imp hl (Or.imp hd hc)⟩

theorem Staffed.noneLate (h : s.Staffed) : s.NoneLate := by
  intro text ht i hi
  have hto : 0 < toSlot s.shared i := List.countP_pos_iff.mpr ⟨text, ht, hi⟩
  have htally := h.tally i
  have hcount : 0 < countAt s.shared.mgr.workerThreads i := by omega
  obtain ⟨w, hw, _⟩ := entry_of_countAt hcount
  cases hr : s.runsAt i with
  | true => rfl
  | false =>
    have := (h.idle i w hw hr).1
    omega

theorem handed_of_le {l : Label} (h : t.Staffed)
    (hcount : ∀ i, countAt t.shared.mgr.workerThreads i ≤ countAt s.shared.mgr.workerThreads i)
    (hto : ∀ i, toSlot t.shared i ≤ toSlot s.shared i) : HandedToRunning s l t := by
  refine ⟨h.noneLate, fun i w _ hmore => ?_⟩
  have := hcount i
  have := hto i
  omega

theorem Staffed.turn {u : Shared cfg} {p : Phase} (h : s.Staffed) (hth : s.threads[k]? = some th)
    (hsound : Sound ({ s with shared := u }.setPhase k th p))
    (harr : u.mgr.workerThreads = s.shared.mgr.workerThreads)
    (hdone : u.sv.done = s.shared.sv.done)
    (hto : ∀ i, toSlot u i ≤ toSlot s.shared i)
    (hfrom : ∀ i, fromSlot s.shared i ≤ fromSlot u i)
    (hsum : ∀ i, toSlot u i + fromSlot u i +
      (if th.launch.personalIndex = i then ({ th with phase := p } : Thread).held.length else 0) ≤
        toSlot s.shared i + fromSlot s.shared i +
          if th.launch.personalIndex = i then th.held.length else 0)
    (hend : ({ th with phase := p } : Thread).isEnded = true →
      th.isEnded = true ∨ s.Spent th.launch.personalIndex) :
    Staffed ({ s with shared := u }.setPhase k th p) := by
  have hk : k < s.threads.length := (List.getElem?_eq_some_iff.mp hth).1
  have htally (i : Nat) : heldAt (s.threads.set k { th with phase := p }) i + toSlot u i +
      fromSlot u i ≤ countAt s.shared.mgr.workerThreads i := by
    have hset := heldAt_set hth p i
    have := hsum i
    have := h.tally i
    omega
  refine ⟨hsound, fun i w hw => ?_, fun i => ?_, fun i w hw hr => ?_⟩
  · change u.mgr.workerThreads.entries[i]? = _ at hw
    rw [harr] at hw
    obtain ⟨th₀, hth₀, hi⟩ := h.owner i w hw
    by_cases hwk : w.thread = k
    · obtain rfl := Option.some.inj (hth₀.symm.trans (hwk ▸ hth))
      exact ⟨{ th₀ with phase := p }, by simp [setPhase, hwk, hk], hi⟩
    · exact ⟨th₀, by simpa [setPhase, Ne.symm hwk] using hth₀, hi⟩
  · change heldAt (s.threads.set k _) i + _ + _ ≤ countAt u.mgr.workerThreads i
    rw [harr]
    exact htally i
  · change u.mgr.workerThreads.entries[i]? = _ at hw
    rw [runsAt_entry hw] at hr
    rw [harr] at hw
    have keep (hspent : s.Spent i) : Spent ({ s with shared := u }.setPhase k th p) i := by
      refine hspent.mono (hto i) id (fun hd => hdone.trans hd) fun hc => ?_
      change countAt u.mgr.workerThreads i ≤ fromSlot u i
      rw [harr]
      exact hc.trans (hfrom i)
    obtain ⟨th₀, hth₀, hi⟩ := h.owner i w hw
    by_cases hwk : w.thread = k
    · obtain rfl := Option.some.inj (hth₀.symm.trans (hwk ▸ hth))
      have hended : ({ th₀ with phase := p } : Thread).isEnded = true := by
        simpa [setPhase, hwk, hk] using hr
      rcases hend hended with hended₀ | hspent
      · exact keep (h.idle i w hw (by simp [runsAt_entry hw, hth₀, hended₀]))
      · exact keep (hi ▸ hspent)
    · refine keep (h.idle i w hw ?_)
      rw [runsAt_entry hw]
      simpa [setPhase, Ne.symm hwk] using hr

theorem Staffed.threw (h : s.Staffed) (sends : List SendResult) :
    Staffed { s.withSends sends with terminated := true } :=
  ⟨sound_terminated (sound_withSends h.sound sends), h.owner, h.tally, h.idle⟩

theorem Staffed.threadStep {l : Label} (h : s.Staffed) (hth : s.threads[k]? = some th)
    (ht : s.threadStep k th l = some t)
    (hin : (∃ j, l = .leave j) → s.Spent th.launch.personalIndex) :
    t.Staffed ∧ HandedToRunning s l t := by
  have hsound := threadStep_sound h.sound hth ht
  obtain ⟨accepts, ups, ho, _⟩ := h.sound.owned
  have hturn := threadStep_turned h.sound hth ht
  obtain ⟨launch, phase⟩ := th
  cases hturn with
  | started hphase =>
    obtain rfl : phase = _ := hphase
    have hstaff := h.turn (u := s.shared) hth hsound rfl rfl (fun _ => le_refl _)
      (fun _ => le_refl _) (fun _ => le_refl _) nofun
    exact ⟨hstaff, handed_of_le hstaff (fun _ => le_refl _) fun _ => le_refl _⟩
  | waits hphase _ _ =>
    obtain rfl : phase = _ := hphase
    have hstaff := h.turn (u := s.shared) hth hsound rfl rfl (fun _ => le_refl _)
      (fun _ => le_refl _) (fun _ => le_refl _) nofun
    exact ⟨hstaff, handed_of_le hstaff (fun _ => le_refl _) fun _ => le_refl _⟩
  | left hphase _ =>
    obtain rfl : phase = _ := hphase
    have hstaff := h.turn (u := s.shared) hth hsound rfl rfl (fun _ => le_refl _)
      (fun _ => le_refl _) (fun i => ?_) fun _ => .inr (hin ⟨_, rfl⟩)
    · exact ⟨hstaff, handed_of_le hstaff (fun _ => le_refl _) fun _ => le_refl _⟩
    · simp [Thread.held]
  | threw sends =>
    have hstaff := h.threw sends
    exact ⟨hstaff, handed_of_le hstaff (fun _ => le_refl _) fun _ => le_refl _⟩
  | @iterated _ ev w w' u q s₁ s₂ kept hphase _ hit =>
    obtain rfl : phase = _ := hphase
    have ho₁ : Owned s.held accepts ups (s.withSends ev.sends).shared := ho.of_core rfl
    have hm := hit.shifted ho₁
    have hstaff := h.turn hth hsound hm.workers hm.done hm.taken hm.told hm.sum nofun
    exact ⟨hstaff, handed_of_le hstaff (fun i => le_of_eq (congrArg (countAt · i) hm.workers))
      hm.taken⟩

end Turns

section Listening

variable {s t : State cfg} {sh : Shared cfg} {pc : ListenerPc}

theorem listener_of_step {l : Label} (ht : s.listenerStep l = some t) : s.listener ≠ .ended := by
  intro he
  cases l <;> simp [listenerStep, he] at ht

theorem runsAt_withShared {i : Nat} {v w : WorkerEntry} (h : s.Staffed)
    (hv : s.shared.mgr.workerThreads.entries[i]? = some (some v))
    (hw : sh.mgr.workerThreads.entries[i]? = some (some w)) (hvw : w.thread = v.thread) :
    (s.withShared sh pc).runsAt i = s.runsAt i := by
  obtain ⟨th, hth, _⟩ := h.owner i v hv
  have hk : v.thread < s.threads.length := (List.getElem?_eq_some_iff.mp hth).1
  have hw' : (s.withShared sh pc).shared.mgr.workerThreads.entries[i]? = some (some w) := hw
  rw [runsAt_entry hv, runsAt_entry hw', hvw]
  simp [withShared, List.getElem?_append_left hk]

-- the listener keeps the workers it has
theorem Staffed.kept (h : s.Staffed) (hsound : Sound (s.withShared sh pc))
    (hs : sh.kernel.spawned = s.shared.kernel.spawned)
    (hthread : ∀ (i : Nat) (w : WorkerEntry), sh.mgr.workerThreads.entries[i]? = some (some w) →
      ∃ v, s.shared.mgr.workerThreads.entries[i]? = some (some v) ∧ w.thread = v.thread)
    (hsum : ∀ i, toSlot sh i + fromSlot sh i + countAt s.shared.mgr.workerThreads i ≤
      toSlot s.shared i + fromSlot s.shared i + countAt sh.mgr.workerThreads i)
    (hidle : ∀ i, s.Spent i → (s.withShared sh pc).Spent i) : (s.withShared sh pc).Staffed := by
  have hnil : sh.kernel.spawned = s.shared.kernel.spawned ++ [] := by rw [hs, List.append_nil]
  have hthreads : (s.withShared sh pc).threads = s.threads := by
    rw [threads_withShared h.sound hnil]
    simp
  refine ⟨hsound, fun i w hw => ?_, fun i => ?_, fun i w hw hr => ?_⟩
  · obtain ⟨v, hv, hvw⟩ := hthread i w hw
    obtain ⟨th, hth, hi⟩ := h.owner i v hv
    exact ⟨th, by rw [hthreads, hvw, hth], hi⟩
  · have := h.tally i
    have := hsum i
    rw [hthreads]
    change heldAt s.threads i + toSlot sh i + fromSlot sh i ≤ countAt sh.mgr.workerThreads i
    omega
  · obtain ⟨v, hv, hvw⟩ := hthread i w hw
    exact hidle i (h.idle i v hv ((runsAt_withShared h hv hw hvw).symm.trans hr))

-- or it has launched one that holds its first client
theorem Staffed.launched {l : Launch} {n : Nat} {evfd : Int} (h : s.Staffed)
    (hsound : Sound (s.withShared sh pc))
    (hs : sh.kernel.spawned = s.shared.kernel.spawned ++ [l]) (hl : l.personalIndex = n)
    (hfree : s.shared.mgr.workerThreads.entries[n]? = some none)
    (harr : sh.mgr.workerThreads =
      s.shared.mgr.workerThreads.set n (some ⟨1, evfd, s.shared.kernel.spawned.length⟩))
    (hto : ∀ i, toSlot sh i = toSlot s.shared i)
    (hfrom : ∀ i, fromSlot sh i = fromSlot s.shared i)
    (hidle : ∀ i, i ≠ n → s.Spent i → (s.withShared sh pc).Spent i) :
    (s.withShared sh pc).Staffed := by
  have hn := Slots.lt_of_get hfree
  have hlen : s.shared.kernel.spawned.length = s.threads.length := by
    rw [h.sound.spawned, List.length_map]
  have hthreads : (s.withShared sh pc).threads = s.threads ++ [⟨l, .launched⟩] :=
    threads_withShared h.sound hs pc
  have hentry (i : Nat) : sh.mgr.workerThreads.entries[i]? = if i = n then
      some (some ⟨1, evfd, s.threads.length⟩)
      else s.shared.mgr.workerThreads.entries[i]? := by
    rw [harr, Slots.get_set, hlen]
    by_cases hi : i = n
    · simp [hi, hn]
    · simp [hi, Ne.symm hi]
  refine ⟨hsound, fun i w hw => ?_, fun i => ?_, fun i w hw hr => ?_⟩
  · change sh.mgr.workerThreads.entries[i]? = _ at hw
    rw [hentry] at hw
    split_ifs at hw with hi
    · cases hw
      exact ⟨⟨l, .launched⟩, by simp [hthreads], hl.trans hi.symm⟩
    · obtain ⟨th, hth, hi⟩ := h.owner i w hw
      have hk : w.thread < s.threads.length := (List.getElem?_eq_some_iff.mp hth).1
      exact ⟨th, by rw [hthreads, List.getElem?_append_left hk, hth], hi⟩
  · have htally := h.tally i
    rw [hthreads, heldAt_append]
    change heldAt s.threads i + heldAt [⟨l, .launched⟩] i + toSlot sh i + fromSlot sh i ≤
      countAt sh.mgr.workerThreads i
    rw [hto, hfrom, harr, countAt_set hn, heldAt_cons]
    have h0 : heldAt ([] : List Thread) i = 0 := rfl
    have h1 : (⟨l, .launched⟩ : Thread).held.length = 1 := rfl
    by_cases hi : i = n
    · rw [hi, countAt_none hfree] at htally
      simp only [hi, hl, if_true, h1, Option.elim_some] at h0 ⊢
      omega
    · simp only [hi, hl, Ne.symm hi, if_false]
      omega
  · change sh.mgr.workerThreads.entries[i]? = _ at hw
    rw [runsAt_entry (s := s.withShared sh pc) hw] at hr
    rw [hentry] at hw
    split_ifs at hw with hi
    · cases hw
      simp [hthreads, Thread.isEnded] at hr
    · obtain ⟨th, hth, _⟩ := h.owner i w hw
      have hk : w.thread < s.threads.length := (List.getElem?_eq_some_iff.mp hth).1
      refine hidle i hi (h.idle i w hw ?_)
      rw [runsAt_entry hw]
      rwa [hthreads, List.getElem?_append_left hk] at hr

theorem Staffed.undisturbed (h : s.Staffed) (hl : s.listener ≠ .ended)
    (hsound : Sound (s.withShared sh pc)) (hs : sh.kernel.spawned = s.shared.kernel.spawned)
    (harr : sh.mgr.workerThreads = s.shared.mgr.workerThreads)
    (hq : sh.mgr.qListenerToWorker = s.shared.mgr.qListenerToWorker)
    (hfrom : ∀ i, fromSlot sh i = fromSlot s.shared i)
    (hdone : s.shared.sv.done = true → sh.sv.done = true) (l : Label) :
    (s.withShared sh pc).Staffed ∧ HandedToRunning s l (s.withShared sh pc) := by
  have hto (i : Nat) : toSlot sh i = toSlot s.shared i := by rw [toSlot, hq, toSlot]
  have hcount (i : Nat) : countAt sh.mgr.workerThreads i =
      countAt s.shared.mgr.workerThreads i := by rw [harr]
  have hstaff : (s.withShared sh pc).Staffed := by
    refine h.kept hsound hs (fun i w hw => ⟨w, harr ▸ hw, rfl⟩) (fun i => ?_) fun i hspent => ?_
    · rw [hto, hfrom, hcount]
    · exact hspent.mono (hto i).le (fun hl' => absurd hl' hl) hdone
        fun hc => (hcount i).le.trans (hc.trans (hfrom i).ge)
  exact ⟨hstaff, handed_of_le hstaff (fun i => (hcount i).le) fun i => (hto i).le⟩

theorem Staffed.terminated (h : s.Staffed) : Staffed { s with terminated := true } :=
  ⟨sound_terminated h.sound, h.owner, h.tally, h.idle⟩

theorem runListener_stops {m : Prog cfg Unit} {next : ListenerPc}
    (hub : ∀ u, m s.shared ≠ .error .undefinedBehaviour u)
    (he : ∃ e u, m s.shared = .error e u) :
    s.runListener m next = s.withShared (final (m s.shared)) .ended := by
  obtain ⟨e, u, hr⟩ := he
  unfold runListener
  rw [hr]
  cases e with
  | undefinedBehaviour => exact absurd hr (hub u)
  | _ => rfl

theorem thread_release {i : Nat} {w : WorkerEntry}
    (hw : s.shared.mgr.workerThreads.entries[i]? = some (some w))
    (harr : sh.mgr.workerThreads = (s.shared.release i w).mgr.workerThreads) (j : Nat)
    (v : WorkerEntry) (hv : sh.mgr.workerThreads.entries[j]? = some (some v)) :
    ∃ u, s.shared.mgr.workerThreads.entries[j]? = some (some u) ∧ v.thread = u.thread := by
  rw [harr, Shared.release] at hv
  simp only [Slots.get_set, Slots.lt_of_get hw, and_true] at hv
  split_ifs at hv with hij h1
  · cases hv
  · cases hv
    exact ⟨w, hij ▸ hw, rfl⟩
  · exact ⟨v, hv, rfl⟩

theorem Staffed.queue (h : s.Staffed) (hl : s.listener ≠ .ended) (next : ListenerPc) :
    Staffed (s.runListener (listenerProcessWorkerToListenerQ s.listenerEvfd) next) ∧
      HandedToRunning s .queue
        (s.runListener (listenerProcessWorkerToListenerQ s.listenerEvfd) next) := by
  have hsound := sound_queue h.sound next
  rcases runListener_cases s (listenerProcessWorkerToListenerQ s.listenerEvfd) next with
    ⟨_, he⟩ | ⟨hub, pc, he⟩
  · rw [he]
    exact ⟨h.terminated, handed_of_le h.terminated (fun _ => le_refl _) fun _ => le_refl _⟩
  obtain ⟨accepts, ups, ho, _⟩ := h.sound.owned
  obtain ⟨hq, hd⟩ := listenerProcess_frame s.listenerEvfd ho
  obtain ⟨_, _, _, hs⟩ := listenerProcess_owned s.listenerEvfd ho
  have hto (i : Nat) : toSlot (final (listenerProcessWorkerToListenerQ s.listenerEvfd
      s.shared)) i = toSlot s.shared i := by rw [toSlot, hq, toSlot]
  have hcover (i : Nat) : fromSlot s.shared i ≤ countAt s.shared.mgr.workerThreads i := by
    have := h.tally i
    omega
  rcases listenerProcess_told s.listenerEvfd ho hcover with htold | ⟨hthrow, harr, hfrom⟩
  · rw [he] at hsound ⊢
    cases htold with
    | other harr hfrom => exact h.undisturbed hl hsound hs harr hq hfrom (fun hd' => hd.trans hd') _
    | @left i w hw hpos harr hfrom =>
      have hrelease (j : Nat) : countAt s.shared.mgr.workerThreads j =
          countAt (final (listenerProcessWorkerToListenerQ s.listenerEvfd
            s.shared)).mgr.workerThreads j + if j = i then 1 else 0 := by
        rw [harr]
        exact countAt_release hw hpos j
      have hstaff := h.kept hsound hs (thread_release hw harr)
        (fun j => by
          rw [hto, hfrom, hrelease]
          omega)
        fun j hspent =>
          hspent.mono (hto j).le (fun hl' => absurd hl' hl) (fun hd' => hd.trans hd') fun hc => by
            rw [hrelease, hfrom] at hc
            exact Nat.le_of_add_le_add_right hc
      have hless (j : Nat) := Nat.le.intro (hrelease j).symm
      exact ⟨hstaff, handed_of_le hstaff hless fun j => (hto j).le⟩
  · rw [runListener_stops hub hthrow] at hsound ⊢
    have hstaff := h.kept hsound hs (fun i w hw => ⟨w, harr ▸ hw, rfl⟩)
      (fun i => by
        have := hfrom i
        rw [hto, harr]
        omega)
      fun i hspent => ⟨(hto i).trans hspent.1, .inl rfl⟩
    exact ⟨hstaff, handed_of_le hstaff (fun i => (congrArg (countAt · i) harr).le)
      fun i => (hto i).le⟩

theorem Staffed.stdin (h : s.Staffed) (hl : s.listener ≠ .ended) (buffer : Option Str)
    (next : ListenerPc) (l : Label) : Staffed (s.runListener (stdinBranch buffer) next) ∧
      HandedToRunning s l (s.runListener (stdinBranch buffer) next) := by
  have hsound := sound_stdin h.sound buffer next
  rcases runListener_cases s (stdinBranch buffer) next with ⟨_, he⟩ | ⟨_, pc, he⟩
  · rw [he]
    exact ⟨h.terminated, handed_of_le h.terminated (fun _ => le_refl _) fun _ => le_refl _⟩
  · rw [he] at hsound ⊢
    have hdone := stdinBranch_done buffer s.shared
    have hclean : svDisconnectedMsg.Clean := by decide
    have hother : svDisconnectedMsg.action ≠ getAction .clDisconnected := by decide
    obtain ⟨d, hf⟩ := stdinBranch_final buffer s.shared
    generalize final (stdinBranch buffer s.shared) = u at hsound hdone hf ⊢
    have hfrom (i : Nat) : fromSlot u i = fromSlot s.shared i := by
      rcases hf with rfl | rfl
      · rfl
      · exact fromSlot_pushUp_other (s := s.shared) (L := 0) hclean hother i
    have hsame : u.mgr.workerThreads = s.shared.mgr.workerThreads ∧
        u.mgr.qListenerToWorker = s.shared.mgr.qListenerToWorker ∧
        u.kernel = s.shared.kernel := by
      rcases hf with rfl | rfl <;> exact ⟨rfl, rfl, rfl⟩
    obtain ⟨harr, hq, hk⟩ := hsame
    exact h.undisturbed hl hsound (congrArg Kernel.spawned hk) harr hq hfrom hdone l

theorem not_spent {i : Nat} (hl : s.listener ≠ .ended) (hfresh : s.Fresh (.assign i)) :
    ¬ s.Spent i := by
  obtain ⟨hd, hlt⟩ := hfresh
  rintro ⟨_, hl' | hd' | hc⟩
  · exact hl hl'
  · rw [hd] at hd'
    cases hd'
  · omega

-- a client handed to a worker in the array reaches a loop that goes on
theorem Staffed.assigned {i : Nat} {w : WorkerEntry} (h : s.Staffed) (hl : s.listener ≠ .ended)
    (hsound : Sound (s.withShared sh pc)) (hs : sh.kernel.spawned = s.shared.kernel.spawned)
    (hfresh : s.Fresh (.assign i))
    (hw : s.shared.mgr.workerThreads.entries[i]? = some (some w))
    (harr : sh.mgr.workerThreads =
      s.shared.mgr.workerThreads.set i (some { w with count := w.count + 1 }))
    (hq : sh.mgr.qListenerToWorker = s.shared.mgr.qListenerToWorker ∨ ∃ fd clId : Int,
      sh.mgr.qListenerToWorker = s.shared.mgr.qListenerToWorker ++ [acceptText i fd clId])
    (hfrom : ∀ i, fromSlot sh i = fromSlot s.shared i)
    (hdone : s.shared.sv.done = true → sh.sv.done = true) (l : Label) :
    (s.withShared sh pc).Staffed ∧ HandedToRunning s l (s.withShared sh pc) := by
  have hspent := not_spent hl hfresh
  have hruns : s.runsAt i = true := by
    cases hr : s.runsAt i with
    | true => rfl
    | false => exact absurd (h.idle i w hw hr) hspent
  have hcount (j : Nat) : countAt sh.mgr.workerThreads j =
      countAt s.shared.mgr.workerThreads j + if j = i then 1 else 0 := by
    rw [harr, countAt_set (Slots.lt_of_get hw)]
    by_cases hj : j = i
    · simp [hj, countAt_some hw]
    · simp [hj]
  have hto (j : Nat) : toSlot s.shared j ≤ toSlot sh j ∧
      toSlot sh j ≤ toSlot s.shared j + if j = i then 1 else 0 := by
    rw [toSlot, toSlot]
    rcases hq with hq | ⟨fd, clId, hq⟩
    · rw [hq]
      exact ⟨le_refl _, Nat.le_add_right _ _⟩
    · rw [hq, List.countP_append, List.countP_singleton]
      simp only [addressed_acceptText, eq_comm (a := j)]
      omega
  have hstaff : (s.withShared sh pc).Staffed := by
    refine h.kept hsound hs (fun j v hv => ?_) (fun j => ?_) fun j hj => ?_
    · rw [harr, Slots.get_set] at hv
      split_ifs at hv with hij
      · cases hv
        exact ⟨w, hij.1 ▸ hw, rfl⟩
      · exact ⟨v, hv, rfl⟩
    · have := hto j
      rw [hfrom, hcount]
      omega
    · have hji : j ≠ i := fun hji => hspent (hji ▸ hj)
      have hto' := (hto j).2
      rw [if_neg hji, Nat.add_zero] at hto'
      refine hj.mono hto' (fun hl' => absurd hl' hl) hdone fun hc => ?_
      have := hfrom j
      have hsame := hcount j
      rw [if_neg hji] at hsame
      change countAt sh.mgr.workerThreads j ≤ fromSlot sh j
      omega
  refine ⟨hstaff, hstaff.noneLate, fun j v _ hmore => ?_⟩
  by_cases hj : j = i
  · rw [hj]
    exact hruns
  · have hsame := hcount j
    have hto' := (hto j).2
    rw [if_neg hj] at hsame hto'
    change _ < countAt sh.mgr.workerThreads j ∨ _ < toSlot sh j at hmore
    omega

theorem Staffed.accept {env : AcceptEnv} (h : s.Staffed) (hl : s.listener = .accept true)
    (henv : s.envOk env = true) (next : ListenerPc)
    (hin : (∃ p u, acceptClient env s.shared = .ok p u) → s.Fresh (choose s.shared.mgr)) :
    Staffed (s.runListener (acceptBranch s.listenerEvfd env) next) ∧
      HandedToRunning s (.accept env) (s.runListener (acceptBranch s.listenerEvfd env) next) := by
  have hended : s.listener ≠ .ended := by simp [hl]
  have hsound := sound_accept h.sound henv next
  rcases runListener_cases s (acceptBranch s.listenerEvfd env) next with ⟨_, he⟩ | ⟨hub, pc, he⟩
  · rw [he]
    exact ⟨h.terminated, handed_of_le h.terminated (fun _ => le_refl _) fun _ => le_refl _⟩
  rw [he] at hsound ⊢
  have hdone := acceptBranch_done hub
  have hup := acceptBranch_queue hub
  obtain ⟨hhand, hret⟩ := acceptBranch_handover hub rfl
  generalize final (acceptBranch s.listenerEvfd env s.shared) = u at hsound hdone hup hhand hret ⊢
  have hfrom (i : Nat) : fromSlot u i = fromSlot s.shared i := by rw [fromSlot, hup, fromSlot]
  rcases hret with hret | ⟨hmgr, hs⟩
  swap
  · exact h.undisturbed hended hsound hs (by rw [hmgr]) (by rw [hmgr]) hfrom hdone _
  have hfresh := hin hret
  cases hhand with
  | nobody harr hq hs => exact h.undisturbed hended hsound hs harr hq hfrom hdone _
  | @chosen i w hc hw harr hq hs =>
    have hassign : s.Fresh (.assign i) := by
      rcases hc with hc | hc
      · exact hc ▸ hfresh
      · have hraise : s.Fresh (.raise i) := hc ▸ hfresh
        exact hraise
    exact h.assigned hended hsound hs hassign hw harr hq hfrom hdone _
  | @launched n l hc hli harr hq hs =>
    have hfree : s.Fresh (.launch n) := hc ▸ hfresh
    have hto (i : Nat) : toSlot u i = toSlot s.shared i := by rw [toSlot, hq, toSlot]
    have hcount (j : Nat) (hj : j ≠ s.shared.mgr.nrOfLaunchedThreads) :
        countAt u.mgr.workerThreads j = countAt s.shared.mgr.workerThreads j := by
      rw [harr, countAt_set (Slots.lt_of_get hfree), if_neg hj]
    have hstaff := h.launched hsound hs hli hfree harr hto hfrom fun i hi hspent =>
      hspent.mono (hto i).le (fun hl' => absurd hl' hended) hdone
        fun hc => (hcount i hi).le.trans (hc.trans (hfrom i).ge)
    refine ⟨hstaff, hstaff.noneLate, fun j v hv hmore => ?_⟩
    have hj : j ≠ s.shared.mgr.nrOfLaunchedThreads := by
      rintro rfl
      rw [hfree] at hv
      cases hv
    have := hcount j hj
    have := hto j
    change _ < countAt u.mgr.workerThreads j ∨ _ < toSlot u j at hmore
    omega

end Listening

section Running

variable {s t : State cfg} {l : Label}

theorem init_staffed (cfg : Config) (svSocket listenerEvfd : Nat) :
    (init cfg svSocket listenerEvfd).Staffed where
  sound := init_sound cfg svSocket listenerEvfd
  owner i w hw := by simp [init, Slots.empty, List.getElem?_replicate] at hw
  tally i := by simp [init, heldAt, toSlot, fromSlot]
  idle i w hw := by simp [init, Slots.empty, List.getElem?_replicate] at hw

theorem step_leave {k : Nat} (ht : s.step (.leave k) = some t) :
    ∃ th, s.threads[k]? = some th ∧ s.threadStep k th (.leave k) = some t := by
  unfold step at ht
  by_cases hterm : s.terminated = true
  · simp [hterm] at ht
  · rw [if_neg hterm] at ht
    exact Option.bind_eq_some_iff.mp ht

theorem Staffed.spent (h : s.Staffed) {i : Nat} (hm : s.MayLeave i) : s.Spent i := by
  rcases hm with hcount | ⟨hd, h0⟩
  · have := h.tally i
    exact ⟨by omega, .inr (.inr hcount)⟩
  · exact ⟨h0, .inr (.inl hd)⟩

theorem Staffed.step (h : s.Staffed) (ht : s.step l = some t) (hin : InTime s l t) :
    t.Staffed ∧ HandedToRunning s l t := by
  by_cases hleave : ∃ k, l = .leave k
  · obtain ⟨k, rfl⟩ := hleave
    obtain ⟨th, hth, ht⟩ := step_leave ht
    exact h.threadStep hth ht fun _ => h.spent (hin th hth)
  · obtain ⟨_, ⟨_, ht⟩ | ⟨k, th, hth, ht⟩⟩ := step_cases ht
    · have hl := listener_of_step ht
      cases listenerStep_turn ht with
      | moved pc _ _ =>
        have hstaff : Staffed { s with listener := pc } :=
          ⟨sound_listener h.sound pc, h.owner, h.tally, fun i w hw hr =>
            (h.idle i w hw hr).mono (le_refl _) (fun hl' => absurd hl' hl) id id⟩
        exact ⟨hstaff, handed_of_le hstaff (fun _ => le_refl _) fun _ => le_refl _⟩
      | queue _ => exact h.queue hl _
      | stdin buffer socket => exact h.stdin hl buffer _ _
      | accept hl' henv => exact h.accept hl' henv _ (hin hl')
    · exact h.threadStep hth ht fun hk => absurd hk hleave

end Running

end State

def hangUp (fd : Int) : Events where
  pollIn x := x = fd
  pollOut _ := false
  recv _ := .zero

namespace State

theorem every_handedToRunning {svSocket listenerEvfd : Nat} {ls : List Label}
    (h : Every step InTime (init cfg svSocket listenerEvfd) ls) :
    Every step HandedToRunning (init cfg svSocket listenerEvfd) ls := by
  refine Every.imp (init_staffed cfg svSocket listenerEvfd) ls (fun s l t hs ht hin => ?_) h
  obtain ⟨hstaff, hhanded⟩ := hs.step ht hin
  exact ⟨hhanded, hstaff⟩

def inTime (s : State cfg) : Label → Bool
  | .accept _ => s.Fresh (choose s.shared.mgr)
  | .leave k => (s.threads[k]?).all fun th => s.MayLeave th.launch.personalIndex
  | _ => true

theorem inTime_of_check {s t : State cfg} {l : Label} (h : s.inTime l = true) : InTime s l t := by
  cases l with
  | accept env =>
    intro _ _
    simpa [inTime] using h
  | leave k =>
    intro th hth
    simpa [inTime, hth] using h
  | _ => trivial

end State

-- two workers with a client each, and a third client is queued for the first worker
def thirdQueued : List Label :=
  listenerRound false true (connection 5 6) ++ [.start 0 freshFrame] ++
  listenerRound false true (connection 7 8) ++ [.start 1 freshFrame] ++
  listenerRound false true (connection 9 10)

-- it is taken up; the second client leaves, its worker ends, and the listener reads of it before
-- it accepts the next
def joinInTime : List Label :=
  thirdQueued ++ workerRound 0 (receiving 6 .zero) ++ workerRound 1 (hangUp 7) ++ [.leave 1] ++
  listenerRound true true (connection 11 12) ++ [.start 2 freshFrame]

theorem joinInTime_handedToRunning :
    (run State.step (State.init Config.deployed 3 4) thirdQueued).any (fun s =>
      s.shared.mgr.qListenerToWorker = [acceptText 0 9 2]) = true ∧
    (run State.step (State.init Config.deployed 3 4) joinInTime).any (fun s =>
      s.held = [(5, 0), (9, 2), (11, 3)]) = true ∧
    Every State.step State.HandedToRunning (State.init Config.deployed 3 4) joinInTime :=
  ⟨by decide +kernel, by decide +kernel, State.every_handedToRunning
    (every_of_checked (fun _ _ _ => State.inTime_of_check) (by decide +kernel))⟩

-- two workers with a client each; the first client leaves, its worker ends, and a third client
-- comes before the listener has read that the first one left
def lateJoin : List Label :=
  listenerRound false true (connection 5 6) ++ [.start 0 freshFrame] ++
  listenerRound false true (connection 7 8) ++ [.start 1 freshFrame] ++
  workerRound 0 (hangUp 5) ++ [.leave 0] ++ listenerRound false true (connection 9 10)

theorem lateJoin_handedToEnded : ¬ Every State.step State.HandedToRunning
    (State.init Config.deployed 3 4) lateJoin := by
  refine not_every_of_run (q := fun t => t.shared.mgr.qListenerToWorker.all fun text =>
    !addressed 0 text || t.runsAt 0) (by decide) (fun s l t h => ?_) (by decide +kernel)
  refine List.all_eq_true.mpr fun text ht => ?_
  cases ha : addressed 0 text with
  | false => rfl
  | true => exact h.1 text ht 0 ha

end ChatApp
