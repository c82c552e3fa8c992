import ChatApp.Admission
import ChatApp.Library.Runs
import ChatApp.System

namespace ChatApp

open Effects Relation Runs

variable {cfg : Config}

namespace Thread

-- the clients a thread answers for; one that has ended answers for none
def held (th : Thread) : List (Int × Int) :=
  match th.phase with
  | .launched => [th.launch.client]
  | .head w => w.clients
  | .waiting w => w.clients
  | .ended _ => []

theorem perm_set {threads : List Thread} {k : Nat} {th : Thread} (h : threads[k]? = some th) :
    ∃ rest, (threads.flatMap held).Perm (th.held ++ rest) ∧
      ∀ th', ((threads.set k th').flatMap held).Perm (th'.held ++ rest) := by
  induction threads generalizing k with
  | nil => simp at h
  | cons x xs ih =>
    cases k with
    | zero =>
      obtain rfl : x = th := by simpa using h
      exact ⟨xs.flatMap held, by simp, fun th' => by simp⟩
    | succ k =>
      obtain ⟨rest, hp, hset⟩ := ih (k := k) (by simpa using h)
      have swap (ys zs : List (Int × Int)) : (x.held ++ (ys ++ zs)).Perm (ys ++ (x.held ++ zs)) := by
        rw [← List.append_assoc, ← List.append_assoc]
        exact List.perm_append_comm.append_right _
      refine ⟨x.held ++ rest, ?_, fun th' => ?_⟩
      · rw [List.flatMap_cons]
        exact (hp.append_left _).trans (swap _ _)
      · rw [List.set_cons_succ, List.flatMap_cons]
        exact ((hset th').append_left _).trans (swap _ _)

def buffersClean (th : Thread) : Prop :=
  match th.phase with
  | .head w => w.buffers.serverMsg.Clean
  | .waiting w => w.buffers.serverMsg.Clean
  | _ => True

end Thread

-- what a worker's work on its clients leaves alone
structure Kept (s t : Shared cfg) : Prop where
  mgr : t.mgr = { s.mgr with qWorkerToListener := t.mgr.qWorkerToListener }
  spawned : t.kernel.spawned = s.kernel.spawned
  joining : t.kernel.joining = s.kernel.joining
  done : t.sv.done = s.sv.done

section Kept

variable {s t u : Shared cfg}

theorem Kept.refl : Kept s s := ⟨rfl, rfl, rfl, rfl⟩

theorem Kept.trans (h : Kept s t) (h' : Kept t u) : Kept s u :=
  ⟨h'.mgr.trans (by rw [h.mgr]), h'.spawned.trans h.spawned, h'.joining.trans h.joining,
    h'.done.trans h.done⟩

variable {listenerEvfd clId : Int}

theorem serve_kept (hs : Serve listenerEvfd clId s t) : Kept s t := by
  cases hs <;> constructor <;> simp [Shared.pushUp, Shared.pushWorkerToListener, Shared.setEvfd,
    Server.modifyClient]

theorem serves_kept {clients : List (Int × Int)}
    (hs : ReflTransGen (ServeAny listenerEvfd clients) s t) : Kept s t := by
  induction hs with
  | refl => exact .refl
  | tail _ hs ih =>
    obtain ⟨_, _, hs⟩ := hs
    exact ih.trans (serve_kept hs)

theorem removed_kept {i : Nat} {clients kept : List (Int × Int)}
    (hr : Removed i listenerEvfd clients s kept t) : Kept s t := by
  induction hr with
  | nil => exact .refl
  | keep _ _ _ ih => exact ih
  | @drop client rest kept s t cl m _ _ _ _ ih =>
    have hpush : Kept s (s.pushUp listenerEvfd (goneMsg m i client.2 cl)) := ⟨rfl, rfl, rfl, rfl⟩
    exact hpush.trans ih

theorem Iterated.kept {ev : Events} {l : Launch} {w w' : WorkerState} {q : QueueAction}
    {s₁ s₂ : Shared cfg} {kept : List (Int × Int)} (hit : Iterated ev l w s w' t q s₁ s₂ kept) :
    Kept s₁ t := (serves_kept hit.served).trans (removed_kept hit.removed)

end Kept

namespace State

def held (s : State cfg) : List (Int × Int) := s.threads.flatMap Thread.held

structure Sound (s : State cfg) : Prop where
  owned : ∃ accepts ups, Owned s.held accepts ups s.shared ∧
    Alive (s.held ++ accepts.map Prod.snd) s.shared.sv
  spawned : s.shared.kernel.spawned = s.threads.map Thread.launch
  launches : ∀ th ∈ s.threads, th.launch.personalIndex < cfg.maxNrOfThreads ∧
    0 ≤ th.launch.personalEvfd ∧ th.launch.listenerEvfd = s.listenerEvfd
  clean : ∀ th ∈ s.threads, th.buffersClean
  evfd : 0 ≤ s.listenerEvfd

section Lists

variable {held held' : List (Int × Int)} {accepts : List (Nat × Int × Int)}
variable {ups : List ServerMessage} {s : Shared cfg}

theorem owned_forget {xs : List (Int × Int)} (h : Owned (xs ++ held) accepts ups s) :
    Owned held accepts ups s := by
  induction xs with
  | nil => exact h
  | cons x xs ih => exact ih h.forget

theorem alive_mono {ps qs : List (Int × Int)} {sv : Server cfg} (h : Alive ps sv)
    (hsub : ∀ p ∈ qs, p ∈ ps) : Alive qs sv := fun p hp => h p (hsub p hp)

end Lists

section Listener

variable {s : State cfg}

theorem runListener_cases (s : State cfg) (m : Prog cfg Unit) (next : ListenerPc) :
    (∃ u, m s.shared = .error .undefinedBehaviour u) ∧
      s.runListener m next = { s with terminated := true } ∨
    (∀ u, m s.shared ≠ .error .undefinedBehaviour u) ∧
      ∃ pc, s.runListener m next = s.withShared (final (m s.shared)) pc := by
  unfold runListener
  cases hr : m s.shared with
  | ok _ t => exact .inr ⟨by simp, next, rfl⟩
  | error e t =>
    cases e with
    | undefinedBehaviour => exact .inl ⟨⟨t, rfl⟩, rfl⟩
    | _ => exact .inr ⟨by simp, .ended, rfl⟩

theorem runListener_shared {P : Shared cfg → Prop} {m : Prog cfg Unit} (next : ListenerPc)
    (h0 : P s.shared)
    (hm : (∀ u, m s.shared ≠ .error .undefinedBehaviour u) → P (final (m s.shared))) :
    P (s.runListener m next).shared := by
  rcases runListener_cases s m next with ⟨_, he⟩ | ⟨hub, pc, he⟩
  · rw [he]
    exact h0
  · rw [he]
    exact hm hub

-- the listener only goes on, or runs the branch it stands at
inductive ListenerTurn (s : State cfg) : Label → State cfg → Prop
  | moved {l : Label} (pc : ListenerPc)
    (hq : ∀ stdin socket, l = .queue → s.listener ≠ .queue true stdin socket)
    (ha : ∀ env, l = .accept env → s.listener ≠ .accept true) :
    ListenerTurn s l { s with listener := pc }
  | queue {stdin socket : Bool} (hl : s.listener = .queue true stdin socket) :
    ListenerTurn s .queue
      (s.runListener (listenerProcessWorkerToListenerQ s.listenerEvfd) (.stdin stdin socket))
  | stdin (buffer : Option Str) (socket : Bool) :
    ListenerTurn s (.stdin buffer) (s.runListener (stdinBranch buffer) (.accept socket))
  | accept {env : AcceptEnv} (hl : s.listener = .accept true) (henv : s.envOk env = true) :
    ListenerTurn s (.accept env) (s.runListener (acceptBranch s.listenerEvfd env) .head)

theorem listenerStep_turn {t : State cfg} {l : Label} (ht : s.listenerStep l = some t) :
    ListenerTurn s l t := by
  cases l with
  | poll evfd stdin socket =>
    simp only [listenerStep] at ht
    split_ifs at ht <;> cases ht <;> exact .moved _ (by simp) (by simp)
  | queue =>
    simp only [listenerStep] at ht
    split at ht
    · rename_i evfd stdin socket hl
      split_ifs at ht with hevfd <;> cases ht
      · exact .queue (hevfd ▸ hl)
      · exact .moved _ (fun _ _ _ hl' => hevfd (by simp_all)) (by simp)
    · cases ht
  | stdin buffer =>
    simp only [listenerStep] at ht
    split at ht
    · split_ifs at ht <;> cases ht
      · exact .stdin buffer _
      · exact .moved _ (by simp) (by simp)
    · cases ht
  | accept env =>
    simp only [listenerStep] at ht
    split at ht
    · rename_i socket hl
      split_ifs at ht with hsocket henv <;> cases ht
      · exact .accept (hsocket ▸ hl) henv
      · exact .moved _ (by simp) (fun _ _ hl' => hsocket (by simp_all))
    · cases ht
  | _ => cases ht

theorem sound_terminated (h : s.Sound) : Sound { s with terminated := true } :=
  ⟨h.owned, h.spawned, h.launches, h.clean, h.evfd⟩

theorem sound_withSends (h : s.Sound) (sends : List SendResult) : (s.withSends sends).Sound := by
  obtain ⟨accepts, ups, ho, ha⟩ := h.owned
  exact ⟨⟨accepts, ups, ho.of_core rfl, ha⟩, h.spawned, h.launches, h.clean, h.evfd⟩

theorem sound_listener (h : s.Sound) (pc : ListenerPc) : Sound { s with listener := pc } :=
  ⟨h.owned, h.spawned, h.launches, h.clean, h.evfd⟩

theorem threads_withShared {sh : Shared cfg} {new : List Launch} (h : s.Sound)
    (hs : sh.kernel.spawned = s.shared.kernel.spawned ++ new) (pc : ListenerPc) :
    (s.withShared sh pc).threads = s.threads ++ new.map fun l => ⟨l, .launched⟩ := by
  have hlen : s.shared.kernel.spawned.length = s.threads.length := by
    rw [h.spawned, List.length_map]
  simp only [withShared, hs, ← hlen, List.drop_left]

theorem flatMap_launched (new : List Launch) :
    (new.map fun l => (⟨l, .launched⟩ : Thread)).flatMap Thread.held = new.map Launch.client := by
  induction new with
  | nil => rfl
  | cons l ls ih =>
    rw [List.map_cons, List.flatMap_cons, ih]
    rfl

theorem held_withShared {sh : Shared cfg} {new : List Launch} (h : s.Sound)
    (hs : sh.kernel.spawned = s.shared.kernel.spawned ++ new) (pc : ListenerPc) :
    (s.withShared sh pc).held = s.held ++ new.map Launch.client := by
  rw [held, threads_withShared h hs, List.flatMap_append, flatMap_launched]
  rfl

theorem sound_withShared {sh : Shared cfg} {new : List Launch}
    {accepts : List (Nat × Int × Int)} {ups : List ServerMessage} (h : s.Sound) (pc : ListenerPc)
    (ho : Owned (new.map Launch.client ++ s.held) accepts ups sh)
    (ha : Alive (new.map Launch.client ++ s.held ++ accepts.map Prod.snd) sh.sv)
    (hs : sh.kernel.spawned = s.shared.kernel.spawned ++ new)
    (hl : ∀ l ∈ new, l.personalIndex < cfg.maxNrOfThreads ∧ 0 ≤ l.personalEvfd ∧
      l.listenerEvfd = s.listenerEvfd) : Sound (s.withShared sh pc) where
  owned := by
    rw [held_withShared h hs]
    refine ⟨accepts, ups, ho.perm List.perm_append_comm, alive_mono ha fun p hp => ?_⟩
    simp only [List.mem_append] at hp ⊢
    tauto
  spawned := by
    change sh.kernel.spawned = _
    rw [hs, threads_withShared h hs, List.map_append, h.spawned]
    simp [Function.comp_def]
  launches := by
    rw [threads_withShared h hs]
    intro th hth
    rcases List.mem_append.mp hth with hth | hth
    · exact h.launches th hth
    · obtain ⟨l, hm, rfl⟩ := List.mem_map.mp hth
      exact hl l hm
  clean := by
    rw [threads_withShared h hs]
    intro th hth
    rcases List.mem_append.mp hth with hth | hth
    · exact h.clean th hth
    · obtain ⟨l, hm, rfl⟩ := List.mem_map.mp hth
      exact trivial
  evfd := h.evfd

theorem sound_same {sh : Shared cfg} {accepts : List (Nat × Int × Int)}
    {ups : List ServerMessage} (h : s.Sound) (pc : ListenerPc) (ho : Owned s.held accepts ups sh)
    (ha : Alive (s.held ++ accepts.map Prod.snd) sh.sv)
    (hs : sh.kernel.spawned = s.shared.kernel.spawned) : Sound (s.withShared sh pc) := by
  have hnil : sh.kernel.spawned = s.shared.kernel.spawned ++ [] := by rw [hs, List.append_nil]
  have ho' : Owned (([] : List Launch).map Launch.client ++ s.held) accepts ups sh := ho
  exact sound_withShared h pc ho' ha hnil fun l hl => absurd hl List.not_mem_nil

theorem sound_queue (h : s.Sound) (next : ListenerPc) :
    Sound (s.runListener (listenerProcessWorkerToListenerQ s.listenerEvfd) next) := by
  rcases runListener_cases s (listenerProcessWorkerToListenerQ s.listenerEvfd) next with
    ⟨_, he⟩ | ⟨_, pc, he⟩
  · rw [he]
    exact sound_terminated h
  · rw [he]
    obtain ⟨accepts, ups, ho, ha⟩ := h.owned
    obtain ⟨ups', ho', hsub, hs⟩ := listenerProcess_owned s.listenerEvfd ho
    exact sound_same h pc ho' (alive_of_roster hsub ha) hs

theorem sound_stdin (h : s.Sound) (buffer : Option Str) (next : ListenerPc) :
    Sound (s.runListener (stdinBranch buffer) next) := by
  rcases runListener_cases s (stdinBranch buffer) next with ⟨_, he⟩ | ⟨_, pc, he⟩
  · rw [he]
    exact sound_terminated h
  · rw [he]
    obtain ⟨accepts, ups, ho, ha⟩ := h.owned
    obtain ⟨ups', ho', hc, hk⟩ := stdinBranch_owned buffer ho
    refine sound_same h pc ho' ?_ (congrArg Kernel.spawned hk)
    intro p hp c hcm
    rw [hc] at hcm
    exact ha p hp c hcm

theorem fd_of_envOk {env : AcceptEnv} (h : s.envOk env = true) (n : Nat)
    (hn : env.accept4 = .fd n) : (n : Int) ≤ Decimal.intMax := by
  simp only [envOk, hn, Bool.and_eq_true, decide_eq_true_eq] at h
  exact h.1.2.1.1

theorem sound_accept (h : s.Sound) {env : AcceptEnv} (henv : s.envOk env = true)
    (next : ListenerPc) : Sound (s.runListener (acceptBranch s.listenerEvfd env) next) := by
  rcases runListener_cases s (acceptBranch s.listenerEvfd env) next with ⟨_, he⟩ | ⟨hub, pc, he⟩
  · rw [he]
    exact sound_terminated h
  · rw [he]
    obtain ⟨accepts, ups, ho, ha⟩ := h.owned
    rcases acceptBranch_admitted (L := s.listenerEvfd) ho (fd_of_envOk henv) with
      ⟨u, hu⟩ | ⟨accepts', new, had⟩
    · exact absurd hu (hub u)
    · exact sound_withShared h pc had.owned (had.alive ha) had.spawned had.launches

theorem listenerStep_sound {t : State cfg} {l : Label} (h : s.Sound)
    (ht : s.listenerStep l = some t) : t.Sound := by
  cases listenerStep_turn ht with
  | moved pc _ _ => exact sound_listener h pc
  | queue _ => exact sound_queue h _
  | stdin buffer socket => exact sound_stdin h buffer _
  | accept _ henv => exact sound_accept h henv _

end Listener

section Threads

variable {s t : State cfg} {k : Nat} {th : Thread}

theorem set_self {xs : List Launch} {n : Nat} {x : Launch} (h : xs[n]? = some x) :
    xs.set n x = xs := by
  obtain ⟨hn, rfl⟩ := List.getElem?_eq_some_iff.mp h
  exact List.set_getElem_self hn

theorem sound_setPhase {sh : Shared cfg} {p : Phase} {rest : List (Int × Int)}
    {accepts : List (Nat × Int × Int)} {ups : List ServerMessage} (h : s.Sound)
    (hth : s.threads[k]? = some th)
    (hrest : ∀ th', ((s.threads.set k th').flatMap Thread.held).Perm (th'.held ++ rest))
    (ho : Owned ({ th with phase := p }.held ++ rest) accepts ups sh)
    (ha : Alive ({ th with phase := p }.held ++ rest ++ accepts.map Prod.snd) sh.sv)
    (hs : sh.kernel.spawned = s.shared.kernel.spawned)
    (hclean : { th with phase := p }.buffersClean) :
    Sound ({ s with shared := sh }.setPhase k th p) := by
  have hmem (x : Thread) (hx : x ∈ s.threads.set k { th with phase := p }) :
      x ∈ s.threads ∨ x = { th with phase := p } := List.mem_or_eq_of_mem_set hx
  constructor
  · refine ⟨accepts, ups, ho.perm (hrest _).symm, alive_mono ha fun q hq => ?_⟩
    simp only [List.mem_append] at hq ⊢
    refine hq.imp (fun hq => ?_) id
    have := (hrest { th with phase := p }).mem_iff.mp hq
    simpa using this
  · change sh.kernel.spawned = (s.threads.set k { th with phase := p }).map Thread.launch
    have hl : (s.threads.map Thread.launch)[k]? = some th.launch := by simp [hth]
    rw [hs, h.spawned, List.map_set]
    exact (set_self hl).symm
  · intro x hx
    rcases hmem x hx with hx | rfl
    · exact h.launches x hx
    · exact h.launches th (List.mem_of_getElem? hth)
  · intro x hx
    rcases hmem x hx with hx | rfl
    · exact h.clean x hx
    · exact hclean
  · exact h.evfd

theorem workerPrologue_ok {l : Launch} {frame : MessageFrame} {w : WorkerState} {a b : Shared cfg}
    (h : workerPrologue l frame a = .ok w b) :
    b = a ∧ w = ⟨[l.client], ⟨frame, {}⟩⟩ := by
  unfold workerPrologue addMonitoredFd at h
  split_ifs at h <;> cases h
  exact ⟨rfl, rfl⟩

-- the turns a thread can take; an exception in one ends the process
inductive Turned (s : State cfg) (k : Nat) (th : Thread) : Label → State cfg → Prop
  | started {i : Nat} {frame : MessageFrame} (h : th.phase = .launched) :
    Turned s k th (.start i frame) (s.setPhase k th (.head ⟨[th.launch.client], ⟨frame, {}⟩⟩))
  | waits {i : Nat} {w : WorkerState} (h : th.phase = .head w) (hc : w.clients ≠ [])
    (hd : s.shared.sv.done = false) : Turned s k th (.wait i) (s.setPhase k th (.waiting w))
  | iterated {i : Nat} {ev : Events} {w w' : WorkerState} {t : Shared cfg} {q : QueueAction}
    {s₁ s₂ : Shared cfg} {kept : List (Int × Int)} (h : th.phase = .waiting w)
    (hr : workerIteration ev th.launch w (s.withSends ev.sends).shared = .ok w' t)
    (hit : Iterated ev th.launch w (s.withSends ev.sends).shared w' t q s₁ s₂ kept) :
    Turned s k th (.iterate i ev) ({ s with shared := t }.setPhase k th (.head w'))
  | left {i : Nat} {w : WorkerState} (h : th.phase = .head w)
    (hc : w.clients = [] ∨ s.shared.sv.done = true) :
    Turned s k th (.leave i) (s.setPhase k th (.ended w))
  | threw {l : Label} (sends : List SendResult) :
    Turned s k th l { s.withSends sends with terminated := true }

theorem threadStep_turned {l : Label} (h : s.Sound) (hth : s.threads[k]? = some th)
    (ht : s.threadStep k th l = some t) : Turned s k th l t := by
  obtain ⟨accepts, ups, ho, _⟩ := h.owned
  have hclean := h.clean th (List.mem_of_getElem? hth)
  obtain ⟨launch, phase⟩ := th
  cases l with
  | start i frame =>
    simp only [threadStep] at ht
    split at ht
    · cases ht
      unfold runWorker
      cases hr : workerPrologue launch frame s.shared with
      | error e u => exact .threw s.shared.kernel.sends
      | ok w u =>
        obtain ⟨rfl, rfl⟩ := workerPrologue_ok hr
        exact .started rfl
    · cases ht
  | wait i =>
    simp only [threadStep] at ht
    split at ht
    · split_ifs at ht with hc
      cases ht
      exact .waits rfl hc.1 hc.2
    · cases ht
  | iterate i ev =>
    simp only [threadStep] at ht
    split at ht
    · rename_i w
      cases ht
      unfold runWorker
      cases hr : workerIteration ev launch w (s.withSends ev.sends).shared with
      | error e u => exact .threw ev.sends
      | ok w' u =>
        have ho₁ : Owned s.held accepts ups (s.withSends ev.sends).shared := ho.of_core rfl
        obtain ⟨q, s₁, s₂, kept, hit⟩ := workerIteration_ok ho₁.names hclean hr
        exact .iterated rfl hr hit
    · cases ht
  | leave i =>
    simp only [threadStep] at ht
    split at ht
    · split_ifs at ht with hc
      cases ht
      exact .left rfl hc
    · cases ht
  | _ => cases ht

theorem threadStep_sound {l : Label} (h : s.Sound) (hth : s.threads[k]? = some th)
    (ht : s.threadStep k th l = some t) : t.Sound := by
  obtain ⟨rest, hp, hrest⟩ := Thread.perm_set hth
  obtain ⟨accepts, ups, ho, ha⟩ := h.owned
  have ho' : Owned (th.held ++ rest) accepts ups s.shared := ho.perm hp
  have ha' : Alive (th.held ++ rest ++ accepts.map Prod.snd) s.shared.sv :=
    alive_mono ha fun q hq => by
      simp only [List.mem_append] at hq ⊢
      refine hq.imp (fun hq => hp.mem_iff.mpr ?_) id
      simpa using hq
  have hclean := h.clean th (List.mem_of_getElem? hth)
  have hi := h.launches th (List.mem_of_getElem? hth)
  have hturn := threadStep_turned h hth ht
  obtain ⟨launch, phase⟩ := th
  cases hturn with
  | started hphase =>
    obtain rfl : phase = _ := hphase
    exact sound_setPhase h hth hrest ho' ha' rfl clean_default
  | waits hphase _ _ =>
    obtain rfl : phase = _ := hphase
    exact sound_setPhase h hth hrest ho' ha' rfl hclean
  | @iterated _ ev w w' u q s₁ s₂ kept hphase _ hit =>
    obtain rfl : phase = _ := hphase
    have ho₁ : Owned (w.clients ++ rest) accepts ups (s.withSends ev.sends).shared :=
      ho'.of_core rfl
    obtain ⟨accepts', ups', hpoll, ho₂⟩ := hit.owned hi.1 ho₁
    have halive : Alive (rest ++ accepts.map Prod.snd) (s.withSends ev.sends).shared.sv :=
      alive_mono ha' fun q hq => by
        simp only [List.mem_append] at hq ⊢
        tauto
    have ha₂ := hit.alive ho₁ hpoll halive
    have hspawn : u.kernel.spawned = s.shared.kernel.spawned := by
      obtain ⟨_, evfd, _, rfl⟩ := pollQueue_polled ho₁ hit.polled
      exact hit.kept.spawned
    refine sound_setPhase h hth hrest ho₂ ?_ hspawn hit.clean
    rwa [List.append_assoc]
  | left hphase _ =>
    obtain rfl : phase = _ := hphase
    refine sound_setPhase h hth hrest (owned_forget ho') (alive_mono ha' fun q hq => ?_) rfl trivial
    simp only [List.mem_append] at hq ⊢
    rcases hq with (hq | hq) | hq
    · exact absurd hq List.not_mem_nil
    · exact .inl (.inr hq)
    · exact .inr hq
  | threw sends => exact sound_terminated (sound_withSends h sends)

theorem step_cases {l : Label} (ht : s.step l = some t) : s.terminated = false ∧
    (s.joined = true ∧ s.listenerStep l = some t ∨
      ∃ k th, s.threads[k]? = some th ∧ s.threadStep k th l = some t) := by
  unfold step at ht
  cases hterm : s.terminated with
  | true => simp [hterm] at ht
  | false =>
    refine ⟨rfl, ?_⟩
    simp only [hterm, Bool.false_eq_true, if_false] at ht
    cases l with
    | start k frame | wait k | iterate k ev | leave k =>
      obtain ⟨th, hth, ht⟩ := Option.bind_eq_some_iff.mp ht
      exact .inr ⟨k, th, hth, ht⟩
    | poll evfd stdin socket | queue | stdin buffer | accept env =>
      simp only [Option.ite_none_right_eq_some] at ht
      exact .inl ht

theorem step_sound {l : Label} (h : s.Sound) (ht : s.step l = some t) : t.Sound := by
  obtain ⟨_, ⟨_, ht⟩ | ⟨k, th, hth, ht⟩⟩ := step_cases ht
  · exact listenerStep_sound h ht
  · exact threadStep_sound h hth ht

end Threads

theorem init_sound (cfg : Config) (svSocket listenerEvfd : Nat) :
    (init cfg svSocket listenerEvfd).Sound where
  owned := by
    refine ⟨[], [], ⟨?_, ?_, ?_, ?_, ?_, rfl, by simp, rfl, by simp, by simp [held, init], ?_⟩, ?_⟩
    all_goals simp [init, held, Server.ids, Server.pairs, Server.roster, NamesClean, Alive,
      Decimal.intMax]
  spawned := rfl
  launches := by simp [init]
  clean := by simp [init]
  evfd := by simp [init]

theorem sound_of_reach {svSocket listenerEvfd : Nat} {C : State cfg → Label → Prop}
    {s : State cfg} (h : Reach step C (init cfg svSocket listenerEvfd) s) : s.Sound :=
  h.invariant (init_sound cfg svSocket listenerEvfd) fun _ _ _ hI _ ht => step_sound hI ht

end State

end ChatApp
