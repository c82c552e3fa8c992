import ChatApp.SystemInvariant

namespace ChatApp

open Effects Relation Runs

variable {cfg : Config}

section Lists

variable {s t : Shared cfg} {listenerEvfd : Int} {clients : List (Int × Int)}

theorem derefClient_run {clId : Int} {cl : ClientData} (h : s.sv.getClientRef clId = some cl) :
    derefClient clId s = .ok cl s := by
  simp only [derefClient, get_bind_run, h, pure_run]

theorem Removed.subset {i : Nat} {kept : List (Int × Int)}
    (hr : Removed i listenerEvfd clients s kept t) : ∀ p ∈ kept, p ∈ clients := by
  induction hr with
  | nil => exact fun _ hp => hp
  | keep _ _ _ ih =>
    intro p hp
    rcases List.mem_cons.mp hp with rfl | hp
    · exact List.mem_cons_self
    · exact List.mem_cons_of_mem _ (ih p hp)
  | drop _ _ _ _ ih => exact fun p hp => List.mem_cons_of_mem _ (ih p hp)

theorem Polled.taken_fd {i : Nat} {accepts accepts' : List (Nat × Int × Int)} {q : QueueAction}
    (h : Polled i accepts accepts' q) : ∀ p ∈ taken q, 0 ≤ p.1 := by
  cases h with
  | idle hq => simp [hq]
  | discarded _ hq => simp [hq]
  | took _ hfd hq =>
    rw [hq]
    intro p hp
    rw [List.mem_singleton.mp hp]
    exact hfd

-- the table has one entry for each of these clients, under its descriptor
structure Listed (clients : List (Int × Int)) (sv : Server cfg) : Prop where
  nodup : sv.ids.Nodup
  known : ∀ p ∈ clients, p ∈ sv.pairs

theorem Listed.congr {sv sv' : Server cfg} (h : Listed clients sv) (hp : sv'.pairs = sv.pairs) :
    Listed clients sv' := by
  refine ⟨?_, fun p hm => hp ▸ h.known p hm⟩
  rw [Server.ids, hp]
  exact h.nodup

end Lists

-- the list of a worker that is running
def Thread.clients (th : Thread) : List (Int × Int) :=
  match th.phase with
  | .head w => w.clients
  | .waiting w => w.clients
  | _ => []

namespace State

def clients (s : State cfg) : List (Int × Int) := s.threads.flatMap Thread.clients

def FdsDistinct (sv : Server cfg) : Prop := ∀ p ∈ sv.pairs, ∀ q ∈ sv.pairs, p.1 = q.1 → p = q

structure Tabled (s : State cfg) : Prop where
  sound : s.Sound
  fds : FdsDistinct s.shared.sv
  sockets : ∀ th ∈ s.threads, ∀ p ∈ th.clients, 0 ≤ p.1

section Pairs

variable {sv sv' : Server cfg}

theorem FdsDistinct.mono (h : FdsDistinct sv) (hsub : ∀ p ∈ sv'.pairs, p ∈ sv.pairs) :
    FdsDistinct sv' := fun p hp q hq => h p (hsub p hp) q (hsub q hq)

theorem FdsDistinct.enrol (h : FdsDistinct sv) (hfull : sv.clients.isFull = false) {n : Nat}
    (color : Int) (hopen : (n : Int) ∉ sv.pairs.map Prod.fst) :
    FdsDistinct (sv.enrol n color) := by
  have hp := pairs_enrol hfull n color
  have hnew : ∀ q ∈ sv.pairs, (n : Int) ≠ q.1 := fun q hq e => hopen (e ▸ List.mem_map_of_mem hq)
  intro p hpm q hqm he
  rcases List.mem_cons.mp (hp.mem_iff.mp hpm) with rfl | hpm
  · rcases List.mem_cons.mp (hp.mem_iff.mp hqm) with rfl | hqm
    · rfl
    · exact absurd he (hnew q hqm)
  · rcases List.mem_cons.mp (hp.mem_iff.mp hqm) with rfl | hqm
    · exact absurd he.symm (hnew p hpm)
    · exact h p hpm q hqm he

theorem acceptBranch_fds {s : State cfg} {env : AcceptEnv} (h : FdsDistinct s.shared.sv)
    (henv : s.envOk env = true)
    (hub : ∀ u, acceptBranch s.listenerEvfd env s.shared ≠ .error .undefinedBehaviour u) :
    FdsDistinct (final (acceptBranch s.listenerEvfd env s.shared)).sv := by
  have hopen (n : Nat) (hn : env.accept4 = .fd n) :
      (n : Int) ∉ s.shared.sv.pairs.map Prod.fst := by
    simp only [envOk, hn, Bool.and_eq_true, decide_eq_true_eq] at henv
    intro hm
    refine henv.1.2.1.2 (List.mem_append_right _ ?_)
    rw [Server.pairs_eq, List.map_map] at hm
    exact hm
  rcases acceptBranch_final s.listenerEvfd env s.shared with ⟨u, hu⟩ | ⟨hbody, d, hd⟩
  · exact absurd hu (hub u)
  · rw [hd]
    rcases acceptBranchBody_cases s.listenerEvfd env s.shared with
      ⟨u, hu⟩ | ⟨fds, hf⟩ | ⟨p, u, he, hsv, -⟩
    · exact absurd hu (hbody u)
    · rw [hf]
      exact h.mono fun _ hp => hp
    · have hu : FdsDistinct u.sv := by
        cases he with
        | refused fds => exact h.mono fun _ hp => hp
        | entered hn hfull _ => exact h.enrol hfull env.color (hopen _ hn)
      refine hu.mono fun q hq => ?_
      rw [← hsv]
      exact hq

end Pairs

section Steps

variable {s t : State cfg}

theorem runListener_tabled {m : Prog cfg Unit} {next : ListenerPc} (h : s.Tabled)
    (hsound : (s.runListener m next).Sound)
    (hf : (∀ u, m s.shared ≠ .error .undefinedBehaviour u) → FdsDistinct (final (m s.shared)).sv) :
    (s.runListener m next).Tabled := by
  rcases runListener_cases s m next with ⟨_, he⟩ | ⟨hub, pc, he⟩
  · rw [he] at hsound ⊢
    exact ⟨hsound, h.fds, h.sockets⟩
  · rw [he] at hsound ⊢
    refine ⟨hsound, hf hub, fun th hth p hp => ?_⟩
    rcases List.mem_append.mp hth with hth | hth
    · exact h.sockets th hth p hp
    · obtain ⟨l, -, rfl⟩ := List.mem_map.mp hth
      exact absurd hp List.not_mem_nil

theorem listenerStep_tabled {l : Label} (h : s.Tabled) (ht : s.listenerStep l = some t) :
    t.Tabled := by
  have hsound := listenerStep_sound h.sound ht
  obtain ⟨accepts, ups, ho, _⟩ := h.sound.owned
  cases listenerStep_turn ht with
  | moved _ _ _ => exact ⟨hsound, h.fds, h.sockets⟩
  | queue _ =>
    refine runListener_tabled h hsound fun _ => h.fds.mono fun p hp => ?_
    obtain ⟨_, _, hsub, _⟩ := listenerProcess_owned s.listenerEvfd ho
    exact pairs_of_roster hsub hp
  | stdin buffer _ =>
    refine runListener_tabled h hsound fun _ => h.fds.mono fun p hp => ?_
    obtain ⟨_, _, hc, _⟩ := stdinBranch_owned buffer ho
    rw [Server.pairs, Server.roster] at hp ⊢
    rwa [← hc]
  | accept _ henv => exact runListener_tabled h hsound fun hub => acceptBranch_fds h.fds henv hub

theorem workerPrologue_fd {l : Launch} {frame : MessageFrame} {w : WorkerState} {a b : Shared cfg}
    (h : workerPrologue l frame a = .ok w b) : 0 ≤ l.clFd := by
  by_contra hneg
  have hfd : l.clFd < 0 := by omega
  simp only [workerPrologue, addMonitoredFd, hfd, if_true, throw_bind_run] at h
  cases h

theorem sockets_setPhase {sh : Shared cfg} {k : Nat} {th : Thread} {p : Phase}
    (h : ∀ th ∈ s.threads, ∀ p ∈ th.clients, 0 ≤ p.1)
    (hp : ∀ q ∈ ({ th with phase := p } : Thread).clients, 0 ≤ q.1) :
    ∀ x ∈ ({ s with shared := sh }.setPhase k th p).threads, ∀ q ∈ x.clients, 0 ≤ q.1 := by
  intro x hx
  rcases List.mem_or_eq_of_mem_set hx with hx | rfl
  · exact h x hx
  · exact hp

-- a worker whose client has no descriptor does not get to its loop
theorem start_fd {k i : Nat} {launch : Launch} {frame : MessageFrame} {w : WorkerState}
    (hth : s.threads[k]? = some ⟨launch, .launched⟩)
    (ht : s.threadStep k ⟨launch, .launched⟩ (.start i frame) =
      some (s.setPhase k ⟨launch, .launched⟩ (.head w))) : 0 ≤ launch.clFd := by
  have hrun := Option.some.inj ht
  unfold runWorker at hrun
  cases hr : workerPrologue launch frame s.shared with
  | ok w' u => exact workerPrologue_fd hr
  | error e u =>
    rw [hr] at hrun
    have hk := congrArg (fun x => x.threads[k]?) hrun
    have hlt := (List.getElem?_eq_some_iff.mp hth).1
    simp [hth, setPhase, List.getElem?_set_self hlt] at hk

theorem threadStep_tabled {k : Nat} {th : Thread} {l : Label} (h : s.Tabled)
    (hth : s.threads[k]? = some th) (ht : s.threadStep k th l = some t) : t.Tabled := by
  have hsound := threadStep_sound h.sound hth ht
  have hmem := List.mem_of_getElem? hth
  have hturn := threadStep_turned h.sound hth ht
  have hheld := h.sockets th hmem
  obtain ⟨accepts, ups, ho, _⟩ := h.sound.owned
  obtain ⟨launch, phase⟩ := th
  cases hturn with
  | started hphase =>
    obtain rfl : phase = _ := hphase
    refine ⟨hsound, h.fds, sockets_setPhase h.sockets fun q hq => ?_⟩
    rw [List.mem_singleton.mp hq]
    exact start_fd hth ht
  | waits hphase _ _ =>
    obtain rfl : phase = _ := hphase
    exact ⟨hsound, h.fds, sockets_setPhase h.sockets hheld⟩
  | @iterated _ ev w w' u q s₁ s₂ kept hphase _ hit =>
    obtain rfl : phase = _ := hphase
    have hpoll : ∀ p ∈ taken q, 0 ≤ p.1 := by
      have ho₁ : Owned s.held accepts ups (s.withSends ev.sends).shared := ho.of_core rfl
      obtain ⟨_, _, hp, _⟩ := pollQueue_polled ho₁ hit.polled
      exact hp.taken_fd
    have hpairs : u.sv.pairs = s.shared.sv.pairs := by
      rw [hit.removed.sv, servesAny_pairs hit.served, pollQueue_sv hit.polled]
      rfl
    refine ⟨hsound, h.fds.mono fun p hp => hpairs ▸ hp, sockets_setPhase h.sockets fun p hp => ?_⟩
    have hp : p ∈ w'.clients := hp
    rw [hit.clients] at hp
    rcases List.mem_append.mp hp with hp | hp
    · exact hheld p (hit.removed.subset p hp)
    · exact hpoll p hp
  | left hphase _ =>
    exact ⟨hsound, h.fds, sockets_setPhase h.sockets fun q hq => absurd hq List.not_mem_nil⟩
  | threw sends => exact ⟨hsound, h.fds, h.sockets⟩

end Steps

theorem init_tabled (cfg : Config) (svSocket listenerEvfd : Nat) :
    (init cfg svSocket listenerEvfd).Tabled where
  sound := init_sound cfg svSocket listenerEvfd
  fds := by simp [FdsDistinct, init, Server.pairs_eq]
  sockets := by simp [init]

theorem step_tabled {s t : State cfg} {l : Label} (h : s.Tabled) (ht : s.step l = some t) :
    t.Tabled := by
  obtain ⟨_, ⟨_, ht⟩ | ⟨k, th, hth, ht⟩⟩ := step_cases ht
  · exact listenerStep_tabled h ht
  · exact threadStep_tabled h hth ht

section Lists

variable {s : State cfg}

theorem clients_sublist (s : State cfg) : s.clients.Sublist s.held := by
  unfold clients held
  induction s.threads with
  | nil => exact .refl _
  | cons th ths ih =>
    refine List.Sublist.append ?_ ih
    obtain ⟨launch, phase⟩ := th
    cases phase with
    | launched => exact List.nil_sublist _
    | head w => exact .refl _
    | waiting w => exact .refl _
    | ended w => exact .refl _

theorem Tabled.clients_known (h : s.Tabled) : ∀ p ∈ s.clients, p ∈ s.shared.sv.pairs := by
  intro p hp
  obtain ⟨accepts, ups, ho, _⟩ := h.sound.owned
  rcases ho.known p (List.mem_append_left _ ((clients_sublist s).subset hp)) with rfl | hp
  · obtain ⟨th, hth, hpc⟩ := List.mem_flatMap.mp hp
    exact absurd (h.sockets th hth _ hpc) (by decide)
  · exact hp

theorem Tabled.clients_ids_nodup (h : s.Tabled) : (s.clients.map Prod.snd).Nodup := by
  obtain ⟨accepts, ups, ho, _⟩ := h.sound.owned
  rw [List.nodup_iff_count_le_one]
  intro clId
  by_cases hm : clId ∈ s.clients.map Prod.snd
  · obtain ⟨p, hp, rfl⟩ := List.mem_map.mp hm
    have h0 := (ho.range p (h.clients_known p hp)).2.1
    have hcount := ((clients_sublist s).map Prod.snd).count_le p.2
    have hholds := ho.holders p.2 h0
    have hone := List.nodup_iff_count_le_one.mp ho.nodup p.2
    omega
  · rw [List.count_eq_zero.mpr hm]
    omega

theorem Tabled.listed (h : s.Tabled) {k : Nat} {th : Thread} (hth : s.threads[k]? = some th) :
    Listed th.clients s.shared.sv := by
  obtain ⟨accepts, ups, ho, _⟩ := h.sound.owned
  refine ⟨ho.nodup, fun p hp => h.clients_known p ?_⟩
  have hm : p ∈ s.threads.flatMap Thread.clients :=
    List.mem_flatMap.mpr ⟨th, List.mem_of_getElem? hth, hp⟩
  exact hm

end Lists

end State

end ChatApp
