import ChatApp.LiveWorkers

namespace ChatApp

open Effects Runs

variable {cfg : Config}

-- the listener closes descriptors of the table only, and those of the clients it takes out of it
structure Closes (sv sv' : Server cfg) (new : List Int) : Prop where
  closed : sv'.closed = sv.closed ++ new
  left : ∀ p ∈ sv.pairs, p ∈ sv'.pairs ∨ p.1 ∈ new
  kept : ∀ p ∈ sv'.pairs, p ∈ sv.pairs
  known : ∀ fd ∈ new, ∃ p ∈ sv.pairs, p.1 = fd
  socket : sv'.svSocket = sv.svSocket

section Closing

variable {sv sv' : Server cfg} {new : List Int} {s : Shared cfg}

theorem Closes.refl (sv : Server cfg) : Closes sv sv [] :=
  ⟨(List.append_nil _).symm, fun _ h => .inl h, fun _ h => h, fun _ h => absurd h List.not_mem_nil,
    rfl⟩

theorem Closes.same {sv'' : Server cfg} (h : Closes sv sv' new) (hp : sv''.pairs = sv'.pairs)
    (hc : sv''.closed = sv'.closed) (hs : sv''.svSocket = sv'.svSocket) : Closes sv sv'' new :=
  ⟨hc.trans h.closed, fun p hm => by rw [hp]; exact h.left p hm,
    fun p hm => h.kept p (hp ▸ hm), h.known, hs.trans h.socket⟩

theorem Closes.drop {clId : Int} {c : ClientData} (h : Closes sv sv' new)
    (hc : sv'.getClientRef clId = some c) :
    Closes sv (sv'.dropClient clId c.fd) (new ++ [c.fd]) := by
  have hin : (c.fd, clId) ∈ sv'.pairs := mem_pairs hc
  refine ⟨?_, fun p hp => ?_, fun p hp => h.kept p ?_, fun fd hfd => ?_, h.socket⟩
  · rw [Server.dropClient, h.closed, List.append_assoc]
  · rcases h.left p hp with hp | hp
    · rw [Server.pairs_eq] at hp
      obtain ⟨d, hd, rfl⟩ := List.mem_map.mp hp
      rcases Slots.mem_clear_or_eq hd hc with hd | rfl
      · rw [Server.pairs_eq]
        exact .inl (List.mem_map_of_mem (f := fun c : ClientData => (c.fd, c.personalId)) hd)
      · exact .inr (List.mem_append_right _ (List.mem_singleton_self _))
    · exact .inr (List.mem_append_left _ hp)
  · exact pairs_of_roster (fun _ => roster_dropClient) hp
  · rcases List.mem_append.mp hfd with hfd | hfd
    · exact h.known fd hfd
    · rw [List.mem_singleton.mp hfd]
      exact ⟨_, h.kept _ hin, rfl⟩

theorem processMessage_closes (msg : Str) (s : Shared cfg) :
    ∃ new, Closes s.sv (final (processMessage msg s)).sv new := by
  have hrules : Delivers (fun t : Shared cfg => ∃ new, Closes s.sv t.sv new) fun _ => True := by
    refine ⟨fun t clId msg _ ⟨new, h⟩ => ⟨new, h.same ?_ rfl rfl⟩, fun _ _ h => h,
      fun clId t ⟨new, h⟩ => ?_, fun _ _ _ _ _ h => h⟩
    · exact Server.pairs_modifyClient
        (f := fun c => { c with sendQueue := c.sendQueue ++ [msg] }) (fun _ => ⟨rfl, rfl⟩) t.sv clId
    · cases hc : t.sv.getClientRef clId with
      | none => exact ⟨new, by simpa [onServer, Server.disconnectClient, hc] using h⟩
      | some c =>
        rw [disconnectClient_run hc]
        exact ⟨_, h.drop hc⟩
  exact hrules.processMessage (fun _ _ => ⟨trivial, trivial, trivial⟩) s ⟨[], Closes.refl s.sv⟩

theorem listenerProcess_closes (L : Int) (s : Shared cfg) :
    ∃ new, Closes s.sv (final (listenerProcessWorkerToListenerQ L s)).sv new := by
  rw [listenerProcess_eq]
  split_ifs
  · exact ⟨[], Closes.refl s.sv⟩
  · cases hq : s.mgr.qWorkerToListener with
    | nil => exact ⟨[], Closes.refl s.sv⟩
    | cons msg rest => exact processMessage_closes msg ((s.setEvfd L 0).setWorkerToListener rest)

end Closing

-- what the accept branch does to the descriptors: it may close the one it was given
structure Accepts (env : AcceptEnv) (sv sv' : Server cfg) (new : List Int) : Prop where
  closed : sv'.closed = sv.closed ++ new
  given : ∀ fd ∈ new, ∃ n : Nat, env.accept4 = .fd n ∧ fd = n
  kept : ∀ p ∈ sv.pairs, p ∈ sv'.pairs
  table : ∀ p ∈ sv'.pairs, p ∈ sv.pairs ∨ ∃ n : Nat, env.accept4 = .fd n ∧ p.1 = n
  socket : sv'.svSocket = sv.svSocket

section Accepting

variable {s : Shared cfg} {env : AcceptEnv} {L : Int}

theorem acceptClient_accepts (env : AcceptEnv) (sv : Server cfg) :
    ∃ new, Accepts env sv (final (Server.acceptClient true env sv)) new := by
  have hsame : Accepts env sv sv [] := ⟨(List.append_nil _).symm,
    fun _ h => absurd h List.not_mem_nil, fun _ h => h, fun _ h => .inl h, rfl⟩
  cases ha : env.accept4 with
  | wouldBlock =>
    rw [acceptClient_eq, ha]
    split_ifs <;> exact ⟨[], hsame⟩
  | failed =>
    rw [acceptClient_eq, ha]
    split_ifs <;> exact ⟨[], hsame⟩
  | fd n =>
    have hclose : Accepts env sv (sv.closing n) [(n : Int)] :=
      ⟨rfl, fun fd hfd => ⟨n, ha, List.mem_singleton.mp hfd⟩, fun _ h => h, fun _ h => .inl h, rfl⟩
    rw [acceptClient_eq, ha]
    split_ifs with hs hg hf hfull hmax
    · exact ⟨[], hsame⟩
    · exact ⟨_, hclose⟩
    · exact ⟨_, hclose⟩
    · exact ⟨_, hclose⟩
    · exact ⟨[], hsame⟩
    · have hp : (sv.enrol n env.color).pairs.Perm _ := pairs_enrol (by simpa using hfull) n env.color
      refine ⟨[], (List.append_nil _).symm, fun _ h => absurd h List.not_mem_nil,
        fun p h => hp.mem_iff.mpr (List.mem_cons_of_mem _ h), fun p h => ?_, rfl⟩
      rcases List.mem_cons.mp (hp.mem_iff.mp h) with rfl | h
      · exact .inr ⟨n, ha, rfl⟩
      · exact .inl h

theorem acceptBranch_sv (hub : ∀ u, acceptBranch L env s ≠ .error .undefinedBehaviour u) :
    ∃ d, (final (acceptBranch L env s)).sv =
      { final (Server.acceptClient true env s.sv) with done := d } := by
  rcases acceptBranch_final L env s with ⟨u, hu⟩ | ⟨hbody, d, hd⟩
  · exact absurd hu (hub u)
  · refine ⟨d, ?_⟩
    rw [hd]
    have hmain : (final (acceptBranchBody L env s)).sv =
        final (Server.acceptClient true env s.sv) := by
      cases hr : Server.acceptClient true env s.sv with
      | error e sv' =>
        have hacc : acceptClient env s = .error e { s with sv := sv' } :=
          bind_of_error (onServer_error hr)
        rw [acceptBranchBody, bind_of_error hacc]
        rfl
      | ok pair sv' =>
        have hacc : ∃ u, acceptClient env s = .ok pair u ∧ u.sv = sv' := by
          rw [acceptClient, bind_of_ok (onServer_ok hr)]
          split_ifs <;> exact ⟨_, rfl, rfl⟩
        obtain ⟨u, hu, rfl⟩ := hacc
        rw [acceptBranchBody, bind_of_ok hu] at hbody ⊢
        have hnew : (∃ v, processNewClient pair.1 pair.2 L env.eventfd u =
            .error .undefinedBehaviour v) ∨
            (final (processNewClient pair.1 pair.2 L env.eventfd u)).sv = u.sv :=
          processNewClient_final.imp id And.left
        rcases hnew with ⟨v, hv⟩ | hf
        · exact absurd hv (hbody v)
        · exact hf
    rw [hmain]

theorem acceptBranch_accepts (hub : ∀ u, acceptBranch L env s ≠ .error .undefinedBehaviour u) :
    ∃ new, Accepts env s.sv (final (acceptBranch L env s)).sv new := by
  obtain ⟨d, hd⟩ := acceptBranch_sv hub
  obtain ⟨new, h⟩ := acceptClient_accepts env s.sv
  rw [hd]
  exact ⟨new, h.closed, h.given, h.kept, h.table, h.socket⟩

end Accepting

-- what serving a client leaves alone
structure Undisturbed (L : Int) {γ : Type} (f : Shared cfg → γ) : Prop where
  modified : ∀ s clId g, f (s.modifyClient clId g) = f s
  sent : ∀ s clId msg, f (s.sendDone clId msg) = f s
  pushed : ∀ s m, f (s.pushUp L m) = f s

section Serving

variable {γ : Type} {f : Shared cfg → γ} {L clId : Int} {s t : Shared cfg}

theorem Undisturbed.serve (h : Undisturbed L f) (hs : Serve L clId s t) : f t = f s := by
  cases hs with
  | mark _ => exact h.modified _ _ _
  | named _ _ _ => exact h.modified _ _ _
  | replied _ _ _ => exact (h.sent _ _ _).trans (h.modified _ _ _)
  | greeted _ _ _ => exact (h.pushed _ _).trans ((h.sent _ _ _).trans (h.modified _ _ _))
  | relayed _ _ _ _ => exact h.pushed _ _
  | flushed _ _ _ => exact (h.sent _ _ _).trans (h.modified _ _ _)

theorem Undisturbed.removed {i : Nat} {clients kept : List (Int × Int)} (h : Undisturbed L f)
    (hr : Removed i L clients s kept t) : f t = f s := by
  induction hr with
  | nil => rfl
  | keep _ _ _ ih => exact ih
  | drop _ _ _ _ ih => exact ih.trans (h.pushed _ _)

theorem Undisturbed.iterated {ev : Events} {l : Launch} {w w' : WorkerState} {q : QueueAction}
    {s₁ s₂ : Shared cfg} {kept : List (Int × Int)} (h : Undisturbed l.listenerEvfd f)
    (hit : Iterated ev l w s w' t q s₁ s₂ kept) : f t = f s₁ := by
  obtain ⟨_, hserved, hremoved, _, _⟩ := hit
  rw [h.removed hremoved]
  clear hremoved
  induction hserved with
  | refl => rfl
  | tail _ hs ih =>
    obtain ⟨_, _, hs⟩ := hs
    exact (h.serve hs).trans ih

theorem undisturbed_socket (L : Int) :
    Undisturbed L fun s : Shared cfg => s.sv.svSocket :=
  ⟨fun _ _ _ => rfl, fun _ _ _ => by rw [Shared.sendDone_sv], fun _ _ => rfl⟩

theorem undisturbed_evfd {x : Int} (hx : x ≠ L) :
    Undisturbed L fun s : Shared cfg => s.kernel.evfd x :=
  ⟨fun _ _ _ => rfl, fun _ _ _ => by rw [Shared.sendDone_evfd],
    fun s m => Shared.setEvfd_of_ne hx _ _⟩

end Serving

namespace State

-- every eventfd is a descriptor of its own
structure Apart (s : State cfg) : Prop where
  sound : s.Sound
  evfds : (s.listenerEvfd :: s.threads.map fun th => th.launch.personalEvfd).Nodup
  sockets : ∀ th ∈ s.threads, th.launch.personalEvfd ≠ s.shared.sv.svSocket ∧
    ∀ p ∈ s.shared.sv.pairs, th.launch.personalEvfd ≠ p.1

section Steps

variable {s t : State cfg} {l : Label}

theorem Apart.terminated (h : s.Apart) : Apart { s with terminated := true } :=
  ⟨sound_terminated h.sound, h.evfds, h.sockets⟩

theorem mem_openFds_evfd (h : s.Sound) {th : Thread} (hth : th ∈ s.threads) :
    th.launch.personalEvfd ∈ s.openFds := by
  have hmem : th.launch.personalEvfd ∈ s.shared.kernel.spawned.map Launch.personalEvfd := by
    rw [h.spawned]
    exact List.mem_map_of_mem (List.mem_map_of_mem hth)
  simp only [openFds, List.cons_append, List.mem_cons, List.mem_append]
  exact .inr (.inr (.inl hmem))

theorem mem_openFds_pair {p : Int × Int} (hp : p ∈ s.shared.sv.pairs) : p.1 ∈ s.openFds := by
  rw [Server.pairs_eq] at hp
  obtain ⟨c, hc, rfl⟩ := List.mem_map.mp hp
  simp only [openFds, List.cons_append, List.mem_cons, List.mem_append]
  exact .inr (.inr (.inr (List.mem_map_of_mem hc)))

theorem Apart.evfd_ne {k j : Nat} {x y : Thread} (h : s.Apart) (hx : s.threads[k]? = some x)
    (hy : s.threads[j]? = some y) (hk : k ≠ j) : x.launch.personalEvfd ≠ y.launch.personalEvfd := by
  obtain ⟨hk', rfl⟩ := List.getElem?_eq_some_iff.mp hx
  obtain ⟨hj', rfl⟩ := List.getElem?_eq_some_iff.mp hy
  have hkl : k < (s.threads.map fun th => th.launch.personalEvfd).length := by
    rwa [List.length_map]
  have hjl : j < (s.threads.map fun th => th.launch.personalEvfd).length := by
    rwa [List.length_map]
  intro he
  have hsame : (s.threads.map fun th => th.launch.personalEvfd)[k] =
      (s.threads.map fun th => th.launch.personalEvfd)[j] := by
    rw [List.getElem_map, List.getElem_map]
    exact he
  exact hk ((List.nodup_cons.mp h.evfds).2.getElem_inj_iff.mp hsame)

theorem Apart.evfd_ne_listener {k : Nat} {x : Thread} (h : s.Apart)
    (hx : s.threads[k]? = some x) : x.launch.personalEvfd ≠ s.listenerEvfd := by
  intro he
  refine (List.nodup_cons.mp h.evfds).1 ?_
  rw [← he]
  exact List.mem_map_of_mem (f := fun th => th.launch.personalEvfd) (List.mem_of_getElem? hx)

theorem Apart.listened {e : Int} {sh : Shared cfg} {pc : ListenerPc} (h : s.Apart)
    (hsound : Sound (s.withShared sh pc)) (hr : Rostered e s.shared sh)
    (he : 0 ≤ e → e ∉ s.openFds) (hsocket : sh.sv.svSocket = s.shared.sv.svSocket)
    (htable : ∀ p ∈ sh.sv.pairs, p ∈ s.shared.sv.pairs ∨ p.1 ∉ s.openFds ∧ p.1 ≠ e) :
    Apart (s.withShared sh pc) := by
  have hold (th : Thread) (hth : th ∈ s.threads) :
      th.launch.personalEvfd ≠ sh.sv.svSocket ∧
        ∀ p ∈ sh.sv.pairs, th.launch.personalEvfd ≠ p.1 := by
    obtain ⟨hsv, hp⟩ := h.sockets th hth
    refine ⟨by rwa [hsocket], fun p hm hne => ?_⟩
    rcases htable p hm with hm | ⟨hm, _⟩
    · exact hp p hm hne
    · exact hm (hne ▸ mem_openFds_evfd h.sound hth)
  have quiet (hs : sh.kernel.spawned = s.shared.kernel.spawned) : Apart (s.withShared sh pc) := by
    have hthreads := threads_unspawned h.sound hs pc
    refine ⟨hsound, ?_, ?_⟩
    · rw [hthreads]
      exact h.evfds
    · rw [hthreads]
      exact hold
  cases hr with
  | same _ hs _ => exact quiet hs
  | joined _ _ hs _ => exact quiet hs
  | @launched i new hne _ hs _ =>
    have hthreads : (s.withShared sh pc).threads = s.threads ++ [⟨new, .launched⟩] :=
      threads_withShared h.sound hs pc
    have hpos : 0 ≤ new.personalEvfd := by
      refine (hsound.launches ⟨new, .launched⟩ ?_).2.1
      rw [hthreads]
      exact List.mem_append_right _ (List.mem_singleton_self _)
    have hfresh : new.personalEvfd ∉ s.openFds := by
      rw [hne] at hpos ⊢
      exact he hpos
    refine ⟨hsound, ?_, ?_⟩
    · rw [hthreads, List.map_append, ← List.cons_append]
      refine List.nodup_append.mpr ⟨h.evfds, List.nodup_singleton _, fun a ha b hb hab => ?_⟩
      obtain rfl : a = new.personalEvfd := hab.trans (List.mem_singleton.mp hb)
      refine hfresh ?_
      rcases List.mem_cons.mp ha with ha | ha
      · rw [show new.personalEvfd = s.listenerEvfd from ha]
        simp [openFds]
      · obtain ⟨th, hth, hev⟩ := List.mem_map.mp ha
        rw [← hev]
        exact mem_openFds_evfd h.sound hth
    · rw [hthreads]
      intro th hth
      rcases List.mem_append.mp hth with hth | hth
      · exact hold th hth
      · rw [List.mem_singleton.mp hth]
        refine ⟨fun hsv => hfresh ?_, fun p hp hpe => ?_⟩
        · rw [show new.personalEvfd = s.shared.sv.svSocket from hsv.trans hsocket]
          simp [openFds]
        · have hpe : new.personalEvfd = p.1 := hpe
          rcases htable p hp with hp | ⟨_, hp⟩
          · exact hfresh (hpe ▸ mem_openFds_pair hp)
          · exact hp (hpe.symm.trans hne)

theorem fresh_of_envOk {env : AcceptEnv} (h : s.envOk env = true) :
    (0 ≤ env.eventfd → env.eventfd ∉ s.openFds) ∧
      ∀ n : Nat, env.accept4 = .fd n → (n : Int) ∉ s.openFds ∧ (n : Int) ≠ env.eventfd := by
  simp only [envOk, Bool.and_eq_true, Bool.or_eq_true, decide_eq_true_eq] at h
  refine ⟨fun h0 => (h.2.resolve_left (by omega)).2, fun n hn => ?_⟩
  have hfd := h.1.2
  rw [hn] at hfd
  simp only [Bool.and_eq_true, decide_eq_true_eq] at hfd
  exact ⟨hfd.1.2, hfd.2⟩

theorem listenerStep_apart (h : s.Apart) (ht : s.listenerStep l = some t) : t.Apart := by
  have hsound := listenerStep_sound h.sound ht
  have ran {m : Prog cfg Unit} {next : ListenerPc} {e : Int}
      (hsound : (s.runListener m next).Sound) (he : 0 ≤ e → e ∉ s.openFds)
      (hm : (∀ u, m s.shared ≠ .error .undefinedBehaviour u) →
        Rostered e s.shared (final (m s.shared)) ∧
        (final (m s.shared)).sv.svSocket = s.shared.sv.svSocket ∧
        ∀ p ∈ (final (m s.shared)).sv.pairs,
          p ∈ s.shared.sv.pairs ∨ p.1 ∉ s.openFds ∧ p.1 ≠ e) : (s.runListener m next).Apart := by
    rcases runListener_cases s m next with ⟨_, heq⟩ | ⟨hub, pc, heq⟩
    · rw [heq]
      exact h.terminated
    · obtain ⟨hr, hsocket, htable⟩ := hm hub
      rw [heq] at hsound ⊢
      exact h.listened hsound hr he hsocket htable
  cases listenerStep_turn ht with
  | moved pc _ _ => exact ⟨hsound, h.evfds, h.sockets⟩
  | queue _ =>
    obtain ⟨new, hc⟩ := listenerProcess_closes s.listenerEvfd s.shared
    exact ran (e := -1) hsound (fun h0 => absurd h0 (by decide)) fun _ =>
      ⟨listenerProcess_rostered (-1) _ _, hc.socket, fun p hp => .inl (hc.kept p hp)⟩
  | stdin buffer socket =>
    obtain ⟨d, hd⟩ := stdinBranch_final buffer s.shared
    refine ran (e := -1) hsound (fun h0 => absurd h0 (by decide)) fun _ =>
      ⟨rostered_of_jthreads (-1) ?_, ?_, fun p hp => ?_⟩
    · rcases hd with hd | hd <;> rw [hd] <;> rfl
    · rcases hd with hd | hd <;> rw [hd] <;> rfl
    · refine .inl ?_
      rcases hd with hd | hd <;> rw [hd] at hp <;> exact hp
  | @accept env _ henv =>
    obtain ⟨hev, hfd⟩ := fresh_of_envOk henv
    refine ran hsound hev fun hub => ?_
    obtain ⟨new, ha⟩ := acceptBranch_accepts hub
    refine ⟨acceptBranch_rostered hub, ha.socket, fun p hp => (ha.table p hp).imp id ?_⟩
    rintro ⟨n, hn, hpn⟩
    rw [hpn]
    exact hfd n hn

-- what a turn of the listener closes
structure Listened (s t : State cfg) (new : List Int) : Prop where
  closed : t.shared.sv.closed = s.shared.sv.closed ++ new
  left : ∀ p ∈ s.shared.sv.pairs, p ∈ t.shared.sv.pairs ∨ p.1 ∈ new
  evfds : ∀ th ∈ s.threads, th.launch.personalEvfd ∉ new
  threads : ∃ more : List Launch, t.threads = s.threads ++ more.map fun l => ⟨l, .launched⟩

theorem listened_same (hsv : t.shared.sv.closed = s.shared.sv.closed)
    (hp : ∀ p ∈ s.shared.sv.pairs, p ∈ t.shared.sv.pairs)
    (hth : ∃ more : List Launch, t.threads = s.threads ++ more.map fun l => ⟨l, .launched⟩) :
    s.Listened t [] :=
  ⟨hsv.trans (List.append_nil _).symm, fun p h => .inl (hp p h),
    fun _ _ => List.not_mem_nil, hth⟩

theorem listenerStep_listened (h : s.Apart) (ht : s.listenerStep l = some t) :
    ∃ new, s.Listened t new := by
  have quiet {u : State cfg} (hu : u.threads = s.threads) (hsv : u.shared = s.shared) :
      ∃ new, s.Listened u new := by
    refine ⟨[], listened_same (by rw [hsv]) (fun p hp => by rwa [hsv]) ⟨[], ?_⟩⟩
    rw [hu, List.map_nil, List.append_nil]
  have ran {m : Prog cfg Unit} {next : ListenerPc}
      (hm : (∀ u, m s.shared ≠ .error .undefinedBehaviour u) →
        ∃ new, (final (m s.shared)).sv.closed = s.shared.sv.closed ++ new ∧
          (∀ p ∈ s.shared.sv.pairs, p ∈ (final (m s.shared)).sv.pairs ∨ p.1 ∈ new) ∧
          ∀ th ∈ s.threads, th.launch.personalEvfd ∉ new) :
      ∃ new, s.Listened (s.runListener m next) new := by
    rcases runListener_cases s m next with ⟨_, heq⟩ | ⟨hub, pc, heq⟩
    · rw [heq]
      exact quiet rfl rfl
    · obtain ⟨new, hclosed, hleft, hevfds⟩ := hm hub
      rw [heq]
      exact ⟨new, hclosed, hleft, hevfds, _, rfl⟩
  cases listenerStep_turn ht with
  | moved pc _ _ => exact quiet rfl rfl
  | queue _ =>
    obtain ⟨new, hc⟩ := listenerProcess_closes s.listenerEvfd s.shared
    refine ran fun _ => ⟨new, hc.closed, hc.left, fun th hth hm => ?_⟩
    obtain ⟨p, hp, he⟩ := hc.known _ hm
    exact (h.sockets th hth).2 p hp he.symm
  | stdin buffer socket =>
    obtain ⟨d, hd⟩ := stdinBranch_final buffer s.shared
    refine ran fun _ => ⟨[], ?_, fun p hp => .inl ?_, fun _ _ => List.not_mem_nil⟩
    · rw [List.append_nil]
      rcases hd with hd | hd <;> rw [hd] <;> rfl
    · rcases hd with hd | hd <;> rw [hd] <;> exact hp
  | @accept env _ henv =>
    refine ran fun hub => ?_
    obtain ⟨new, ha⟩ := acceptBranch_accepts hub
    refine ⟨new, ha.closed, fun p hp => .inl (ha.kept p hp), fun th hth hm => ?_⟩
    obtain ⟨n, hn, he⟩ := ha.given _ hm
    exact ((fresh_of_envOk henv).2 n hn).1 (he ▸ mem_openFds_evfd h.sound hth)

-- what a turn of a worker does not change
structure Worked (s : State cfg) (k : Nat) (th : Thread) (t : State cfg) : Prop where
  listener : t.listener = s.listener
  evfd : t.listenerEvfd = s.listenerEvfd
  pairs : t.shared.sv.pairs = s.shared.sv.pairs
  socket : t.shared.sv.svSocket = s.shared.sv.svSocket
  jthreads : jthreads t.shared = jthreads s.shared
  threads : ∃ p, t.threads = s.threads.set k { th with phase := p }

theorem threadStep_worked {k : Nat} {th : Thread} (h : s.Sound) (hth : s.threads[k]? = some th)
    (ht : s.threadStep k th l = some t) : s.Worked k th t := by
  have hsame := jthreads_turn h hth ht
  cases threadStep_turned h hth ht with
  | threw sends =>
    obtain ⟨hk, rfl⟩ := List.getElem?_eq_some_iff.mp hth
    exact ⟨rfl, rfl, rfl, rfl, hsame, _, (List.set_getElem_self hk).symm⟩
  | iterated _ _ hit =>
    have hpolled := pollQueue_sv hit.polled
    refine ⟨rfl, rfl, ?_, ?_, hsame, _, rfl⟩
    · have hserved := servesAny_pairs hit.served
      rw [hpolled, ← hit.removed.sv] at hserved
      exact hserved
    · exact ((undisturbed_socket _).iterated hit).trans (congrArg Server.svSocket hpolled)
  | _ => exact ⟨rfl, rfl, rfl, rfl, hsame, _, rfl⟩

theorem pollQueue_evfd {ev : Events} {launch : Launch} {q : QueueAction} {sh u : Shared cfg}
    {x : Int} (hx : x ≠ launch.personalEvfd) (h : pollQueue ev launch sh = .ok q u) :
    u.kernel.evfd x = sh.kernel.evfd x := by
  obtain ⟨poll, v, hv, h₁⟩ := bind_ok h
  obtain ⟨rfl, _, _⟩ := checkEvent_ok hv
  split_ifs at h₁
  · rw [workerProcessListenerToWorkerQ_eq] at h₁
    split_ifs at h₁
    · cases h₁
      rfl
    · split at h₁
      · cases h₁
        exact Shared.setEvfd_of_ne hx _ _
      · rcases processQueued_ok h₁ with rfl | ⟨rfl, _⟩ <;> exact Shared.setEvfd_of_ne hx _ _
  · cases h₁
    rfl

-- a worker reads its own eventfd and writes to the listener's
theorem threadStep_evfd {k : Nat} {th : Thread} {x : Int} (h : s.Sound)
    (hth : s.threads[k]? = some th) (ht : s.threadStep k th l = some t)
    (hown : x ≠ th.launch.personalEvfd) (hL : x ≠ s.listenerEvfd) :
    t.shared.kernel.evfd x = s.shared.kernel.evfd x := by
  have hlistener := (h.launches th (List.mem_of_getElem? hth)).2.2
  cases threadStep_turned h hth ht with
  | iterated _ _ hit =>
    have hserved := (undisturbed_evfd (hlistener ▸ hL)).iterated hit
    have hpolled := pollQueue_evfd hown hit.polled
    exact hserved.trans hpolled
  | _ => rfl

theorem launches_set {k : Nat} {th : Thread} (hth : s.threads[k]? = some th) (p : Phase) :
    (s.threads.set k { th with phase := p }).map Thread.launch = s.threads.map Thread.launch := by
  obtain ⟨hk, rfl⟩ := List.getElem?_eq_some_iff.mp hth
  have hlen : k < (s.threads.map Thread.launch).length := by simpa using hk
  have hget : (s.threads.map Thread.launch)[k] = s.threads[k].launch := List.getElem_map _
  rw [List.map_set, ← hget]
  exact List.set_getElem_self hlen

theorem threadStep_apart {k : Nat} {th : Thread} (h : s.Apart) (hth : s.threads[k]? = some th)
    (ht : s.threadStep k th l = some t) : t.Apart := by
  obtain ⟨_, hevfd, hpairs, hsocket, _, p, hthreads⟩ := threadStep_worked h.sound hth ht
  have hlaunches : t.threads.map Thread.launch = s.threads.map Thread.launch := by
    rw [hthreads, launches_set hth]
  refine ⟨threadStep_sound h.sound hth ht, ?_, fun x hx => ?_⟩
  · have hevfds := congrArg (List.map Launch.personalEvfd) hlaunches
    simp only [List.map_map, Function.comp_def] at hevfds
    rw [hevfd, hevfds]
    exact h.evfds
  · rw [hsocket, hpairs]
    rw [hthreads] at hx
    rcases List.mem_or_eq_of_mem_set hx with hx | rfl
    · exact h.sockets x hx
    · exact h.sockets th (List.mem_of_getElem? hth)

end Steps

theorem init_apart (cfg : Config) (svSocket listenerEvfd : Nat) :
    (init cfg svSocket listenerEvfd).Apart where
  sound := init_sound cfg svSocket listenerEvfd
  evfds := by simp [init]
  sockets := by simp [init]

end State

end ChatApp
