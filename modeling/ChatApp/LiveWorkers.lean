import ChatApp.ClientLists
import ChatApp.Quiescence
import Mathlib.Data.List.Perm.Subperm

namespace ChatApp

open Effects Runs

variable {cfg : Config}

-- the thread that the jthread in entry i of worker_threads owns
def threadAt (s : Shared cfg) (i : Nat) : Option Nat :=
  match s.mgr.workerThreads.entries[i]? with
  | some (some w) => some w.thread
  | _ => none

-- who owns which thread, how the threads were launched and which one is being joined
def jthreads (s : Shared cfg) : (Nat → Option Nat) × List Launch × Option Nat :=
  (threadAt s, s.kernel.spawned, s.kernel.joining)

-- what the listener does to the jthreads: it keeps them, destroys one, which joins its thread, or
-- starts one in an entry, which destroys what was there
inductive Rostered (eventfd : Int) (s t : Shared cfg) : Prop
  | same (h : ∀ j, threadAt t j = threadAt s j) (hs : t.kernel.spawned = s.kernel.spawned)
    (hj : t.kernel.joining = s.kernel.joining)
  | joined {i k : Nat} (hk : threadAt s i = some k)
    (h : ∀ j, threadAt t j = if j = i then none else threadAt s j)
    (hs : t.kernel.spawned = s.kernel.spawned) (hj : t.kernel.joining = some k)
  | launched {i : Nat} {l : Launch} (he : l.personalEvfd = eventfd)
    (h : ∀ j, threadAt t j = if j = i then some s.kernel.spawned.length else threadAt s j)
    (hs : t.kernel.spawned = s.kernel.spawned ++ [l])
    (hj : t.kernel.joining = (threadAt s i).or s.kernel.joining)

section Entries

variable {s t : Shared cfg} {i : Nat} {w : WorkerEntry} {socket clId L eventfd : Int}

theorem threadAt_of_entry (h : s.mgr.workerThreads.entries[i]? = some (some w)) :
    threadAt s i = some w.thread := by
  simp only [threadAt, h]

theorem threadAt_set {arr : Slots WorkerEntry cfg.maxNrOfThreads} {x : Option WorkerEntry}
    (hi : i < cfg.maxNrOfThreads) (ht : t.mgr.workerThreads = arr.set i x)
    (hs : s.mgr.workerThreads = arr) (j : Nat) :
    threadAt t j = if j = i then x.map WorkerEntry.thread else threadAt s j := by
  unfold threadAt
  rw [ht, hs, Slots.get_set]
  by_cases hj : j = i
  · subst hj
    rw [if_pos ⟨rfl, hi⟩, if_pos rfl]
    cases x <;> rfl
  · rw [if_neg fun h => hj h.1.symm, if_neg hj]

theorem threadAt_counted {t : Shared cfg} (hw : s.mgr.workerThreads.entries[i]? = some (some w))
    (c : Nat) (ht : t.mgr.workerThreads = s.mgr.workerThreads.set i (some { w with count := c }))
    (j : Nat) : threadAt t j = threadAt s j := by
  rw [threadAt_set (Slots.lt_of_get hw) ht rfl]
  split_ifs with hj
  · rw [hj, threadAt_of_entry hw]
    rfl
  · rfl

theorem Rostered.congr {s' t' : Shared cfg} (h : Rostered eventfd s t)
    (hs : jthreads s' = jthreads s) (ht : jthreads t' = jthreads t) : Rostered eventfd s' t' := by
  simp only [jthreads, Prod.mk.injEq] at hs ht
  obtain ⟨hs, hsl, hsj⟩ := hs
  obtain ⟨ht, htl, htj⟩ := ht
  cases h with
  | same h hl hj =>
    exact .same (fun j => by rw [ht, h, hs]) (by rw [htl, hl, hsl]) (by rw [htj, hj, hsj])
  | joined hk h hl hj =>
    exact .joined (by rw [hs, hk]) (fun j => by rw [ht, h, hs]) (by rw [htl, hl, hsl])
      (by rw [htj, hj])
  | launched he h hl hj =>
    exact .launched he (fun j => by rw [ht, h, hs, hsl]) (by rw [htl, hl, hsl])
      (by rw [htj, hj, hs, hsj])

theorem rostered_of_jthreads (e : Int) (h : jthreads t = jthreads s) : Rostered e s t := by
  simp only [jthreads, Prod.mk.injEq] at h
  exact .same (congrFun h.1) h.2.1 h.2.2

theorem jthreads_congr (hm : t.mgr.workerThreads = s.mgr.workerThreads)
    (hl : t.kernel.spawned = s.kernel.spawned) (hj : t.kernel.joining = s.kernel.joining) :
    jthreads t = jthreads s := by
  have hthreads : threadAt t = threadAt s := by
    funext j
    unfold threadAt
    rw [hm]
  rw [jthreads, hthreads, hl, hj, jthreads]

theorem assignTo_rostered (hw : s.mgr.workerThreads.entries[i]? = some (some w)) :
    Rostered eventfd s (final (assignTo i socket clId s)) := by
  rw [assignTo_eq hw, assignClientToWorker_eq]
  split_ifs <;> exact .same (threadAt_counted hw (w.count + 1) rfl) rfl rfl

theorem emplaceNewWorker_rostered (n : Nat) :
    (∃ u, emplaceNewWorker socket clId n L eventfd s = .error .undefinedBehaviour u) ∨
    Rostered eventfd s (final (emplaceNewWorker socket clId n L eventfd s)) := by
  rcases emplaceNewWorker_cases socket clId L eventfd n s with
    ⟨_, h⟩ | ⟨_, hub | ⟨old, w, hold, hw, h⟩⟩
  · rw [h]
    exact .inr (rostered_of_jthreads eventfd rfl)
  · exact .inl hub
  · rw [h]
    have hslot := Slots.lt_of_get hold
    have hown : (old.map WorkerEntry.thread) = threadAt s s.mgr.nrOfLaunchedThreads := by
      cases old <;> simp only [threadAt, hold] <;> rfl
    refine .inr (.launched rfl (fun j => ?_) rfl (by rw [← hown]; rfl))
    have hspawn : threadAt (s.spawn ⟨socket, clId, n, eventfd, L⟩ old) j = _ :=
      threadAt_set hslot rfl rfl j
    exact (threadAt_counted hw (w.count + 1) rfl j).trans hspawn

theorem processNewClient_rostered (socket clId L eventfd : Int) (s : Shared cfg) :
    (∃ u, processNewClient socket clId L eventfd s = .error .undefinedBehaviour u) ∨
    Rostered eventfd s (final (processNewClient socket clId L eventfd s)) := by
  rw [processNewClient_eq]
  cases hc : choose s.mgr with
  | launch n => exact emplaceNewWorker_rostered n
  | assign i =>
    obtain ⟨w, hw⟩ := choose_entry (.inl hc)
    exact .inr (assignTo_rostered hw)
  | raise i =>
    obtain ⟨w, hw⟩ := choose_entry (.inr hc)
    have h : Rostered eventfd s.raiseMax (final (assignTo i socket clId s.raiseMax)) :=
      assignTo_rostered hw
    exact .inr (h.congr rfl rfl)
  | overLimit => exact .inr (rostered_of_jthreads eventfd rfl)
  | allLaunched => exact .inr (rostered_of_jthreads eventfd rfl)

theorem acceptBranch_rostered {env : AcceptEnv}
    (hub : ∀ u, acceptBranch L env s ≠ .error .undefinedBehaviour u) :
    Rostered env.eventfd s (final (acceptBranch L env s)) := by
  rcases acceptBranch_final L env s with ⟨u, hu⟩ | ⟨hbody, d, hd⟩
  · exact absurd hu (hub u)
  · rw [hd]
    have hmain : Rostered env.eventfd s (final (acceptBranchBody L env s)) := by
      cases hr : acceptClient env s with
      | error e u =>
        obtain ⟨⟨fds, hu⟩, _⟩ := acceptClient_throws hr
        rw [acceptBranchBody, bind_of_error hr, hu]
        exact rostered_of_jthreads env.eventfd rfl
      | ok p u =>
        have hb : acceptBranchBody L env s = processNewClient p.1 p.2 L env.eventfd u := by
          rw [acceptBranchBody, bind_of_ok hr]
        have hm : u.mgr = s.mgr ∧ u.kernel = s.kernel := by
          cases acceptClient_entered hr <;> exact ⟨rfl, rfl⟩
        have hsame : jthreads s = jthreads u :=
          jthreads_congr (by rw [hm.1]) (by rw [hm.2]) (by rw [hm.2])
        rw [hb] at hbody ⊢
        rcases processNewClient_rostered p.1 p.2 L env.eventfd u with ⟨v, hv⟩ | h
        · exact absurd hv (hbody v)
        · exact h.congr hsame rfl
    exact hmain.congr rfl rfl

end Entries

section Messages

variable {s t : Shared cfg}

theorem onServer_jthreads {α : Type} (m : EStateM Exn (Server cfg) α) :
    Frame jthreads (onServer m) := by
  intro s
  unfold onServer
  split <;> rfl

theorem unicastRepeated_jthreads (exceptedId : Int) (ids : List Int) (msg : Str) :
    Frame jthreads (unicastRepeated exceptedId ids msg : Prog cfg Unit) :=
  .of_keeps fun _ => unicastRepeated_keeps msg (fun _ _ h => h) (fun _ _ h => h) exceptedId ids

theorem release_rostered (e : Int) {i : Nat} {w : WorkerEntry}
    (hw : s.mgr.workerThreads.entries[i]? = some (some w)) : Rostered e s (s.release i w) := by
  by_cases h1 : w.count = 1
  · have hset : (s.release i w).mgr.workerThreads = s.mgr.workerThreads.set i none := by
      simp only [Shared.release, h1, if_true]
    refine .joined (threadAt_of_entry hw) (threadAt_set (Slots.lt_of_get hw) hset rfl) rfl ?_
    simp only [Shared.release, h1, if_true]
  · have hset : (s.release i w).mgr.workerThreads =
        s.mgr.workerThreads.set i (some { w with count := w.count - 1 }) := by
      simp only [Shared.release, h1, if_false]
    refine .same (threadAt_counted hw (w.count - 1) hset) rfl ?_
    simp only [Shared.release, h1, if_false]

theorem workerClientDisconnect_rostered (e : Int) (i : Int) (s : Shared cfg) :
    Rostered e s (final (workerClientDisconnect i s)) := by
  have hrefl : Rostered e s s := rostered_of_jthreads e rfl
  by_cases hi : i < 0
  · simpa only [workerClientDisconnect, workerAt, hi, if_true, throw_bind_run, final_error]
  · obtain ⟨n, rfl⟩ := Int.eq_ofNat_of_zero_le (show 0 ≤ i by omega)
    cases he : s.mgr.workerThreads.entries[n]? with
    | none =>
      simpa only [workerClientDisconnect, workerAt, hi, if_false, bind_run, get_run,
        Int.toNat_natCast, he, throw_run, final_error]
    | some x =>
      cases x with
      | none =>
        rw [workerClientDisconnect_empty he]
        exact hrefl
      | some w =>
        by_cases h0 : w.count = 0
        · rw [workerClientDisconnect, bind_of_ok (workerAt_run he)]
          simpa only [h0, if_true, throw_run, final_error]
        · rw [workerClientDisconnect_run he (by omega)]
          exact release_rostered e he

theorem processClDisconnected_rostered (e : Int) (m : ServerMessage) (ids : List Int)
    (s : Shared cfg) : Rostered e s (final (processClDisconnected m ids s)) := by
  have h0 (t : Shared cfg) (h : jthreads t = jthreads s) : Rostered e s t :=
    rostered_of_jthreads e h
  refine Frame.leads rfl h0 (liftExcept_frame _ _) fun clId s h => ?_
  refine Frame.leads h h0 (onServer_jthreads _) fun _ s h => ?_
  refine Frame.leads h h0 (liftExcept_frame _ _) fun i s h => ?_
  refine Frame.leads h h0 (workerAt_frame _ i) fun x s h => ?_
  split
  · exact h0 s h
  · split_ifs
    · exact h0 s h
    · refine Frame.leads h h0 (liftExcept_frame _ _) fun _ s h => ?_
      refine Frame.leads h h0 (unicastRepeated_jthreads _ _ _) fun _ s h => ?_
      refine Frame.leads h h0 (liftExcept_frame _ _) fun j s h => ?_
      exact (workerClientDisconnect_rostered e j s).congr h.symm rfl

theorem processMessage_rostered (e : Int) (msg : Str) (s : Shared cfg) :
    Rostered e s (final (processMessage msg s)) := by
  have h0 (t : Shared cfg) (h : jthreads t = jthreads s) : Rostered e s t :=
    rostered_of_jthreads e h
  have chat (exceptedId : Except Exn Int) (ids : List Int) (text : Str) :
      Frame jthreads (liftExcept exceptedId >>= fun x => unicastRepeated x ids text :
        Prog cfg Unit) :=
    (liftExcept_frame _ _).bind fun _ => unicastRepeated_jthreads _ _ _
  cases hdec : ({} : ServerMessage).constructFromString msg with
  | error err =>
    rw [processMessage, hdec]
    exact h0 s rfl
  | ok m =>
    rw [processMessage, hdec, bind_of_ok (liftExcept_ok m), get_bind_run]
    unfold dispatch
    split_ifs
    · exact h0 s rfl
    · exact processClDisconnected_rostered e m _ s
    · exact h0 _ (chat _ _ _ s)
    · exact h0 _ (unicastRepeated_jthreads _ _ _ s)
    · exact h0 _ (chat _ _ _ s)
    · exact h0 s rfl

theorem listenerProcess_rostered (e L : Int) (s : Shared cfg) :
    Rostered e s (final (listenerProcessWorkerToListenerQ L s)) := by
  rw [listenerProcess_eq]
  split_ifs
  · exact rostered_of_jthreads e rfl
  · cases hq : s.mgr.qWorkerToListener with
    | nil => exact rostered_of_jthreads e rfl
    | cons msg rest =>
      exact (processMessage_rostered e msg ((s.setEvfd L 0).setWorkerToListener rest)).congr rfl rfl

end Messages

namespace State

-- every thread that goes on is owned by one entry, or is the one that is being joined
structure Manned (s : State cfg) : Prop where
  sound : s.Sound
  owned : ∀ (k : Nat) (th : Thread), s.threads[k]? = some th → th.isEnded = false →
    s.shared.kernel.joining = some k ∨ ∃ i, threadAt s.shared i = some k
  once : ∀ i j k, threadAt s.shared i = some k → threadAt s.shared j = some k → i = j
  started : ∀ i k, threadAt s.shared i = some k → k < s.threads.length

section Steps

variable {s t : State cfg} {l : Label}

theorem joined_ended (hj : s.joined = true) {k : Nat} {th : Thread}
    (hk : s.shared.kernel.joining = some k) (hth : s.threads[k]? = some th) :
    th.isEnded = true := by
  simpa only [joined, hk, hth, Option.all_some] using hj

theorem Manned.here (h : s.Manned) (hj : s.joined = true) {k : Nat} {th : Thread}
    (hth : s.threads[k]? = some th) (hend : th.isEnded = false) :
    ∃ i, threadAt s.shared i = some k := by
  refine (h.owned k th hth hend).resolve_left fun hk => ?_
  rw [joined_ended hj hk hth] at hend
  cases hend

theorem Manned.terminated (h : s.Manned) : Manned { s with terminated := true } :=
  ⟨sound_terminated h.sound, h.owned, h.once, h.started⟩

theorem threads_unspawned {sh : Shared cfg} (h : s.Sound)
    (hs : sh.kernel.spawned = s.shared.kernel.spawned) (pc : ListenerPc) :
    (s.withShared sh pc).threads = s.threads := by
  have hnone : sh.kernel.spawned = s.shared.kernel.spawned ++ [] := by rw [hs, List.append_nil]
  rw [threads_withShared h hnone, List.map_nil, List.append_nil]

-- a listener that is not blocked in a join may destroy one jthread or start one
theorem Manned.listened {e : Int} {sh : Shared cfg} {pc : ListenerPc} (h : s.Manned)
    (hfree : s.joined = true) (hsound : Sound (s.withShared sh pc))
    (hr : Rostered e s.shared sh) : Manned (s.withShared sh pc) := by
  have hlen : s.shared.kernel.spawned.length = s.threads.length := by
    rw [h.sound.spawned, List.length_map]
  cases hr with
  | same hat hs hjoin =>
    have hthreads := threads_unspawned h.sound hs pc
    refine ⟨hsound, fun k th hth hend => ?_, fun i j k hi hj => ?_, fun i k hi => ?_⟩
    · obtain ⟨i, hi⟩ := h.here hfree (hthreads ▸ hth) hend
      exact .inr ⟨i, (hat i).trans hi⟩
    · exact h.once i j k ((hat i).symm.trans hi) ((hat j).symm.trans hj)
    · rw [hthreads]
      exact h.started i k ((hat i).symm.trans hi)
  | @joined i₀ k₀ hk₀ hat hs hjoin =>
    have hthreads := threads_unspawned h.sound hs pc
    have before {i k : Nat} (hi : threadAt sh i = some k) : threadAt s.shared i = some k := by
      rw [hat] at hi
      split_ifs at hi
      exact hi
    refine ⟨hsound, fun k th hth hend => ?_, fun i j k hi hj => ?_, fun i k hi => ?_⟩
    · obtain ⟨i, hi⟩ := h.here hfree (hthreads ▸ hth) hend
      by_cases hii : i = i₀
      · subst hii
        obtain rfl := Option.some.inj (hk₀.symm.trans hi)
        exact .inl hjoin
      · exact .inr ⟨i, (hat i).trans (by rw [if_neg hii, hi])⟩
    · exact h.once i j k (before hi) (before hj)
    · rw [hthreads]
      exact h.started i k (before hi)
  | @launched i₀ new he hat hs hjoin =>
    have hthreads : (s.withShared sh pc).threads = s.threads ++ [⟨new, .launched⟩] :=
      threads_withShared h.sound hs pc
    have before {i k : Nat} (hi : threadAt sh i = some k) :
        i = i₀ ∧ k = s.threads.length ∨ i ≠ i₀ ∧ threadAt s.shared i = some k := by
      rw [hat, hlen] at hi
      split_ifs at hi with hii
      · exact .inl ⟨hii, (Option.some.inj hi).symm⟩
      · exact .inr ⟨hii, hi⟩
    refine ⟨hsound, fun k th hth hend => ?_, fun i j k hi hj => ?_, fun i k hi => ?_⟩
    · rw [hthreads] at hth
      by_cases hk : k < s.threads.length
      · rw [List.getElem?_append_left hk] at hth
        obtain ⟨i, hi⟩ := h.here hfree hth hend
        by_cases hii : i = i₀
        · refine .inl (hjoin.trans ?_)
          rw [← hii, hi, Option.some_or]
        · exact .inr ⟨i, (hat i).trans (by rw [if_neg hii, hi])⟩
      · have hlt := (List.getElem?_eq_some_iff.mp hth).1
        rw [List.length_append, List.length_singleton] at hlt
        obtain rfl : k = s.threads.length := by omega
        exact .inr ⟨i₀, (hat i₀).trans (by rw [if_pos rfl, hlen])⟩
    · rcases before hi with ⟨hi', hk⟩ | ⟨_, hi'⟩
      · rcases before hj with ⟨hj', _⟩ | ⟨_, hj'⟩
        · exact hi'.trans hj'.symm
        · exact absurd (h.started j k hj') (by omega)
      · rcases before hj with ⟨_, hk⟩ | ⟨_, hj'⟩
        · exact absurd (h.started i k hi') (by omega)
        · exact h.once i j k hi' hj'
    · rw [hthreads, List.length_append, List.length_singleton]
      rcases before hi with ⟨_, rfl⟩ | ⟨_, hi'⟩
      · exact Nat.lt_succ_self _
      · exact Nat.lt_succ_of_lt (h.started i k hi')

theorem listenerStep_manned (h : s.Manned) (hj : s.joined = true)
    (ht : s.listenerStep l = some t) : t.Manned := by
  have hsound := listenerStep_sound h.sound ht
  have ran {m : Prog cfg Unit} {next : ListenerPc} (hsound : (s.runListener m next).Sound)
      (hm : (∀ u, m s.shared ≠ .error .undefinedBehaviour u) →
        ∃ e, Rostered e s.shared (final (m s.shared))) : (s.runListener m next).Manned := by
    rcases runListener_cases s m next with ⟨_, he⟩ | ⟨hub, pc, he⟩
    · rw [he]
      exact h.terminated
    · obtain ⟨e, hr⟩ := hm hub
      rw [he] at hsound ⊢
      exact h.listened hj hsound hr
  cases listenerStep_turn ht with
  | moved pc _ _ => exact ⟨hsound, h.owned, h.once, h.started⟩
  | queue _ => exact ran hsound fun _ => ⟨0, listenerProcess_rostered 0 _ _⟩
  | stdin buffer socket =>
    obtain ⟨d, hd⟩ := stdinBranch_final buffer s.shared
    refine ran hsound fun _ => ⟨0, rostered_of_jthreads 0 ?_⟩
    rcases hd with hd | hd <;> rw [hd] <;> rfl
  | accept _ _ => exact ran hsound fun hub => ⟨_, acceptBranch_rostered hub⟩

theorem jthreads_turn {k : Nat} {th : Thread} (h : s.Sound) (hth : s.threads[k]? = some th)
    (ht : s.threadStep k th l = some t) : jthreads t.shared = jthreads s.shared := by
  cases threadStep_turned h hth ht with
  | @iterated _ ev _ _ _ _ _ _ _ _ _ hit =>
    obtain ⟨accepts, ups, ho, _⟩ := h.owned
    have ho₁ : Owned s.held accepts ups (s.withSends ev.sends).shared := ho.of_core rfl
    obtain ⟨_, _, _, rfl⟩ := pollQueue_polled ho₁ hit.polled
    have hm := congrArg ServerThreadManager.workerThreads hit.kept.mgr
    exact jthreads_congr hm hit.kept.spawned hit.kept.joining
  | _ => rfl

theorem not_ended_of_step {k : Nat} {th : Thread} (ht : s.threadStep k th l = some t) :
    th.isEnded = false := by
  have hpos := stepsToEnd_pos ht
  unfold Thread.isEnded
  cases hp : th.phase with
  | ended w =>
    rw [hp] at hpos
    cases hpos
  | _ => rfl

theorem threadStep_manned {k : Nat} {th : Thread} (h : s.Manned) (hth : s.threads[k]? = some th)
    (ht : s.threadStep k th l = some t) : t.Manned := by
  have hsound := threadStep_sound h.sound hth ht
  have hsame := jthreads_turn h.sound hth ht
  simp only [jthreads, Prod.mk.injEq] at hsame
  obtain ⟨hat, _, hjoin⟩ := hsame
  have hthreads : ∃ th', (t.threads = s.threads ∨ t.threads = s.threads.set k th') ∧
      (th'.isEnded = false → th.isEnded = false) := by
    have hend := not_ended_of_step ht
    cases threadStep_turned h.sound hth ht with
    | threw sends => exact ⟨th, .inl rfl, id⟩
    | _ => exact ⟨_, .inr rfl, fun _ => hend⟩
  obtain ⟨th', hthreads, hend'⟩ := hthreads
  have hlen : t.threads.length = s.threads.length := by
    rcases hthreads with hthreads | hthreads <;> simp [hthreads]
  refine ⟨hsound, fun j x hx hend => ?_, fun i j k hi hj => ?_, fun i k hi => ?_⟩
  · have hold : ∃ y, s.threads[j]? = some y ∧ y.isEnded = false := by
      rcases hthreads with hthreads | hthreads
      · exact ⟨x, hthreads ▸ hx, hend⟩
      · rw [hthreads] at hx
        by_cases hjk : k = j
        · subst hjk
          rw [List.getElem?_set_self (List.getElem?_eq_some_iff.mp hth).1] at hx
          obtain rfl := Option.some.inj hx
          exact ⟨th, hth, hend' hend⟩
        · rw [List.getElem?_set_ne hjk] at hx
          exact ⟨x, hx, hend⟩
    obtain ⟨y, hy, hyend⟩ := hold
    rw [hjoin, hat]
    exact h.owned j y hy hyend
  · rw [hat] at hi hj
    exact h.once i j k hi hj
  · rw [hat] at hi
    rw [hlen]
    exact h.started i k hi

theorem step_manned (h : s.Manned) (ht : s.step l = some t) : t.Manned := by
  obtain ⟨_, ⟨hj, hs⟩ | ⟨k, th, hth, hs⟩⟩ := step_cases ht
  · exact listenerStep_manned h hj hs
  · exact threadStep_manned h hth hs

end Steps

theorem init_threadAt (cfg : Config) (svSocket listenerEvfd i : Nat) :
    threadAt (init cfg svSocket listenerEvfd).shared i = none := by
  unfold threadAt init
  simp only [Slots.empty, List.getElem?_replicate]
  split_ifs <;> rfl

theorem init_manned (cfg : Config) (svSocket listenerEvfd : Nat) :
    (init cfg svSocket listenerEvfd).Manned where
  sound := init_sound cfg svSocket listenerEvfd
  owned := fun k th hth => by simp [init] at hth
  once := fun i j k hi => by simp [init_threadAt] at hi
  started := fun i k hi => by simp [init_threadAt] at hi

section Counting

variable {s : State cfg}

def running (s : State cfg) : List Nat :=
  (s.threads.zipIdx.filter fun p => !p.1.isEnded).map Prod.snd

theorem running_length (s : State cfg) :
    s.running.length = s.threads.countP fun th => !th.isEnded := by
  have hfst : s.threads.zipIdx.map Prod.fst = s.threads := List.zipIdx_map_fst 0 s.threads
  rw [running, List.length_map, ← List.countP_eq_length_filter]
  conv_rhs => rw [← hfst, List.countP_map]
  rfl

theorem running_nodup (s : State cfg) : s.running.Nodup := by
  have hall : (s.threads.zipIdx.map Prod.snd).Nodup := by
    rw [List.zipIdx_map_snd]
    exact List.nodup_range'
  exact (List.filter_sublist.map Prod.snd).nodup hall

theorem mem_running {k : Nat} :
    k ∈ s.running ↔ ∃ th, s.threads[k]? = some th ∧ th.isEnded = false := by
  simp only [running, List.mem_map, List.mem_filter, Prod.exists, List.mk_mem_zipIdx_iff_getElem?,
    Bool.not_eq_true', exists_eq_right]

-- an entry owns one thread
theorem running_le {o : List Nat}
    (h : ∀ k ∈ s.running, k ∈ o ∨ ∃ i, threadAt s.shared i = some k) :
    s.running.length ≤ o.length + cfg.maxNrOfThreads := by
  have hsub : s.running ⊆
      o ++ (List.range cfg.maxNrOfThreads).filterMap (threadAt s.shared) := by
    intro k hk
    rw [List.mem_append, List.mem_filterMap]
    refine (h k hk).imp id fun ⟨i, hi⟩ => ⟨i, ?_, hi⟩
    rw [List.mem_range]
    unfold threadAt at hi
    split at hi
    · rename_i w hw
      exact Slots.lt_of_get hw
    · cases hi
  have hlen := (List.subperm_of_subset s.running_nodup hsub).length_le
  have hrange := List.length_filterMap_le (threadAt s.shared) (List.range cfg.maxNrOfThreads)
  rw [List.length_append] at hlen
  rw [List.length_range] at hrange
  omega

theorem Manned.running_le (h : s.Manned) : s.running.length ≤ cfg.maxNrOfThreads + 1 := by
  have hle := State.running_le (o := s.shared.kernel.joining.toList) fun k hk => by
    obtain ⟨th, hth, hend⟩ := mem_running.mp hk
    rw [Option.mem_toList]
    exact h.owned k th hth hend
  have hone : s.shared.kernel.joining.toList.length ≤ 1 := by
    cases s.shared.kernel.joining <;> simp
  omega

theorem Manned.running_le_joined (h : s.Manned) (hj : s.joined = true) :
    s.running.length ≤ cfg.maxNrOfThreads := by
  have hle := State.running_le (s := s) (o := []) fun k hk => by
    obtain ⟨th, hth, hend⟩ := mem_running.mp hk
    exact .inr (h.here hj hth hend)
  exact hle.trans (Nat.zero_add _).le

end Counting

end State

-- there are never many workers: a jthread that is replaced joins its thread first
theorem runningWorkers_le {svSocket listenerEvfd : Nat} {s : State cfg}
    (hr : Reach State.step (fun _ _ => True) (State.init cfg svSocket listenerEvfd) s) :
    (s.threads.countP fun th => !th.isEnded) ≤ cfg.maxNrOfThreads + 1 ∧
    (s.joined = true → (s.threads.countP fun th => !th.isEnded) ≤ cfg.maxNrOfThreads) := by
  have h : s.Manned := hr.invariant (State.init_manned cfg svSocket listenerEvfd)
    fun _ _ _ hI _ ht => State.step_manned hI ht
  rw [← State.running_length]
  exact ⟨h.running_le, h.running_le_joined⟩

def State.twoWorkers : List Label :=
  listenerRound false true (connection 5 6) ++ [.start 0 freshFrame] ++
  listenerRound false true (connection 7 8) ++ [.start 1 freshFrame]

theorem runningWorkers_le_two : ∃ s : State Config.deployed, s.joined = true ∧
    (s.threads.countP fun th => !th.isEnded) = 2 ∧
    (s.threads.countP fun th => !th.isEnded) ≤ Config.deployed.maxNrOfThreads := by
  have hrun : (run State.step (State.init Config.deployed 3 4) State.twoWorkers).any
      (fun s => s.joined && (s.threads.countP fun th => !th.isEnded) = 2) = true := by
    decide +kernel
  obtain ⟨s, hr, hs⟩ := exists_of_run (fun _ _ => trivial) hrun
  simp only [Bool.and_eq_true, decide_eq_true_eq] at hs
  exact ⟨s, hs.1, hs.2, (runningWorkers_le hr).2 hs.1⟩

end ChatApp
