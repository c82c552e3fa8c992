import ChatApp.InterleavedHands

namespace ChatApp

namespace Interleaved

open Effects Scripts

variable {cfg : Config}

-- what is held between two operations, by whom, and what the listener and the workers need of it
structure Custody (cfg : Config) where
  table : List (Int × Int) → Shared cfg → Prop
  -- the clients a worker holds, by where it stands
  hand : Launch → Phase cfg → List (Int × Int) → Prop
  listener : Steps cfg Unit → List (Int × Int) → Prop
  -- how a script may fail
  fault : Fault → Prop

namespace Custody

-- a step goes on with some of what was held, or fails as it may
def Lands (K : Custody cfg) (l : Launch) (g : List (Int × Int)) : Except Fault (Phase cfg) → Prop
  | .ok ph => ∃ g' : List (Int × Int), g'.Subperm g ∧ K.hand l ph g'
  | .error d => K.fault d

-- every operation hands on what it held
structure Kept (K : Custody cfg) : Prop where
  accounting : Accounting K.table
  launched {l : Launch} {ps : List (Int × Int)} {s : Shared cfg} (hs : K.table ps s)
    (hl : l.client ∈ ps) : K.hand l .launched [l.client]
  start {l : Launch} {g : List (Int × Int)} (frame : MessageFrame) (h : K.hand l .launched g) :
    K.Lands l g (Phase.settle (workerPrologue l frame) (fun _ => .launched) fun w => .ok (.head w))
  wait {l : Launch} {w : WorkerState} {g : List (Int × Int)} (h : K.hand l (.head w) g) :
    K.hand l (.waiting w) g
  leave {l : Launch} {w : WorkerState} {g : List (Int × Int)} (h : K.hand l (.head w) g) :
    K.Lands l g (.ok (.ended w))
  wake {l : Launch} {w : WorkerState} {g : List (Int × Int)}
    (hi : l.personalIndex < cfg.maxNrOfThreads) (h : K.hand l (.waiting w) g) (ev : Events) :
    K.Lands l g (Phase.settle (pollQueue ev l) (.polling ev w) fun q =>
      Phase.serve l ev w q w.buffers w.clients)
  act {l : Launch} {ph : Phase cfg} {g r : List (Int × Int)} {s t : Shared cfg}
    {res : Except Fault (Phase cfg)} (hi : l.personalIndex < cfg.maxNrOfThreads)
    (h : K.hand l ph g) (hs : K.table (g ++ r) s) (ha : ph.act l s = some (t, res)) :
    ∃ g', Move K.table [] r [] s g' t ∧ K.Lands l g' res
  erase {l : Launch} {w : WorkerState} {q : QueueAction} {kept g : List (Int × Int)} {b : Buffers}
    (h : K.hand l (.erasing w q kept b) g) :
    K.Lands l g (Phase.settle (takeUp q kept) (fun _ => .erasing w q kept b) fun clients =>
      .ok (.head ⟨clients, b⟩))
  failed {d : Fault} {g : List (Int × Int)} (h : K.listener (.fail d) g) : K.fault d
  next {p : Steps cfg Unit} {g r : List (Int × Int)} {s : Shared cfg} (h : K.listener p g)
    (hs : K.table (g ++ r) s) :
    ∃ g', Move K.table [] r [] s g' (p.next s).1 ∧ K.listener (p.next s).2 g'
  reading (listenerEvfd : Int) : K.listener (listenerProcessWorkerToListenerQ listenerEvfd) []
  typing (buffer : Option Str) : K.listener (stdinBranch buffer) []
  accepting {env : AcceptEnv} {r : List (Int × Int)} {s : Shared cfg} (listenerEvfd : Int)
    (hs : K.table r s) (hopen : ∀ n : Nat, env.accept4 = .fd n →
      (n : Int) ≤ Decimal.intMax ∧ (n : Int) ∉ s.sv.pairs.map Prod.fst) :
    ∃ g', Move K.table [] r [] s g' ((acceptBranch listenerEvfd env).next s).1 ∧
      K.listener ((acceptBranch listenerEvfd env).next s).2 g'

section Landing

variable {K : Custody cfg} {l : Launch} {g g' : List (Int × Int)}

theorem Lands.of_hand {ph : Phase cfg} (h : K.hand l ph g) : K.Lands l g (.ok ph) :=
  ⟨g, .refl g, h⟩

theorem Lands.sublist {res : Except Fault (Phase cfg)} (h : K.Lands l g' res)
    (hs : g'.Sublist g) : K.Lands l g res := by
  cases res with
  | ok ph =>
    obtain ⟨g'', hg', hh⟩ := h
    exact ⟨g'', hg'.trans hs.subperm, hh⟩
  | error d => exact h

end Landing

end Custody

def ListenerPc.script : ListenerPc cfg → Option (Steps cfg Unit)
  | .reading _ _ p => some p
  | .typing _ p => some p
  | .accepting p => some p
  | _ => none

def launched (new : List Launch) : List (Thread cfg × List (Int × Int)) :=
  new.map fun l => (⟨l, .launched⟩, [l.client])

section Launched

variable {new : List Launch}

theorem flatMap_launched :
    (launched new : List (Thread cfg × List (Int × Int))).flatMap Prod.snd =
      new.map Launch.client := by
  induction new with
  | nil => rfl
  | cons l new ih => exact congrArg (l.client :: ·) ih

theorem mem_launched {x : Thread cfg × List (Int × Int)} (hx : x ∈ launched new) :
    ∃ l ∈ new, x = (⟨l, .launched⟩, [l.client]) := by
  obtain ⟨l, hl, rfl⟩ := List.mem_map.mp hx
  exact ⟨l, hl, rfl⟩

theorem map_launched :
    (launched new).map Prod.fst = new.map fun l => (⟨l, .launched⟩ : Thread cfg) := by
  simp [launched]

theorem perm_eraseIdx {ts : List (Thread cfg × List (Int × Int))} {k : Nat}
    {x : Thread cfg × List (Int × Int)} (hx : ts[k]? = some x) :
    (ts.flatMap Prod.snd).Perm (x.2 ++ (ts.eraseIdx k).flatMap Prod.snd) := by
  obtain ⟨hk, rfl⟩ := List.getElem?_eq_some_iff.mp hx
  exact ((List.getElem_cons_eraseIdx_perm hk).flatMap_right Prod.snd).symm

end Launched

namespace State

-- who holds which client: lg the listener, ts the threads
structure Divided (K : Custody cfg) (s : State cfg) (lg : List (Int × Int))
    (ts : List (Thread cfg × List (Int × Int))) : Prop where
  threads : s.threads = ts.map Prod.fst
  spawned : s.shared.kernel.spawned.length = s.threads.length
  index : ∀ x ∈ ts, x.1.launch.personalIndex < cfg.maxNrOfThreads
  hands : ∀ x ∈ ts, K.hand x.1.launch x.1.phase x.2
  table : K.table (lg ++ ts.flatMap Prod.snd) s.shared
  listener : ∀ p, s.listener.script = some p → K.listener p lg

-- no script has failed but as it may, and until something ends the process all is accounted for
def InHands (K : Custody cfg) (s : State cfg) : Prop :=
  (∀ d, s.fault = some d → K.fault d) ∧ (s.fault = none → ∃ lg ts, s.Divided K lg ts)

section Handing

variable {K : Custody cfg} {s : State cfg} {sh : Shared cfg} {lg lg' g : List (Int × Int)}
variable {ts : List (Thread cfg × List (Int × Int))} {new : List Launch} {k : Nat}
variable {th : Thread cfg}

theorem threads_withShared (h : s.shared.kernel.spawned.length = s.threads.length)
    (hs : sh.kernel.spawned = s.shared.kernel.spawned ++ new) :
    (s.withShared sh).threads = s.threads ++ new.map fun l => ⟨l, .launched⟩ := by
  simp only [withShared, hs, ← h, List.drop_left]

-- the listener makes a move
theorem Divided.told {p : Steps cfg Unit} {now : Steps cfg Unit → ListenerPc cfg}
    {next : ListenerPc cfg} (h : s.Divided K lg ts) (hK : K.Kept) (hf : s.fault = none)
    (hm : Move K.table [] (ts.flatMap Prod.snd) [] s.shared lg' sh) (hp : K.listener p lg')
    (hnow : ∀ p, (now p).script = some p) (hnext : next.script = none) :
    ((s.withShared sh).settle p now next).InHands K := by
  obtain ⟨new, hspawn, hidx, hacc⟩ := hm
  have hthreads := threads_withShared h.spawned hspawn
  have hrest (pc : ListenerPc cfg) (hpc : ∀ p, pc.script = some p → K.listener p lg') :
      ({ s.withShared sh with listener := pc } : State cfg).InHands K := by
    refine ⟨by simp [withShared, hf], fun _ => ⟨lg', ts ++ launched new, ?_, ?_, ?_, ?_, ?_, hpc⟩⟩
    · rw [List.map_append, map_launched, ← h.threads]
      exact hthreads
    · change sh.kernel.spawned.length = (s.withShared sh).threads.length
      rw [hthreads, hspawn, List.length_append, List.length_append, List.length_map, h.spawned]
    · intro x hx
      rcases List.mem_append.mp hx with hx | hx
      · exact h.index x hx
      · obtain ⟨l, hl, rfl⟩ := mem_launched hx
        exact hidx l hl
    · intro x hx
      rcases List.mem_append.mp hx with hx | hx
      · exact h.hands x hx
      · obtain ⟨l, hl, rfl⟩ := mem_launched hx
        exact hK.launched hacc (List.mem_append_left _ (List.mem_map_of_mem hl))
    · refine hK.accounting.fewer hacc (List.Perm.subperm ?_)
      rw [List.flatMap_append, flatMap_launched]
      refine List.perm_iff_count.mpr fun x => ?_
      simp only [List.count_append, List.count_nil]
      omega
  cases p with
  | done a => exact hrest next fun p he => by rw [hnext] at he; cases he
  | act f k =>
    refine hrest _ fun p he => ?_
    rw [hnow] at he
    cases he
    exact hp
  | fail d =>
    have hfail : K.fault d := hK.failed hp
    have hends (d : Fault) (hd : K.fault d) :
        ({ s.withShared sh with fault := some d } : State cfg).InHands K :=
      ⟨fun _ he => Option.some.inj he ▸ hd, fun hn => by cases hn⟩
    cases d with
    | emptyOptional => exact hends _ hfail
    | thrown e =>
      cases e with
      | undefinedBehaviour => exact hends _ hfail
      | _ => exact hrest .ended fun p he => by cases he

-- a worker makes a move
theorem Divided.landed {res : Except Fault (Phase cfg)} {g' : List (Int × Int)}
    (h : s.Divided K lg ts) (hK : K.Kept) (hf : s.fault = none) (hx : ts[k]? = some (th, g))
    (hm : Move K.table [] (lg ++ (ts.eraseIdx k).flatMap Prod.snd) [] s.shared g' sh)
    (hl : K.Lands th.launch g' res) : ((s.withShared sh).setPhase k th res).InHands K := by
  obtain ⟨new, hspawn, hidx, hacc⟩ := hm
  have hthreads := threads_withShared h.spawned hspawn
  cases res with
  | error d => exact ⟨fun _ he => Option.some.inj he ▸ hl, fun hn => by cases hn⟩
  | ok ph =>
    obtain ⟨g'', hsub, hhand⟩ := hl
    have hk := (List.getElem?_eq_some_iff.mp hx).1
    have hmem := List.mem_of_getElem? hx
    refine ⟨by simp [setPhase, withShared, hf], fun _ =>
      ⟨lg, ts.set k ({ th with phase := ph }, g'') ++ launched new, ?_, ?_, ?_, ?_, ?_,
        h.listener⟩⟩
    · change (s.withShared sh).threads.set k { th with phase := ph } = _
      have hlen : k < s.threads.length := by rwa [h.threads, List.length_map]
      rw [hthreads, List.set_append_left _ _ hlen, List.map_append, map_launched, List.map_set,
        h.threads]
    · change sh.kernel.spawned.length = ((s.withShared sh).threads.set k _).length
      rw [List.length_set, hthreads, hspawn, List.length_append, List.length_append,
        List.length_map, h.spawned]
    · intro x hx
      rcases List.mem_append.mp hx with hx | hx
      · rcases List.mem_or_eq_of_mem_set hx with hx | rfl
        · exact h.index x hx
        · exact h.index (th, g) hmem
      · obtain ⟨l, hl, rfl⟩ := mem_launched hx
        exact hidx l hl
    · intro x hx
      rcases List.mem_append.mp hx with hx | hx
      · rcases List.mem_or_eq_of_mem_set hx with hx | rfl
        · exact h.hands x hx
        · exact hhand
      · obtain ⟨l, hl, rfl⟩ := mem_launched hx
        exact hK.launched hacc (List.mem_append_left _ (List.mem_map_of_mem hl))
    · have hset := List.getElem?_set_self (a := (⟨th.launch, ph⟩, g'')) hk
      have hperm := perm_eraseIdx hset
      rw [List.eraseIdx_set_eq] at hperm
      refine hK.accounting.fewer hacc (List.subperm_ext_iff.mpr fun x _ => ?_)
      have h₁ := hperm.count_eq x
      have h₂ := hsub.count_le x
      rw [List.flatMap_append, flatMap_launched]
      simp only [List.count_append, List.count_nil] at h₁ ⊢
      omega

-- as long as no operation runs, the shared state is the same
theorem withShared_self (h : s.shared.kernel.spawned.length = s.threads.length) :
    s.withShared s.shared = s := by
  have hsame : s.shared.kernel.spawned = s.shared.kernel.spawned ++ [] := (List.append_nil _).symm
  have hnone := threads_withShared h hsame
  rw [List.map_nil, List.append_nil] at hnone
  exact congrArg (fun ths => { s with threads := ths }) hnone

theorem Divided.rest (h : s.Divided K lg ts) (hK : K.Kept) (hx : ts[k]? = some (th, g)) :
    K.table (g ++ (lg ++ (ts.eraseIdx k).flatMap Prod.snd)) s.shared := by
  refine hK.accounting.fewer h.table (List.Perm.subperm ?_)
  have hperm := perm_eraseIdx hx
  refine List.perm_iff_count.mpr fun x => ?_
  have := hperm.count_eq x
  simp only [List.count_append] at this ⊢
  omega

-- a worker goes on without an operation
theorem Divided.moved {res : Except Fault (Phase cfg)} (h : s.Divided K lg ts) (hK : K.Kept)
    (hf : s.fault = none) (hx : ts[k]? = some (th, g)) (hl : K.Lands th.launch g res) :
    (s.setPhase k th res).InHands K := by
  have := h.landed hK hf hx (.same (h.rest hK hx) rfl) hl
  rwa [withShared_self h.spawned] at this

-- the listener goes on without an operation
theorem Divided.goTo (h : s.Divided K lg ts) (hK : K.Kept) (hf : s.fault = none)
    {pc : ListenerPc cfg} (hpc : ∀ p, pc.script = some p → K.listener p []) :
    (s.goTo pc).InHands K := by
  refine ⟨by simp [State.goTo, hf], fun _ => ⟨[], ts, h.threads, h.spawned, h.index, h.hands, ?_,
    hpc⟩⟩
  exact hK.accounting.fewer h.table (List.sublist_append_right _ _).subperm

theorem Divided.listens {p : Steps cfg Unit} {now : Steps cfg Unit → ListenerPc cfg}
    {next : ListenerPc cfg} (h : s.Divided K lg ts) (hK : K.Kept) (hf : s.fault = none)
    (hp : ∃ lg', Move K.table [] (ts.flatMap Prod.snd) [] s.shared lg' (p.next s.shared).1 ∧
      K.listener (p.next s.shared).2 lg') (hnow : ∀ p, (now p).script = some p)
    (hnext : next.script = none) : (s.listen p now next).InHands K := by
  obtain ⟨lg', hm, hend⟩ := hp
  exact h.told hK hf hm hend hnow hnext

end Handing

section Steps

variable {K : Custody cfg} {s t : State cfg} {lg : List (Int × Int)}
variable {ts : List (Thread cfg × List (Int × Int))}

theorem threadStep_inHands {k : Nat} {th : Thread cfg} {l : Label} (hK : K.Kept)
    (h : s.Divided K lg ts) (hf : s.fault = none) (hth : s.threads[k]? = some th)
    (ht : s.threadStep k th l = some t) : t.InHands K := by
  obtain ⟨g, hx⟩ : ∃ g, ts[k]? = some (th, g) := by
    rw [h.threads, List.getElem?_map] at hth
    obtain ⟨x, hx, rfl⟩ := Option.map_eq_some_iff.mp hth
    exact ⟨x.2, hx⟩
  have hmem := List.mem_of_getElem? hx
  have hi := h.index _ hmem
  have hhand := h.hands _ hmem
  obtain ⟨launch, phase⟩ := th
  simp only at hi hhand
  cases l with
  | start i frame =>
    cases phase with
    | launched =>
      cases ht
      exact h.moved hK hf hx (hK.start frame hhand)
    | _ => cases ht
  | wait i =>
    cases phase with
    | head w =>
      simp only [threadStep] at ht
      split_ifs at ht
      cases ht
      exact h.moved hK hf hx (.of_hand (hK.wait hhand))
    | _ => cases ht
  | wake i ev =>
    cases phase with
    | waiting w =>
      simp only [threadStep] at ht
      split_ifs at ht
      cases ht
      exact h.moved hK hf hx (hK.wake hi hhand ev)
    | _ => cases ht
  | act i =>
    obtain ⟨r, hr, rfl⟩ := Option.map_eq_some_iff.mp ht
    obtain ⟨sh, res⟩ := r
    obtain ⟨g', hm, hl⟩ := hK.act hi hhand (h.rest hK hx) hr
    exact h.landed hK hf hx hm hl
  | erase i =>
    cases phase with
    | erasing w q kept b =>
      cases ht
      exact h.moved hK hf hx (hK.erase hhand)
    | _ => cases ht
  | leave i =>
    cases phase with
    | head w =>
      simp only [threadStep] at ht
      split_ifs at ht
      cases ht
      exact h.moved hK hf hx (hK.leave hhand)
    | _ => cases ht
  | _ => cases ht

theorem envOk_fresh {env : AcceptEnv} (h : s.envOk env = true) {n : Nat}
    (hn : env.accept4 = .fd n) :
    (n : Int) ≤ Decimal.intMax ∧ (n : Int) ∉ s.shared.sv.pairs.map Prod.fst := by
  simp only [envOk, hn, Bool.and_eq_true, decide_eq_true_eq] at h
  refine ⟨h.1.2.1.1, fun hm => h.1.2.1.2 (List.mem_append_right _ ?_)⟩
  rw [Server.pairs_eq, List.map_map] at hm
  exact hm

theorem listenerStep_inHands {l : Label} (hK : K.Kept) (h : s.Divided K lg ts)
    (hf : s.fault = none) (ht : s.listenerStep l = some t) : t.InHands K := by
  have hfree : K.table (ts.flatMap Prod.snd) s.shared :=
    hK.accounting.fewer h.table (List.sublist_append_right _ _).subperm
  have hscript (p : Steps cfg Unit) (hp : s.listener.script = some p) :
      ∃ lg', Move K.table [] (ts.flatMap Prod.snd) [] s.shared lg' (p.next s.shared).1 ∧
        K.listener (p.next s.shared).2 lg' :=
    hK.next (h.listener p hp) h.table
  cases l with
  | poll evfd stdin socket =>
    cases hpc : s.listener with
    | head =>
      simp only [listenerStep, hpc] at ht
      split_ifs at ht
      · cases ht
        exact h.goTo hK hf fun p hp => by cases hp
      · cases ht
        refine h.goTo hK hf fun p hp => ?_
        cases hp
        exact hK.reading _
      · cases ht
        exact h.goTo hK hf fun p hp => by cases hp
    | _ => simp [listenerStep, hpc] at ht
  | stdin buffer =>
    cases hpc : s.listener with
    | atStdin stdin socket =>
      simp only [listenerStep, hpc] at ht
      split_ifs at ht
      · cases ht
        have hnext : (ListenerPc.atAccept socket : ListenerPc cfg).script = none := rfl
        have hnow (p) : (ListenerPc.typing socket p : ListenerPc cfg).script = some p := rfl
        have := h.told hK hf (.same hfree rfl) (hK.typing buffer) hnow hnext
        rwa [withShared_self h.spawned] at this
      · cases ht
        exact h.goTo hK hf fun p hp => by cases hp
    | _ => simp [listenerStep, hpc] at ht
  | accept env =>
    cases hpc : s.listener with
    | atAccept socket =>
      simp only [listenerStep, hpc] at ht
      split_ifs at ht with hs henv
      · cases ht
        exact h.listens hK hf (hK.accepting _ hfree fun _ => envOk_fresh henv) (fun _ => rfl) rfl
      · cases ht
        exact h.goTo hK hf fun p hp => by cases hp
    | _ => simp [listenerStep, hpc] at ht
  | listener =>
    cases hpc : s.listener with
    | reading stdin socket p | typing socket p | accepting p =>
      simp only [listenerStep, hpc] at ht
      cases ht
      exact h.listens hK hf (hscript p (by rw [hpc]; rfl)) (fun _ => rfl) rfl
    | _ => simp [listenerStep, hpc] at ht
  | _ => cases ht

theorem step_inHands {l : Label} (hK : K.Kept) (h : s.InHands K) (ht : s.step l = some t) :
    t.InHands K := by
  unfold step at ht
  by_cases hsome : s.fault.isSome
  · rw [if_pos hsome] at ht
    cases ht
  rw [if_neg hsome] at ht
  have hf : s.fault = none := by simpa using hsome
  obtain ⟨lg, ts, hd⟩ := h.2 hf
  cases l with
  | start k _ | wait k | wake k _ | act k | erase k | leave k =>
    obtain ⟨th, hth, ht⟩ := Option.bind_eq_some_iff.mp ht
    exact threadStep_inHands hK hd hf hth ht
  | answers sends =>
    cases ht
    refine ⟨by simp [hf], fun _ => ⟨lg, ts, hd.threads, hd.spawned, hd.index, hd.hands, ?_,
      hd.listener⟩⟩
    exact hK.accounting.same hd.table rfl
  | _ =>
    simp only at ht
    split_ifs at ht
    exact listenerStep_inHands hK hd hf ht

end Steps

theorem init_inHands {K : Custody cfg} {svSocket listenerEvfd : Nat}
    (h : K.table [] (init cfg svSocket listenerEvfd).shared) :
    (init cfg svSocket listenerEvfd).InHands K :=
  ⟨by simp [init], fun _ => ⟨[], [], rfl, rfl, by simp, by simp, h, fun p hp => by cases hp⟩⟩

end State

end Interleaved

end ChatApp
