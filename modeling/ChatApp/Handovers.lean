import ChatApp.Accounts

namespace ChatApp

open Effects Relation Runs

variable {cfg : Config}

-- a CL_DISCONNECTED that carries the number i
def vacates (i : Nat) (msg : Str) : Bool :=
  match ({} : ServerMessage).constructFromString msg with
  | .ok m => m.action = getAction .clDisconnected && m.threadNumber = Decimal.toString i
  | .error _ => false

def toSlot (s : Shared cfg) (i : Nat) : Nat := s.mgr.qListenerToWorker.countP (addressed i)

def fromSlot (s : Shared cfg) (i : Nat) : Nat := s.mgr.qWorkerToListener.countP (vacates i)

section Counting

variable {s t : Shared cfg} {L clId : Int} {m : ServerMessage}

theorem vacates_encoded (h : m.Clean) (i : Nat) : vacates i m.getConcatenatedMsg = true ↔
    m.action = getAction .clDisconnected ∧ m.threadNumber = Decimal.toString i := by
  rw [vacates, ServerMessage.constructFromString_getConcatenatedMsg {} h]
  simp

theorem fromSlot_pushUp (s : Shared cfg) (L : Int) (m : ServerMessage) (i : Nat) :
    fromSlot (s.pushUp L m) i =
      fromSlot s i + if vacates i m.getConcatenatedMsg = true then 1 else 0 := by
  simp [fromSlot, Shared.pushUp, Shared.pushWorkerToListener, List.countP_append,
    List.countP_singleton]

theorem fromSlot_pushUp_other (h : m.Clean) (ha : m.action ≠ getAction .clDisconnected)
    (i : Nat) : fromSlot (s.pushUp L m) i = fromSlot s i := by
  have hnot : ¬ vacates i m.getConcatenatedMsg = true :=
    fun hv => ha ((vacates_encoded h i).mp hv).1
  rw [fromSlot_pushUp, if_neg hnot, Nat.add_zero]

theorem serve_fromSlot (hs : Serve L clId s t) (hn : NamesClean s.sv) (i : Nat) :
    fromSlot t i = fromSlot s i := by
  cases hs with
  | mark _ => rfl
  | named _ _ _ => rfl
  | replied _ _ _ => simp [fromSlot]
  | greeted hcl _ hm =>
    have hname := hn _ (getClientRef_mem hcl)
    have hclean := joinedMsg_clean (helloMsg_clean hm hname) hname
    rw [fromSlot_pushUp_other hclean (by simp [joinedMsg])]
    simp [fromSlot]
  | relayed _ _ ha hm => exact fromSlot_pushUp_other hm (by simp [ha]) i
  | flushed _ _ _ => simp [fromSlot]

theorem serves_fromSlot {clients : List (Int × Int)}
    (hs : ReflTransGen (ServeAny L clients) s t) (hn : NamesClean s.sv) (i : Nat) :
    fromSlot t i = fromSlot s i := by
  induction hs with
  | refl => rfl
  | tail hs hstep ih =>
    obtain ⟨_, _, hstep⟩ := hstep
    exact (serve_fromSlot hstep (namesClean_of_servesAny hs hn) i).trans ih

-- who goes is told of, and who is not told of stays
theorem removed_fromSlot {i : Nat} {clients kept : List (Int × Int)}
    (hr : Removed i L clients s kept t) (hn : NamesClean s.sv) (j : Nat) :
    fromSlot t j + (if i = j then kept.length else 0) =
      fromSlot s j + if i = j then clients.length else 0 := by
  induction hr with
  | nil => rfl
  | keep _ _ _ ih =>
    have := ih hn
    simp only [List.length_cons]
    split_ifs at this ⊢ <;> omega
  | @drop client _ _ s _ cl m hcl _ hm _ ih =>
    have hstep := ih hn
    have hclean := goneMsg_clean hm (hn _ (getClientRef_mem hcl)) i client.2
    have hv : vacates j (goneMsg m i client.2 cl).getConcatenatedMsg = true ↔ i = j := by
      rw [vacates_encoded hclean]
      simp only [goneMsg, Decimal.toString_inj, true_and]
      omega
    rw [fromSlot_pushUp] at hstep
    simp only [hv, List.length_cons] at hstep ⊢
    split_ifs at hstep ⊢ <;> omega

theorem Removed.kept_length {i : Nat} {clients kept : List (Int × Int)}
    (hr : Removed i L clients s kept t) : kept.length ≤ clients.length := by
  induction hr with
  | nil => exact le_refl _
  | keep _ _ _ ih => exact Nat.succ_le_succ ih
  | drop _ _ _ _ ih => exact Nat.le_succ_of_le ih

theorem toSlot_popped {i : Nat} {accepts accepts' : List (Nat × Int × Int)} {q : QueueAction}
    (hp : Polled i accepts accepts' q) (hs : s.mgr.qListenerToWorker = acceptTexts accepts)
    (evfd : Int → Nat) (j : Nat) :
    toSlot (s.popped accepts' evfd) j + (if i = j then (taken q).length else 0) ≤ toSlot s j := by
  have hcons (a : Nat × Int × Int) (rest : List (Nat × Int × Int)) :
      (acceptTexts (a :: rest)).countP (addressed j) =
        (acceptTexts rest).countP (addressed j) + if a.1 = j then 1 else 0 := by
    simp only [acceptTexts, List.map_cons, List.countP_cons, Routing.text, addressed_acceptText]
  change (acceptTexts accepts').countP (addressed j) + _ ≤ s.mgr.qListenerToWorker.countP _
  rw [hs]
  cases hp with
  | idle hq => simp [hq]
  | discarded ha hq =>
    rw [hcons, hq]
    simp
  | took ha _ hq =>
    rw [hcons, hq, ha]
    simp

-- an iteration moves clients from the queue to the worker and from the worker to the other queue
structure Shifted (i : Nat) (w w' : WorkerState) (s t : Shared cfg) : Prop where
  workers : t.mgr.workerThreads = s.mgr.workerThreads
  done : t.sv.done = s.sv.done
  taken : ∀ j, toSlot t j ≤ toSlot s j
  told : ∀ j, fromSlot s j ≤ fromSlot t j
  sum : ∀ j, toSlot t j + fromSlot t j + (if i = j then w'.clients.length else 0) ≤
    toSlot s j + fromSlot s j + if i = j then w.clients.length else 0

theorem Iterated.shifted {held : List (Int × Int)} {accepts : List (Nat × Int × Int)}
    {ups : List ServerMessage} {ev : Events} {l : Launch} {w w' : WorkerState} {q : QueueAction}
    {s₁ s₂ : Shared cfg} {kept : List (Int × Int)} (hit : Iterated ev l w s w' t q s₁ s₂ kept)
    (ho : Owned held accepts ups s) : Shifted l.personalIndex w w' s t := by
  obtain ⟨accepts', evfd, hp, rfl⟩ := pollQueue_polled ho hit.polled
  have hk := hit.kept
  have hn : NamesClean (s.popped accepts' evfd).sv := ho.names
  have hto (j : Nat) : toSlot t j = toSlot (s.popped accepts' evfd) j := by
    rw [toSlot, hk.mgr, toSlot]
  have hpolled := toSlot_popped hp ho.downQueue evfd
  have hserved (j : Nat) : fromSlot s₂ j = fromSlot s j := serves_fromSlot hit.served hn j
  have hremoved := removed_fromSlot hit.removed (namesClean_of_servesAny hit.served hn)
  have hlen := hit.removed.kept_length
  refine ⟨?_, hk.done, fun j => ?_, fun j => ?_, fun j => ?_⟩
  · rw [hk.mgr]
    rfl
  · have := hpolled j
    rw [hto]
    omega
  · have := hremoved j
    rw [hserved] at this
    split_ifs at this <;> omega
  · have := hremoved j
    have := hpolled j
    rw [hserved] at *
    rw [hto, hit.clients, List.length_append]
    split_ifs at * <;> omega

end Counting

-- what process_new_client does to the array, to the queue and to the threads
inductive Handover (m : ServerThreadManager cfg) (threads : List Launch)
    (m' : ServerThreadManager cfg) (threads' : List Launch) : Prop
  | nobody (harr : m'.workerThreads = m.workerThreads)
    (hq : m'.qListenerToWorker = m.qListenerToWorker) (hs : threads' = threads)
  | chosen {i : Nat} {w : WorkerEntry} (hc : choose m = .assign i ∨ choose m = .raise i)
    (hw : m.workerThreads.entries[i]? = some (some w))
    (harr : m'.workerThreads = m.workerThreads.set i (some { w with count := w.count + 1 }))
    (hq : m'.qListenerToWorker = m.qListenerToWorker ∨ ∃ fd clId : Int,
      m'.qListenerToWorker = m.qListenerToWorker ++ [acceptText i fd clId])
    (hs : threads' = threads)
  | launched {n : Nat} {l : Launch} (hc : choose m = .launch n)
    (hl : l.personalIndex = m.nrOfLaunchedThreads)
    (harr : m'.workerThreads =
      m.workerThreads.set m.nrOfLaunchedThreads (some ⟨1, l.personalEvfd, threads.length⟩))
    (hq : m'.qListenerToWorker = m.qListenerToWorker) (hs : threads' = threads ++ [l])

section Choosing

variable {s t : Shared cfg} {socket clId L eventfd : Int} {env : AcceptEnv}

theorem choose_launch {m : ServerThreadManager cfg} {n : Nat} (h : choose m = .launch n) :
    n = m.nrOfLaunchedThreads ∨ m.workerThreads.values = [] := by
  unfold choose at h
  by_cases h0 : m.nrOfLaunchedThreads = 0
  · rw [if_pos h0] at h
    cases h
    exact .inl h0.symm
  · rw [if_neg h0] at h
    cases hm : getMinAndIdx m.workerThreads with
    | none => exact .inr (getMinAndIdx_none_iff.mp hm)
    | some b =>
      simp only [hm] at h
      split_ifs at h
      cases h
      exact .inl rfl

theorem assignTo_handover {i : Nat} {w : WorkerEntry}
    (hc : choose s.mgr = .assign i ∨ choose s.mgr = .raise i)
    (hw : s.mgr.workerThreads.entries[i]? = some (some w)) {u : Shared cfg}
    (hu : u.mgr.workerThreads = s.mgr.workerThreads)
    (hq : u.mgr.qListenerToWorker = s.mgr.qListenerToWorker)
    (hs : u.kernel.spawned = s.kernel.spawned) :
    Handover s.mgr s.kernel.spawned (final (assignTo i socket clId u)).mgr
      (final (assignTo i socket clId u)).kernel.spawned := by
  have hw' : u.mgr.workerThreads.entries[i]? = some (some w) := by rw [hu, hw]
  rw [assignTo_eq hw', assignClientToWorker_eq]
  have hpush : u.mgr.qListenerToWorker ++ [acceptText i socket clId] =
      s.mgr.qListenerToWorker ++ [acceptText i socket clId] := by rw [hq]
  split_ifs
  · exact .chosen hc hw (by rw [← hu]; rfl) (.inr ⟨socket, clId, hpush⟩) hs
  · exact .chosen hc hw (by rw [← hu]; rfl) (.inr ⟨socket, clId, hpush⟩) hs
  · exact .chosen hc hw (by rw [← hu]; rfl) (.inr ⟨socket, clId, hpush⟩) hs
  · exact .chosen hc hw (by rw [← hu]; rfl) (.inl hq) hs

theorem emplaceNewWorker_handover {n : Nat} (hc : choose s.mgr = .launch n) :
    (∃ u, emplaceNewWorker socket clId n L eventfd s = .error .undefinedBehaviour u) ∨
    Handover s.mgr s.kernel.spawned (final (emplaceNewWorker socket clId n L eventfd s)).mgr
      (final (emplaceNewWorker socket clId n L eventfd s)).kernel.spawned := by
  rcases emplaceNewWorker_cases socket clId L eventfd n s with
    ⟨_, h⟩ | ⟨_, hub | ⟨old, w, hold, hw, h⟩⟩
  · rw [h]
    exact .inr (.nobody rfl rfl rfl)
  · exact .inl hub
  · have hget : (s.mgr.workerThreads.set s.mgr.nrOfLaunchedThreads
        (some ⟨0, eventfd, s.kernel.spawned.length⟩)).entries[n]? = some (some w) := hw
    have hlt := Slots.lt_of_get hold
    -- with no worker in the array the entry that is counted is the one that was written
    have hn : n = s.mgr.nrOfLaunchedThreads := by
      rcases choose_launch hc with hn | hv
      · exact hn
      · by_contra hne
        rw [Slots.get_set, if_neg (by omega)] at hget
        have hmem := Slots.mem_values_iff.mpr ⟨n, hget⟩
        rw [hv] at hmem
        exact absurd hmem List.not_mem_nil
    subst hn
    rw [Slots.get_set, if_pos ⟨rfl, hlt⟩] at hget
    obtain rfl := Option.some.inj (Option.some.inj hget)
    rw [h]
    refine .inr (.launched (l := ⟨socket, clId, s.mgr.nrOfLaunchedThreads, eventfd, L⟩) hc rfl ?_
      rfl rfl)
    exact Slots.set_set _ _ _ _

theorem processNewClient_handover (socket clId L eventfd : Int) (s : Shared cfg) :
    (∃ u, processNewClient socket clId L eventfd s = .error .undefinedBehaviour u) ∨
    Handover s.mgr s.kernel.spawned (final (processNewClient socket clId L eventfd s)).mgr
      (final (processNewClient socket clId L eventfd s)).kernel.spawned := by
  rw [processNewClient_eq]
  cases hc : choose s.mgr with
  | launch n => exact emplaceNewWorker_handover hc
  | assign i =>
    obtain ⟨w, hw⟩ := choose_entry (.inl hc)
    exact .inr (assignTo_handover (.inl hc) hw rfl rfl rfl)
  | raise i =>
    obtain ⟨w, hw⟩ := choose_entry (.inr hc)
    exact .inr (assignTo_handover (u := s.raiseMax) (.inr hc) hw rfl rfl rfl)
  | overLimit => exact .inr (.nobody rfl rfl rfl)
  | allLaunched => exact .inr (.nobody rfl rfl rfl)

-- no one is handed over unless accept_client returned
theorem acceptBranch_handover
    (hub : ∀ u, acceptBranch L env s ≠ .error .undefinedBehaviour u)
    (ht : final (acceptBranch L env s) = t) :
    Handover s.mgr s.kernel.spawned t.mgr t.kernel.spawned ∧
      ((∃ p u, acceptClient env s = .ok p u) ∨
        t.mgr = s.mgr ∧ t.kernel.spawned = s.kernel.spawned) := by
  rcases acceptBranch_final L env s with ⟨u, hu⟩ | ⟨hbody, d, hd⟩
  · exact absurd hu (hub u)
  · rw [← ht, hd]
    cases hr : acceptClient env s with
    | error e u =>
      obtain ⟨⟨fds, hu⟩, _⟩ := acceptClient_throws hr
      rw [acceptBranchBody, bind_of_error hr, hu]
      exact ⟨.nobody rfl rfl rfl, .inr ⟨rfl, rfl⟩⟩
    | ok p u =>
      refine ⟨?_, .inl ⟨p, u, rfl⟩⟩
      have hb : acceptBranchBody L env s = processNewClient p.1 p.2 L env.eventfd u := by
        rw [acceptBranchBody, bind_of_ok hr]
      rw [hb] at hbody ⊢
      have hm : u.mgr = s.mgr ∧ u.kernel = s.kernel := by
        cases acceptClient_entered hr <;> exact ⟨rfl, rfl⟩
      rcases processNewClient_handover p.1 p.2 L env.eventfd u with ⟨v, hv⟩ | hh
      · exact absurd hv (hbody v)
      · rwa [hm.1, hm.2] at hh

end Choosing

-- once the server is told to stop it stays so
section Stopping

variable {s : Shared cfg} {env : AcceptEnv} {L : Int}

theorem setIsDone_done : Keeps (fun s : Shared cfg => s.sv.done = true)
    (onServer Server.setIsDone) := by
  intro s hs
  simp only [onServer, Server.setIsDone, get_bind_run, hs, if_true]
  exact hs

theorem stdinBranch_done (buffer : Option Str) :
    Keeps (fun s : Shared cfg => s.sv.done = true) (stdinBranch buffer) := by
  unfold stdinBranch
  split_ifs
  · refine setIsDone_done.bind fun _ => Keeps.bind (fun s hs => ?_) fun _ => .pure _
    cases hr : cfg.hasRoom s.mgr.qWorkerToListener with
    | false =>
      rw [tryPushWorkerToListener_full hr]
      exact hs
    | true =>
      rw [tryPushWorkerToListener_room hr]
      exact hs
  · exact .pure _

theorem acceptBranch_done (hub : ∀ u, acceptBranch L env s ≠ .error .undefinedBehaviour u)
    (hd : s.sv.done = true) : (final (acceptBranch L env s)).sv.done = true := by
  have hbody : (final (acceptBranchBody L env s)).sv.done = true := by
    rcases acceptBranchBody_cases L env s with ⟨u, hu⟩ | ⟨fds, hf⟩ | ⟨p, u, he, hsv, _⟩
    · exact absurd (by rw [acceptBranch, hu]) (hub u)
    · rw [hf]
      exact hd
    · rw [hsv]
      cases he <;> exact hd
  unfold acceptBranch
  cases hr : acceptBranchBody L env s with
  | ok _ t =>
    rw [hr] at hbody
    exact hbody
  | error e t =>
    rw [hr] at hbody
    cases e with
    | undefinedBehaviour => exact hbody
    | serverFullException _ => exact hbody
    | threadManagingException _ => exact hbody
    | _ => exact setIsDone_done t hbody

end Stopping

-- the listener is told of nothing that counts, or of a client that has left its worker
inductive Told (s t : Shared cfg) : Prop
  | other (harr : t.mgr.workerThreads = s.mgr.workerThreads)
    (hfrom : ∀ j, fromSlot t j = fromSlot s j)
  | left {i : Nat} {w : WorkerEntry} (hw : s.mgr.workerThreads.entries[i]? = some (some w))
    (hpos : 0 < w.count) (harr : t.mgr.workerThreads = (s.release i w).mgr.workerThreads)
    (hfrom : ∀ j, fromSlot s j = fromSlot t j + if j = i then 1 else 0)

section Telling

variable {held : List (Int × Int)} {accepts : List (Nat × Int × Int)} {ups : List ServerMessage}
variable {s : Shared cfg} {m : ServerMessage} {clId : Int} {c : ClientData} {i : Nat}
variable {w : WorkerEntry}

-- an exception leaves the counts alone, else the worker counts one client less
theorem processClDisconnected_cases (ids : List Int) (hc : s.sv.getClientRef clId = some c)
    (hid : stoi m.id = .ok clId) (hnum : m.threadNumber = Decimal.toString i)
    (hw : s.mgr.workerThreads.entries[i]? = some (some w)) (hpos : 0 < w.count) :
    (∃ e u, processClDisconnected m ids s = .error e u ∧ u.mgr = s.mgr) ∨
      ∃ u, processClDisconnected m ids s = .ok () u ∧ u.mgr = (s.release i w).mgr := by
  cases hj : stoi m.threadNumber with
  | error e =>
    rw [processClDisconnected, hid, bind_of_ok (liftExcept_ok clId),
      bind_of_ok (disconnectClient_run hc), hj]
    exact .inl ⟨e, _, rfl, rfl⟩
  | ok j =>
    obtain rfl : j = i := eq_of_stoi_toString (hnum ▸ hj)
    rw [processClDisconnected_eq ids hc hid hj hw hpos]
    have hmgr := unicastRepeated_keeps (I := fun t => t.mgr = s.mgr)
      (leftMsg m).getConcatenatedMsg (fun _ _ h => h) (fun _ _ h => h) clId ids
      { s with sv := s.sv.dropClient clId c.fd } rfl
    cases hr : unicastRepeated clId ids (leftMsg m).getConcatenatedMsg
        { s with sv := s.sv.dropClient clId c.fd } with
    | error e u =>
      rw [hr] at hmgr
      exact .inl ⟨e, u, bind_of_error hr, hmgr⟩
    | ok _ u =>
      rw [hr] at hmgr
      change u.mgr = s.mgr at hmgr
      have hw' : u.mgr.workerThreads.entries[i]? = some (some w) := by rw [hmgr, hw]
      rw [bind_of_ok hr, workerClientDisconnect_run hw' hpos]
      exact .inr ⟨_, rfl, by simp only [Shared.release, hmgr]⟩

theorem processMessage_told (h : Owned held accepts ups s) (hm : m.Clean) (hok : UpOk cfg m)
    (hdue : ∀ clId, goneId m = some clId → 0 ≤ clId → Due held accepts ups s clId)
    (hcount : ∀ i, vacates i m.getConcatenatedMsg = true →
      0 < countAt s.mgr.workerThreads i) :
    (m.action ≠ getAction .clDisconnected ∧
      (final (processMessage m.getConcatenatedMsg s)).mgr.workerThreads = s.mgr.workerThreads) ∨
    ∃ (i : Nat) (w : WorkerEntry), (∀ j, vacates j m.getConcatenatedMsg = true ↔ j = i) ∧
      s.mgr.workerThreads.entries[i]? = some (some w) ∧ 0 < w.count ∧
      ((∃ e u, processMessage m.getConcatenatedMsg s = .error e u ∧ u.mgr = s.mgr) ∨
        ∃ u, processMessage m.getConcatenatedMsg s = .ok () u ∧ u.mgr = (s.release i w).mgr) := by
  by_cases ha : m.action = getAction .clDisconnected
  · obtain ⟨i, clId, _, h0, hmax, hnum, hid⟩ := hok.1 ha
    have hv (j : Nat) : vacates j m.getConcatenatedMsg = true ↔ j = i := by
      rw [vacates_encoded hm, hnum, Decimal.toString_inj]
      simp only [ha, true_and]
      omega
    obtain ⟨w, hw, hwc⟩ := entry_of_countAt (hcount i ((hv i).mpr rfl))
    have hpos : 0 < w.count := by
      have := hcount i ((hv i).mpr rfl)
      omega
    have hst : stoi m.id = .ok clId := by
      rw [hid]
      exact stoi_toString (by simp only [Decimal.InRange, Decimal.intMin] at *; omega)
    have hg : goneId m = some clId := by simp [goneId, ha, hst, Except.toOption]
    have hd := hdue clId hg h0
    have hmem : clId ∈ s.sv.ids := List.count_pos_iff.mp (by unfold Due at hd; omega)
    obtain ⟨p, hp, rfl⟩ := List.mem_map.mp hmem
    obtain ⟨c, hc, _⟩ := getClientRef_of_pair h.nodup hp
    have hne : s.sv.getConnectedIDs ≠ [] :=
      List.ne_nil_of_mem (List.mem_map_of_mem (getClientRef_mem hc))
    refine .inr ⟨i, w, hv, hw, hpos, ?_⟩
    rw [processMessage_eq hm, if_neg hne, dispatch, if_pos ha]
    exact processClDisconnected_cases _ hc hst hnum hw hpos
  · have hquiet := processMessage_quiet (fun hl => ha ((isLeaveText_iff hm).mp hl)) s
    simp only [accounts, Prod.mk.injEq] at hquiet
    exact .inl ⟨ha, hquiet.2.2.2.1⟩

theorem fromSlot_popped {text : Str} {rest : List Str} {t : Shared cfg}
    (hq : s.mgr.qWorkerToListener = text :: rest) (ht : t.mgr.qWorkerToListener = rest) (j : Nat) :
    fromSlot s j = fromSlot t j + if vacates j text = true then 1 else 0 := by
  rw [fromSlot, fromSlot, hq, ht, List.countP_cons]

theorem listenerProcess_frame (L : Int) (h : Owned held accepts ups s) :
    (final (listenerProcessWorkerToListenerQ L s)).mgr.qListenerToWorker =
        s.mgr.qListenerToWorker ∧
      (final (listenerProcessWorkerToListenerQ L s)).sv.done = s.sv.done := by
  rw [listenerProcess_eq]
  split_ifs
  · exact ⟨rfl, rfl⟩
  · have hup := h.upQueue
    cases ups with
    | nil =>
      rw [List.map_nil] at hup
      rw [hup]
      exact ⟨rfl, rfl⟩
    | cons m ups =>
      rw [List.map_cons] at hup
      simp only [hup]
      obtain ⟨hm, hok⟩ := h.upsOk m List.mem_cons_self
      have hpop := (h.of_core (core_setEvfd s L 0)).pop
      obtain ⟨u, hu, _, _, hdone, hcore⟩ := processMessage_final hpop hm hok
        fun clId hg h0 => h.due h0 hg
      simp only [core, Prod.mk.injEq] at hcore
      exact ⟨hcore.2.1.trans (hu.downQueue.trans h.downQueue.symm),
        hcore.2.2.2.2.2.1.trans hdone⟩

theorem processMessage_popped {s₁ : Shared cfg} (h : Owned held accepts (m :: ups) s)
    (hpop : Owned held accepts ups s₁)
    (hq : s₁.mgr.qWorkerToListener = ups.map ServerMessage.getConcatenatedMsg)
    (harr : s₁.mgr.workerThreads = s.mgr.workerThreads) (hids : s₁.sv.ids = s.sv.ids)
    (hcount : ∀ i, fromSlot s i ≤ countAt s.mgr.workerThreads i) :
    Told s (final (processMessage m.getConcatenatedMsg s₁)) ∨
      (∃ e u, processMessage m.getConcatenatedMsg s₁ = .error e u) ∧
        (final (processMessage m.getConcatenatedMsg s₁)).mgr.workerThreads = s.mgr.workerThreads ∧
        ∀ j, fromSlot (final (processMessage m.getConcatenatedMsg s₁)) j ≤ fromSlot s j := by
  obtain ⟨hm, hok⟩ := h.upsOk m List.mem_cons_self
  have hup := h.upQueue
  rw [List.map_cons] at hup
  have hfrom (j : Nat) :=
    fromSlot_popped hup ((processMessage_queue m.getConcatenatedMsg s₁).trans hq) j
  have hdue (clId : Int) (hg : goneId m = some clId) (h0 : 0 ≤ clId) :
      Due held accepts ups s₁ clId := by
    have := h.due h0 hg
    unfold Due at this ⊢
    rwa [hids]
  have hpos (i : Nat) (hi : vacates i m.getConcatenatedMsg = true) :
      0 < countAt s₁.mgr.workerThreads i := by
    have h1 := hfrom i
    have h2 := hcount i
    rw [if_pos hi] at h1
    rw [harr]
    omega
  rcases processMessage_told hpop hm hok hdue hpos with
    ⟨ha, hsame⟩ | ⟨i, w, hv, hw, hc, ⟨e, v, hr, hmgr⟩ | ⟨v, hr, hmgr⟩⟩
  · refine .inl (.other (hsame.trans harr) fun j => ?_)
    have hnot : ¬ vacates j m.getConcatenatedMsg = true :=
      fun hv => ha ((vacates_encoded hm j).mp hv).1
    rw [hfrom j, if_neg hnot, Nat.add_zero]
  · refine .inr ⟨⟨e, v, hr⟩, ?_, fun j => ?_⟩
    · rw [hr, final_error, hmgr, harr]
    · rw [hfrom j]
      exact Nat.le_add_right _ _
  · refine .inl (.left (harr ▸ hw) hc ?_ fun j => ?_)
    · rw [hr, final_ok, hmgr, Shared.release, harr]
      rfl
    · rw [hfrom j]
      simp only [hv]

theorem listenerProcess_told (L : Int) (h : Owned held accepts ups s)
    (hcount : ∀ i, fromSlot s i ≤ countAt s.mgr.workerThreads i) :
    Told s (final (listenerProcessWorkerToListenerQ L s)) ∨
      (∃ e u, listenerProcessWorkerToListenerQ L s = .error e u) ∧
        (final (listenerProcessWorkerToListenerQ L s)).mgr.workerThreads =
          s.mgr.workerThreads ∧
        ∀ j, fromSlot (final (listenerProcessWorkerToListenerQ L s)) j ≤ fromSlot s j := by
  rw [listenerProcess_eq]
  split_ifs
  · exact .inl (.other rfl fun _ => rfl)
  · have hup := h.upQueue
    cases ups with
    | nil =>
      rw [List.map_nil] at hup
      rw [hup]
      exact .inl (.other rfl fun _ => rfl)
    | cons m ups =>
      rw [List.map_cons] at hup
      simp only [hup]
      have hpop := (h.of_core (core_setEvfd s L 0)).pop
      exact processMessage_popped h hpop rfl rfl rfl hcount

end Telling

end ChatApp
