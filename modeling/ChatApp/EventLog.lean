import ChatApp.SystemInvariant

namespace ChatApp

open Effects Relation Runs

variable {cfg : Config}

section Log

def pushedBy (s t : Shared cfg) : List Str :=
  t.mgr.qWorkerToListener.drop s.mgr.qWorkerToListener.length

-- what the passes of an iteration push, each message under the client that was being handled
def handleLog (ev : Events) (listenerEvfd : Int) :
    List (Int × Int) → Buffers → Shared cfg → List (Int × Str)
  | [], _, _ => []
  | client :: rest, b, s =>
    match handleClient ev listenerEvfd client b s with
    | .ok b' t =>
      (pushedBy s t).map (client.2, ·) ++ handleLog ev listenerEvfd rest b' t
    | .error _ _ => []

def removalLog (personalIndex : Nat) (listenerEvfd : Int) :
    List (Int × Int) → ServerMessage → Shared cfg → List (Int × Str)
  | [], _, _ => []
  | client :: rest, m, s =>
    match removeDisconnected personalIndex listenerEvfd [client] m s with
    | .ok r t =>
      (pushedBy s t).map (client.2, ·) ++ removalLog personalIndex listenerEvfd rest r.2 t
    | .error _ _ => []

def iterationLog (ev : Events) (l : Launch) (w : WorkerState) (s : Shared cfg) :
    List (Int × Str) :=
  match pollQueue ev l s with
  | .ok _ s₁ =>
    match handleClients ev l.listenerEvfd w.clients w.buffers s₁ with
    | .ok b s₂ => handleLog ev l.listenerEvfd w.clients w.buffers s₁ ++
        removalLog l.personalIndex l.listenerEvfd w.clients b.serverMsg s₂
    | .error _ _ => []
  | .error _ _ => []

end Log

-- the events of the protocol between a worker and the listener
def IsJoin (clId : Int) (m : ServerMessage) : Prop :=
  m.action = getAction .initDone ∧ m.id = Decimal.toString clId

def IsChat (m : ServerMessage) : Prop := m.action = getAction .unicastRepeated

def IsGone (clId : Int) (m : ServerMessage) : Prop :=
  m.action = getAction .clDisconnected ∧ m.id = Decimal.toString clId

-- a client has joined once and then chatted, or has said nothing yet
def Talk (clId : Int) (word : List ServerMessage) : Prop :=
  word = [] ∨ ∃ join chats, word = join :: chats ∧ IsJoin clId join ∧ ∀ m ∈ chats, IsChat m

def EventWord (clId : Int) (word : List ServerMessage) : Prop :=
  ∃ talk gone, word = talk ++ gone ∧ Talk clId talk ∧
    (gone = [] ∨ ∃ m, gone = [m] ∧ IsGone clId m)

-- how the state of an entry bounds what was pushed on its account
structure Spoken (clId : Int) (word : List ServerMessage) (sv : Server cfg) : Prop where
  talk : Talk clId word
  joined : ∀ c ∈ sv.clients.values, c.personalId = clId → c.initState = initDone → word ≠ []
  silent : ∀ c ∈ sv.clients.values, c.personalId = clId → c.initState ≠ initDone →
    c.initState ≠ disconnectState → word = []

section Words

variable {clId : Int} {word : List ServerMessage} {m : ServerMessage}

theorem Talk.eventWord (h : Talk clId word) : EventWord clId word :=
  ⟨word, [], by simp, h, .inl rfl⟩

theorem Talk.leave (h : Talk clId word) (hm : IsGone clId m) : EventWord clId (word ++ [m]) :=
  ⟨word, [m], rfl, h, .inr ⟨m, rfl, hm⟩⟩

theorem Talk.chat (h : Talk clId word) (hne : word ≠ []) (hm : IsChat m) :
    Talk clId (word ++ [m]) := by
  rcases h with rfl | ⟨join, chats, rfl, hj, hc⟩
  · exact absurd rfl hne
  · refine .inr ⟨join, chats ++ [m], rfl, hj, fun x hx => ?_⟩
    rcases List.mem_append.mp hx with hx | hx
    · exact hc x hx
    · rwa [List.mem_singleton.mp hx]

end Words

section Serving

variable {s t : Shared cfg} {listenerEvfd clId : Int}

-- the entry of a served client changes to x, what it says joins its word, the others are as before
theorem Spoken.entry {x : ClientData} {ms : List ServerMessage} (hx : x.personalId = clId)
    (htable : ∀ c ∈ t.sv.clients.values, c = x ∨ c ∈ s.sv.clients.values ∧ c.personalId ≠ clId)
    (hown : ∀ word, Spoken clId word s.sv → Talk clId (word ++ ms) ∧
      (x.initState = initDone → word ++ ms ≠ []) ∧
      (x.initState ≠ initDone → x.initState ≠ disconnectState → word ++ ms = [])) :
    ∀ c word, Spoken c word s.sv → Spoken c (if c = clId then word ++ ms else word) t.sv := by
  intro c word h
  by_cases hc : c = clId
  · subst hc
    obtain ⟨htalk, hjoined, hsilent⟩ := hown word h
    rw [if_pos rfl]
    refine ⟨htalk, fun d hd hid => ?_, fun d hd hid => ?_⟩
    · rcases htable d hd with rfl | ⟨_, hne⟩
      · exact hjoined
      · exact absurd hid hne
    · rcases htable d hd with rfl | ⟨_, hne⟩
      · exact hsilent
      · exact absurd hid hne
  · rw [if_neg hc]
    refine ⟨h.talk, fun d hd hid => ?_, fun d hd hid => ?_⟩
    · rcases htable d hd with rfl | ⟨hd, _⟩
      · exact absurd (hid.symm.trans hx) hc
      · exact h.joined d hd hid
    · rcases htable d hd with rfl | ⟨hd, _⟩
      · exact absurd (hid.symm.trans hx) hc
      · exact h.silent d hd hid

-- what a client can be the cause of while it is served
structure Event (clId : Int) (m : ServerMessage) : Prop where
  clean : m.Clean
  kind : IsJoin clId m ∨ IsChat m

-- texts that were pushed while one client was served
structure Speaks (clId : Int) (s t : Shared cfg) (ms : List ServerMessage) : Prop where
  queue : t.mgr.qWorkerToListener =
    s.mgr.qWorkerToListener ++ ms.map ServerMessage.getConcatenatedMsg
  events : ∀ m ∈ ms, Event clId m
  words : ∀ c word, Spoken c word s.sv → Spoken c (if c = clId then word ++ ms else word) t.sv

theorem Speaks.refl (s : Shared cfg) (clId : Int) : Speaks clId s s [] :=
  ⟨by simp, by simp, fun c word h => by simpa using h⟩

theorem Speaks.trans {u : Shared cfg} {ms ms' : List ServerMessage} (h : Speaks clId s t ms)
    (h' : Speaks clId t u ms') : Speaks clId s u (ms ++ ms') := by
  refine ⟨?_, fun m hm => ?_, fun c word hw => ?_⟩
  · rw [h'.queue, h.queue, List.map_append, List.append_assoc]
  · rcases List.mem_append.mp hm with hm | hm
    · exact h.events m hm
    · exact h'.events m hm
  · have := h'.words c _ (h.words c word hw)
    split_ifs at this ⊢ with hc
    · rwa [← List.append_assoc]
    · exact this

theorem speaks_silent {cl : ClientData} {f : ClientData → ClientData} (hn : s.sv.ids.Nodup)
    (hcl : s.sv.getClientRef clId = some cl) (hid : ∀ c, (f c).personalId = c.personalId)
    (hmgr : t.mgr = s.mgr) (hsv : t.sv = s.sv.modifyClient clId f)
    (hstate : ∀ word, Spoken clId word s.sv → ((f cl).initState = initDone → word ≠ []) ∧
      ((f cl).initState ≠ initDone → (f cl).initState ≠ disconnectState → word = [])) :
    Speaks clId s t [] := by
  refine ⟨by simp [hmgr], by simp, ?_⟩
  refine Spoken.entry ((hid cl).trans (getClientRef_id hcl)) (fun c hc => ?_) fun word hw => ?_
  · rw [hsv] at hc
    exact mem_modifyClient_nodup hn hcl hc
  · rw [List.append_nil]
    exact ⟨hw.talk, hstate word hw⟩

theorem Serve.speaks (hs : Serve listenerEvfd clId s t) (hn : s.sv.ids.Nodup)
    (hnames : NamesClean s.sv) : ∃ ms, Speaks clId s t ms := by
  cases hs with
  | mark hcl =>
    refine ⟨[], speaks_silent hn hcl (f := (·.setState disconnectState)) (fun _ => rfl) rfl rfl
      fun word hw => ⟨?_, ?_⟩⟩
    · intro h
      exact absurd h (by decide : disconnectState ≠ initDone)
    · intro _ h
      exact absurd rfl h
  | @named cl name hcl h0 _ =>
    have hstate : cl.initState + 1 = requestedInit := by rw [h0]; rfl
    refine ⟨[], speaks_silent hn hcl (f := fun c => { c.incState with name := name })
      (fun _ => rfl) rfl rfl fun word hw => ⟨?_, fun _ _ => ?_⟩⟩
    · intro h
      exact absurd (hstate.symm.trans h) (by decide)
    · exact hw.silent cl (getClientRef_mem hcl) (getClientRef_id hcl) (by rw [h0]; decide)
        (by rw [h0]; decide)
  | @replied cl m hcl h1 _ =>
    have hstate : cl.initState + 1 = sentInitConfirmation := by rw [h1]; rfl
    refine ⟨[], speaks_silent hn hcl (f := ClientData.incState) (fun _ => rfl) ?_ ?_
      fun word hw => ⟨?_, fun _ _ => ?_⟩⟩
    · rw [Shared.sendDone_mgr]
      rfl
    · rw [Shared.sendDone_sv]
      rfl
    · intro h
      exact absurd (hstate.symm.trans h) (by decide)
    · exact hw.silent cl (getClientRef_mem hcl) (getClientRef_id hcl) (by rw [h1]; decide)
        (by rw [h1]; decide)
  | @greeted cl m hcl h2 hm =>
    have hname := hnames cl (getClientRef_mem hcl)
    have hid := getClientRef_id hcl
    have hjoin : IsJoin clId (joinedMsg (helloMsg m cl) cl) := ⟨rfl, by simp [joinedMsg, hid]⟩
    refine ⟨[joinedMsg (helloMsg m cl) cl], ?_, ?_, ?_⟩
    · simp [Shared.pushUp, Shared.pushWorkerToListener]
    · intro x hx
      rw [List.mem_singleton.mp hx]
      exact ⟨joinedMsg_clean (helloMsg_clean hm hname) hname, .inl hjoin⟩
    · refine Spoken.entry (x := cl.incState) hid (fun c hc => ?_) fun word hw => ?_
      · rw [Shared.pushUp_sv, Shared.sendDone_sv] at hc
        exact mem_modifyClient_nodup hn hcl hc
      · have hnil := hw.silent cl (getClientRef_mem hcl) hid (by rw [h2]; decide)
          (by rw [h2]; decide)
        have hstate : cl.incState.initState = initDone := by
          change cl.initState + 1 = initDone
          rw [h2]
          rfl
        refine ⟨.inr ⟨_, [], by rw [hnil]; rfl, hjoin, by simp⟩, fun _ => by simp, fun h => ?_⟩
        exact absurd hstate h
  | @relayed cl m hcl h3 ha hm =>
    have hid := getClientRef_id hcl
    have hmem := getClientRef_mem hcl
    refine ⟨[m], rfl, fun x hx => ?_, ?_⟩
    · rw [List.mem_singleton.mp hx]
      exact ⟨hm, .inr ha⟩
    · refine Spoken.entry (x := cl) hid (fun c hc => ?_) fun word hw => ?_
      · by_cases hc' : c.personalId = clId
        · exact .inl (eq_of_id hn hc hmem (hc'.trans hid.symm))
        · exact .inr ⟨hc, hc'⟩
      · exact ⟨hw.talk.chat (hw.joined cl hmem hid h3) ha, fun _ => by simp, fun h => absurd h3 h⟩
  | @flushed cl msg rest hcl h3 _ =>
    refine ⟨[], speaks_silent hn hcl (f := fun c => { c with sendQueue := rest }) (fun _ => rfl)
      ?_ ?_ fun word hw => ⟨?_, ?_⟩⟩
    · rw [Shared.sendDone_mgr]
      rfl
    · rw [Shared.sendDone_sv]
      rfl
    · exact hw.joined cl (getClientRef_mem hcl) (getClientRef_id hcl)
    · exact hw.silent cl (getClientRef_mem hcl) (getClientRef_id hcl)

theorem serves_speak (hs : ReflTransGen (Serve listenerEvfd clId) s t) (hn : s.sv.ids.Nodup)
    (hnames : NamesClean s.sv) : ∃ ms, Speaks clId s t ms ∧ t.sv.ids.Nodup := by
  induction hs with
  | refl => exact ⟨[], .refl _ _, hn⟩
  | @tail b c hb hs ih =>
    obtain ⟨ms, hms, hn'⟩ := ih
    obtain ⟨ms', hms'⟩ := hs.speaks hn' (namesClean_of_serves hb hnames)
    refine ⟨ms ++ ms', hms.trans hms', ?_⟩
    rw [Server.ids, hs.pairs]
    exact hn'

end Serving

def tagged (es : List (Int × ServerMessage)) : List (Int × Str) :=
  es.map fun e => (e.1, e.2.getConcatenatedMsg)

def texts (es : List (Int × ServerMessage)) : List Str := es.map fun e => e.2.getConcatenatedMsg

def saidBy (clId : Int) (es : List (Int × ServerMessage)) : List ServerMessage :=
  (es.filter (·.1 = clId)).map Prod.snd

theorem saidBy_append (clId : Int) (es es' : List (Int × ServerMessage)) :
    saidBy clId (es ++ es') = saidBy clId es ++ saidBy clId es' := by
  simp [saidBy]

theorem saidBy_tag (clId c : Int) (ms : List ServerMessage) :
    saidBy clId (ms.map (c, ·)) = if clId = c then ms else [] := by
  by_cases h : clId = c
  · subst h
    simp [saidBy, List.filter_map, Function.comp_def]
  · simp [saidBy, List.filter_map, Function.comp_def, Ne.symm h, h]

theorem saidBy_of_not_mem {clId : Int} {es : List (Int × ServerMessage)}
    (h : clId ∉ es.map Prod.fst) : saidBy clId es = [] := by
  simp only [saidBy, List.map_eq_nil_iff, List.filter_eq_nil_iff, decide_eq_true_eq]
  exact fun e he hid => h (hid ▸ List.mem_map_of_mem he)

section Passes

variable {s t : Shared cfg} {listenerEvfd : Int} {clients : List (Int × Int)}

structure Heard (clients : List (Int × Int)) (s t : Shared cfg)
    (es : List (Int × ServerMessage)) : Prop where
  queue : t.mgr.qWorkerToListener = s.mgr.qWorkerToListener ++ texts es
  events : ∀ e ∈ es, e.1 ∈ clients.map Prod.snd ∧ Event e.1 e.2
  words : ∀ c word, Spoken c word s.sv → Spoken c (word ++ saidBy c es) t.sv

theorem pushedBy_eq {ms : List Str}
    (h : t.mgr.qWorkerToListener = s.mgr.qWorkerToListener ++ ms) : pushedBy s t = ms := by
  rw [pushedBy, h, List.drop_left]

theorem handleClients_log {ev : Events} {b b' : Buffers} (hn : s.sv.ids.Nodup)
    (hnames : NamesClean s.sv) (hm : b.serverMsg.Clean)
    (h : handleClients ev listenerEvfd clients b s = .ok b' t) :
    ∃ es, handleLog ev listenerEvfd clients b s = tagged es ∧ Heard clients s t es := by
  induction clients generalizing b s with
  | nil =>
    cases h
    exact ⟨[], rfl, by simp [texts], by simp, fun c word hw => by simpa [saidBy] using hw⟩
  | cons client rest ih =>
    obtain ⟨b₁, u, hu, h₁⟩ := bind_ok h
    obtain ⟨hm₁, hserve⟩ := handleClient_ok hnames hm hu
    obtain ⟨ms, hms, hn₁⟩ := serves_speak hserve hn hnames
    obtain ⟨es, hlog, hes⟩ := ih hn₁ (namesClean_of_serves hserve hnames) hm₁ h₁
    refine ⟨ms.map (client.2, ·) ++ es, ?_, ?_, fun e he => ?_, fun c word hw => ?_⟩
    · rw [handleLog, hu]
      simp only [pushedBy_eq hms.queue, hlog, tagged, List.map_append, List.map_map]
      rfl
    · rw [hes.queue, hms.queue, List.append_assoc]
      simp [texts, Function.comp_def]
    · rcases List.mem_append.mp he with he | he
      · obtain ⟨m, hmem, rfl⟩ := List.mem_map.mp he
        exact ⟨List.mem_cons_self, hms.events m hmem⟩
      · exact ⟨List.mem_cons_of_mem _ (hes.events e he).1, (hes.events e he).2⟩
    · have := hes.words c _ (hms.words c word hw)
      rw [saidBy_append, saidBy_tag]
      split_ifs at this ⊢ with hc
      · rwa [← List.append_assoc]
      · rwa [List.nil_append]

-- the removal pass asks about one client after the other
theorem removeDisconnected_cons {i : Nat} {client : Int × Int} {rest : List (Int × Int)}
    {m : ServerMessage} {r : List (Int × Int) × ServerMessage}
    (h : removeDisconnected i listenerEvfd (client :: rest) m s = .ok r t) :
    ∃ cl r₁ u r₂, s.sv.getClientRef client.2 = some cl ∧
      removeDisconnected i listenerEvfd [client] m s = .ok r₁ u ∧
      removeDisconnected i listenerEvfd rest r₁.2 u = .ok r₂ t ∧ r = (r₁.1 ++ r₂.1, r₂.2) ∧
      (cl.initState = disconnectState ∧ r₁ = ([], goneMsg m i client.2 cl) ∧
          u = s.pushUp listenerEvfd (goneMsg m i client.2 cl) ∨
        cl.initState ≠ disconnectState ∧ r₁ = ([client], m) ∧ u = s) := by
  obtain ⟨cl, v, hv, h₁⟩ := bind_ok h
  have hone := hv
  obtain ⟨rfl, hcl⟩ := derefClient_ok hv
  split_ifs at h₁ with hs
  · obtain ⟨_, u, hu, h₂⟩ := bind_ok h₁
    have hpush := workerPush_ok hu
    refine ⟨cl, ([], goneMsg m i client.2 cl), u, r, hcl, ?_, h₂, rfl, .inl ⟨hs, rfl, hpush⟩⟩
    rw [removeDisconnected, bind_of_ok hone]
    simp only [hs, if_true]
    rw [bind_of_ok hu]
    rfl
  · obtain ⟨r₂, u, hu, h₂⟩ := bind_ok h₁
    cases h₂
    refine ⟨cl, ([client], m), v, r₂, hcl, ?_, hu, rfl, .inr ⟨hs, rfl, rfl⟩⟩
    rw [removeDisconnected, bind_of_ok hone]
    simp only [hs, if_false]
    rfl

structure Left (i : Nat) (clients kept : List (Int × Int)) (s t : Shared cfg)
    (es : List (Int × ServerMessage)) : Prop where
  queue : t.mgr.qWorkerToListener = s.mgr.qWorkerToListener ++ texts es
  events : ∀ e ∈ es, e.2.Clean ∧ IsGone e.1 e.2 ∧ e.2.threadNumber = Decimal.toString i
  parted : (clients.map Prod.snd).Perm (kept.map Prod.snd ++ es.map Prod.fst)

theorem removeDisconnected_log {i : Nat} {m : ServerMessage}
    {r : List (Int × Int) × ServerMessage} (hnames : NamesClean s.sv) (hm : m.Clean)
    (h : removeDisconnected i listenerEvfd clients m s = .ok r t) :
    ∃ es, removalLog i listenerEvfd clients m s = tagged es ∧ Left i clients r.1 s t es := by
  induction clients generalizing m s r with
  | nil =>
    cases h
    exact ⟨[], rfl, by simp [texts], by simp, .refl _⟩
  | cons client rest ih =>
    obtain ⟨cl, r₁, u, r₂, hcl, hone, hrest, rfl, hcase⟩ := removeDisconnected_cons h
    rcases hcase with ⟨hs, rfl, rfl⟩ | ⟨hs, rfl, rfl⟩
    · have hgone := goneMsg_clean hm (hnames cl (getClientRef_mem hcl)) i client.2
      have hnames' : NamesClean (s.pushUp listenerEvfd (goneMsg m i client.2 cl)).sv := hnames
      have hq : (s.pushUp listenerEvfd (goneMsg m i client.2 cl)).mgr.qWorkerToListener =
        s.mgr.qWorkerToListener ++ [(goneMsg m i client.2 cl).getConcatenatedMsg] := rfl
      obtain ⟨es, hlog, hes⟩ := ih hnames' hgone hrest
      refine ⟨(client.2, goneMsg m i client.2 cl) :: es, ?_, ?_, fun e he => ?_, ?_⟩
      · rw [removalLog, hone]
        simp only [pushedBy_eq hq, hlog, tagged, List.map_cons, List.map_nil, List.singleton_append]
      · rw [hes.queue, hq, List.append_assoc]
        rfl
      · rcases List.mem_cons.mp he with rfl | he
        · exact ⟨hgone, ⟨rfl, rfl⟩, rfl⟩
        · exact hes.events e he
      · exact (hes.parted.cons client.2).trans List.perm_middle.symm
    · obtain ⟨es, hlog, hes⟩ := ih hnames hm hrest
      refine ⟨es, ?_, hes.queue, hes.events, hes.parted.cons client.2⟩
      rw [removalLog, hone]
      simp only [pushedBy_eq (List.append_nil u.mgr.qWorkerToListener).symm, hlog, List.map_nil,
        List.nil_append]

theorem workerIteration_log {ev : Events} {l : Launch} {w w' : WorkerState} (hn : s.sv.ids.Nodup)
    (hnames : NamesClean s.sv) (hm : w.buffers.serverMsg.Clean)
    (h : workerIteration ev l w s = .ok w' t) :
    ∃ q s₁ s₂ kept es es', Iterated ev l w s w' t q s₁ s₂ kept ∧
      iterationLog ev l w s = tagged (es ++ es') ∧ Heard w.clients s₁ s₂ es ∧
      Left l.personalIndex w.clients kept s₂ t es' := by
  obtain ⟨q, s₁, hq, h₁⟩ := bind_ok h
  obtain ⟨b, s₂, hb, h₂⟩ := bind_ok h₁
  obtain ⟨r, s₃, hr, h₃⟩ := bind_ok h₂
  obtain ⟨clients, s₄, hc, h₄⟩ := bind_ok h₃
  have hsv := pollQueue_sv hq
  have hn₁ : s₁.sv.ids.Nodup := hsv ▸ hn
  have hnames₁ : NamesClean s₁.sv := hsv ▸ hnames
  obtain ⟨hmb, hserve⟩ := handleClients_ok hnames₁ hm hb
  have hnames₂ := namesClean_of_servesAny hserve hnames₁
  obtain ⟨hmr, hrem⟩ := removeDisconnected_ok hnames₂ hmb hr
  obtain ⟨es, hlog, hheard⟩ := handleClients_log hn₁ hnames₁ hm hb
  obtain ⟨es', hlog', hleft⟩ := removeDisconnected_log hnames₂ hmb hr
  obtain ⟨rfl, rfl⟩ := takeUp_ok hc
  cases h₄
  refine ⟨q, s₁, s₂, r.1, es, es', ⟨hq, hserve, hrem, rfl, hmr⟩, ?_, hheard, hleft⟩
  simp only [iterationLog, hq, hb, hlog, hlog', tagged, List.map_append]

end Passes

end ChatApp
