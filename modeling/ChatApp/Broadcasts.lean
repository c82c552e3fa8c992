import ChatApp.Library.Broadcast
import ChatApp.SystemInvariant

namespace ChatApp

open Effects Relation Runs

variable {cfg : Config}

namespace History

def sentTo (h : History) (clId : Int) : List Str :=
  (h.sent.filter fun x => x.1 = clId).map Prod.snd

def sending (h : History) (clId : Int) (texts : List Str) : History :=
  { h with sent := h.sent ++ texts.map fun x => (clId, x) }

def publishing (h : History) (exceptedId : Int) (msg : Str) : History :=
  { h with broadcasts := h.broadcasts ++ [(exceptedId, msg)] }

theorem sentTo_sending (h : History) (clId : Int) (texts : List Str) :
    (h.sending clId texts).sentTo clId = h.sentTo clId ++ texts := by
  have hall : (texts.map fun x => (clId, x)).filter (fun x => x.1 = clId) =
      texts.map fun x => (clId, x) := by
    rw [List.filter_eq_self]
    simp
  simp [sentTo, sending, hall, Function.comp_def]

theorem sentTo_sending_other {clId other : Int} (hne : other ≠ clId) (h : History)
    (texts : List Str) : (h.sending clId texts).sentTo other = h.sentTo other := by
  have hnone : (texts.map fun x => (clId, x)).filter (fun x => x.1 = other) = [] := by
    rw [List.filter_eq_nil_iff]
    simp [hne.symm]
  simp [sentTo, sending, hnone]

end History

-- a broadcast with its position in the listener's log
abbrev Numbered := (Int × Str) × Nat

def Numbered.text (b : Numbered) : Str := b.1.2

def IsReply (clId : Int) (text : Str) : Prop :=
  ∃ (m : ServerMessage) (cl : ClientData), cl.personalId = clId ∧
    text = (initReplyMsg m cl).getConcatenatedMsg

def IsHello (clId : Int) (text : Str) : Prop :=
  ∃ (m : ServerMessage) (cl : ClientData), cl.personalId = clId ∧
    text = (helloMsg m cl).getConcatenatedMsg

-- what a client has been sent before its first broadcast, by the state of its entry
inductive Greeting (clId : Int) : Int → List Str → List Numbered → Prop
  | silent {st : Int} (h : st = initialState ∨ st = requestedInit ∨ st = disconnectState) :
    Greeting clId st [] []
  | replied {st : Int} {reply : Str} (h : st = sentInitConfirmation ∨ st = disconnectState)
    (hr : IsReply clId reply) : Greeting clId st [reply] []
  | joined {st : Int} {reply hello : Str} {got : List Numbered}
    (h : st = initDone ∨ st = disconnectState) (hr : IsReply clId reply)
    (hh : IsHello clId hello) : Greeting clId st [reply, hello] got

structure Followed (h : History) (c : ClientData) (n : Nat) (greeting : List Str)
    (got waiting : List Numbered) : Prop where
  arrived : h.arrivals.lookup c.personalId = some n
  bound : n ≤ h.broadcasts.length
  sent : h.sentTo c.personalId = greeting ++ got.map Numbered.text
  queue : c.sendQueue = waiting.map Numbered.text
  complete : got ++ waiting = Broadcast.due h.broadcasts n c.personalId
  greeted : Greeting c.personalId c.initState greeting got

structure Ordered (s : Shared cfg) : Prop where
  sent : ∀ x ∈ s.hist.sent, x.1 < s.sv.clientDataId
  arrivals : ∀ x ∈ s.hist.arrivals, x.1 < s.sv.clientDataId
  followed : ∀ c ∈ s.sv.clients.values, ∃ n greeting got waiting,
    Followed s.hist c n greeting got waiting

-- what a worker does to one entry and sends to its client
inductive Progress (cl : ClientData) : ClientData → List Str → Prop
  | marked : Progress cl (cl.setState disconnectState) []
  | named {name : Str} (h : cl.initState = initialState) :
    Progress cl { cl.incState with name := name } []
  | replied {reply : Str} (h : cl.initState = requestedInit) (hr : IsReply cl.personalId reply) :
    Progress cl cl.incState [reply]
  | greeted {hello : Str} (h : cl.initState = sentInitConfirmation)
    (hh : IsHello cl.personalId hello) : Progress cl cl.incState [hello]
  | kept : Progress cl cl []
  | flushed {msg : Str} {rest : List Str} (h : cl.initState = initDone)
    (hq : cl.sendQueue = msg :: rest) : Progress cl { cl with sendQueue := rest } [msg]

section Follow

variable {h : History} {c c' : ClientData} {n : Nat} {greeting : List Str}
variable {got waiting : List Numbered}

theorem Greeting.marked {clId st : Int} (hg : Greeting clId st greeting got) :
    Greeting clId disconnectState greeting got := by
  cases hg with
  | silent _ => exact .silent (.inr (.inr rfl))
  | replied _ hr => exact .replied (.inr rfl) hr
  | joined _ hr hh => exact .joined (.inr rfl) hr hh

theorem Followed.other {clId : Int} {texts : List Str} (hf : Followed h c n greeting got waiting)
    (hne : c.personalId ≠ clId) : Followed (h.sending clId texts) c n greeting got waiting where
  arrived := hf.arrived
  bound := hf.bound
  sent := (History.sentTo_sending_other hne h texts).trans hf.sent
  queue := hf.queue
  complete := hf.complete
  greeted := hf.greeted

theorem Followed.progress {texts : List Str} (hf : Followed h c n greeting got waiting)
    (hp : Progress c c' texts) : ∃ greeting' got' waiting',
    Followed (h.sending c.personalId texts) c' n greeting' got' waiting' := by
  have hsent := (History.sentTo_sending h c.personalId texts).trans
    (congrArg (· ++ texts) hf.sent)
  have hgreet := hf.greeted
  cases hp with
  | marked =>
    exact ⟨greeting, got, waiting, hf.arrived, hf.bound, by simpa using hsent, hf.queue,
      hf.complete, hgreet.marked⟩
  | named h0 =>
    rw [h0] at hgreet
    cases hgreet with
    | silent _ =>
      refine ⟨[], [], waiting, hf.arrived, hf.bound, by simpa using hsent, hf.queue, hf.complete,
        .silent (.inr (.inl ?_))⟩
      simp [ClientData.incState, h0, initialState, requestedInit]
    | replied h _ => rcases h with h | h <;> cases h
    | joined h _ _ => rcases h with h | h <;> cases h
  | @replied reply h1 hr =>
    rw [h1] at hgreet
    cases hgreet with
    | silent _ =>
      refine ⟨[reply], [], waiting, hf.arrived, hf.bound, by simpa using hsent, hf.queue,
        hf.complete, .replied (.inl ?_) hr⟩
      simp [ClientData.incState, h1, requestedInit, sentInitConfirmation]
    | replied h _ => rcases h with h | h <;> cases h
    | joined h _ _ => rcases h with h | h <;> cases h
  | @greeted hello h2 hh =>
    rw [h2] at hgreet
    cases hgreet with
    | silent h => rcases h with h | h | h <;> cases h
    | @replied reply _ hr =>
      refine ⟨[reply, hello], [], waiting, hf.arrived, hf.bound, by simpa using hsent, hf.queue,
        hf.complete, .joined (.inl ?_) hr hh⟩
      simp [ClientData.incState, h2, sentInitConfirmation, initDone]
    | joined h _ _ => rcases h with h | h <;> cases h
  | kept =>
    exact ⟨greeting, got, waiting, hf.arrived, hf.bound, by simpa using hsent, hf.queue,
      hf.complete, hgreet⟩
  | @flushed msg rest h3 hq =>
    rw [h3] at hgreet
    cases hgreet with
    | silent h => rcases h with h | h | h <;> cases h
    | replied h _ => rcases h with h | h <;> cases h
    | @joined reply hello _ _ hr hh =>
      have hqueue := hf.queue
      rw [hq] at hqueue
      cases waiting with
      | nil => cases hqueue
      | cons b bs =>
        obtain ⟨rfl, rfl⟩ := List.cons.inj hqueue
        refine ⟨[reply, hello], got ++ [b], bs, hf.arrived, hf.bound, ?_, rfl, ?_,
          .joined (.inl h3) hr hh⟩
        · simpa using hsent
        · rw [List.append_assoc]
          exact hf.complete

theorem Followed.publish (hf : Followed h c n greeting got waiting) (exceptedId : Int)
    (msg : Str) :
    ∃ waiting', Followed (h.publishing exceptedId msg)
      (if exceptedId = c.personalId then c else c.enqueue msg) n greeting got waiting' := by
  have hdue := Broadcast.due_append hf.bound (exceptedId, msg) c.personalId
  rw [← hf.complete] at hdue
  have hbound : n ≤ (h.publishing exceptedId msg).broadcasts.length := by
    have := hf.bound
    simp only [History.publishing, List.length_append, List.length_singleton]
    omega
  split_ifs with he
  · rw [if_pos he, List.append_nil] at hdue
    exact ⟨waiting, hf.arrived, hbound, hf.sent, hf.queue, hdue.symm, hf.greeted⟩
  · rw [if_neg he, List.append_assoc] at hdue
    refine ⟨waiting ++ [((exceptedId, msg), h.broadcasts.length)], hf.arrived, hbound, hf.sent, ?_,
      hdue.symm, hf.greeted⟩
    simp [ClientData.enqueue, hf.queue, Numbered.text]

end Follow

def WholeSends (s : Shared cfg) : Prop := ∀ r ∈ s.kernel.sends, r = .whole

section Worker

variable {held : List (Int × Int)} {accepts : List (Nat × Int × Int)} {ups : List ServerMessage}
variable {s t : Shared cfg} {listenerEvfd clId : Int}

theorem sendDone_whole (hw : WholeSends s) (clId : Int) (msg : Str) :
    WholeSends (s.sendDone clId msg) ∧ (s.sendDone clId msg).hist = s.hist.sending clId [msg] := by
  unfold WholeSends Shared.sendDone at *
  cases hk : s.kernel.sends with
  | nil =>
    refine ⟨fun r hr => ?_, rfl⟩
    rw [hk] at hr
    cases hr
  | cons r rest =>
    rw [hk] at hw
    obtain ⟨rfl, hrest⟩ := List.forall_mem_cons.mp hw
    exact ⟨hrest, rfl⟩

-- one entry moves on, with what is sent to its client; the others stay
structure Moved (s : Shared cfg) (clId : Int) (t : Shared cfg) : Prop where
  whole : WholeSends t
  counter : t.sv.clientDataId = s.sv.clientDataId
  entry : ∃ cl cl' texts, s.sv.getClientRef clId = some cl ∧ Progress cl cl' texts ∧
    t.hist = s.hist.sending clId texts ∧
    ∀ c ∈ t.sv.clients.values, c = cl' ∨ c ∈ s.sv.clients.values ∧ c.personalId ≠ clId

theorem moved_of_send {cl : ClientData} {f : ClientData → ClientData} {msg : Str}
    (hn : s.sv.ids.Nodup) (hw : WholeSends s) (hcl : s.sv.getClientRef clId = some cl)
    (hp : Progress cl (f cl) [msg]) : Moved s clId ((s.modifyClient clId f).sendDone clId msg) := by
  obtain ⟨hw', hh⟩ := sendDone_whole (s := s.modifyClient clId f) hw clId msg
  refine ⟨hw', by rw [Shared.sendDone_sv]; rfl, cl, f cl, [msg], hcl, hp, hh, fun c hc => ?_⟩
  rw [Shared.sendDone_sv] at hc
  exact mem_modifyClient_nodup hn hcl hc

theorem moved_of_modify {cl : ClientData} {f : ClientData → ClientData} (hn : s.sv.ids.Nodup)
    (hw : WholeSends s) (hcl : s.sv.getClientRef clId = some cl) (hp : Progress cl (f cl) []) :
    Moved s clId (s.modifyClient clId f) := by
  refine ⟨hw, rfl, cl, f cl, [], hcl, hp, ?_, fun c hc => mem_modifyClient_nodup hn hcl hc⟩
  simp [History.sending]

theorem Moved.pushUp {m : ServerMessage} (hm : Moved s clId t) (fd : Int) :
    Moved s clId (t.pushUp fd m) := ⟨hm.whole, hm.counter, hm.entry⟩

theorem Serve.moved (hs : Serve listenerEvfd clId s t) (hn : s.sv.ids.Nodup)
    (hw : WholeSends s) : Moved s clId t := by
  cases hs with
  | mark hcl => exact moved_of_modify hn hw hcl .marked
  | named hcl h0 _ => exact moved_of_modify hn hw hcl (.named h0)
  | replied hcl h1 _ => exact moved_of_send hn hw hcl (.replied h1 ⟨_, _, rfl, rfl⟩)
  | greeted hcl h2 _ =>
    exact (moved_of_send hn hw hcl (.greeted h2 ⟨_, _, rfl, rfl⟩)).pushUp listenerEvfd
  | @relayed cl m hcl _ _ _ =>
    refine ⟨hw, rfl, cl, cl, [], hcl, .kept, by simp [History.sending], fun c hc => ?_⟩
    by_cases hid : c.personalId = clId
    · exact .inl (eq_of_id hn hc (getClientRef_mem hcl) (hid.trans (getClientRef_id hcl).symm))
    · exact .inr ⟨hc, hid⟩
  | flushed hcl h3 hq => exact moved_of_send hn hw hcl (.flushed h3 hq)

theorem Moved.ordered (hm : Moved s clId t) (h : Owned held accepts ups s) (ho : Ordered s) :
    Ordered t := by
  obtain ⟨cl, cl', texts, hcl, hp, hh, hmem⟩ := hm.entry
  have hid := getClientRef_id hcl
  have hlt := (h.range _ (mem_pairs hcl)).2.2
  refine ⟨?_, ?_, ?_⟩
  · rw [hh, hm.counter]
    intro x hx
    rcases List.mem_append.mp hx with hx | hx
    · exact ho.sent x hx
    · obtain ⟨_, _, rfl⟩ := List.mem_map.mp hx
      exact hlt
  · rw [hh, hm.counter]
    exact ho.arrivals
  · rw [hh]
    intro c hc
    rcases hmem c hc with rfl | ⟨hc, hne⟩
    · obtain ⟨n, greeting, got, waiting, hf⟩ := ho.followed cl (getClientRef_mem hcl)
      rw [← hid]
      exact ⟨n, hf.progress hp⟩
    · obtain ⟨n, greeting, got, waiting, hf⟩ := ho.followed c hc
      exact ⟨n, greeting, got, waiting, hf.other hne⟩

theorem ordered_of_serves {clients : List (Int × Int)}
    (hs : ReflTransGen (ServeAny listenerEvfd clients) s t) (h : Owned held accepts ups s)
    (hw : WholeSends s) (ho : Ordered s) : Ordered t := by
  have hall : (∃ ups', Owned held accepts ups' t) ∧ WholeSends t ∧ Ordered t := by
    induction hs with
    | refl => exact ⟨⟨ups, h⟩, hw, ho⟩
    | tail _ hs ih =>
      obtain ⟨⟨ups', h'⟩, hw', ho'⟩ := ih
      obtain ⟨client, _, hs⟩ := hs
      have hm := hs.moved h'.nodup hw'
      exact ⟨hs.owned h', hm.whole, hm.ordered h' ho'⟩
  exact hall.2.2

theorem Removed.hist {i : Nat} {clients kept : List (Int × Int)}
    (hr : Removed i listenerEvfd clients s kept t) : t.hist = s.hist := by
  induction hr with
  | nil => rfl
  | keep _ _ _ ih => exact ih
  | drop _ _ _ _ ih => exact ih

theorem Ordered.congr (ho : Ordered s) (hclients : t.sv.clients = s.sv.clients)
    (hid : t.sv.clientDataId = s.sv.clientDataId) (hh : t.hist = s.hist) : Ordered t := by
  refine ⟨?_, ?_, ?_⟩
  · rw [hh, hid]
    exact ho.sent
  · rw [hh, hid]
    exact ho.arrivals
  · rw [hh, hclients]
    exact ho.followed

theorem Iterated.ordered {ev : Events} {l : Launch} {w w' : WorkerState} {q : QueueAction}
    {s₁ s₂ : Shared cfg} {kept : List (Int × Int)} (hit : Iterated ev l w s w' t q s₁ s₂ kept)
    (h : Owned held accepts ups s) (hw : WholeSends s) (ho : Ordered s) : Ordered t := by
  obtain ⟨accepts', evfd, hp, rfl⟩ := pollQueue_polled h hit.polled
  have h₂ := ordered_of_serves hit.served (h.poll hp) hw (ho.congr rfl rfl rfl)
  refine h₂.congr ?_ ?_ hit.removed.hist
  · rw [hit.removed.sv]
  · rw [hit.removed.sv]

end Worker

section Listener

variable {held : List (Int × Int)} {accepts : List (Nat × Int × Int)} {ups : List ServerMessage}
variable {s t : Shared cfg} {clId : Int}

theorem values_pushAll {sv : Server cfg} (hn : sv.ids.Nodup) (exceptedId : Int) (msg : Str)
    {ids : List Int} (hids : ids.Nodup) {c : ClientData}
    (hc : c ∈ (sv.pushAll exceptedId msg ids).clients.values) :
    ∃ d ∈ sv.clients.values, c = if exceptedId = d.personalId ∨ d.personalId ∉ ids then d
      else d.enqueue msg := by
  have hsame : (sv.pushAll exceptedId msg ids).ids = sv.ids := by
    rw [Server.ids_eq, Server.getConnectedIDs_pushAll, ← Server.ids_eq]
  have hc' := getClientRef_of_mem (hsame ▸ hn) hc
  obtain ⟨p, hp, hid⟩ := List.mem_map.mp (hsame ▸ mem_ids hc')
  obtain ⟨d, hd, _⟩ := getClientRef_of_pair hn hp
  rw [hid] at hd
  refine ⟨d, getClientRef_mem hd, ?_⟩
  rw [getClientRef_id hd]
  exact Option.some.inj (hc'.symm.trans (getClientRef_pushAll hids hd))

theorem Ordered.publish (hn : s.sv.ids.Nodup) (ho : Ordered s) (exceptedId : Int)
    (msg : Str) {ids : List Int} (hids : ids.Nodup) (hsub : ∀ x ∈ s.sv.ids, x ∈ ids) :
    Ordered (s.broadcast exceptedId msg ids) := by
  have hframe := Server.pushAll_frame s.sv exceptedId msg ids
  have hid : (s.broadcast exceptedId msg ids).sv.clientDataId = s.sv.clientDataId := hframe.2.1
  refine ⟨?_, ?_, ?_⟩
  · rw [hid]
    exact ho.sent
  · rw [hid]
    exact ho.arrivals
  · intro c hc
    obtain ⟨d, hd, rfl⟩ := values_pushAll hn exceptedId msg hids hc
    have hmem : d.personalId ∈ ids := by
      refine hsub _ ?_
      rw [Server.ids_eq]
      exact List.mem_map_of_mem hd
    obtain ⟨n, greeting, got, waiting, hf⟩ := ho.followed d hd
    obtain ⟨waiting', hf'⟩ := hf.publish exceptedId msg
    refine ⟨n, greeting, got, waiting', ?_⟩
    simp only [hmem, not_true_eq_false, or_false]
    exact hf'

theorem Ordered.dropClient (ho : Ordered s) (clId fd : Int) :
    Ordered { s with sv := s.sv.dropClient clId fd } := by
  refine ⟨ho.sent, ho.arrivals, fun c hc => ?_⟩
  rw [values_dropClient] at hc
  exact ho.followed c (List.mem_of_mem_eraseP hc)

theorem Ordered.enrol (ho : Ordered s) (hfull : s.sv.clients.isFull = false) (n : Nat)
    (color : Int) : Ordered (s.enrol n color) := by
  have hcount : ((s.enrol n color).sv.clientDataId : Int) = s.sv.clientDataId + 1 := rfl
  have hfresh (arr : List (Int × Nat)) (harr : ∀ x ∈ arr, x.1 < (s.sv.clientDataId : Int)) :
      arr.lookup (s.sv.clientDataId : Int) = none := by
    rw [List.lookup_eq_none_iff]
    intro x hx
    have := harr x hx
    simp only [bne_iff_ne, ne_eq]
    omega
  refine ⟨?_, ?_, ?_⟩
  · intro x hx
    have := ho.sent x hx
    omega
  · intro x hx
    rcases List.mem_append.mp hx with hx | hx
    · have := ho.arrivals x hx
      omega
    · rw [List.mem_singleton.mp hx]
      omega
  · intro c hc
    rcases List.mem_cons.mp ((values_enrol hfull n color).mem_iff.mp hc) with rfl | hc
    · refine ⟨s.hist.broadcasts.length, [], [], [], ?_, le_refl _, ?_, rfl, ?_,
        .silent (.inl rfl)⟩
      · change (s.hist.arrivals ++ _).lookup _ = _
        rw [List.lookup_append, hfresh _ ho.arrivals]
        simp
      · change (s.hist.sent.filter _).map _ = _
        have : s.hist.sent.filter (fun x => x.1 = (s.sv.clientDataId : Int)) = [] := by
          rw [List.filter_eq_nil_iff]
          intro x hx
          have := ho.sent x hx
          simp only [decide_eq_true_eq]
          omega
        simp [this]
      · exact (Broadcast.due_length _ _).symm
    · obtain ⟨k, greeting, got, waiting, hf⟩ := ho.followed c hc
      refine ⟨k, greeting, got, waiting, ?_, hf.bound, hf.sent, hf.queue, hf.complete, hf.greeted⟩
      change (s.hist.arrivals ++ _).lookup _ = _
      rw [List.lookup_append, hf.arrived]
      rfl

end Listener

section Unbounded

variable {held : List (Int × Int)} {accepts : List (Nat × Int × Int)} {ups : List ServerMessage}
variable {s t : Shared cfg} {m : ServerMessage}

def view (s : Shared cfg) : Server cfg × History := (s.sv, s.hist)

theorem Ordered.of_view (ho : Ordered s) (hv : view t = view s) : Ordered t := by
  obtain ⟨hsv, hh⟩ := Prod.mk.inj hv
  exact ho.congr (by rw [hsv]) (by rw [hsv]) hh

theorem workerClientDisconnect_view (i : Int) :
    Frame view (workerClientDisconnect i : Prog cfg Unit) :=
  workerClientDisconnect_frame (fun _ _ _ => rfl) i

theorem unicastRepeated_unbounded (hq : cfg.queueSize = none) (hn : s.sv.ids.Nodup)
    (exceptedId : Int) (msg : Str) :
    unicastRepeated exceptedId s.sv.getConnectedIDs msg t =
      .ok () (t.broadcast exceptedId msg s.sv.getConnectedIDs) := by
  refine unicastRepeated_room exceptedId msg ?_
    (roomFor_of_all (fun c _ => by simp [Config.hasRoom, hq]) _ _)
  rw [← Server.ids_eq]
  exact hn

theorem relay_ordered (hq : cfg.queueSize = none) (hn : s.sv.ids.Nodup) (ho : Ordered s)
    (x text : Str) : Ordered (final ((do
      unicastRepeated (← liftExcept (stoi x)) s.sv.getConnectedIDs text : Prog cfg Unit) s)) := by
  refine (liftExcept_frame id _).reads ho fun n _ => ?_
  rw [unicastRepeated_unbounded hq hn]
  exact ho.publish hn n text (Server.ids_eq s.sv ▸ hn) (by simp [Server.ids_eq])

theorem processClDisconnected_ordered (hq : cfg.queueSize = none) (hn : s.sv.ids.Nodup)
    (ho : Ordered s) : Ordered (final (processClDisconnected m s.sv.getConnectedIDs s)) := by
  rw [processClDisconnected]
  refine (liftExcept_frame id _).reads ho fun clId hst => ?_
  obtain ⟨hst, _⟩ := liftExcept_ok_inv hst
  cases hc : s.sv.getClientRef clId with
  | none =>
    have hd : onServer (Server.disconnectClient clId) s =
        .error (.runtimeError "Client not found\n") s :=
      onServer_error (by simp [Server.disconnectClient, hc])
    rw [bind_of_error hd]
    exact ho
  | some c =>
    rw [bind_of_ok (disconnectClient_run hc)]
    have hdrop := ho.dropClient clId c.fd
    have hids := ids_dropClient s.sv clId c.fd
    refine (liftExcept_frame id _).reads hdrop fun j _ => ?_
    refine (workerAt_frame id j).reads hdrop fun w _ => ?_
    split
    · exact hdrop
    · split_ifs
      · exact hdrop
      · rw [hst, bind_of_ok (liftExcept_ok clId), bind_of_ok (unicastRepeated_unbounded hq hn _ _)]
        refine (hdrop.publish ?_ clId (leftMsg m).getConcatenatedMsg (Server.ids_eq s.sv ▸ hn)
          ?_).of_view ?_
        · rw [hids]
          exact hn.erase clId
        · intro x hx
          rw [hids] at hx
          rw [← Server.ids_eq]
          exact List.mem_of_mem_erase hx
        · exact ((liftExcept_frame view _).bind fun i => workerClientDisconnect_view i) _

theorem processMessage_ordered (hq : cfg.queueSize = none) (hn : s.sv.ids.Nodup) (ho : Ordered s)
    (text : Str) : Ordered (final (processMessage text s)) := by
  refine (liftExcept_frame id _).reads ho fun m _ => ?_
  simp only [get_bind_run]
  split_ifs
  · exact ho
  · unfold dispatch
    split_ifs
    · exact processClDisconnected_ordered hq hn ho
    · exact relay_ordered hq hn ho _ _
    · rw [unicastRepeated_unbounded hq hn]
      exact ho.publish hn (-1) text (Server.ids_eq s.sv ▸ hn) (by simp [Server.ids_eq])
    · exact relay_ordered hq hn ho _ _
    · exact ho

theorem listenerProcess_ordered (hq : cfg.queueSize = none) (hn : s.sv.ids.Nodup) (ho : Ordered s)
    (L : Int) : Ordered (final (listenerProcessWorkerToListenerQ L s)) := by
  rw [listenerProcess_eq]
  split_ifs
  · exact ho
  · split
    · exact ho.of_view rfl
    · rename_i text rest _
      have ho' : Ordered ((s.setEvfd L 0).setWorkerToListener rest) := ho.of_view rfl
      exact processMessage_ordered (s := (s.setEvfd L 0).setWorkerToListener rest) hq hn ho' text

theorem acceptBranch_ordered (ho : Ordered s) (L : Int) (env : AcceptEnv) :
    (∃ u, acceptBranch L env s = .error .undefinedBehaviour u) ∨
      Ordered (final (acceptBranch L env s)) := by
  rcases acceptBranch_final L env s with hub | ⟨hbody, d, hd⟩
  · exact .inl hub
  · refine .inr ?_
    have hb : Ordered (final (acceptBranchBody L env s)) := by
      rcases acceptBranchBody_cases L env s with ⟨u, hu⟩ | ⟨fds, hf⟩ | ⟨p, u, he, hsv, hh, _, _⟩
      · exact absurd hu (hbody u)
      · rw [hf]
        exact ho.congr rfl rfl rfl
      · have hu : Ordered u := by
          cases he with
          | refused fds => exact ho.congr rfl rfl rfl
          | entered hn hfull hmax => exact ho.enrol hfull _ _
        exact hu.congr (by rw [hsv]) (by rw [hsv]) hh
    rw [hd]
    exact hb.congr rfl rfl rfl

theorem stdinBranch_ordered (ho : Ordered s) (buffer : Option Str) :
    Ordered (final (stdinBranch buffer s)) := by
  obtain ⟨d, hd | hd⟩ := stdinBranch_final buffer s
  · rw [hd]
    exact ho.congr rfl rfl rfl
  · rw [hd]
    exact ho.congr rfl rfl rfl

end Unbounded

def Label.SendsWhole : Label → Prop
  | .iterate _ ev => ∀ r ∈ ev.sends, r = .whole
  | _ => True

namespace State

variable {s t : State cfg}

theorem listenerStep_ordered {l : Label} (hq : cfg.queueSize = none) (hs : s.Sound)
    (ho : Ordered s.shared) (ht : s.listenerStep l = some t) : Ordered t.shared := by
  obtain ⟨_, _, hown, _⟩ := hs.owned
  cases listenerStep_turn ht with
  | moved _ _ _ => exact ho
  | queue _ => exact runListener_shared _ ho fun _ => listenerProcess_ordered hq hown.nodup ho _
  | stdin buffer _ => exact runListener_shared _ ho fun _ => stdinBranch_ordered ho buffer
  | accept _ _ =>
    refine runListener_shared _ ho fun hub => ?_
    exact (acceptBranch_ordered ho _ _).resolve_left fun ⟨u, hu⟩ => hub u hu

theorem threadStep_ordered {l : Label} {k : Nat} {th : Thread} (hs : s.Sound)
    (hth : s.threads[k]? = some th) (hl : l.SendsWhole) (ho : Ordered s.shared)
    (ht : s.threadStep k th l = some t) : Ordered t.shared := by
  obtain ⟨accepts, ups, hown, _⟩ := hs.owned
  cases threadStep_turned hs hth ht with
  | started _ => exact ho
  | waits _ _ _ => exact ho
  | @iterated _ ev w w' u q s₁ s₂ kept _ _ hit =>
    have ho₁ : Ordered (s.withSends ev.sends).shared := ho.of_view rfl
    have hown₁ : Owned s.held accepts ups (s.withSends ev.sends).shared := hown.of_core rfl
    exact hit.ordered hown₁ hl ho₁
  | left _ _ => exact ho
  | threw sends => exact ho.of_view rfl

theorem step_ordered {l : Label} (hq : cfg.queueSize = none) (hl : l.SendsWhole) (hs : s.Sound)
    (ho : Ordered s.shared) (ht : s.step l = some t) : Ordered t.shared := by
  obtain ⟨_, ⟨_, ht⟩ | ⟨k, th, hth, ht⟩⟩ := step_cases ht
  · exact listenerStep_ordered hq hs ho ht
  · exact threadStep_ordered hs hth hl ho ht

theorem init_ordered (cfg : Config) (svSocket listenerEvfd : Nat) :
    Ordered (init cfg svSocket listenerEvfd).shared := by
  constructor <;> simp [init]

theorem ordered_of_reach {svSocket listenerEvfd : Nat} (hq : cfg.queueSize = none)
    (h : Reach step (fun _ l => l.SendsWhole) (init cfg svSocket listenerEvfd) s) :
    s.Sound ∧ Ordered s.shared := by
  refine h.invariant (I := fun s => s.Sound ∧ Ordered s.shared)
    ⟨init_sound _ _ _, init_ordered _ _ _⟩
    fun _ _ _ hI hl ht => ?_
  exact ⟨step_sound hI.1 ht, step_ordered hq hl hI.1 hI.2 ht⟩

end State

-- what each client has been sent and has still to be sent, and two clients see one order
theorem broadcasts_delivered (cfg : Config) {svSocket listenerEvfd : Nat}
    {s : State cfg.unbounded}
    (h : Reach State.step (fun _ l => l.SendsWhole) (State.init _ svSocket listenerEvfd) s) :
    (∀ c ∈ s.shared.sv.clients.values, ∃ n greeting got waiting,
      Followed s.shared.hist c n greeting got waiting) ∧
    ∀ c d : ClientData, ∀ n greeting got waiting n' greeting' got' waiting',
      Followed s.shared.hist c n greeting got waiting →
      Followed s.shared.hist d n' greeting' got' waiting' →
      got.Nodup ∧ ∀ a b, [a, b].Sublist got → a ∈ got' → b ∈ got' → [a, b].Sublist got' := by
  have inOrder {c : ClientData} {n : Nat} {greeting : List Str} {got waiting : List Numbered}
      (hf : Followed s.shared.hist c n greeting got waiting) : Broadcast.InOrder got :=
    (Broadcast.inOrder_due s.shared.hist.broadcasts n c.personalId).sublist
      (hf.complete ▸ List.sublist_append_left got waiting)
  obtain ⟨_, ho⟩ := State.ordered_of_reach rfl h
  refine ⟨ho.followed, fun c d n _ got _ n' _ got' _ hc hd => ⟨(inOrder hc).nodup, ?_⟩⟩
  exact fun a b hab ha hb => (inOrder hc).same (inOrder hd) hab ha hb

-- two clients join, and the first is told about the second
def twoJoin : List Label :=
  listenerRound false true (connection 5 6) ++ [.start 0 freshFrame] ++ handshake 0 5 ++
  listenerRound true true (connection 7 8) ++ [.start 1 freshFrame] ++ handshake 1 7 ++
  listenerRound true false (connection 9 10) ++
  workerRound 0 { pollIn := fun _ => false, pollOut := fun x => x = 5, recv := fun _ => .failed }

theorem broadcasts_delivered_twoJoin : ∃ s : State Config.deployed.unbounded,
    s.shared.sv.clients.values.length = 2 ∧ s.shared.hist.broadcasts.length = 2 ∧
    (s.shared.hist.sentTo 0).length = 3 ∧
    ∀ c ∈ s.shared.sv.clients.values, ∃ n greeting got waiting,
      Followed s.shared.hist c n greeting got waiting := by
  have hrun : (run State.step (State.init Config.deployed.unbounded 3 4) twoJoin).any (fun s =>
      s.shared.sv.clients.values.length = 2 && s.shared.hist.broadcasts.length = 2 &&
        (s.shared.hist.sentTo 0).length = 3) = true := by decide +kernel
  have hwhole : ∀ l ∈ twoJoin, l.SendsWhole := by
    simp [twoJoin, listenerRound, workerRound, handshake, receiving, Label.SendsWhole]
  obtain ⟨s, hr, hs⟩ := exists_of_run hwhole hrun
  simp only [Bool.and_eq_true, decide_eq_true_eq] at hs
  exact ⟨s, hs.1.1, hs.1.2, hs.2, (broadcasts_delivered Config.deployed hr).1⟩

end ChatApp
