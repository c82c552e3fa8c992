import ChatApp.InterleavedHands

namespace ChatApp

open Effects Scripts

variable {cfg : Config}

section Holdings

variable {held held' : List (Int × Int)} {accepts : List (Nat × Int × Int)}
variable {ups : List ServerMessage} {s t : Shared cfg} {p : Int × Int}

theorem Owned.sublist (h : Owned held accepts ups s) (hs : held'.Sublist held) :
    Owned held' accepts ups s := by
  refine ⟨h.socket, h.nodup, h.range, h.counter, h.names, h.downQueue, h.indexes, h.upQueue,
    h.upsOk, fun q hq => ?_, fun x hx => ?_⟩
  · refine h.known q ?_
    rcases List.mem_append.mp hq with hq | hq
    · exact List.mem_append_left _ (hs.subset hq)
    · exact List.mem_append_right _ hq
  · have := (hs.map Prod.snd).count_le x
    have := h.holders x hx
    omega

-- whoever takes an ACCEPT from the queue has its client in hand
theorem Owned.takeOver {a : Nat × Int × Int} (h : Owned held (a :: accepts) ups s) :
    Owned (a.2 :: held) accepts ups (s.setListenerToWorker (acceptTexts accepts)) := by
  refine ⟨h.socket, h.nodup, h.range, h.counter, h.names, rfl,
    fun x hx => h.indexes x (List.mem_cons_of_mem _ hx), h.upQueue, h.upsOk, fun q hq => ?_,
    fun x hx => ?_⟩
  · refine h.known q ?_
    simp only [List.cons_append, List.mem_cons, List.mem_append, List.map_cons] at hq ⊢
    tauto
  · have := h.holders x hx
    change _ ≤ s.sv.ids.count x
    simp only [List.map_cons, List.count_cons] at this ⊢
    omega

theorem Owned.due_of_held {clId fd : Int} (h : Owned ((fd, clId) :: held) accepts ups s)
    (h0 : 0 ≤ clId) : Due held accepts ups s clId := by
  have := h.holders clId h0
  simp only [List.map_cons, List.count_cons_self] at this
  unfold Due
  omega

end Holdings

namespace Interleaved

-- these clients are held, each by one hand: they and those of the queued messages are the table's
def Accounted (ps : List (Int × Int)) (s : Shared cfg) : Prop :=
  (∃ accepts ups, Owned ps accepts ups s) ∧ ChatApp.State.FdsDistinct s.sv

section Accounts

variable {ps qs : List (Int × Int)} {s t : Shared cfg} {p : Int × Int}

theorem Accounted.of_holdings (h : Accounted ps s) (ht : holdings t = holdings s) :
    Accounted ps t := by
  simp only [holdings, Prod.mk.injEq] at ht
  obtain ⟨hup, hdown, hsock, hid, hroster⟩ := ht
  obtain ⟨⟨accepts, ups, ho⟩, hf⟩ := h
  have hpairs : t.sv.pairs = s.sv.pairs := by rw [Server.pairs, hroster, Server.pairs]
  have hnames : NamesClean t.sv := by
    refine namesClean_of_roster ?_ ho.names
    rw [hroster]
    exact fun _ hm => hm
  exact ⟨⟨accepts, ups, ho.congr hsock hid hpairs hnames hdown hup⟩,
    hf.mono fun q hq => hpairs ▸ hq⟩

theorem Accounted.perm (h : Accounted ps s) (hp : ps.Perm qs) : Accounted qs s := by
  obtain ⟨⟨accepts, ups, ho⟩, hf⟩ := h
  exact ⟨⟨accepts, ups, ho.perm hp⟩, hf⟩

theorem Accounted.sublist (h : Accounted ps s) (hs : qs.Sublist ps) : Accounted qs s := by
  obtain ⟨⟨accepts, ups, ho⟩, hf⟩ := h
  exact ⟨⟨accepts, ups, ho.sublist hs⟩, hf⟩

theorem Accounted.subperm (h : Accounted ps s) (hs : qs.Subperm ps) : Accounted qs s := by
  obtain ⟨rs, hperm, hsub⟩ := hs
  exact (h.sublist hsub).perm hperm

theorem Accounted.modifyClient {clId : Int} {f : ClientData → ClientData} (h : Accounted ps s)
    (hf : ∀ c, (f c).fd = c.fd ∧ (f c).personalId = c.personalId)
    (hn : ∀ c, splitToken ∉ c.name → splitToken ∉ (f c).name) :
    Accounted ps (s.modifyClient clId f) := by
  obtain ⟨⟨accepts, ups, ho⟩, hd⟩ := h
  refine ⟨⟨accepts, ups, ho.modifyClient hf hn⟩, hd.mono fun q hq => ?_⟩
  rwa [Shared.modifyClient_sv, Server.pairs_modifyClient hf] at hq

theorem Accounted.pushMessage {m : ServerMessage} (h : Accounted ps s) (hm : m.Clean)
    (hok : UpOk cfg m) (hg : goneId m = none) :
    Accounted ps (s.pushWorkerToListener m.getConcatenatedMsg) := by
  obtain ⟨⟨accepts, ups, ho⟩, hf⟩ := h
  exact ⟨⟨accepts, ups ++ [m], (ho.pushUp hm hok hg 0).of_core rfl⟩, hf⟩

theorem Accounted.drop {clId fd fd' : Int} (h : Accounted ((fd, clId) :: ps) s) (h0 : 0 ≤ clId) :
    Accounted ps { s with sv := s.sv.dropClient clId fd' } := by
  obtain ⟨⟨accepts, ups, ho⟩, hf⟩ := h
  refine ⟨⟨accepts, ups, Owned.drop ?_ (ho.due_of_held h0)⟩, hf.mono fun q hq => ?_⟩
  · exact ho.sublist (List.sublist_cons_self _ _)
  · exact pairs_of_roster (fun _ => roster_dropClient) hq

theorem Accounted.handOver {i : Nat} (h : Accounted (p :: ps) s) (hi : i < cfg.maxNrOfThreads) :
    Accounted ps (s.pushListenerToWorker (acceptText i p.1 p.2)) := by
  obtain ⟨⟨accepts, ups, ho⟩, hf⟩ := h
  exact ⟨⟨accepts ++ [(i, p)], ups, ho.handOver hi⟩, hf⟩

theorem Accounted.takeOver {text : Str} {rest : List Str} (h : Accounted ps s)
    (hq : s.mgr.qListenerToWorker = text :: rest) :
    ∃ g, Handed g text ∧ Accounted (g ++ ps) (s.setListenerToWorker rest) := by
  obtain ⟨⟨accepts, ups, ho⟩, hf⟩ := h
  have hdown := ho.downQueue.symm.trans hq
  cases accepts with
  | nil => cases hdown
  | cons a accepts =>
    obtain ⟨rfl, rfl⟩ := List.cons.inj hdown
    obtain ⟨hfd, hid⟩ := ho.inRange (p := a.2) (by simp)
    exact ⟨[a.2], ⟨a, rfl, rfl, hfd, hid⟩, ⟨accepts, ups, ho.takeOver⟩, hf⟩

instance : @Accounting cfg Accounted where
  same := .of_holdings
  fewer := .subperm
  handOver := .handOver
  takeOver := Accounted.takeOver

-- a client in hand is in the table, unless it stands for a refusal
theorem Accounted.known (h : Accounted ps s) (hp : p ∈ ps) (h0 : 0 ≤ p.1) : p ∈ s.sv.pairs := by
  obtain ⟨⟨accepts, ups, ho⟩, _⟩ := h
  refine (ho.known p (List.mem_append_left _ hp)).resolve_left ?_
  rintro rfl
  exact absurd h0 (by decide)

theorem Accounted.client (h : Accounted ps s) (hp : p ∈ ps) (h0 : 0 ≤ p.1) :
    ∃ cl, s.sv.getClientRef p.2 = some cl ∧ cl.personalId = p.2 ∧ splitToken ∉ cl.name ∧
      0 ≤ p.2 ∧ p.2 ≤ Decimal.intMax := by
  have hmem := h.known hp h0
  obtain ⟨⟨accepts, ups, ho⟩, _⟩ := h
  obtain ⟨cl, hcl, _⟩ := getClientRef_of_pair ho.nodup hmem
  have hr := (ho.range p hmem).2
  have hc := ho.counter
  exact ⟨cl, hcl, getClientRef_id hcl, ho.names cl (getClientRef_mem hcl), hr.1, by omega⟩

-- the clients in hand are pairwise different, and so are their sockets
theorem Accounted.ids_nodup (h : Accounted ps s) (h0 : ∀ p ∈ ps, 0 ≤ p.1) :
    (ps.map Prod.snd).Nodup := by
  have hknown : ∀ p ∈ ps, p ∈ s.sv.pairs := fun p hp => h.known hp (h0 p hp)
  obtain ⟨⟨accepts, ups, ho⟩, _⟩ := h
  rw [List.nodup_iff_count_le_one]
  intro clId
  by_cases hm : clId ∈ ps.map Prod.snd
  · obtain ⟨p, hp, rfl⟩ := List.mem_map.mp hm
    have hholds := ho.holders p.2 (ho.range p (hknown p hp)).2.1
    have hone := List.nodup_iff_count_le_one.mp ho.nodup p.2
    omega
  · rw [List.count_eq_zero.mpr hm]
    omega

theorem Accounted.fds_nodup (h : Accounted ps s) (h0 : ∀ p ∈ ps, 0 ≤ p.1) :
    (ps.map Prod.fst).Nodup := by
  refine (h.ids_nodup h0).of_map.map_on fun p hp q hq he => ?_
  exact h.2 p (h.known hp (h0 p hp)) q (h.known hq (h0 q hq)) he

end Accounts

section Moves

variable {α β : Type} {ws g r : List (Int × Int)} {s t : Shared cfg} {p : Steps cfg α}
variable {Q : α → Prop} {R : β → Prop} {client : Int × Int}

theorem mem_hand (hc : client ∈ g ++ ws) (r : List (Int × Int)) : client ∈ g ++ (ws ++ r) := by
  rw [← List.append_assoc]
  exact List.mem_append_left _ hc

theorem Keeps.refClient (hc : client ∈ g ++ ws) (h0 : 0 ≤ client.1) :
    Keeps Accounted ws g (Interleaved.refClient client.2 : Steps cfg ClientData) fun cl =>
      cl.personalId = client.2 ∧ splitToken ∉ cl.name ∧ 0 ≤ client.2 ∧
        client.2 ≤ Decimal.intMax := by
  refine .act fun r s hs => ?_
  obtain ⟨cl, hcl, hid, hname, hr⟩ := hs.client (mem_hand hc r) h0
  refine ⟨hs, rfl, ?_⟩
  simp only [hcl]
  exact .pure ⟨hid, hname, hr⟩

theorem Keeps.updateClient {f : ClientData → ClientData} (hc : client ∈ g ++ ws)
    (h0 : 0 ≤ client.1) (hf : ∀ c, (f c).fd = c.fd ∧ (f c).personalId = c.personalId)
    (hn : ∀ c, splitToken ∉ c.name → splitToken ∉ (f c).name) :
    Keeps Accounted ws g (Interleaved.updateClient client.2 f : Steps cfg Unit) fun _ => True := by
  refine .act fun r s hs => ?_
  obtain ⟨cl, hcl, _⟩ := hs.client (mem_hand hc r) h0
  refine ⟨hs.modifyClient hf hn, rfl, ?_⟩
  simp only [hcl]
  exact .pure trivial

theorem Keeps.popQueue (hc : client ∈ g ++ ws) (h0 : 0 ≤ client.1) :
    Keeps Accounted ws g (Interleaved.popQueue client.2 : Steps cfg (Option Str)) fun _ => True := by
  refine .act fun r s hs => ?_
  obtain ⟨cl, hcl, _⟩ := hs.client (mem_hand hc r) h0
  refine ⟨hs.modifyClient (f := fun c => { c with sendQueue := c.sendQueue.tail })
    (fun _ => ⟨rfl, rfl⟩) fun _ h => h, rfl, ?_⟩
  simp only [hcl]
  exact .pure trivial

theorem Keeps.sendMsg (msg : Str) (clId : Int) :
    Keeps Accounted ws g (Interleaved.sendMsg msg clId : Steps cfg Unit) fun _ => True :=
  .bind (.call_core (getSelectedClientFd_core clId)) fun _ _ => .call_core (transmit_core msg clId)

theorem Keeps.notify (listenerEvfd : Int) :
    Keeps Accounted ws g (Interleaved.notify listenerEvfd : Steps cfg Unit) fun _ => True :=
  .call_core (writeEvfd_core _ _)

theorem tryPushWorkerToListener_final (msg : Str) (s : Shared cfg) :
    final (tryPushWorkerToListener msg s) = s ∨
      final (tryPushWorkerToListener msg s) = s.pushWorkerToListener msg := by
  cases h : cfg.hasRoom s.mgr.qWorkerToListener with
  | false => exact .inl (by rw [tryPushWorkerToListener_full h]; rfl)
  | true => exact .inr (by rw [tryPushWorkerToListener_room h]; rfl)

theorem Keeps.tryPush {m : ServerMessage} (hm : m.Clean) (hok : UpOk cfg m)
    (hg : goneId m = none) :
    Keeps Accounted ws g (Interleaved.call (tryPushWorkerToListener m.getConcatenatedMsg) : Steps cfg Bool)
      fun _ => True := by
  refine .call fun ps s hs => ?_
  rcases tryPushWorkerToListener_final m.getConcatenatedMsg s with h | h <;> rw [h]
  · exact ⟨hs, rfl, fun _ _ _ => trivial⟩
  · exact ⟨hs.pushMessage hm hok hg, rfl, fun _ _ _ => trivial⟩

theorem Keeps.workerPush {m : ServerMessage} (hm : m.Clean) (hok : UpOk cfg m)
    (hg : goneId m = none) (listenerEvfd : Int) :
    Keeps Accounted ws g (Interleaved.workerPush m listenerEvfd : Steps cfg Unit) fun _ => True := by
  refine .bind (Q := fun _ => True) ?_ fun _ _ => .notify listenerEvfd
  unfold Interleaved.pushUp
  split_ifs
  · exact .raise
  · refine .bind (.tryPush hm hok hg) fun pushed _ => ?_
    split_ifs
    · exact .raise
    · exact .pure trivial

end Moves

section Serving

variable {ws g : List (Int × Int)} {client : Int × Int} {m : ServerMessage} {b : Buffers}
variable {ev : Events} {listenerEvfd : Int}

theorem Keeps.processInput (hc : client ∈ g ++ ws) (h0 : 0 ≤ client.1) (hm : m.Clean) :
    Keeps Accounted ws g (Interleaved.processInput m client.2 listenerEvfd : Steps cfg ServerMessage)
      ServerMessage.Clean := by
  have hname := (clean_iff.mp hm).2.2.2.2.1
  have same {f : ClientData → ClientData} (hf : ∀ c, (f c).fd = c.fd ∧
      (f c).personalId = c.personalId) (hn : ∀ c, splitToken ∉ c.name → splitToken ∉ (f c).name) :
      Keeps Accounted ws g (Interleaved.updateClient client.2 f : Steps cfg Unit) fun _ => True :=
    .updateClient hc h0 hf hn
  have hstep := same (f := ClientData.incState) (fun _ => ⟨rfl, rfl⟩) fun _ h => h
  have hmark : Keeps Accounted ws g (markLeft m client.2 : Steps cfg Unit) fun _ => True := by
    unfold markLeft
    split_ifs
    · exact same (fun _ => ⟨rfl, rfl⟩) fun _ h => h
    · exact .pure trivial
  have htake : Keeps Accounted ws g (takeName m client.2 : Steps cfg Unit) fun _ => True := by
    unfold takeName
    split_ifs
    · exact .bind hstep fun _ _ => same (fun _ => ⟨rfl, rfl⟩) fun _ _ => hname
    · exact .pure trivial
  refine .bind hmark fun _ _ => .bind (.refClient hc h0) fun cl _ => ?_
  split_ifs with h1 h2 h3 h4 h5
  · exact .bind htake fun _ _ => .pure clean_default
  · refine .bind hstep fun _ _ => .bind (.refClient hc h0) fun cl hcl => ?_
    obtain ⟨hid, hname, hlow, hhigh⟩ := hcl
    refine .bind (.sendMsg _ _) fun _ _ => .bind (.workerPush ?_ ⟨fun e => ?_, fun _ => ?_⟩ ?_ _)
      fun _ _ => .pure clean_default
    · exact joinedMsg_clean (helloMsg_clean hm hname) hname
    · simp [joinedMsg] at e
    · exact ⟨cl.personalId, by omega, by omega, rfl⟩
    · exact goneId_of_ne (by simp [joinedMsg])
  · exact .pure hm
  · refine .bind (.workerPush hm (upOk_of_ne ?_ ?_) (goneId_of_ne ?_) _) fun _ _ =>
      .pure clean_default
    all_goals simp [h5]
  · exact .pure hm
  · exact .pure hm

theorem Keeps.processOutput (hc : client ∈ g ++ ws) (h0 : 0 ≤ client.1) (hm : m.Clean) :
    Keeps Accounted ws g (Interleaved.processOutput m client.2 : Steps cfg (Bool × ServerMessage))
      fun r => r.2.Clean := by
  unfold Interleaved.processOutput
  refine .bind (.refClient hc h0) fun cl _ => ?_
  split_ifs
  · refine .bind (.updateClient hc h0 (fun _ => ⟨rfl, rfl⟩) fun _ h => h) fun _ _ =>
      .bind (.refClient hc h0) fun cl hcl => ?_
    exact .bind (.sendMsg _ _) fun _ _ => .pure (initReplyMsg_clean hm hcl.2.1)
  · exact .pure hm

-- what current says holds: the client is there all along
theorem Keeps.hasClient (hc : client ∈ g ++ ws) (h0 : 0 ≤ client.1) :
    Keeps Accounted ws g (Interleaved.call (Interleaved.hasClient client.2) : Steps cfg Bool)
      fun current => current = true := by
  refine .call fun ps s hs => ⟨hs, rfl, fun a t hr => ?_⟩
  obtain ⟨cl, hcl, _⟩ := hs.client (mem_hand hc ps) h0
  simp only [Interleaved.hasClient, get_bind_run, hcl, pure_run] at hr
  cases hr
  rfl

theorem Keeps.handleOutput (hc : client ∈ g ++ ws) (h0 : 0 ≤ client.1)
    (hm : b.serverMsg.Clean) :
    Keeps Accounted ws g (Interleaved.handleOutput ev client true b : Steps cfg (Bool × Buffers))
      fun r => r.2.serverMsg.Clean := by
  unfold Interleaved.handleOutput
  refine .bind (.checkEvent _ _) fun poll _ => ?_
  simp only [Bool.not_true, Bool.false_eq_true, if_false]
  split_ifs
  · exact .bind (.processOutput hc h0 hm) fun r hr => .pure hr
  · exact .pure hm

theorem Keeps.handleInput (hc : client ∈ g ++ ws) (h0 : 0 ≤ client.1) (hm : b.serverMsg.Clean) :
    Keeps Accounted ws g (Interleaved.handleInput ev client true b : Steps cfg (Bool × Buffers))
      fun r => r.2.serverMsg.Clean := by
  unfold Interleaved.handleInput
  refine .bind (.call_core (receiveMsg_core _ _ _)) fun r _ => ?_
  simp only [Bool.not_true, Bool.false_eq_true, if_false]
  split_ifs
  · exact .bind (.refClient hc h0) fun _ _ => .bind (.updateClient hc h0
      (f := (·.setState disconnectState)) (fun _ => ⟨rfl, rfl⟩) fun _ h => h) fun _ _ => .pure hm
  · refine .bind (.checked fun _ _ => trivial) fun str _ => .bind (.checked fun m hx => ?_)
      fun m hm => .pure hm
    exact ServerMessage.constructFromString_clean hx

theorem Keeps.handleClient (hc : client ∈ g ++ ws) (h0 : 0 ≤ client.1)
    (hm : b.serverMsg.Clean) :
    Keeps Accounted ws g (Interleaved.handleClient ev listenerEvfd client b : Steps cfg (Bool × Buffers))
      fun r => r.2.serverMsg.Clean := by
  unfold Interleaved.handleClient
  refine .bind (.hasClient hc h0) fun current hcur => .bind (.checkEvent _ _) fun poll _ => ?_
  subst hcur
  split_ifs
  · refine .bind (.handleInput hc h0 hm) fun r hr => ?_
    split_ifs
    · exact .pure hr
    · exact .bind (.processInput hc h0 hr) fun m hm => .handleOutput hc h0 hm
  · exact .handleOutput hc h0 hm

-- what is pushed for a client that has gone
theorem Keeps.signalled {i : Nat} (hi : i < cfg.maxNrOfThreads) (hc : client ∈ g ++ ws)
    (h0 : 0 ≤ client.1) (hm : m.Clean) :
    Keeps Accounted ws g (Interleaved.signalled i client m : Steps cfg (Option ServerMessage)) fun x =>
      ∀ y, x = some y → y.Clean ∧ UpOk cfg y ∧ goneId y = some client.2 := by
  unfold Interleaved.signalled
  refine .bind (.refClient hc h0) fun cl _ => ?_
  split_ifs
  · refine .bind (.refClient hc h0) fun named hn => .bind (.refClient hc h0) fun coloured _ => ?_
    obtain ⟨_, hname, hlow, hhigh⟩ := hn
    refine .pure fun y hy => ?_
    cases hy
    have hst : stoi (Decimal.toString client.2) = .ok client.2 :=
      stoi_toString (by simp only [Decimal.InRange, Decimal.intMin, Decimal.intMax] at *; omega)
    have hname : splitToken ∉ ({ named with colorId := coloured.colorId } : ClientData).name :=
      hname
    refine ⟨goneMsg_clean hm hname i client.2, ⟨fun _ => ?_, fun e => ?_⟩, ?_⟩
    · exact ⟨i, client.2, hi, hlow, hhigh, rfl, rfl⟩
    · simp [goneMsg] at e
    · simp [goneId, goneMsg, hst, Except.toOption]
  · exact .pure fun y hy => by cases hy

end Serving

end Interleaved

end ChatApp
