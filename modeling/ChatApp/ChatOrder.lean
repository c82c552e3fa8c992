import ChatApp.HandshakeRaces

namespace ChatApp

open Effects Runs

variable {cfg : Config}

def SessionLabel.isSend : SessionLabel cfg → Bool
  | .send => true
  | _ => false

-- no chat message comes before the one that opens the entry
def OpensFirst : Prop → List Str → Prop
  | _, [] => True
  | opened, text :: rest =>
    (IsChatText text → opened) ∧ OpensFirst (opened ∨ IsConfirmText text) rest

-- no chat message comes behind the one that leaves
def LeavesLast : List Str → Prop
  | [] => True
  | text :: rest => (IsLeaveText text → ∀ x ∈ rest, ¬ IsChatText x) ∧ LeavesLast rest

section Order

variable {texts : List Str} {text : Str} {opened opened' : Prop}

theorem opensFirst_mono (ho : opened → opened') (h : OpensFirst opened texts) :
    OpensFirst opened' texts := by
  induction texts generalizing opened opened' with
  | nil => trivial
  | cons x rest ih =>
    obtain ⟨hx, hrest⟩ := h
    exact ⟨fun hc => ho (hx hc), ih (Or.imp_left ho) hrest⟩

theorem opensFirst_append : OpensFirst opened (texts ++ [text]) ↔
    OpensFirst opened texts ∧ (IsChatText text → opened ∨ ∃ x ∈ texts, IsConfirmText x) := by
  induction texts generalizing opened with
  | nil => simp [OpensFirst]
  | cons x rest ih =>
    simp only [List.cons_append, OpensFirst, ih, List.mem_cons, exists_eq_or_imp, or_assoc,
      and_assoc]

theorem opensFirst_of_silent (h : ∀ x ∈ texts, ¬ IsChatText x) : OpensFirst opened texts := by
  induction texts generalizing opened with
  | nil => trivial
  | cons x rest ih =>
    refine ⟨fun hc => absurd hc (h x List.mem_cons_self), ih fun y hy => ?_⟩
    exact h y (List.mem_cons_of_mem _ hy)

theorem opensFirst_true (ho : opened) (texts : List Str) : OpensFirst opened texts := by
  induction texts generalizing opened with
  | nil => trivial
  | cons x rest ih => exact ⟨fun _ => ho, ih (.inl ho)⟩

theorem leavesLast_append (h : LeavesLast texts)
    (ht : IsChatText text → ∀ x ∈ texts, ¬ IsLeaveText x) :
    LeavesLast (texts ++ [text]) := by
  induction texts with
  | nil => exact ⟨fun _ x hx => absurd hx List.not_mem_nil, trivial⟩
  | cons y rest ih =>
    obtain ⟨hy, hrest⟩ := h
    refine ⟨fun hl x hx hc => ?_, ih hrest fun hc x hx => ht hc x (List.mem_cons_of_mem _ hx)⟩
    rcases List.mem_append.mp hx with hx | hx
    · exact hy hl x hx hc
    · obtain rfl := List.mem_singleton.mp hx
      exact ht hc y List.mem_cons_self hl

end Order

namespace Session

-- the send thread is over, or sees that it is on its next turn
def Stopped (s : Session cfg) : Prop :=
  s.sender = .ended ∨ s.sender = .head ∧ s.client.doneRequested = true

-- the message that is built for the line
structure Filled (clId : Int) (done doneRequested : Bool) (m : ServerMessage) (buffer : Str) :
    Prop where
  leave : buffer = quitMsg → m.action = getAction .clDisconnected ∧ doneRequested = true
  chat : buffer ≠ quitMsg →
    m.action = getAction .unicastRepeated ∧ m.id = Decimal.toString clId ∧ done = true

def KnownState (state : Int) : Prop :=
  state = initialState ∨ state = requestedInit ∨ state = sentInitConfirmation ∨
    state = initDone ∨ state = disconnectState

structure Chatting (clId : Int) (s : Session cfg) : Prop where
  built : ∀ y ∈ s.chats, y = (true, Decimal.toString clId)
  filled : ∀ b, s.sender = .filled b →
    Filled clId s.client.initDone s.client.doneRequested s.msg b
  ids : ∀ text ∈ s.toServer, IsChatText text → idOf text = some (Decimal.toString clId)
  last : (∃ text ∈ s.toServer, IsLeaveText text) → s.Stopped
  closing : LeavesLast s.toServer
  known : ∀ c, s.entry clId = some c → KnownState c.initState
  greeted : s.Awaited → ∀ c, s.entry clId = some c →
    c.initState ≠ initialState ∧ c.initState ≠ requestedInit
  confirmed : s.client.initDone = true → s.receiver ≠ .confirm → ∀ c, s.entry clId = some c →
    (∃ text ∈ s.toServer, IsConfirmText text) ∨ c.initState = initDone ∨
      c.initState = disconnectState
  order : ∀ c, s.entry clId = some c → OpensFirst (c.initState = initDone) s.toServer
  left : ∀ c, s.entry clId = some c → c.initState = disconnectState →
    s.Stopped ∧ ∀ text ∈ s.toServer, ¬ IsChatText text

-- a chat message is built only once init_done is set, and sent only once the receive thread
-- has sent INIT_DONE
def MaySpeak (s : Session cfg) : SendLoop → Prop
  | .typed buffer => buffer ≠ [] → buffer ≠ quitMsg → s.client.initDone = true
  | .filled buffer => buffer ≠ quitMsg → s.receiver ≠ .confirm
  | _ => True

instance (s : Session cfg) : ∀ pc, Decidable (s.MaySpeak pc)
  | .typed buffer =>
    inferInstanceAs (Decidable (buffer ≠ [] → buffer ≠ quitMsg → s.client.initDone = true))
  | .filled buffer => inferInstanceAs (Decidable (buffer ≠ quitMsg → s.receiver ≠ .confirm))
  | .head | .mark | .wait | .ended => inferInstanceAs (Decidable True)

def Timely (s : Session cfg) (l : SessionLabel cfg) : Prop := l.isSend = true → s.MaySpeak s.sender

instance (s : Session cfg) (l : SessionLabel cfg) : Decidable (s.Timely l) :=
  inferInstanceAs (Decidable (_ → _))

section Steps

variable {clId color : Int} {name : Str} {s t : Session cfg}

theorem stopped_send (h : s.Stopped) (ht : s.sendStep = some t) : t.Stopped := by
  unfold sendStep at ht
  rcases h with h | ⟨h, hd⟩
  · simp [h] at ht
  · rw [h] at ht
    simp only [hd, if_true] at ht
    cases ht
    exact .inl rfl

-- a message of the send thread reaches the stream
theorem Chatting.push {m : ServerMessage} (h : Chatting clId s) (hm : m.Clean)
    (hmsg : t.toServer = s.toServer ++ [m.getConcatenatedMsg])
    (hsh : t.shared = s.shared) (hto : t.toClient = s.toClient) (hrec : t.receiver = s.receiver)
    (hdone : t.client.initDone = s.client.initDone) (hchats : t.chats = s.chats)
    (hfilled : ∀ b, t.sender ≠ .filled b) (hlive : ¬ s.Stopped)
    (hchat : m.action = getAction .unicastRepeated → m.id = Decimal.toString clId ∧
      s.client.initDone = true ∧ s.receiver ≠ .confirm)
    (hleave : m.action = getAction .clDisconnected → t.Stopped) : Chatting clId t := by
  have hentry : t.entry clId = s.entry clId := by rw [entry, hsh]; rfl
  have hawaited : t.Awaited → s.Awaited := by
    rw [Awaited, Awaited, hto, hrec, hdone]
    exact id
  have hnone : ∀ x ∈ s.toServer, ¬ IsLeaveText x := fun x hx hl => hlive (h.last ⟨x, hx, hl⟩)
  refine ⟨hchats ▸ h.built, fun b hb => absurd hb (hfilled b), ?_, ?_, ?_, ?_, fun ha => ?_, ?_,
    ?_, ?_⟩
  · rw [hmsg]
    intro x hx hc
    rcases List.mem_append.mp hx with hx | hx
    · exact h.ids x hx hc
    · obtain rfl := List.mem_singleton.mp hx
      rw [idOf_encoded hm, (hchat ((isChatText_iff hm).mp hc)).1]
  · rw [hmsg]
    rintro ⟨x, hx, hl⟩
    rcases List.mem_append.mp hx with hx | hx
    · exact absurd hl (hnone x hx)
    · obtain rfl := List.mem_singleton.mp hx
      exact hleave ((isLeaveText_iff hm).mp hl)
  · rw [hmsg]
    exact leavesLast_append h.closing fun _ => hnone
  · rw [hentry]
    exact h.known
  · rw [hentry]
    exact h.greeted (hawaited ha)
  · rw [hentry, hrec, hdone, hmsg]
    intro hd hr c hc
    refine (h.confirmed hd hr c hc).imp_left fun hqueued => ?_
    obtain ⟨x, hx, hconf⟩ := hqueued
    exact ⟨x, List.mem_append_left _ hx, hconf⟩
  · rw [hentry, hmsg]
    intro c hc
    refine opensFirst_append.mpr ⟨h.order c hc, fun hchat' => ?_⟩
    obtain ⟨_, hd, hr⟩ := hchat ((isChatText_iff hm).mp hchat')
    rcases h.confirmed hd hr c hc with hx | h3 | hgone
    · exact .inr hx
    · exact .inl h3
    · exact absurd (h.left c hc hgone).1 hlive
  · rw [hentry]
    intro c hc hgone
    exact absurd (h.left c hc hgone).1 hlive

theorem chatting_send (ha : Agreeing clId color name s) (hname : splitToken ∉ name)
    (h : Chatting clId s) (hr : s.MaySpeak s.sender) (ht : s.sendStep = some t) :
    Chatting clId t := by
  have hstop := fun hs => stopped_send (t := t) hs ht
  have ha' := agreeing_send hname ha ht
  unfold sendStep at ht
  split at ht <;> rename_i hpc
  · split_ifs at ht with hd hi hn <;> cases ht
    · exact { h with
        filled := by simp
        last := fun hl => hstop (h.last hl)
        left := fun c hc hg => ⟨hstop (h.left c hc hg).1, (h.left c hc hg).2⟩ }
    · exact { h with
        filled := by simp
        last := fun hl => hstop (h.last hl)
        left := fun c hc hg => ⟨hstop (h.left c hc hg).1, (h.left c hc hg).2⟩ }
    · have hlive : ¬ s.Stopped := by simp [Stopped, hpc, hd]
      exact h.push ha'.msg rfl rfl rfl rfl rfl rfl (by simp) hlive (fun hc => by simp at hc)
        (fun hc => by simp at hc)
  · cases ht
    exact { h with
      filled := by simp
      last := fun hl => hstop (h.last hl)
      left := fun c hc hg => ⟨hstop (h.left c hc hg).1, (h.left c hc hg).2⟩ }
  · cases ht
  · rename_i buffer
    rw [hpc] at hr
    split_ifs at ht with hquit hempty <;> cases ht
    · refine { h with
        filled := fun b hb => ?_
        last := fun hl => hstop (h.last hl)
        left := fun c hc hg => ⟨hstop (h.left c hc hg).1, (h.left c hc hg).2⟩ }
      cases hb
      exact ⟨fun _ => ⟨rfl, rfl⟩, fun hne => absurd hquit hne⟩
    · exact { h with
        filled := by simp
        last := fun hl => hstop (h.last hl)
        left := fun c hc hg => ⟨hstop (h.left c hc hg).1, (h.left c hc hg).2⟩ }
    · have hdone := hr hempty hquit
      have hid := (ha.settled hdone).1
      refine { h with
        built := fun y hy => ?_
        filled := fun b hb => ?_
        last := fun hl => hstop (h.last hl)
        left := fun c hc hg => ⟨hstop (h.left c hc hg).1, (h.left c hc hg).2⟩ }
      · rcases List.mem_append.mp hy with hy | hy
        · exact h.built y hy
        · rw [List.mem_singleton.mp hy, hdone, hid]
      · cases hb
        exact ⟨fun hq => absurd hq hquit, fun _ => ⟨rfl, hid, hdone⟩⟩
  · rename_i buffer
    rw [hpc] at hr
    cases ht
    obtain ⟨hleave, hchat⟩ := h.filled buffer hpc
    have hlive : ¬ s.Stopped := by simp [Stopped, hpc]
    refine h.push (lineMsg_clean ha hpc) rfl rfl rfl rfl rfl rfl (by simp) hlive (fun hc => ?_)
      fun hl => ?_
    · rw [lineMsg_action] at hc
      have hne : buffer ≠ quitMsg := fun hq => by
        rw [(hleave hq).1] at hc
        simp at hc
      obtain ⟨_, hid, hdone⟩ := hchat hne
      exact ⟨(lineMsg_id s buffer).trans hid, hdone, hr hne⟩
    · rw [lineMsg_action] at hl
      have hq : buffer = quitMsg := by
        by_contra hne
        rw [(hchat hne).1] at hl
        simp at hl
      exact .inr ⟨rfl, (hleave hq).2⟩
  · cases ht

theorem awaited_of_receive (ht : s.receiveStep = some t) : s.Awaited := by
  by_cases hpc : s.receiver = .recv
  · rw [receiveStep, hpc] at ht
    refine .inr (.inl fun hto => ?_)
    rw [hto] at ht
    cases ht
  · exact .inr (.inr hpc)

theorem initDoneMsg_silent : ¬ IsChatText Client.initDoneMsg.getConcatenatedMsg ∧
    ¬ IsLeaveText Client.initDoneMsg.getConcatenatedMsg := by
  have hclean : Client.initDoneMsg.Clean := by decide
  rw [isChatText_iff hclean, isLeaveText_iff hclean]
  decide

theorem chatting_receive (h : Chatting clId s) (ht : s.receiveStep = some t) :
    Chatting clId t := by
  have hgreeted := h.greeted (awaited_of_receive ht)
  unfold receiveStep at ht
  split at ht <;> rename_i hpc
  · have hconf := fun hd => h.confirmed hd (by simp [hpc])
    split at ht <;> cases ht
    exact { h with greeted := fun _ => hgreeted, confirmed := fun hd _ => hconf hd }
  · have hconf := fun hd => h.confirmed hd (by simp [hpc])
    split_ifs at ht
    · split at ht <;> cases ht <;>
        exact { h with greeted := fun _ => hgreeted, confirmed := fun hd _ => hconf hd }
    · cases ht
      exact { h with greeted := fun _ => hgreeted, confirmed := fun hd _ => hconf hd }
  · have hconf := fun hd => h.confirmed hd (by simp [hpc])
    split_ifs at ht <;> cases ht <;>
      exact { h with greeted := fun _ => hgreeted, confirmed := fun hd _ => hconf hd }
  · have hconf := fun hd => h.confirmed hd (by simp [hpc])
    split at ht
    · cases ht
      exact { h with greeted := fun _ => hgreeted, confirmed := fun hd _ => hconf hd }
    · split at ht <;> cases ht
      exact { h with greeted := fun _ => hgreeted, confirmed := fun hd _ => hconf hd }
  · have hconf := fun hd => h.confirmed hd (by simp [hpc])
    cases ht
    exact { h with greeted := fun _ => hgreeted, confirmed := fun hd _ => hconf hd }
  · cases ht
    refine { h with
      filled := fun b hb => ?_
      greeted := fun _ => hgreeted
      confirmed := fun _ hr => absurd rfl hr }
    obtain ⟨hleave, hchat⟩ := h.filled b hb
    exact ⟨hleave, fun hne => ⟨(hchat hne).1, (hchat hne).2.1, rfl⟩⟩
  · cases ht
    obtain ⟨hnochat, hnoleave⟩ := initDoneMsg_silent
    have hconf : IsConfirmText Client.initDoneMsg.getConcatenatedMsg :=
      (isConfirmText_iff (by decide)).mpr rfl
    refine { h with
      ids := fun x hx hc => ?_
      last := fun ⟨x, hx, hl⟩ => ?_
      closing := leavesLast_append h.closing fun hc => absurd hc hnochat
      greeted := fun _ => hgreeted
      confirmed := fun _ _ _ _ => .inl ⟨_, List.mem_append_right _ List.mem_cons_self, hconf⟩
      order := fun c hc => opensFirst_append.mpr ⟨h.order c hc, fun hc => absurd hc hnochat⟩
      left := fun c hc hg => ⟨(h.left c hc hg).1, fun x hx hc' => ?_⟩ }
    · rcases List.mem_append.mp hx with hx | hx
      · exact h.ids x hx hc
      · exact absurd (List.mem_singleton.mp hx ▸ hc) hnochat
    · rcases List.mem_append.mp hx with hx | hx
      · exact h.last ⟨x, hx, hl⟩
      · exact absurd (List.mem_singleton.mp hx ▸ hl) hnoleave
    · rcases List.mem_append.mp hx with hx | hx
      · exact (h.left c hc hg).2 x hx hc'
      · exact absurd (List.mem_singleton.mp hx ▸ hc') hnochat

-- what a step of the server has to show of the entry it leaves
structure Staged (s : Session cfg) (d : ClientData) : Prop where
  known : KnownState d.initState
  greeted : s.Awaited → d.initState ≠ initialState ∧ d.initState ≠ requestedInit
  confirmed : s.client.initDone = true → s.receiver ≠ .confirm →
    (∃ text ∈ s.toServer, IsConfirmText text) ∨ d.initState = initDone ∨
      d.initState = disconnectState
  order : OpensFirst (d.initState = initDone) s.toServer
  left : d.initState = disconnectState → s.Stopped ∧ ∀ text ∈ s.toServer, ¬ IsChatText text

theorem Chatting.staged {c : ClientData} (h : Chatting clId s) (hc : s.entry clId = some c) :
    Staged s c :=
  ⟨h.known c hc, fun hw => h.greeted hw c hc, fun hd hr => h.confirmed hd hr c hc,
    h.order c hc, h.left c hc⟩

theorem Chatting.turn (h : Chatting clId s) (hf : ServerFrame s t)
    (hsub : ∀ x ∈ t.toServer, x ∈ s.toServer) (hclosing : LeavesLast t.toServer)
    (hstaged : ∀ d, t.entry clId = some d → Staged t d) : Chatting clId t where
  built := hf.chats ▸ h.built
  filled := by
    rw [hf.sender, hf.client, hf.msg]
    exact h.filled
  ids x hx := h.ids x (hsub x hx)
  last := fun ⟨x, hx, hl⟩ => by
    rw [Stopped, hf.sender, hf.client]
    exact h.last ⟨x, hsub x hx, hl⟩
  closing := hclosing
  known d hd := (hstaged d hd).known
  greeted hw d hd := (hstaged d hd).greeted hw
  confirmed hd hr d hd' := (hstaged d hd').confirmed hd hr
  order d hd := (hstaged d hd).order
  left d hd := (hstaged d hd).left

theorem Staged.leaving {d : ClientData} (hd : d.initState = disconnectState) (hs : s.Stopped)
    (hnone : ∀ x ∈ s.toServer, ¬ IsChatText x) : Staged s d where
  known := .inr (.inr (.inr (.inr hd)))
  greeted _ := by rw [hd]; decide
  confirmed _ _ := .inr (.inr hd)
  order := opensFirst_of_silent hnone
  left _ := ⟨hs, hnone⟩

theorem Staged.opened {d : ClientData} (hd : d.initState = initDone) : Staged s d where
  known := .inr (.inr (.inr (.inl hd)))
  greeted _ := by rw [hd]; decide
  confirmed _ _ := .inr (.inl hd)
  order := opensFirst_true hd _
  left hg := absurd (hd.symm.trans hg) (by decide)

-- the worker has taken the first message of the stream
theorem Staged.answer {m : ServerMessage} {c d : ClientData} {rest texts : List Str}
    (h : Chatting clId s) (hc : s.entry clId = some c)
    (hq : s.toServer = m.getConcatenatedMsg :: rest) (hm : Outgoing name s.client.initDone m)
    (ha : Answer m c d texts) (hto : t.toServer = rest) (hcl : t.toClient = s.toClient ++ texts)
    (hclient : t.client = s.client) (hsend : t.sender = s.sender)
    (hrec : t.receiver = s.receiver) : Staged t d := by
  have hstopped : s.Stopped → t.Stopped := by
    rw [Stopped, Stopped, hsend, hclient]
    exact id
  have hawaited (hx : texts = []) : t.Awaited → s.Awaited := by
    rw [Awaited, Awaited, hcl, hclient, hrec, hx, List.append_nil]
    exact id
  obtain ⟨hknown, hgreeted, hconf, horder, hleft⟩ := h.staged hc
  have hclosing := h.closing
  rw [hq] at hconf horder hleft hclosing
  have hconfirm := isConfirmText_iff hm.clean
  cases ha with
  | left ha =>
    have hl := (isLeaveText_iff hm.clean).mpr ha
    refine .leaving rfl (hstopped (h.last ⟨_, hq ▸ List.mem_cons_self, hl⟩)) ?_
    rw [hto]
    exact hclosing.1 hl
  | named ha h0 =>
    have hnot : ¬ s.Awaited := fun hw => (hgreeted hw).1 h0
    refine ⟨.inr (.inl (by simp [ClientData.incState, h0]; decide)),
      fun hw => absurd (hawaited rfl hw) hnot, fun hd _ => ?_, ?_, fun hg => ?_⟩
    · rw [hclient] at hd
      exact absurd (.inl hd) hnot
    · rw [hto]
      refine opensFirst_mono ?_ horder.2
      rintro (h3 | h3)
      · exact absurd (h0.symm.trans h3) (by decide)
      · rw [hconfirm, ha] at h3
        simp at h3
    · simp [ClientData.incState, h0, initialState, disconnectState] at hg
  | greeted _ h2 => exact .opened (by simp [ClientData.incState, h2]; decide)
  | kept ha h2 =>
    -- INIT_DONE is taken up by an entry that waits for it, or changes nothing
    have hconfirmed (hx : IsConfirmText m.getConcatenatedMsg) :
        c.initState = initDone ∨ c.initState = disconnectState := by
      have ha' := hconfirm.mp hx
      obtain ⟨h0, h1⟩ := hgreeted (.inl (hm.confirm ha'))
      rcases hknown with hk | hk | hk | hk | hk
      · exact absurd hk h0
      · exact absurd hk h1
      · exact absurd ha' (h2 hk)
      · exact .inl hk
      · exact .inr hk
    refine ⟨hknown, fun hw => hgreeted (hawaited rfl hw), fun hd hr => ?_, ?_, fun hg => ?_⟩
    · rw [hclient] at hd
      rw [hrec] at hr
      rw [hto]
      rcases hconf hd hr with ⟨x, hx, hx'⟩ | hstate
      · rcases List.mem_cons.mp hx with rfl | hx
        · exact .inr (hconfirmed hx')
        · exact .inl ⟨x, hx, hx'⟩
      · exact .inr hstate
    · rw [hto]
      by_cases hx : IsConfirmText m.getConcatenatedMsg
      · rcases hconfirmed hx with h3 | hg
        · exact opensFirst_mono (fun _ => h3) horder.2
        · exact opensFirst_of_silent fun x hx => (hleft hg).2 x (List.mem_cons_of_mem _ hx)
      · exact opensFirst_mono (fun ho => ho.resolve_right hx) horder.2
    · obtain ⟨hs, hnone⟩ := hleft hg
      rw [hto]
      exact ⟨hstopped hs, fun x hx => hnone x (List.mem_cons_of_mem _ hx)⟩

theorem Staged.same {c d : ClientData} (h : Staged s c) (hd : d.initState = c.initState)
    (hto : t.toServer = s.toServer) (hcl : t.toClient = s.toClient)
    (hclient : t.client = s.client) (hsend : t.sender = s.sender)
    (hrec : t.receiver = s.receiver) : Staged t d := by
  obtain ⟨hknown, hgreeted, hconf, horder, hleft⟩ := h
  refine ⟨?_, ?_, ?_, ?_, ?_⟩ <;> rw [hd]
  · exact hknown
  · rw [Awaited, hcl, hclient, hrec]
    exact hgreeted
  · rw [hclient, hrec, hto]
    exact hconf
  · rw [hto]
    exact horder
  · rw [Stopped, hsend, hclient, hto]
    exact hleft

theorem chatting_server (ha : Agreeing clId color name s) (h : Chatting clId s)
    (ht : ServerTurn clId s t) : Chatting clId t := by
  have hf := server_frame ht
  cases ht with
  | @input text rest texts m b c d u hq hm hc hans hd hb =>
    obtain ⟨m', hout, rfl⟩ := ha.outgoing text (hq ▸ List.mem_cons_self)
    obtain rfl := decoded_eq hout.clean hm
    have hclosing := h.closing
    rw [hq] at hclosing
    refine h.turn hf (fun x hx => hq ▸ List.mem_cons_of_mem _ hx) hclosing.2 fun e he => ?_
    obtain rfl : d = e := Option.some.inj (hd.symm.trans he)
    exact .answer h hc hq hout hans rfl rfl rfl rfl rfl
  | @output texts b c d u hc ho hd hb =>
    refine h.turn hf (fun x hx => hx) h.closing fun e he => ?_
    obtain rfl : d = e := Option.some.inj (hd.symm.trans he)
    have hs := h.staged hc
    cases ho with
    | replied h1 =>
      have h2 : c.incState.initState = sentInitConfirmation := by
        simp [ClientData.incState, h1]
        decide
      have hnot : s.client.initDone ≠ true := fun hd' => (hs.greeted (.inl hd')).2 h1
      refine ⟨.inr (.inr (.inl h2)), fun _ => ?_, fun hd' => absurd hd' hnot, ?_, fun hg => ?_⟩
      · rw [h2]
        decide
      · exact opensFirst_mono (fun h3 => absurd (h1.symm.trans h3) (by decide)) hs.order
      · exact absurd (h2.symm.trans hg) (by decide)
    | flushed h3 => exact .opened h3
    | kept => exact hs.same rfl rfl (List.append_nil _) rfl rfl rfl
  | @zero c u hs hq hd hc =>
    refine h.turn hf (fun x hx => hx) h.closing fun e he => ?_
    obtain rfl := Option.some.inj (hd.symm.trans he)
    refine .leaving rfl (.inl hs) fun x hx => ?_
    rw [show ({ s with shared := u } : Session cfg).toServer = [] from hq] at hx
    cases hx
  | @others b u hsame hb =>
    refine h.turn hf (fun x hx => hx) h.closing fun e he => ?_
    have he' : u.sv.getClientRef clId = some e := he
    rw [he'] at hsame
    obtain ⟨c, hc, heq⟩ := sameEntry_some hsame
    have hstate := congrArg ClientData.initState heq
    exact (h.staged hc).same hstate rfl rfl rfl rfl rfl

theorem chatting_step {l : SessionLabel cfg} (hname : splitToken ∉ name)
    (ha : Agreeing clId color name s) (h : Chatting clId s) (hl : s.Timely l)
    (ht : Turn clId s t l) : Chatting clId t := by
  cases ht with
  | send ht => exact chatting_send ha hname h (hl rfl) ht
  | getline hs ht =>
    have hlive : ¬ s.Stopped := by simp [Stopped, hs]
    subst ht
    exact { h with
      filled := by simp
      last := fun hl => absurd (h.last hl) hlive
      left := fun c hc hg => absurd (h.left c hc hg).1 hlive }
  | receive ht => exact chatting_receive h ht
  | eof ht =>
    subst ht
    exact { h with
      filled := fun b hb => ⟨fun hq => ⟨((h.filled b hb).leave hq).1, rfl⟩, (h.filled b hb).chat⟩
      last := fun hl => (h.last hl).imp_right fun hd => ⟨hd.1, rfl⟩
      left := fun c hc hg => ⟨(h.left c hc hg).1.imp_right fun hd => ⟨hd.1, rfl⟩,
        (h.left c hc hg).2⟩ }
  | server ht => exact chatting_server ha h ht

end Steps

theorem start_chatting {st : State cfg} {env : AcceptEnv} {clId : Int} {u : Shared cfg}
    {b : ServerMessage} {name : Str} (ha : Accepted st env clId u) (hs : st.Sound) :
    Chatting clId (start u b name) := by
  obtain ⟨fd, hentry⟩ := ha.entry hs
  have hnew : ∀ c, (start u b name).entry clId = some c → c.initState = initialState :=
    fun c hc => by
      obtain rfl := Option.some.inj (hentry.symm.trans hc)
      rfl
  have hidle : ¬ (start u b name).Awaited := by simp [Awaited, start]
  refine ⟨by simp [start], by simp [start], by simp [start], by simp [start], trivial,
    fun c hc => .inl (hnew c hc), fun hw => absurd hw hidle, fun hd => absurd (.inl hd) hidle,
    fun _ _ => trivial, fun c hc hg => ?_⟩
  exact absurd ((hnew c hc).symm.trans hg) (by decide)

-- a chat message is built with the id of the client, once it is through, and its worker takes it up
-- in INIT_DONE
structure ChatsInOrder (clId : Int) (s : Session cfg) : Prop where
  built : ∀ y ∈ s.chats, y = (true, Decimal.toString clId)
  received : ∀ text rest m c, s.toServer = text :: rest →
    ({} : ServerMessage).constructFromString text = .ok m →
    m.action = getAction .unicastRepeated → s.entry clId = some c →
    c.initState = initDone ∧ m.id = Decimal.toString clId

theorem Chatting.inOrder {clId : Int} {s : Session cfg} (h : Chatting clId s) :
    ChatsInOrder clId s := by
  refine ⟨h.built, fun text rest m c hq hm ha hc => ?_⟩
  have hact : actionOf text = some m.action := by
    rw [actionOf, hm]
    rfl
  have hchat : IsChatText text := hact.trans (congrArg some ha)
  have horder := h.order c hc
  have hid := h.ids text (hq ▸ List.mem_cons_self) hchat
  rw [hq] at horder
  rw [idOf, hm] at hid
  exact ⟨horder.1 hchat, Option.some.inj hid⟩

theorem chats_inOrder {svSocket evfd : Nat} {s : State cfg} {env : AcceptEnv} {clId L : Int}
    {u : Shared cfg} {b : ServerMessage} {name : Str} {x : Session cfg}
    (hr : Reach State.step (fun _ _ => True) (State.init cfg svSocket evfd) s)
    (ha : Accepted s env clId u) (hb : b.Clean) (hname : splitToken ∉ name)
    (hx : Reach (step clId L) (fun x l => l.Honest ∧ x.Timely l) (start u b name) x) :
    ChatsInOrder clId x := by
  have hsound := State.sound_of_reach hr
  have hI : Agreeing clId env.color name x ∧ Chatting clId x := by
    refine hx.invariant (I := fun x => Agreeing clId env.color name x ∧ Chatting clId x)
      ⟨start_agreeing ha hsound hb name, start_chatting ha hsound⟩ fun x l y hI hl hy => ?_
    have ht := agreeing_turn hname hI.1 hy
    exact ⟨agreeing_step hname (inPalette_of_envOk ha.drawn) hI.1 hl.1 ht,
      chatting_step hname hI.1 hI.2 hl.2 ht⟩
  exact hI.2.inOrder

-- a line is typed before the handshake and its message sent after INIT_DONE
def earlyLine : List (SessionLabel Config.deployed) :=
  [.send, .send, .send, .getline ann, .send, .input, .output] ++ List.replicate 7 .receive ++
    [.send, .input]

def relaysUnnamed (x : Session Config.deployed) : Bool :=
  ((x.entry 0).any fun c => c.initState = initDone) &&
  x.toServer.head?.any fun text =>
    match ({} : ServerMessage).constructFromString text with
    | .ok m => m.action = getAction .unicastRepeated ∧ m.id = []
    | .error _ => false

theorem earlyLine_unnamed : ¬ ∀ x : Session Config.deployed,
    Reach (step 0 4) (fun _ l => l.Honest) (start firstEntry {} ann) x → ChatsInOrder 0 x := by
  intro hall
  have hrun : (run (step 0 4) (start firstEntry {} ann) earlyLine).any relaysUnnamed = true := by
    decide +kernel
  have hhonest : ∀ l ∈ earlyLine, l.Honest := by
    simp only [earlyLine, SessionLabel.Honest]
    decide
  obtain ⟨x, hx, hearly⟩ := exists_of_run hhonest hrun
  simp only [relaysUnnamed, Bool.and_eq_true] at hearly
  obtain ⟨hentry, hhead⟩ := hearly
  obtain ⟨c, hc, _⟩ := (Option.any_eq_true _ _).mp hentry
  obtain ⟨text, ht, hm⟩ := (Option.any_eq_true _ _).mp hhead
  obtain ⟨rest, hq⟩ := List.head?_eq_some_iff.mp ht
  split at hm
  · rename_i m hdec
    obtain ⟨ha, hid⟩ := of_decide_eq_true hm
    have hnamed := ((hall x hx).received text rest m c hq hdec ha hc).2
    rw [hid] at hnamed
    exact absurd hnamed (by decide)
  · cases hm

theorem chats_inOrder_uninterrupted : ∃ x : Session Config.deployed,
    (x.chats.length = 1 ∧ x.toServer.length = 1) ∧ ChatsInOrder 0 x := by
  have hrun : (run (guarded (step 0 4) fun x l => l.Honest ∧ x.Timely l)
      (start firstEntry {} ann) (uninterrupted ++ [.getline ann, .send, .send])).any
      (fun x => x.chats.length = 1 ∧ x.toServer.length = 1) = true := by
    decide +kernel
  obtain ⟨x, hx, hlen⟩ := exists_of_guarded hrun
  exact ⟨x, of_decide_eq_true hlen,
    chats_inOrder .refl firstEntry_accepted clean_default (by decide) hx⟩

end Session

end ChatApp
