import ChatApp.Client
import ChatApp.PartialSends

namespace ChatApp

open Effects

variable {cfg : Config}

-- where start_send_loop stands, with the line it is sending
inductive SendLoop where
  | head
  | mark
  | wait
  | typed (buffer : Str)
  | filled (buffer : Str)
  | ended
  deriving DecidableEq

-- where receive_msg_from_sv and finalize_init stand
inductive ReceiveLoop where
  | recv
  | testReq (text : Str)
  | testDone (m : ServerMessage)
  | updateColor (m : ServerMessage)
  | setId (m : ServerMessage)
  | setDone
  | confirm
  deriving DecidableEq

-- one client and its worker, with what is under way between them
structure Session (cfg : Config) where
  shared : Shared cfg
  serverMsg : ServerMessage
  client : Client
  msg : ServerMessage := {}
  sender : SendLoop := .head
  receiver : ReceiveLoop := .recv
  toServer : List Str := []
  toClient : List Str := []
  -- for each chat message built: was init_done set, and the id it carries
  chats : List (Bool × Str) := []

inductive SessionLabel (cfg : Config) where
  | send
  | getline (buffer : Str)
  | receive
  | eof
  | input
  | output
  | zero
  | others (u : Shared cfg) (m : ServerMessage)

namespace Session

-- send_msg_from_stdin's message once the colour and the line are in it
def lineMsg (s : Session cfg) (buffer : Str) : ServerMessage :=
  if buffer = quitMsg then s.msg else { s.msg with
    colorId := Decimal.toString s.client.colorId
    msgContent := buffer }

def sendStep (s : Session cfg) : Option (Session cfg) :=
  match s.sender with
  | .head =>
    if s.client.doneRequested then some { s with sender := .ended }
    else if s.client.initReq then some { s with sender := .wait }
    else if s.client.name = [] then none
    else
      let msg := { s.msg with
        action := getAction .initReq
        name := s.client.name
        colorId := Decimal.toString s.client.colorId }
      some { s with
        msg := msg
        toServer := s.toServer ++ [msg.getConcatenatedMsg]
        sender := .mark }
  | .mark => some { s with client := { s.client with initReq := true }, sender := .head }
  | .wait => none
  | .typed buffer =>
    if buffer = quitMsg then
      some { s with
        client := { s.client with doneRequested := true }
        msg := { s.msg with
          action := getAction .clDisconnected
          name := s.client.name
          id := s.client.id }
        sender := .filled buffer }
    else if buffer = [] then some { s with msg := s.msg.resetMsg, sender := .head }
    else
      some { s with
        msg := { s.msg with
          action := getAction .unicastRepeated
          name := s.client.name
          id := s.client.id }
        chats := s.chats ++ [(s.client.initDone, s.client.id)]
        sender := .filled buffer }
  | .filled buffer =>
    some { s with
      msg := s.msg.resetMsg
      toServer := s.toServer ++ [(s.lineMsg buffer).getConcatenatedMsg]
      sender := .head }
  | .ended => none

def receiveStep (s : Session cfg) : Option (Session cfg) :=
  match s.receiver with
  | .recv =>
    match s.toClient with
    | [] => none
    | text :: rest => some { s with toClient := rest, receiver := .testReq text }
  | .testReq text =>
    if s.client.initReq then
      match ({} : ServerMessage).constructFromString text with
      | .ok m => some { s with receiver := .testDone m }
      | .error _ => some { s with receiver := .recv }
    else some { s with receiver := .recv }
  | .testDone m =>
    if s.client.initDone then some { s with receiver := .recv }
    else if m.action = getAction .initReq then some { s with receiver := .updateColor m }
    else some { s with receiver := .recv }
  | .updateColor m =>
    match stoi m.colorId with
    | .error _ => some { s with receiver := .recv }
    | .ok c =>
      match Client.getColor c with
      | .error _ => none
      | .ok _ => some { s with client := { s.client with colorId := c }, receiver := .setId m }
  | .setId m => some { s with client := { s.client with id := m.id }, receiver := .setDone }
  | .setDone => some { s with client := { s.client with initDone := true }, receiver := .confirm }
  | .confirm =>
    some { s with
      toServer := s.toServer ++ [Client.initDoneMsg.getConcatenatedMsg]
      receiver := .recv }

-- what has been sent to the client since s
def newSends (clId : Int) (s u : Shared cfg) : List Str :=
  ((u.hist.sent.drop s.hist.sent.length).filter fun x => x.1 = clId).map Prod.snd

-- an exception would end the server
def serve (clId : Int) (s : Session cfg) (p : Prog cfg ServerMessage) : Option (Session cfg) :=
  match p (Outbox.withSends s.shared []) with
  | .error _ _ => none
  | .ok m u => some { s with
      shared := u
      serverMsg := m
      toClient := s.toClient ++ newSends clId s.shared u }

def inputProg (clId listenerEvfd : Int) (m : ServerMessage) (text : Str) :
    Prog cfg ServerMessage := do
  let m ← liftExcept (m.constructFromString text)
  let cl ← derefClient clId
  processInput m cl listenerEvfd

def outputProg (clId : Int) (m : ServerMessage) : Prog cfg ServerMessage := do
  let cl ← derefClient clId
  processOutput m cl

def zeroProg (clId : Int) (m : ServerMessage) : Prog cfg ServerMessage := do
  let cl ← derefClient clId
  modifyClient cl.personalId (·.setState disconnectState)
  return m

def SameEntry : Option ClientData → Option ClientData → Prop
  | some c, some d => { d with sendQueue := c.sendQueue } = c
  | some c, none => c.initState = disconnectState
  | none, some _ => False
  | none, none => True

instance : ∀ x y, Decidable (SameEntry x y)
  | some c, some d => inferInstanceAs (Decidable ({ d with sendQueue := c.sendQueue } = c))
  | some c, none => inferInstanceAs (Decidable (c.initState = disconnectState))
  | none, some _ => inferInstanceAs (Decidable False)
  | none, none => inferInstanceAs (Decidable True)

-- a step of anyone else: the entry changes in its queue at most, or goes once it is marked
def Beside (clId : Int) (s u : Shared cfg) : Prop :=
  SameEntry (s.sv.getClientRef clId) (u.sv.getClientRef clId) ∧ newSends clId s u = []

instance (clId : Int) (s u : Shared cfg) : Decidable (Beside clId s u) :=
  inferInstanceAs (Decidable (_ ∧ _))

def step (clId listenerEvfd : Int) (s : Session cfg) : SessionLabel cfg → Option (Session cfg)
  | .send => s.sendStep
  | .getline buffer =>
    if s.sender = .wait then some { s with sender := .typed buffer } else none
  | .receive => s.receiveStep
  | .eof =>
    if s.receiver = .recv ∧ s.toClient = [] then
      some { s with client := { s.client with doneRequested := true } }
    else none
  | .input =>
    match s.toServer with
    | [] => none
    | text :: rest =>
      { s with toServer := rest }.serve clId (inputProg clId listenerEvfd s.serverMsg text)
  | .output => s.serve clId (outputProg clId s.serverMsg)
  | .zero =>
    if s.sender = .ended ∧ s.toServer = [] then s.serve clId (zeroProg clId s.serverMsg) else none
  | .others u m =>
    if Beside clId s.shared u ∧ m.Clean then some { s with shared := u, serverMsg := m } else none

-- what the worker makes of a message for the entry it is about, and what it sends in answer
inductive Answer (m : ServerMessage) (c : ClientData) : ClientData → List Str → Prop
  | left (ha : m.action = getAction .clDisconnected) :
    Answer m c (c.setState disconnectState) []
  | named (ha : m.action = getAction .initReq) (h0 : c.initState = initialState) :
    Answer m c { c.incState with name := m.name } []
  | greeted (ha : m.action = getAction .initDone) (h2 : c.initState = sentInitConfirmation) :
    Answer m c c.incState [(helloMsg m c).getConcatenatedMsg]
  | kept (ha : m.action ≠ getAction .clDisconnected)
    (h2 : c.initState = sentInitConfirmation → m.action ≠ getAction .initDone) : Answer m c c []

inductive Output (m : ServerMessage) (c : ClientData) : ClientData → List Str → Prop
  | replied (h1 : c.initState = requestedInit) :
    Output m c c.incState [(initReplyMsg m c).getConcatenatedMsg]
  | flushed (h3 : c.initState = initDone) : Output m c { c with sendQueue := [] } c.sendQueue
  | kept : Output m c c []

-- a run of the worker for this client turned its entry into d and sent it texts
structure Changed (clId : Int) (s : Shared cfg) (d : ClientData) (texts : List Str)
    (u : Shared cfg) : Prop where
  entry : u.sv.getClientRef clId = some d
  sent : u.hist.sent = s.hist.sent ++ texts.map fun x => (clId, x)

section Server

variable {s u : Shared cfg} {clId listenerEvfd : Int} {m m' : ServerMessage} {c d : ClientData}

theorem Changed.newSends {texts : List Str} (h : Changed clId s d texts u) :
    newSends clId s u = texts := by
  rw [Session.newSends, h.sent, List.drop_left]
  simp [List.filter_map, Function.comp_def]

theorem changed_refl (hc : s.sv.getClientRef clId = some c) : Changed clId s c [] s :=
  ⟨hc, by simp⟩

theorem changed_modify {f : ClientData → ClientData} (hc : s.sv.getClientRef clId = some c)
    (hf : ∀ c, (f c).personalId = c.personalId) :
    Changed clId s (f c) [] (s.modifyClient clId f) :=
  ⟨getClientRef_modifyClient hc hf, by simp⟩

theorem changed_send (text : Str) (h : Changed clId s d [] u) (hk : u.kernel.sends = []) :
    Changed clId s d [text] (u.sendDone clId text) := by
  refine ⟨by rw [Shared.sendDone_sv]; exact h.entry, ?_⟩
  rw [Shared.sendDone, hk]
  change u.hist.sent ++ _ = _
  rw [h.sent]
  simp

theorem sendDone_sends (clId : Int) (text : Str) (hk : s.kernel.sends = []) :
    (s.sendDone clId text).kernel.sends = [] := by
  rw [Shared.sendDone, hk]
  exact hk

theorem processInput_answer (hc : s.sv.getClientRef clId = some c) (hm : m.Clean)
    (hk : s.kernel.sends = []) (h : processInput m c listenerEvfd s = .ok m' u) :
    m'.Clean ∧ ∃ d texts, Answer m c d texts ∧ Changed clId s d texts u := by
  obtain rfl := getClientRef_id hc
  cases processInput_done h with
  | left ha =>
    exact ⟨hm, _, _, .left ha, changed_modify (f := (·.setState disconnectState)) hc fun _ => rfl⟩
  | named _ h0 hi =>
    exact ⟨clean_default, _, _, .named hi h0,
      changed_modify (f := fun c => { c.incState with name := m.name }) hc fun _ => rfl⟩
  | reset ha h0 _ =>
    refine ⟨clean_default, _, _, .kept ha fun h2 => ?_, changed_refl hc⟩
    exact absurd (h0.symm.trans h2) (by decide)
  | greeted _ h2 hd =>
    have hch := changed_send (helloMsg m c).getConcatenatedMsg
      (changed_modify (f := ClientData.incState) hc fun _ => rfl) hk
    exact ⟨clean_default, _, _, .greeted hd h2, hch.entry, hch.sent⟩
  | relayed ha h3 _ =>
    refine ⟨clean_default, _, _, .kept ha fun h2 => ?_, hc, by simp⟩
    exact absurd (h3.symm.trans h2) (by decide)
  | kept ha _ hd _ => exact ⟨hm, _, _, .kept ha hd, changed_refl hc⟩

theorem flushQueue_changed {queue : List Str} (hc : s.sv.getClientRef clId = some c)
    (hq : c.sendQueue = queue) (hk : s.kernel.sends = [])
    (h : flushQueue clId queue s = .ok () u) :
    Changed clId s { c with sendQueue := [] } queue u := by
  induction queue generalizing s c with
  | nil =>
    cases h
    refine ⟨?_, by simp⟩
    rw [hc, ← hq]
  | cons text rest ih =>
    rw [flushQueue_cons] at h
    obtain ⟨_, v, hv, h⟩ := bind_ok h
    obtain rfl := sendMsg_ok hv
    have hpop := getClientRef_popMessage hc rest
    have hch : Changed clId s { c with sendQueue := rest } [text]
        ((s.popMessage clId rest).sendDone clId text) :=
      changed_send text ⟨hpop, by simp [Shared.popMessage]⟩ hk
    have hk' := sendDone_sends (s := s.popMessage clId rest) clId text hk
    have hrest := ih hch.entry rfl hk' h
    refine ⟨hrest.entry, hrest.sent.trans ?_⟩
    rw [hch.sent]
    simp

theorem processOutput_output (hc : s.sv.getClientRef clId = some c) (hm : m.Clean)
    (hn : c.initState = requestedInit → splitToken ∉ c.name) (hk : s.kernel.sends = [])
    (h : processOutput m c s = .ok m' u) :
    m'.Clean ∧ ∃ d texts, Output m c d texts ∧ Changed clId s d texts u := by
  obtain rfl := getClientRef_id hc
  cases processOutput_done h with
  | replied h1 =>
    exact ⟨initReplyMsg_clean hm (hn h1), _, _, .replied h1,
      changed_send _ (changed_modify (f := ClientData.incState) hc fun _ => rfl) hk⟩
  | flushed h3 hq => exact ⟨hm, _, _, .flushed h3, flushQueue_changed hc rfl hk hq⟩
  | idle _ => exact ⟨hm, _, _, .kept, changed_refl hc⟩

end Server

def entry (clId : Int) (s : Session cfg) : Option ClientData := s.shared.sv.getClientRef clId

-- a step of the server: the client's threads stay where they are
inductive ServerTurn (clId : Int) (s : Session cfg) : Session cfg → Prop
  | input {text : Str} {rest texts : List Str} {m b : ServerMessage} {c d : ClientData}
    {u : Shared cfg} (hq : s.toServer = text :: rest)
    (hm : s.serverMsg.constructFromString text = .ok m) (hc : s.entry clId = some c)
    (ha : Answer m c d texts) (hd : u.sv.getClientRef clId = some d) (hb : b.Clean) :
    ServerTurn clId s { s with
      shared := u
      serverMsg := b
      toServer := rest
      toClient := s.toClient ++ texts }
  | output {texts : List Str} {b : ServerMessage} {c d : ClientData} {u : Shared cfg}
    (hc : s.entry clId = some c) (ho : Output s.serverMsg c d texts)
    (hd : u.sv.getClientRef clId = some d) (hb : b.Clean) :
    ServerTurn clId s { s with
      shared := u
      serverMsg := b
      toClient := s.toClient ++ texts }
  | zero {c : ClientData} {u : Shared cfg} (hs : s.sender = .ended) (hq : s.toServer = [])
    (hd : u.sv.getClientRef clId = some (c.setState disconnectState))
    (hc : s.entry clId = some c) : ServerTurn clId s { s with shared := u }
  | others {b : ServerMessage} {u : Shared cfg}
    (he : SameEntry (s.entry clId) (u.sv.getClientRef clId)) (hb : b.Clean) :
    ServerTurn clId s { s with shared := u, serverMsg := b }

section Turns

variable {s t : Session cfg} {clId listenerEvfd : Int} {l : SessionLabel cfg}

theorem serve_ok {p : Prog cfg ServerMessage} (h : s.serve clId p = some t) :
    ∃ m u, p (Outbox.withSends s.shared []) = .ok m u ∧ t = { s with
      shared := u
      serverMsg := m
      toClient := s.toClient ++ newSends clId s.shared u } := by
  unfold serve at h
  split at h
  · cases h
  · rename_i m u hr
    exact ⟨m, u, hr, (Option.some.inj h).symm⟩

theorem input_turn {text : Str} {rest : List Str} (hq : s.toServer = text :: rest)
    (h : { s with toServer := rest }.serve clId (inputProg clId listenerEvfd s.serverMsg text) =
      some t) : ServerTurn clId s t := by
  obtain ⟨b, u, hrun, rfl⟩ := serve_ok h
  obtain ⟨m, v, hv, hrun⟩ := bind_ok hrun
  obtain ⟨hm, rfl⟩ := liftExcept_ok_inv hv
  obtain ⟨c, w, hw, hrun⟩ := bind_ok hrun
  obtain ⟨rfl, hc⟩ := derefClient_ok hw
  obtain ⟨hb, d, texts, ha, hch⟩ := processInput_answer hc
    (ServerMessage.constructFromString_clean hm) rfl hrun
  have hnew : newSends clId s.shared u = texts := Changed.newSends ⟨hch.entry, hch.sent⟩
  rw [hnew]
  exact .input hq hm hc ha hch.entry hb

theorem output_turn (hb : s.serverMsg.Clean)
    (hn : ∀ c, s.entry clId = some c → c.initState = requestedInit → splitToken ∉ c.name)
    (h : s.serve clId (outputProg clId s.serverMsg) = some t) : ServerTurn clId s t := by
  obtain ⟨b, u, hrun, rfl⟩ := serve_ok h
  obtain ⟨c, w, hw, hrun⟩ := bind_ok hrun
  obtain ⟨rfl, hc⟩ := derefClient_ok hw
  obtain ⟨hb', d, texts, ho, hch⟩ := processOutput_output hc hb (hn c hc) rfl hrun
  have hnew : newSends clId s.shared u = texts := Changed.newSends ⟨hch.entry, hch.sent⟩
  rw [hnew]
  exact .output hc ho hch.entry hb'

theorem zero_turn (hs : s.sender = .ended) (hq : s.toServer = [])
    (h : s.serve clId (zeroProg clId s.serverMsg) = some t) : ServerTurn clId s t := by
  obtain ⟨b, u, hrun, rfl⟩ := serve_ok h
  obtain ⟨c, w, hw, hdone⟩ := bind_ok hrun
  obtain ⟨rfl, hc⟩ := derefClient_ok hw
  have hid := getClientRef_id hc
  obtain ⟨_, v, hv, hdone⟩ := bind_ok hdone
  have hch : Changed clId (Outbox.withSends s.shared []) (c.setState disconnectState) [] v := by
    rw [hid] at hv
    cases hv
    exact changed_modify (f := (·.setState disconnectState)) hc fun _ => rfl
  cases hdone
  have hnew : newSends clId s.shared u = [] := Changed.newSends ⟨hch.entry, hch.sent⟩
  rw [hnew, List.append_nil]
  exact .zero hs hq hch.entry hc

-- who took the step
inductive Turn (clId : Int) (s t : Session cfg) : SessionLabel cfg → Prop
  | send (h : s.sendStep = some t) : Turn clId s t .send
  | getline {buffer : Str} (h : s.sender = .wait) (ht : t = { s with sender := .typed buffer }) :
    Turn clId s t (.getline buffer)
  | receive (h : s.receiveStep = some t) : Turn clId s t .receive
  | eof (ht : t = { s with client := { s.client with doneRequested := true } }) :
    Turn clId s t .eof
  | server {l : SessionLabel cfg} (h : ServerTurn clId s t) : Turn clId s t l

theorem step_turn (hb : s.serverMsg.Clean)
    (hn : ∀ c, s.entry clId = some c → c.initState = requestedInit → splitToken ∉ c.name)
    (h : s.step clId listenerEvfd l = some t) : Turn clId s t l := by
  cases l with
  | send => exact .send h
  | getline buffer =>
    obtain ⟨hs, ht⟩ := Option.ite_none_right_eq_some.mp h
    exact .getline hs (Option.some.inj ht).symm
  | receive => exact .receive h
  | eof =>
    obtain ⟨_, ht⟩ := Option.ite_none_right_eq_some.mp h
    exact .eof (Option.some.inj ht).symm
  | input =>
    simp only [step] at h
    split at h
    · cases h
    · rename_i text rest hq
      exact .server (input_turn hq h)
  | output => exact .server (output_turn hb hn h)
  | zero =>
    obtain ⟨⟨hs, hq⟩, ht⟩ := Option.ite_none_right_eq_some.mp h
    exact .server (zero_turn hs hq ht)
  | others u m =>
    obtain ⟨⟨hbeside, hm⟩, ht⟩ := Option.ite_none_right_eq_some.mp h
    obtain rfl := Option.some.inj ht
    exact .server (.others hbeside.1 hm)

end Turns

end Session

end ChatApp
