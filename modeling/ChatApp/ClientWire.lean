import ChatApp.ClientThreads

namespace ChatApp

open Effects Runs

def ClientOut.onWire : ClientOut → Option Str
  | .sent text => some text
  | _ => none

-- before the reply to INIT_REQ is looked at
def ReceivePc.early : ReceivePc → Bool
  | .head | .waiting | .reading | .waking | .testing | .ended => true
  | _ => false

-- taking the reply in, with init_done still clear
def ReceivePc.answering : ReceivePc → Bool
  | .coloring _ | .naming _ | .marking => true
  | _ => false

def SendPc.late : SendPc → Bool
  | .head | .marking | .ended => false
  | _ => true

-- with a message whose id has been read
def SendPc.carrying : SendPc → Bool
  | .coloring _ | .sending => true
  | _ => false

namespace ClientProcess

variable {name : Str} {p q : ClientProcess} {l : ClientLabel} {env : ClientEnv}

def texts (p : ClientProcess) : List Str := p.data.out.filterMap ClientOut.onWire

-- finalize_init has set the id, and the colour before it
def identified (p : ClientProcess) : Bool := p.receiver = .marking || p.client.initDone

theorem texts_emit (p : ClientProcess) (text : Str) :
    (p.emit (.sent text)).texts = p.texts ++ [text] := List.filterMap_append

theorem SendsNothing.texts {d d' : ClientState} (h : SendsNothing d d') :
    d'.out.filterMap ClientOut.onWire = d.out.filterMap ClientOut.onWire := by
  obtain ⟨_, outs, ho, hq⟩ := h
  have hnone : outs.filterMap ClientOut.onWire = [] := by
    refine List.filterMap_eq_nil_iff.mpr fun o hm => ?_
    cases o with
    | sent text => exact absurd rfl (hq _ hm text)
    | _ => rfl
  rw [ho, List.filterMap_append, hnone, List.append_nil]

section Control

-- the message that send_msg_from_stdin is building
def Drafted (name : Str) (p : ClientProcess) : Prop :=
  match p.sender with
  | .naming buffer => p.msg.name = name ∧
    if buffer = quitMsg then
      p.msg.action = getAction .clDisconnected ∧ p.client.doneRequested = true
    else p.msg.action = getAction .unicastRepeated
  | .coloring _ => p.msg.name = name ∧ p.msg.action = getAction .unicastRepeated
  | .sending => p.msg.name = name ∧ (p.msg.action = getAction .unicastRepeated ∨
    p.msg.action = getAction .clDisconnected ∧ p.client.doneRequested = true)
  | _ => True

structure Controlled (name : Str) (p : ClientProcess) : Prop where
  named : p.client.name = name
  early : p.client.initReq = false → p.receiver.early = true ∧ p.client.initDone = false
  late : p.sender.late = true → p.client.initReq = true
  blank : p.client.initReq = false → p.sender ≠ .marking → p.msg = {}
  white : p.client.initReq = false → p.client.colorId = 7
  answering : p.receiver.answering = true → p.client.initDone = false
  confirming : p.receiver = .confirming → p.client.initDone = true
  nameless : p.identified = false → p.client.id = []
  built : p.Drafted name

theorem init_controlled (name : Str) (frame : MessageFrame) :
    Controlled name (init name frame) :=
  ⟨rfl, fun _ => ⟨rfl, rfl⟩, (fun hl => by cases hl), fun _ _ => rfl, fun _ => rfl,
    fun _ => rfl, (fun hr => by cases hr), fun _ => rfl, trivial⟩

-- the send thread changes init_req and the request to stop, and nothing else of the client
theorem Controlled.sent (h : Controlled name p) (hn : q.client.name = p.client.name)
    (hi : p.client.initReq = true → q.client.initReq = true)
    (hd : q.client.initDone = p.client.initDone) (hid : q.client.id = p.client.id)
    (hc : q.client.colorId = p.client.colorId) (hr : q.receiver = p.receiver)
    (hl : q.sender.late = true → q.client.initReq = true)
    (hb : q.client.initReq = false → q.sender ≠ .marking → q.msg = {})
    (hbuilt : q.Drafted name) : Controlled name q := by
  have hreq (h0 : q.client.initReq = false) : p.client.initReq = false := by
    cases hp : p.client.initReq with
    | false => rfl
    | true => rw [hi hp] at h0; cases h0
  refine ⟨hn.trans h.named, fun h0 => ?_, hl, hb, fun h0 => ?_, ?_, ?_, ?_, hbuilt⟩
  · rw [hr, hd]
    exact h.early (hreq h0)
  · rw [hc]
    exact h.white (hreq h0)
  · rw [hr, hd]
    exact h.answering
  · rw [hr, hd]
    exact h.confirming
  · rw [identified, hr, hd, hid]
    exact h.nameless

theorem sendTurn_controlled (h : Controlled name p) (ht : SendTurn p q) : Controlled name q := by
  have no {P : Prop} (hx : false = true) : P := by cases hx
  have late (hs : p.sender.late = true) : p.client.initReq = true := h.late hs
  have quiet {P : Prop} (hs : p.sender.late = true) (h0 : p.client.initReq = false) : P := by
    rw [late hs] at h0
    cases h0
  cases ht with
  | ends hs _ =>
    exact h.sent rfl id rfl rfl rfl rfl no (fun h0 _ => h.blank h0 (by simp [hs])) trivial
  | idles _ _ => exact h
  | waits hs _ hi =>
    exact h.sent rfl id rfl rfl rfl rfl (fun _ => hi) (fun h0 _ => h.blank h0 (by simp [hs]))
      trivial
  | greets hs _ _ =>
    exact h.sent rfl id rfl rfl rfl rfl no (fun _ hm => absurd rfl hm) trivial
  | marks hs =>
    exact h.sent rfl (fun _ => rfl) rfl rfl rfl rfl (fun _ => rfl) (fun h0 _ => no h0.symm) trivial
  | wakes hs _ =>
    exact h.sent rfl id rfl rfl rfl rfl no (fun h0 _ => quiet (by simp [hs, SendPc.late]) h0)
      trivial
  | reads hs =>
    have hi := late (by simp [hs, SendPc.late])
    exact h.sent rfl id rfl rfl rfl rfl (fun _ => hi)
      (fun h0 _ => quiet (by simp [hs, SendPc.late]) h0) trivial
  | nothing hs => exact h.sent rfl id rfl rfl rfl rfl no (fun _ _ => rfl) trivial
  | quits hs =>
    have hi := late (by simp [hs, SendPc.late])
    refine h.sent rfl id rfl rfl rfl rfl (fun _ => hi)
      (fun h0 _ => quiet (by simp [hs, SendPc.late]) h0) ⟨h.named, ?_⟩
    rw [if_pos rfl]
    exact ⟨rfl, rfl⟩
  | types hs hb =>
    have hi := late (by simp [hs, SendPc.late])
    refine h.sent rfl id rfl rfl rfl rfl (fun _ => hi)
      (fun h0 _ => quiet (by simp [hs, SendPc.late]) h0) ⟨h.named, ?_⟩
    rw [if_neg hb]
  | @names buffer hs =>
    have hi := late (by simp [hs, SendPc.late])
    have hbuilt := h.built
    simp only [Drafted, hs] at hbuilt
    refine h.sent rfl id rfl rfl rfl rfl (fun _ => hi)
      (fun h0 _ => quiet (by simp [hs, SendPc.late]) h0) ?_
    by_cases hq : buffer = quitMsg
    · simp only [Drafted, hq, if_true] at hbuilt ⊢
      exact ⟨hbuilt.1, .inr hbuilt.2⟩
    · simp only [Drafted, hq, if_false] at hbuilt ⊢
      exact hbuilt
  | @colors buffer hs =>
    have hi := late (by simp [hs, SendPc.late])
    have hbuilt := h.built
    simp only [Drafted, hs] at hbuilt
    exact h.sent rfl id rfl rfl rfl rfl (fun _ => hi)
      (fun h0 _ => quiet (by simp [hs, SendPc.late]) h0) ⟨hbuilt.1, .inl hbuilt.2⟩
  | sends hs => exact h.sent rfl id rfl rfl rfl rfl no (fun _ _ => rfl) trivial
  | fails hs => exact h.sent rfl id rfl rfl rfl rfl no (fun _ _ => rfl) trivial
  | dies hs _ => exact h.sent rfl id rfl rfl rfl rfl h.late h.blank h.built

theorem Controlled.received (h : Controlled name p) (hn : q.client.name = p.client.name)
    (hq : q.client.initReq = p.client.initReq)
    (hd : p.client.doneRequested = true → q.client.doneRequested = true)
    (hs : q.sender = p.sender) (hm : q.msg = p.msg)
    (he : p.client.initReq = false → q.receiver.early = true ∧ q.client.initDone = false)
    (hw : p.client.initReq = false → q.client.colorId = 7)
    (ha : q.receiver.answering = true → q.client.initDone = false)
    (hc : q.receiver = .confirming → q.client.initDone = true)
    (hid : q.identified = false → q.client.id = []) : Controlled name q := by
  refine ⟨hn.trans h.named, hq ▸ he, ?_, ?_, hq ▸ hw, ha, hc, hid, ?_⟩
  · rw [hs, hq]
    exact h.late
  · rw [hs, hq, hm]
    exact h.blank
  · have hbuilt := h.built
    unfold Drafted at hbuilt ⊢
    rw [hs, hm]
    split
    · rename_i buffer hp
      rw [hp] at hbuilt
      refine ⟨hbuilt.1, ?_⟩
      split_ifs with hquit
      · have := hbuilt.2
        rw [if_pos hquit] at this
        exact ⟨this.1, hd this.2⟩
      · have := hbuilt.2
        rwa [if_neg hquit] at this
    · rename_i hp
      rwa [hp] at hbuilt
    · rename_i hp
      rw [hp] at hbuilt
      exact ⟨hbuilt.1, hbuilt.2.imp id fun hx => ⟨hx.1, hd hx.2⟩⟩
    · trivial

theorem receiveTurn_controlled (h : Controlled name p) (ht : ReceiveTurn p env q) :
    Controlled name q := by
  have replied {P : Prop} (hr : p.receiver.early = false) (h0 : p.client.initReq = false) : P := by
    have := (h.early h0).1
    rw [hr] at this
    cases this
  have unnamed (hr : p.receiver ≠ .marking) (hi : p.client.initDone = false) :
      p.client.id = [] := by
    refine h.nameless ?_
    simp [identified, hr, hi]
  -- a turn that leaves the client as it is and does not begin to answer
  have plain (pc : ReceivePc) (hr : p.receiver ≠ .marking)
      (ha : pc.answering = true → p.client.initDone = false)
      (hf : pc = .confirming → p.client.initDone = true)
      (he : p.client.initReq = false → pc.early = true) {d : ClientState}
      (hd : d.client = p.client) {n : Nat} {c : Bool} : Controlled name
        { p with data := d, receiver := pc, evfd := n, crashed := c } := by
    have hq : ClientProcess.client
        { p with data := d, receiver := pc, evfd := n, crashed := c } = p.client := hd
    refine h.received ?_ ?_ ?_ rfl rfl ?_ ?_ ?_ ?_ ?_ <;> rw [hq]
    · exact id
    · exact fun h0 => ⟨he h0, (h.early h0).2⟩
    · exact h.white
    · exact ha
    · exact hf
    · intro hi
      simp only [identified, hq, Bool.or_eq_false_iff] at hi
      exact unnamed hr hi.2
  have calm (pc : ReceivePc) (hr : p.receiver ≠ .marking)
      (hpc : pc.answering = false ∧ pc ≠ .confirming)
      (he : p.client.initReq = false → pc.early = true) {d : ClientState}
      (hd : d.client = p.client) {n : Nat} {c : Bool} : Controlled name
        { p with data := d, receiver := pc, evfd := n, crashed := c } :=
    plain pc hr (fun hx => absurd (hpc.1.symm.trans hx) Bool.false_ne_true)
      (fun hx => absurd hx hpc.2) he hd
  cases ht with
  | ends hr _ => exact calm .ended (by simp [hr]) ⟨rfl, by simp⟩ (fun _ => rfl) rfl
  | waits hr _ => exact calm .waiting (by simp [hr]) ⟨rfl, by simp⟩ (fun _ => rfl) rfl
  | wakes hr => exact calm .reading (by simp [hr]) ⟨rfl, by simp⟩ (fun _ => rfl) rfl
  | received hr f =>
    exact calm (d := { p.data with frame := f }) .testing (by simp [hr]) ⟨rfl, by simp⟩
      (fun _ => rfl) rfl
  | woke hr => exact calm .head (by simp [hr]) ⟨rfl, by simp⟩ (fun _ => rfl) rfl
  | unwoken hr _ hd => exact calm .head (by simp [hr]) ⟨rfl, by simp⟩ (fun _ => rfl) hd.1
  | decoded hr hi =>
    exact calm (.deciding _) (by simp [hr]) ⟨rfl, by simp⟩
      (fun h0 => by rw [hi] at h0; cases h0) rfl
  | shows hr =>
    exact calm (.showing _) (by simp [hr]) ⟨rfl, by simp⟩
      (replied (by simp [hr, ReceivePc.early])) rfl
  | confirms hr =>
    exact calm (d := (p.emit (.sent Client.initDoneMsg.getConcatenatedMsg)).clearFrame.data) .head
      (by simp [hr]) ⟨rfl, by simp⟩ (fun _ => rfl) rfl
  | returns hm hd =>
    exact calm .head (fun hr => by rw [hr] at hm; cases hm) ⟨rfl, by simp⟩ (fun _ => rfl) hd.1
  | closed hr =>
    refine h.received rfl rfl (fun _ => rfl) rfl rfl (fun h0 => ⟨rfl, (h.early h0).2⟩) h.white
      (fun hx => by cases hx) (fun hx => by cases hx) fun hi => unnamed (by simp [hr]) ?_
    simpa [identified, client, requestStop, setClient] using hi
  | answers hr hi =>
    refine h.received rfl rfl id rfl rfl (replied (by simp [hr, ReceivePc.early])) h.white
      (fun _ => hi) (fun hx => by cases hx) fun _ => unnamed (by simp [hr]) hi
  | colors hr =>
    have hi := h.answering (by simp [hr, ReceivePc.answering])
    exact h.received rfl rfl id rfl rfl (replied (by simp [hr, ReceivePc.early]))
      (replied (by simp [hr, ReceivePc.early])) (fun _ => hi) (fun hx => by cases hx) fun _ =>
        unnamed (by simp [hr]) hi
  | names hr =>
    have hi := h.answering (by simp [hr, ReceivePc.answering])
    exact h.received rfl rfl id rfl rfl (replied (by simp [hr, ReceivePc.early])) h.white
      (fun _ => hi) (fun hx => by cases hx) fun hx => by simp [identified] at hx
  | marks hr =>
    exact h.received rfl rfl id rfl rfl (replied (by simp [hr, ReceivePc.early])) h.white
      (fun hx => by cases hx) (fun _ => rfl) fun hx => by
        simp [identified, client, setClient] at hx
  | crashes hm hd =>
    have hr : p.receiver ≠ .marking := fun hr => by rw [hr] at hm; cases hm
    exact plain p.receiver hr h.answering h.confirming (fun h0 => (h.early h0).1) hd.1
  | miscolors hr =>
    have hi := h.answering (by simp [hr, ReceivePc.answering])
    refine h.received rfl rfl id rfl rfl (replied (by simp [hr, ReceivePc.early]))
      (replied (by simp [hr, ReceivePc.early])) (fun _ => hi) (fun hx => ?_) fun _ =>
        unnamed (by simp [hr]) hi
    have hx : p.receiver = .confirming := hx
    rw [hr] at hx
    cases hx

end Control

-- the first message, with the colour every client starts with
def greeting (name : Str) : ServerMessage :=
  { action := getAction .initReq, name := name, colorId := Decimal.toString 7 }

-- INIT_DONE comes after n of them, or not at all
def withConfirm (said : List ServerMessage) : Option Nat → List ServerMessage
  | none => said
  | some n => said.take n ++ Client.initDoneMsg :: said.drop n

def SignedBy (c : Client) (m : ServerMessage) : Prop :=
  m.id = c.id ∧ (m.action = getAction .unicastRepeated → m.colorId = Decimal.toString c.colorId)

-- the send thread has said INIT_REQ
def greeted (p : ClientProcess) : Bool := p.sender = .marking || p.client.initReq

-- a message in the making was signed, or it is the last that may go out without an id
def Carried (p : ClientProcess) (old new : List ServerMessage) (n : Option Nat) : Prop :=
  (p.msg.id = [] ∧ new = [] ∧ ∀ i, n = some i → i = old.length) ∨
  (p.identified = true ∧ p.msg.id = p.client.id ∧
    (p.sender = .sending → p.msg.action = getAction .unicastRepeated →
      p.msg.colorId = Decimal.toString p.client.colorId))

-- a chat, or the last message of a send thread that is about to end
def Said (p : ClientProcess) (m : ServerMessage) : Prop :=
  m.action = getAction .unicastRepeated ∨ m.action = getAction .clDisconnected ∧
    p.client.doneRequested = true ∧ (p.sender = .head ∨ p.sender = .ended)

structure OnTheWire (name : Str) (p : ClientProcess) (old new : List ServerMessage)
    (n : Option Nat) : Prop where
  wire : p.texts =
    (greeting name :: withConfirm (old ++ new) n).map ServerMessage.getConcatenatedMsg
  nameless : ∀ m ∈ old, m.id = []
  signed : ∀ m ∈ new, SignedBy p.client m
  unidentified : p.identified = false → new = []
  confirmed : ∀ i, n = some i → p.client.initDone = true ∧ p.receiver ≠ .confirming ∧
    i ≤ (old ++ new).length ∧ old.length ≤ i + 1
  names : ∀ m ∈ old ++ new, m.name = name
  chats : ∀ m ∈ (old ++ new).dropLast, m.action = getAction .unicastRepeated
  said : ∀ m ∈ old ++ new, p.Said m
  carried : p.sender.carrying = true → p.Carried old new n

section Speaking

variable {old new : List ServerMessage} {n : Option Nat}

theorem withConfirm_append {said : List ServerMessage} (m : ServerMessage)
    (h : ∀ i, n = some i → i ≤ said.length) :
    withConfirm (said ++ [m]) n = withConfirm said n ++ [m] := by
  cases n with
  | none => rfl
  | some i =>
    have hi := h i rfl
    simp only [withConfirm, List.take_append_of_le_length hi, List.drop_append_of_le_length hi,
      List.append_assoc, List.cons_append]

theorem OnTheWire.all_chats (h : OnTheWire name p old new n)
    (hs : p.client.doneRequested = false ∨ p.sender ≠ .head ∧ p.sender ≠ .ended) :
    ∀ m ∈ old ++ new, m.action = getAction .unicastRepeated := by
  intro m hm
  rcases h.said m hm with hc | ⟨_, hd, hp⟩
  · exact hc
  · rcases hs with hs | ⟨hhead, hended⟩
    · rw [hd] at hs
      cases hs
    · exact (hp.elim hhead hended).elim

-- the send thread moves on and has nothing new on the wire
theorem OnTheWire.moved (h : OnTheWire name p old new n) (ht : q.texts = p.texts)
    (hc : q.client.id = p.client.id ∧ q.client.colorId = p.client.colorId ∧
      q.client.initDone = p.client.initDone) (hr : q.receiver = p.receiver)
    (hs : ∀ m ∈ old ++ new, q.Said m) (hb : q.sender.carrying = true → q.Carried old new n) :
    OnTheWire name q old new n := by
  have hid : q.identified = p.identified := by rw [identified, identified, hr, hc.2.2]
  refine ⟨ht.trans h.wire, h.nameless, fun m hm => ?_, hid ▸ h.unidentified, ?_, h.names, h.chats,
    hs, hb⟩
  · rw [SignedBy, hc.1, hc.2.1]
    exact h.signed m hm
  · rw [hr, hc.2.2]
    exact h.confirmed

-- the receive thread moves on, and what has been signed stays signed
theorem OnTheWire.received (h : OnTheWire name p old new n) (ht : q.texts = p.texts)
    (hs : q.sender = p.sender) (hm : q.msg = p.msg)
    (hd : p.client.doneRequested = true → q.client.doneRequested = true)
    (hi : p.identified = true → q.identified = true ∧ q.client.id = p.client.id ∧
      q.client.colorId = p.client.colorId)
    (hc : p.client.initDone = true → p.receiver ≠ .confirming →
      q.client.initDone = true ∧ q.receiver ≠ .confirming) : OnTheWire name q old new n := by
  have hid (h0 : q.identified = false) : p.identified = false := by
    cases hp : p.identified with
    | false => rfl
    | true => rw [(hi hp).1] at h0; cases h0
  refine ⟨ht.trans h.wire, h.nameless, fun m hm => ?_, fun h0 => h.unidentified (hid h0),
    fun i hn => ?_, h.names, h.chats, fun m hx => ?_, fun hb => ?_⟩
  · cases hp : p.identified with
    | false =>
      rw [h.unidentified hp] at hm
      cases hm
    | true =>
      obtain ⟨_, hqi, hqc⟩ := hi hp
      rw [SignedBy, hqi, hqc]
      exact h.signed m hm
  · obtain ⟨h1, h2, h3⟩ := h.confirmed i hn
    obtain ⟨hq1, hq2⟩ := hc h1 h2
    exact ⟨hq1, hq2, h3⟩
  · refine (h.said m hx).imp id fun ⟨ha, hdone, hp⟩ => ⟨ha, hd hdone, ?_⟩
    rwa [hs]
  · rw [hs] at hb
    rw [Carried, hs, hm]
    refine (h.carried hb).imp id fun ⟨hp, hmi, hmc⟩ => ?_
    obtain ⟨hqi, hqid, hqc⟩ := hi hp
    rw [hqid, hqc]
    exact ⟨hqi, hmi, hmc⟩

-- the message that has been built goes out
theorem OnTheWire.sends (h : OnTheWire name p old new n) (hctl : Controlled name p)
    (hs : p.sender = .sending) : ∃ old' new', OnTheWire name
      { p.emit (.sent p.msg.getConcatenatedMsg) with
        msg := p.msg.resetMsg
        sender := .head } old' new' n := by
  have hbuilt := hctl.built
  simp only [Drafted, hs] at hbuilt
  have hchats := h.all_chats (.inr (by simp [hs]))
  have hwire (i : Nat) (hn : n = some i) := (h.confirmed i hn).2.2.1
  have htexts := texts_emit p p.msg.getConcatenatedMsg
  rw [h.wire, ← List.map_singleton, ← List.map_append, List.cons_append,
    ← withConfirm_append p.msg hwire] at htexts
  have hlast (m : ServerMessage) (hm : m ∈ old ++ new ++ [p.msg]) :
      m ∈ old ++ new ∨ m = p.msg := by
    rwa [List.mem_append, List.mem_singleton] at hm
  have hnames (m : ServerMessage) (hm : m ∈ old ++ new ++ [p.msg]) : m.name = name := by
    rcases hlast m hm with hm | rfl
    · exact h.names m hm
    · exact hbuilt.1
  have hdrop (m : ServerMessage) (hm : m ∈ (old ++ new ++ [p.msg]).dropLast) :
      m.action = getAction .unicastRepeated := by
    rw [List.dropLast_concat] at hm
    exact hchats m hm
  have hsaid (m : ServerMessage) (hm : m ∈ old ++ new ++ [p.msg]) :
      Said { p.emit (.sent p.msg.getConcatenatedMsg) with
        msg := p.msg.resetMsg
        sender := .head } m := by
    rcases hlast m hm with hm | rfl
    · exact .inl (hchats m hm)
    · exact hbuilt.2.imp id fun ⟨ha, hd⟩ => ⟨ha, hd, .inl rfl⟩
  rcases h.carried (by simp [hs, SendPc.carrying]) with ⟨hid, rfl, hn⟩ | ⟨hid, hmi, hmc⟩
  · simp only [List.append_nil] at htexts hnames hdrop hsaid
    refine ⟨old ++ [p.msg], [], ?_, ?_, fun _ hm => absurd hm List.not_mem_nil, fun _ => rfl,
      fun i hi => ?_, ?_, ?_, ?_, fun hb => by cases hb⟩
    · rw [List.append_nil]
      exact htexts
    · intro m hm
      rcases List.mem_append.mp hm with hm | hm
      · exact h.nameless m hm
      · rw [List.mem_singleton.mp hm]
        exact hid
    · obtain ⟨h1, h2, h3, h4⟩ := h.confirmed i hi
      have := hn i hi
      refine ⟨h1, h2, ?_, ?_⟩ <;> simp only [List.append_nil, List.length_append,
        List.length_singleton] at h3 ⊢ <;> omega
    all_goals rw [List.append_nil]; assumption
  · rw [List.append_assoc] at htexts
    simp only [List.append_assoc] at hnames hdrop hsaid
    refine ⟨old, new ++ [p.msg], htexts, h.nameless, fun m hm => ?_, fun h0 => ?_, fun i hi => ?_,
      hnames, hdrop, hsaid, fun hb => by cases hb⟩
    · rcases List.mem_append.mp hm with hm | hm
      · exact h.signed m hm
      · rw [List.mem_singleton.mp hm]
        exact ⟨hmi, hmc hs⟩
    · have h0 : p.identified = false := h0
      rw [hid] at h0
      cases h0
    · obtain ⟨h1, h2, h3, h4⟩ := h.confirmed i hi
      refine ⟨h1, h2, ?_, h4⟩
      simp only [List.length_append, List.length_singleton] at h3 ⊢
      omega

-- a message is named while the id is empty, or it is signed
theorem OnTheWire.naming (h : OnTheWire name p old new n) (hctl : Controlled name p) {buffer : Str}
    (hs : p.sender = .naming buffer) : OnTheWire name { p with
      msg := { p.msg with id := p.client.id }
      sender := if buffer = quitMsg then .sending else .coloring buffer } old new n := by
  have hbuilt := hctl.built
  simp only [Drafted, hs] at hbuilt
  refine h.moved rfl ⟨rfl, rfl, rfl⟩ rfl
    (fun m hm => .inl (h.all_chats (.inr (by simp [hs])) m hm)) fun _ => ?_
  cases hid : p.identified with
  | false =>
    refine .inl ⟨hctl.nameless hid, h.unidentified hid, fun i hi => ?_⟩
    have hdone := (h.confirmed i hi).1
    simp [identified, hdone] at hid
  | true =>
    refine .inr ⟨hid, rfl, fun hsending hchat => ?_⟩
    split_ifs at hsending with hq
    · have hleave : p.msg.action = getAction .clDisconnected := by
        have := hbuilt.2
        rw [if_pos hq] at this
        exact this.1
      have hchat : p.msg.action = getAction .unicastRepeated := hchat
      rw [hleave] at hchat
      exact absurd hchat (by decide)

theorem sendTurn_onTheWire (h : OnTheWire name p old new n) (hctl : Controlled name p)
    (hg : p.greeted = true) (ht : SendTurn p q) :
    ∃ old' new', OnTheWire name q old' new' n := by
  have chats (hs : p.client.doneRequested = false ∨ p.sender ≠ .head ∧ p.sender ≠ .ended) :
      ∀ m ∈ old ++ new, q.Said m := fun m hm => .inl (h.all_chats hs m hm)
  cases ht with
  | ends hs hd =>
    refine ⟨old, new, h.moved rfl ⟨rfl, rfl, rfl⟩ rfl (fun m hm => ?_) fun hb => by cases hb⟩
    exact (h.said m hm).imp id fun ⟨ha, hd, _⟩ => ⟨ha, hd, .inr rfl⟩
  | idles _ _ => exact ⟨old, new, h⟩
  | waits hs hd _ =>
    exact ⟨old, new, h.moved rfl ⟨rfl, rfl, rfl⟩ rfl (chats (.inl hd)) fun hb => by cases hb⟩
  | greets hs _ hi => simp [greeted, hs, hi] at hg
  | marks hs | wakes hs _ | reads hs | nothing hs | quits hs | types hs _ =>
    exact ⟨old, new, h.moved rfl ⟨rfl, rfl, rfl⟩ rfl (chats (.inr (by simp [hs])))
      fun hb => by cases hb⟩
  | names hs => exact ⟨old, new, h.naming hctl hs⟩
  | colors hs =>
    refine ⟨old, new, h.moved rfl ⟨rfl, rfl, rfl⟩ rfl (chats (.inr (by simp [hs]))) fun _ => ?_⟩
    refine (h.carried (by simp [hs, SendPc.carrying])).imp id fun ⟨hid, hmi, _⟩ => ?_
    exact ⟨hid, hmi, fun _ _ => rfl⟩
  | sends hs => exact h.sends hctl hs
  | @fails e hs =>
    have hquiet := (sendsNothing_reported p e).texts
    exact ⟨old, new, h.moved hquiet ⟨rfl, rfl, rfl⟩ rfl (chats (.inr (by simp [hs])))
      fun hb => by cases hb⟩
  | dies hs hd =>
    refine ⟨old, new, h.moved rfl ⟨rfl, rfl, rfl⟩ rfl (chats (.inl hd)) fun hb => ?_⟩
    have hb : p.sender.carrying = true := hb
    rw [hs] at hb
    cases hb

theorem OnTheWire.confirms (h : OnTheWire name p old new n) (hctl : Controlled name p)
    (hr : p.receiver = .confirming) :
    OnTheWire name (p.emit (.sent Client.initDoneMsg.getConcatenatedMsg)).clearFrame old new
      (some (old ++ new).length) := by
  have hnone : n = none := by
    cases hn : n with
    | none => rfl
    | some i => exact absurd hr (h.confirmed i hn).2.1
  subst hnone
  have htexts := texts_emit p Client.initDoneMsg.getConcatenatedMsg
  rw [h.wire, ← List.map_singleton, ← List.map_append, List.cons_append] at htexts
  have hid : p.identified = true := by simp [identified, hctl.confirming hr]
  refine ⟨?_, h.nameless, h.signed, fun h0 => ?_, fun i hi => ?_, h.names, h.chats, h.said,
    fun hb => ?_⟩
  · simp only [withConfirm, List.take_length, List.drop_length] at htexts ⊢
    exact htexts
  · have hdone : p.client.initDone = false := by
      simpa [identified, clearFrame, client, setFrame, emit] using h0
    rw [hctl.confirming hr] at hdone
    cases hdone
  · cases hi
    refine ⟨hctl.confirming hr, by simp [clearFrame], le_refl _, ?_⟩
    rw [List.length_append]
    omega
  · rcases h.carried hb with ⟨hm, hnew, _⟩ | ⟨_, hm, hc⟩
    · refine .inl ⟨hm, hnew, fun i hi => ?_⟩
      cases hi
      rw [hnew, List.append_nil]
    · have hdone := hctl.confirming hr
      refine .inr ⟨?_, hm, hc⟩
      simpa [identified, clearFrame, client, setFrame, emit] using hdone

theorem receiveTurn_onTheWire (h : OnTheWire name p old new n) (hctl : Controlled name p)
    (ht : ReceiveTurn p env q) : ∃ n', OnTheWire name q old new n' := by
  have unsigned (ha : p.receiver.answering = true) (hr : p.receiver ≠ .marking) {P : Prop}
      (hi : p.identified = true) : P := by
    have := hctl.answering ha
    simp [identified, hr, this] at hi
  have unconfirmed (ha : p.receiver.answering = true) {P : Prop}
      (hi : p.client.initDone = true) : P := by
    rw [hctl.answering ha] at hi
    cases hi
  -- a turn that leaves the client as it is
  have plain (pc : ReceivePc) (hr : p.receiver ≠ .marking)
      (hc : pc = .confirming → p.receiver = .confirming)
      {d : ClientState} (hd : SendsNothing p.data d) {k : Nat} {c : Bool} :
      OnTheWire name { p with data := d, receiver := pc, evfd := k, crashed := c } old new n := by
    have hq : ClientProcess.client
        { p with data := d, receiver := pc, evfd := k, crashed := c } = p.client := hd.1
    refine h.received hd.texts rfl rfl ?_ ?_ ?_ <;> rw [hq]
    · exact id
    · intro hi
      have hdone : p.client.initDone = true := by simpa [identified, hr] using hi
      exact ⟨by simp [identified, hq, hdone], rfl, rfl⟩
    · exact fun hi hne => ⟨hi, fun hq => hne (hc hq)⟩
  have quiet := sendsNothing_refl p.data
  cases ht with
  | ends hr _ => exact ⟨n, plain .ended (by simp [hr]) (by simp) quiet⟩
  | waits hr _ => exact ⟨n, plain .waiting (by simp [hr]) (by simp) quiet⟩
  | wakes hr => exact ⟨n, plain .reading (by simp [hr]) (by simp) quiet⟩
  | received hr f =>
    have hsame : SendsNothing p.data { p.data with frame := f } := ⟨rfl, quiet.2⟩
    exact ⟨n, plain .testing (by simp [hr]) (by simp) hsame⟩
  | woke hr => exact ⟨n, plain .head (by simp [hr]) (by simp) quiet⟩
  | unwoken hr _ hd => exact ⟨n, plain .head (by simp [hr]) (by simp) hd⟩
  | decoded hr _ => exact ⟨n, plain (.deciding _) (by simp [hr]) (by simp) quiet⟩
  | shows hr => exact ⟨n, plain (.showing _) (by simp [hr]) (by simp) quiet⟩
  | answers hr _ => exact ⟨n, plain (.coloring _) (by simp [hr]) (by simp) quiet⟩
  | returns hm hd =>
    exact ⟨n, plain .head (fun hr => by rw [hr] at hm; cases hm) (by simp) hd⟩
  | closed hr =>
    refine ⟨n, h.received rfl rfl rfl (fun _ => rfl) (fun hi => ?_) fun hi _ => ⟨hi, by simp⟩⟩
    have hdone : p.client.initDone = true := by simpa [identified, hr] using hi
    exact ⟨by simpa [identified, client, requestStop, setClient] using hdone, rfl, rfl⟩
  | colors hr =>
    have ha : p.receiver.answering = true := by simp [hr, ReceivePc.answering]
    exact ⟨n, h.received rfl rfl rfl id (unsigned ha (by simp [hr])) fun hi _ =>
      unconfirmed ha hi⟩
  | names hr =>
    have ha : p.receiver.answering = true := by simp [hr, ReceivePc.answering]
    exact ⟨n, h.received rfl rfl rfl id (unsigned ha (by simp [hr])) fun hi _ =>
      unconfirmed ha hi⟩
  | marks hr =>
    have ha : p.receiver.answering = true := by simp [hr, ReceivePc.answering]
    exact ⟨n, h.received rfl rfl rfl id
      (fun _ => ⟨by simp [identified, client, setClient], rfl, rfl⟩) fun hi _ => unconfirmed ha hi⟩
  | confirms hr => exact ⟨_, h.confirms hctl hr⟩
  | crashes hm hd =>
    exact ⟨n, plain p.receiver (fun hr => by rw [hr] at hm; cases hm) id hd⟩
  | miscolors hr =>
    have ha : p.receiver.answering = true := by simp [hr, ReceivePc.answering]
    exact ⟨n, h.received rfl rfl rfl id (unsigned ha (by simp [hr])) fun hi _ =>
      unconfirmed ha hi⟩

end Speaking

section Greeting

-- nothing goes out before INIT_REQ
def Spoke (name : Str) (p : ClientProcess) : Prop :=
  if p.greeted then ∃ old new n, OnTheWire name p old new n else p.texts = []

theorem sendTurn_greeted (hg : p.greeted = true) (ht : SendTurn p q) : q.greeted = true := by
  have set (hs : p.sender ≠ .marking) (hq : q.client.initReq = p.client.initReq) :
      q.greeted = true := by
    have hi : p.client.initReq = true := by simpa [greeted, hs] using hg
    rw [greeted, hq, hi, Bool.or_true]
  cases ht with
  | marks _ => exact Bool.or_true _
  | idles _ _ => exact hg
  | greets _ _ _ => rfl
  | ends hs _ | waits hs _ _ | wakes hs _ | reads hs | nothing hs | quits hs | types hs _
  | names hs | colors hs | sends hs | fails hs | dies hs _ => exact set (by simp [hs]) rfl

theorem receiveTurn_same (ht : ReceiveTurn p env q) :
    q.greeted = p.greeted ∧ (q.texts = p.texts ∨ p.receiver = .confirming) := by
  have quiet {d : ClientState} (hd : SendsNothing p.data d) {pc : ReceivePc} {c : Bool} :
      greeted { p with data := d, receiver := pc, crashed := c } = p.greeted ∧
      (texts { p with data := d, receiver := pc, crashed := c } = p.texts ∨
        p.receiver = .confirming) := by
    refine ⟨?_, .inl hd.texts⟩
    rw [greeted, greeted]
    exact congrArg (fun c : Client => decide (p.sender = .marking) || c.initReq) hd.1
  cases ht with
  | unwoken _ _ hd | returns _ hd | crashes _ hd => exact quiet hd
  | confirms hr => exact ⟨rfl, .inr hr⟩
  | _ => exact ⟨rfl, .inl rfl⟩

theorem greets_onTheWire (hctl : Controlled name p) (hg : p.greeted = false) (hx : p.texts = []) :
    OnTheWire name { p.emit (.sent p.initReqMsg.getConcatenatedMsg) with
      msg := p.initReqMsg
      sender := .marking } [] [] none := by
  simp only [greeted, Bool.or_eq_false_iff, decide_eq_false_iff_not] at hg
  have hmsg : p.initReqMsg = greeting name := by
    rw [initReqMsg, hctl.blank hg.2 hg.1, hctl.white hg.2, hctl.named]
    rfl
  have nothing {P : ServerMessage → Prop} : ∀ m ∈ ([] : List ServerMessage), P m :=
    fun m hm => absurd hm List.not_mem_nil
  refine ⟨?_, nothing, nothing, fun _ => rfl, (fun i hi => by cases hi), nothing, nothing, nothing,
    fun hb => by cases hb⟩
  change (p.emit (.sent p.initReqMsg.getConcatenatedMsg)).texts = _
  rw [texts_emit, hx, hmsg]
  simp only [List.nil_append, withConfirm, List.map_cons, List.map_nil]

theorem sendTurn_spoke (hctl : Controlled name p) (h : p.Spoke name) (ht : SendTurn p q) :
    q.Spoke name := by
  unfold Spoke at h
  split_ifs at h with hg
  · obtain ⟨old, new, n, hs⟩ := h
    obtain ⟨old', new', hq⟩ := sendTurn_onTheWire hs hctl hg ht
    rw [Spoke, if_pos (sendTurn_greeted hg ht)]
    exact ⟨old', new', n, hq⟩
  · have hg : p.greeted = false := by simpa using hg
    have hreq : p.client.initReq = false ∧ p.sender ≠ .marking := by
      simpa [greeted, and_comm] using hg
    have early {P : Prop} (hl : p.sender.late = true) : P := by
      have := hctl.late hl
      rw [hreq.1] at this
      cases this
    have kept (hq : q.greeted = false) (hx : q.texts = p.texts) : q.Spoke name := by
      rw [Spoke, hq]
      exact hx.trans h
    cases ht with
    | ends _ _ => exact kept hreq.1 rfl
    | idles _ _ => exact kept hg rfl
    | waits _ _ hi =>
      rw [hreq.1] at hi
      cases hi
    | greets _ _ _ => exact ⟨[], [], none, greets_onTheWire hctl hg h⟩
    | marks hs => exact absurd hs hreq.2
    | dies _ _ => exact kept hg rfl
    | wakes hs _ | reads hs | nothing hs | quits hs | types hs _ | names hs | colors hs | sends hs
    | fails hs => exact early (by simp [hs, SendPc.late])

theorem receiveTurn_spoke (hctl : Controlled name p) (h : p.Spoke name)
    (ht : ReceiveTurn p env q) : q.Spoke name := by
  obtain ⟨hgreeted, htexts⟩ := receiveTurn_same ht
  unfold Spoke at h ⊢
  rw [hgreeted]
  split_ifs at h ⊢ with hg
  · obtain ⟨old, new, n, hs⟩ := h
    obtain ⟨n', hq⟩ := receiveTurn_onTheWire hs hctl ht
    exact ⟨old, new, n', hq⟩
  · rcases htexts with hx | hr
    · exact hx.trans h
    · have hreq : p.client.initReq = false ∧ p.sender ≠ .marking := by
        simpa [greeted, and_comm] using hg
      have := (hctl.early hreq.1).1
      rw [hr] at this
      cases this

theorem step_spoke (h : Controlled name p ∧ p.Spoke name) (hs : p.step l = some q) :
    Controlled name q ∧ q.Spoke name := by
  obtain ⟨_, ⟨_, _, ht⟩ | ⟨_, _, _, ht⟩⟩ := step_cases hs
  · exact ⟨sendTurn_controlled h.1 ht, sendTurn_spoke h.1 h.2 ht⟩
  · exact ⟨receiveTurn_controlled h.1 ht, receiveTurn_spoke h.1 h.2 ht⟩

end Greeting

-- what a client has sent: INIT_REQ, then messages without an id, then signed ones; INIT_DONE comes
-- among them, with at most one message without an id behind it, and the farewell comes last
theorem client_wire {frame : MessageFrame}
    (hr : Reach step (fun _ _ => True) (init name frame) p) :
    p.texts = [] ∨ ∃ (old new : List ServerMessage) (n : Option Nat),
      p.texts = (greeting name :: withConfirm (old ++ new) n).map
        ServerMessage.getConcatenatedMsg ∧
      (∀ m ∈ old, m.id = []) ∧ (∀ m ∈ new, SignedBy p.client m) ∧
      (∀ i, n = some i → i ≤ (old ++ new).length ∧ old.length ≤ i + 1) ∧
      (∀ m ∈ old ++ new, m.name = name ∧
        (m.action = getAction .unicastRepeated ∨ m.action = getAction .clDisconnected)) ∧
      ∀ m ∈ (old ++ new).dropLast, m.action = getAction .unicastRepeated := by
  have h : Controlled name p ∧ p.Spoke name := hr.invariant ⟨init_controlled name frame, rfl⟩
    fun _ _ _ h _ hs => step_spoke h hs
  have hspoke := h.2
  unfold Spoke at hspoke
  split_ifs at hspoke with hg
  · obtain ⟨old, new, n, hs⟩ := hspoke
    refine .inr ⟨old, new, n, hs.wire, hs.nameless, hs.signed,
      fun i hi => (hs.confirmed i hi).2.2, fun m hm => ⟨hs.names m hm, ?_⟩, hs.chats⟩
    exact (hs.said m hm).imp id And.left
  · exact .inl hspoke

def replyMsg : ServerMessage :=
  { action := getAction .initReq, id := "5".toList, name := "ann".toList, colorId := "3".toList }

-- a line is typed and its id read before the reply is taken in, and it is sent after INIT_DONE
def straggling : List ClientLabel :=
  sends 3 ++ typing "hi".toList ++ sends 1 ++
  List.replicate 10 (.receive true (arriving replyMsg)) ++ sends 3 ++ typing "ho".toList ++ sends 3

theorem client_wire_straggling : ∃ p : ClientProcess,
    p.texts.map idOf = [some [], some [], some [], some "5".toList] ∧
    ∃ (old new : List ServerMessage) (n : Option Nat),
      p.texts = (greeting "ann".toList :: withConfirm (old ++ new) n).map
        ServerMessage.getConcatenatedMsg ∧
      (∀ m ∈ old, m.id = []) ∧ (∀ m ∈ new, SignedBy p.client m) ∧
      ∀ i, n = some i → i ≤ (old ++ new).length ∧ old.length ≤ i + 1 := by
  have hrun : (run step (init "ann".toList freshFrame) straggling).any (fun p =>
      p.texts.map idOf = [some [], some [], some [], some "5".toList]) = true := by
    decide +kernel
  obtain ⟨p, hr, hp⟩ := exists_of_run (fun _ _ => trivial) hrun
  have hp := of_decide_eq_true hp
  refine ⟨p, hp, ?_⟩
  rcases client_wire hr with hnone | ⟨old, new, n, hwire, hold, hnew, hn, _⟩
  · rw [hnone] at hp
    cases hp
  · exact ⟨old, new, n, hwire, hold, hnew, hn⟩

end ClientProcess

end ChatApp
