import ChatApp.Framing
import ChatApp.Library.Runs
import ChatApp.System

namespace ChatApp

open Effects Runs

-- where start_send_loop stands; it builds a message field by field while the other thread runs
inductive SendPc where
  | head
  | marking
  | waiting
  | reading
  | naming (buffer : Str)
  | coloring (buffer : Str)
  | sending
  | ended
  deriving DecidableEq, Repr

-- where start_receive_loop stands, receive_msg_from_sv and finalize_init included
inductive ReceivePc where
  | head
  | waiting
  | reading
  | waking
  | testing
  | deciding (m : ServerMessage)
  | coloring (m : ServerMessage)
  | naming (m : ServerMessage)
  | marking
  | confirming
  | showing (m : ServerMessage)
  | ended
  deriving DecidableEq, Repr

-- inside receive_msg_from_sv, with nothing of the handshake done or still to confirm
def ReceivePc.mayReturn : ReceivePc → Bool
  | .reading | .testing | .deciding _ | .coloring _ | .confirming | .showing _ => true
  | _ => false

-- what epoll_wait, getline and send answer to the send thread
structure StdinEnv where
  readable : Bool := false
  line : Option Str := none
  sendOk : Bool := true

structure ClientProcess where
  data : ClientState
  msg : ServerMessage := {}
  sender : SendPc := .head
  receiver : ReceivePc := .head
  -- the count of cl_event_fd, which nobody reads
  evfd : Nat := 0
  crashed : Bool := false

inductive ClientLabel where
  | send (env : StdinEnv)
  | receive (readable : Bool) (env : ClientEnv)

namespace ClientProcess

-- nothing initialises the bytes of the frame
def init (name : Str) (frame : MessageFrame) : ClientProcess where
  data := { client := { name := name }, frame := frame }

def client (p : ClientProcess) : Client := p.data.client

def setClient (p : ClientProcess) (c : Client) : ClientProcess :=
  { p with data := { p.data with client := c } }

def emit (p : ClientProcess) (o : ClientOut) : ClientProcess :=
  { p with data := { p.data with out := p.data.out ++ [o] } }

def setFrame (p : ClientProcess) (f : MessageFrame) : ClientProcess :=
  { p with data := { p.data with frame := f } }

def requestStop (p : ClientProcess) : ClientProcess :=
  p.setClient { p.client with doneRequested := true }

-- an exception that leaves a thread, or a lookup outside an array
def crash (p : ClientProcess) : ClientProcess := { p with crashed := true }

def initReqMsg (p : ClientProcess) : ServerMessage :=
  { p.msg with
    action := getAction .initReq
    name := p.client.name
    colorId := Decimal.toString p.client.colorId }

-- send_msg_from_stdin on the line that getline returned
def takeLine (p : ClientProcess) (buffer : Str) : ClientProcess :=
  if buffer = quitMsg then
    { p.requestStop with
      msg := { p.msg with action := getAction .clDisconnected, name := p.client.name }
      sender := .naming buffer }
  else if buffer = [] then { p with msg := p.msg.resetMsg, sender := .head }
  else
    { p with
      msg := { p.msg with action := getAction .unicastRepeated, name := p.client.name }
      sender := .naming buffer }

def sendStep (p : ClientProcess) (env : StdinEnv) : Option ClientProcess :=
  match p.sender with
  | .head =>
    if p.client.doneRequested then some { p with sender := .ended }
    else if p.client.initReq then some { p with sender := .waiting }
    else if p.client.name = [] then some p
    else if env.sendOk then
      some { p.emit (.sent p.initReqMsg.getConcatenatedMsg) with
        msg := p.initReqMsg
        sender := .marking }
    else some p.crash
  | .marking => some { p.setClient { p.client with initReq := true } with sender := .head }
  | .waiting =>
    if env.readable then some { p with sender := .reading }
    else if p.evfd ≠ 0 then some { p with sender := .head }
    else none
  | .reading =>
    match env.line with
    | none => some { p with msg := p.msg.resetMsg, sender := .head }
    | some buffer => some (p.takeLine buffer)
  | .naming buffer =>
    some { p with
      msg := { p.msg with id := p.client.id }
      sender := if buffer = quitMsg then .sending else .coloring buffer }
  | .coloring buffer =>
    some { p with
      msg := { p.msg with colorId := Decimal.toString p.client.colorId, msgContent := buffer }
      sender := .sending }
  | .sending =>
    let out := if env.sendOk then ClientOut.sent p.msg.getConcatenatedMsg
      else .reported (.runtimeError "Failed to send msg\n")
    some { p.emit out with msg := p.msg.resetMsg, sender := .head }
  | .ended => none

-- an exception in receive_msg_from_sv is reported, and the frame keeps its bytes
def report (p : ClientProcess) (e : Exn) : ClientProcess :=
  match e with
  | .undefinedBehaviour => p.crash
  | e => { p.emit (.reported e) with receiver := .head }

def clearFrame (p : ClientProcess) : ClientProcess :=
  { p.setFrame p.data.frame.clearMsg with receiver := .head }

def receiveStep (p : ClientProcess) (readable : Bool) (env : ClientEnv) : Option ClientProcess :=
  match p.receiver with
  | .head =>
    some { p with receiver := if p.client.doneRequested then .ended else .waiting }
  | .waiting => if readable then some { p with receiver := .reading } else none
  | .reading =>
    match env.recv with
    | .failed => some (p.report (.runtimeError "Failed read\n"))
    | .zero => some { p.requestStop with receiver := .waking }
    | .chunk c => some { p.setFrame (p.data.frame.recv c) with receiver := .testing }
  | .waking =>
    if env.wakeOk then some { p with evfd := p.evfd + 1, receiver := .head }
    else some (p.report
      (.runtimeError "Failed to write to event fd to wake up send loop\n"))
  | .testing =>
    if p.client.initReq then
      match p.data.frame.toStdString.bind ({} : ServerMessage).constructFromString with
      | .ok m => some { p with receiver := .deciding m }
      | .error e => some (p.report e)
    else some { p with receiver := .head }
  | .deciding m =>
    if p.client.initDone then some { p with receiver := .showing m }
    else if m.action = getAction .initReq then some { p with receiver := .coloring m }
    else some p.clearFrame
  | .coloring m =>
    match stoi m.colorId with
    | .error e => some (p.report e)
    | .ok c =>
      match Client.getColor c with
      | .error _ => some (p.setClient { p.client with colorId := c }).crash
      | .ok _ =>
        some { p.setClient { p.client with colorId := c } with receiver := .naming m }
  | .naming m => some { p.setClient { p.client with id := m.id } with receiver := .marking }
  | .marking =>
    some { p.setClient { p.client with initDone := true } with receiver := .confirming }
  | .confirming =>
    if env.sendOk then
      some (p.emit (.sent Client.initDoneMsg.getConcatenatedMsg)).clearFrame
    else some (p.report (.runtimeError "Failed to send msg\n"))
  | .showing m =>
    match Client.stdoutFormattedMsg m p.data with
    | .ok _ d => some { p with data := d }.clearFrame
    | .error e d => some ({ p with data := d }.report e)
  | .ended => none

def step (p : ClientProcess) (l : ClientLabel) : Option ClientProcess :=
  if p.crashed then none
  else match l with
    | .send env => p.sendStep env
    | .receive readable env => p.receiveStep readable env

section Turns

variable {p q : ClientProcess}

inductive SendTurn (p : ClientProcess) : ClientProcess → Prop
  | ends (h : p.sender = .head) (hd : p.client.doneRequested = true) :
    SendTurn p { p with sender := .ended }
  | idles (h : p.sender = .head) (hd : p.client.doneRequested = false) : SendTurn p p
  | waits (h : p.sender = .head) (hd : p.client.doneRequested = false)
    (hi : p.client.initReq = true) : SendTurn p { p with sender := .waiting }
  | greets (h : p.sender = .head) (hd : p.client.doneRequested = false)
    (hi : p.client.initReq = false) :
    SendTurn p { p.emit (.sent p.initReqMsg.getConcatenatedMsg) with
      msg := p.initReqMsg
      sender := .marking }
  | marks (h : p.sender = .marking) :
    SendTurn p { p.setClient { p.client with initReq := true } with sender := .head }
  | wakes (h : p.sender = .waiting) (he : p.evfd ≠ 0) : SendTurn p { p with sender := .head }
  | reads (h : p.sender = .waiting) : SendTurn p { p with sender := .reading }
  | nothing (h : p.sender = .reading) :
    SendTurn p { p with msg := p.msg.resetMsg, sender := .head }
  | quits (h : p.sender = .reading) : SendTurn p { p.requestStop with
      msg := { p.msg with action := getAction .clDisconnected, name := p.client.name }
      sender := .naming quitMsg }
  | types {buffer : Str} (h : p.sender = .reading) (hb : buffer ≠ quitMsg) :
    SendTurn p { p with
      msg := { p.msg with action := getAction .unicastRepeated, name := p.client.name }
      sender := .naming buffer }
  | names {buffer : Str} (h : p.sender = .naming buffer) :
    SendTurn p { p with
      msg := { p.msg with id := p.client.id }
      sender := if buffer = quitMsg then .sending else .coloring buffer }
  | colors {buffer : Str} (h : p.sender = .coloring buffer) :
    SendTurn p { p with
      msg := { p.msg with colorId := Decimal.toString p.client.colorId, msgContent := buffer }
      sender := .sending }
  | sends (h : p.sender = .sending) :
    SendTurn p { p.emit (.sent p.msg.getConcatenatedMsg) with
      msg := p.msg.resetMsg
      sender := .head }
  | fails {e : Exn} (h : p.sender = .sending) :
    SendTurn p { p.emit (.reported e) with msg := p.msg.resetMsg, sender := .head }
  | dies (h : p.sender = .head) (hd : p.client.doneRequested = false) : SendTurn p p.crash

theorem sendStep_turn {env : StdinEnv} (h : p.sendStep env = some q) : SendTurn p q := by
  unfold sendStep at h
  cases hs : p.sender with
  | head =>
    simp only [hs] at h
    split_ifs at h with hd hi hn hok <;> cases h
    · exact .ends hs hd
    · exact .waits hs (by simpa using hd) hi
    · exact .idles hs (by simpa using hd)
    · exact .greets hs (by simpa using hd) (by simpa using hi)
    · exact .dies hs (by simpa using hd)
  | marking =>
    simp only [hs] at h
    cases h
    exact .marks hs
  | waiting =>
    simp only [hs] at h
    split_ifs at h with hr he <;> cases h
    · exact .reads hs
    · exact .wakes hs he
  | reading =>
    simp only [hs] at h
    split at h
    · cases h
      exact .nothing hs
    · rename_i buffer _
      unfold takeLine at h
      split_ifs at h with hq hb <;> cases h
      · rw [hq]
        exact .quits hs
      · exact .nothing hs
      · exact .types hs hq
  | naming buffer =>
    simp only [hs] at h
    cases h
    exact .names hs
  | coloring buffer =>
    simp only [hs] at h
    cases h
    exact .colors hs
  | sending =>
    simp only [hs] at h
    split_ifs at h <;> cases h
    · exact .sends hs
    · exact .fails hs
  | ended =>
    simp only [hs] at h
    cases h

-- what a step of the receive thread adds to the output, INIT_DONE apart
def SendsNothing (d d' : ClientState) : Prop :=
  d'.client = d.client ∧ ∃ outs, d'.out = d.out ++ outs ∧ ∀ o ∈ outs, ∀ text, o ≠ .sent text

theorem sendsNothing_refl (d : ClientState) : SendsNothing d d := ⟨rfl, [], (List.append_nil _).symm, by simp⟩

theorem sendsNothing_reported (p : ClientProcess) (e : Exn) : SendsNothing p.data (p.emit (.reported e)).data :=
  ⟨rfl, [.reported e], rfl, by simp⟩

inductive ReceiveTurn (p : ClientProcess) (env : ClientEnv) : ClientProcess → Prop
  | ends (h : p.receiver = .head) (hd : p.client.doneRequested = true) :
    ReceiveTurn p env { p with receiver := .ended }
  | waits (h : p.receiver = .head) (hd : p.client.doneRequested = false) :
    ReceiveTurn p env { p with receiver := .waiting }
  | wakes (h : p.receiver = .waiting) : ReceiveTurn p env { p with receiver := .reading }
  | closed (h : p.receiver = .reading) :
    ReceiveTurn p env { p.requestStop with receiver := .waking }
  | received (h : p.receiver = .reading) (f : MessageFrame) :
    ReceiveTurn p env { p.setFrame f with receiver := .testing }
  | woke (h : p.receiver = .waking) :
    ReceiveTurn p env { p with evfd := p.evfd + 1, receiver := .head }
  | unwoken {d : ClientState} (h : p.receiver = .waking) (hw : env.wakeOk = false)
    (hd : SendsNothing p.data d) : ReceiveTurn p env { p with data := d, receiver := .head }
  | decoded {m : ServerMessage} (h : p.receiver = .testing) (hi : p.client.initReq = true) :
    ReceiveTurn p env { p with receiver := .deciding m }
  | shows {m : ServerMessage} (h : p.receiver = .deciding m) :
    ReceiveTurn p env { p with receiver := .showing m }
  | answers {m : ServerMessage} (h : p.receiver = .deciding m) (hi : p.client.initDone = false) :
    ReceiveTurn p env { p with receiver := .coloring m }
  | colors {m : ServerMessage} {c : Int} (h : p.receiver = .coloring m) :
    ReceiveTurn p env { p.setClient { p.client with colorId := c } with receiver := .naming m }
  | names {m : ServerMessage} (h : p.receiver = .naming m) :
    ReceiveTurn p env { p.setClient { p.client with id := m.id } with receiver := .marking }
  | marks (h : p.receiver = .marking) :
    ReceiveTurn p env { p.setClient { p.client with initDone := true } with
      receiver := .confirming }
  | confirms (h : p.receiver = .confirming) :
    ReceiveTurn p env (p.emit (.sent Client.initDoneMsg.getConcatenatedMsg)).clearFrame
  | returns {d : ClientState} (h : p.receiver.mayReturn = true) (hd : SendsNothing p.data d) :
    ReceiveTurn p env { p with data := d, receiver := .head }
  | crashes {d : ClientState} (h : p.receiver.mayReturn = true) (hd : SendsNothing p.data d) :
    ReceiveTurn p env { p with data := d }.crash
  | miscolors {m : ServerMessage} {c : Int} (h : p.receiver = .coloring m) :
    ReceiveTurn p env (p.setClient { p.client with colorId := c }).crash

theorem stdoutFormattedMsg_sendsNothing (m : ServerMessage) (d : ClientState) :
    SendsNothing d (final (Client.stdoutFormattedMsg m d)) := by
  unfold Client.stdoutFormattedMsg
  split_ifs
  · cases stoi m.colorId with
    | error e => exact ⟨rfl, [.reported e], rfl, by simp⟩
    | ok c =>
      cases hc : Client.getColor c with
      | error e =>
        simp only [Client.lift, hc, throw_bind_run, final_error]
        exact sendsNothing_refl d
      | ok i =>
        cases ho : Client.getColor d.client.colorId with
        | error e =>
          simp only [Client.lift, hc, pure_bind, get_bind_run, ho, throw_bind_run, final_error]
          exact sendsNothing_refl d
        | ok j =>
          simp only [Client.lift, hc, pure_bind, get_bind_run, ho]
          exact ⟨rfl, [.shown m], rfl, by simp⟩
  · exact sendsNothing_refl d

theorem SendsNothing.reported {d d' : ClientState} (h : SendsNothing d d') (e : Exn) :
    SendsNothing d { d' with out := d'.out ++ [.reported e] } := by
  obtain ⟨hc, outs, ho, hq⟩ := h
  refine ⟨hc, outs ++ [.reported e], ?_, fun o hm text => ?_⟩
  · rw [← List.append_assoc, ← ho]
  · rcases List.mem_append.mp hm with hm | hm
    · exact hq o hm text
    · rw [List.mem_singleton.mp hm]
      exact ClientOut.noConfusion

theorem report_turn {d : ClientState} {env : ClientEnv} (h : p.receiver.mayReturn = true)
    (hd : SendsNothing p.data d) (e : Exn) : ReceiveTurn p env ({ p with data := d }.report e) := by
  unfold report
  split
  · exact .crashes h hd
  · exact .returns h (hd.reported e)

theorem receiveStep_turn {readable : Bool} {env : ClientEnv}
    (h : p.receiveStep readable env = some q) : ReceiveTurn p env q := by
  have throws (e : Exn) (ht : p.receiver.mayReturn = true) : ReceiveTurn p env (p.report e) :=
    report_turn (d := p.data) ht (sendsNothing_refl _) e
  unfold receiveStep at h
  cases hr : p.receiver with
  | head =>
    simp only [hr] at h
    cases h
    split_ifs with hd
    · exact .ends hr hd
    · exact .waits hr (by simpa using hd)
  | waiting =>
    simp only [hr] at h
    split_ifs at h
    cases h
    exact .wakes hr
  | reading =>
    simp only [hr] at h
    split at h <;> cases h
    · exact throws _ (by rw [hr]; rfl)
    · exact .closed hr
    · exact .received hr _
  | waking =>
    simp only [hr] at h
    split_ifs at h with hw <;> cases h
    · exact .woke hr
    · exact .unwoken hr (by simpa using hw) (sendsNothing_reported p _)
  | testing =>
    simp only [hr] at h
    split_ifs at h with hi
    · split at h <;> cases h
      · exact .decoded hr hi
      · exact throws _ (by rw [hr]; rfl)
    · cases h
      exact .returns (by rw [hr]; rfl) (sendsNothing_refl _)
  | deciding m =>
    simp only [hr] at h
    split_ifs at h with hi ha <;> cases h
    · exact .shows hr
    · exact .answers hr (by simpa using hi)
    · exact .returns (by rw [hr]; rfl) ⟨rfl, [], (List.append_nil _).symm, by simp⟩
  | coloring m =>
    simp only [hr] at h
    split at h
    · cases h
      exact throws _ (by rw [hr]; rfl)
    · split at h <;> cases h
      · exact .miscolors hr
      · exact .colors hr
  | naming m =>
    simp only [hr] at h
    cases h
    exact .names hr
  | marking =>
    simp only [hr] at h
    cases h
    exact .marks hr
  | confirming =>
    simp only [hr] at h
    split_ifs at h <;> cases h
    · exact .confirms hr
    · exact throws _ (by rw [hr]; rfl)
  | showing m =>
    have hquiet := stdoutFormattedMsg_sendsNothing m p.data
    simp only [hr] at h
    split at h
    · rename_i hm
      cases h
      rw [hm] at hquiet
      exact .returns (by rw [hr]; rfl) hquiet
    · rename_i hm
      cases h
      rw [hm] at hquiet
      rw [← hr]
      exact report_turn (by rw [hr]; rfl) hquiet _
  | ended =>
    simp only [hr] at h
    cases h

theorem step_cases {l : ClientLabel} (h : p.step l = some q) : p.crashed = false ∧
    ((∃ env, l = .send env ∧ SendTurn p q) ∨
      ∃ readable env, l = .receive readable env ∧ ReceiveTurn p env q) := by
  unfold step at h
  split_ifs at h with hc
  refine ⟨by simpa using hc, ?_⟩
  cases l with
  | send env => exact .inl ⟨env, rfl, sendStep_turn h⟩
  | receive readable env => exact .inr ⟨readable, env, rfl, receiveStep_turn h⟩

end Turns

section Schedules

def typing (buffer : Str) : List ClientLabel :=
  [.send { readable := true }, .send { line := some buffer }]

def sends (n : Nat) : List ClientLabel := List.replicate n (.send {})

-- recv returns one whole message
def arriving (m : ServerMessage) : ClientEnv := { recv := encoded m }

end Schedules

section Alone

variable {p q : ClientProcess} {env : ClientEnv}

def alone (p : ClientProcess) (n : Nat) (env : ClientEnv) : Option ClientProcess :=
  run step p (List.replicate n (.receive false env))

theorem alone_succ {n : Nat} (hs : p.receiveStep false env = some q) (hc : p.crashed = false) :
    p.alone (n + 1) env = q.alone n env := by
  rw [alone, List.replicate_succ, run, step, hc]
  simp only [Bool.false_eq_true, if_false, hs, Option.bind_some]
  rfl

def Returned (p : ClientProcess) : EStateM.Result Exn ClientState Unit → Prop
  | .ok _ d => p.data = d ∧ p.receiver = .head ∧ p.crashed = false
  | .error _ _ => p.crashed = true

-- the catch of receive_msg_from_sv
def caught : EStateM.Result Exn ClientState Unit → EStateM.Result Exn ClientState Unit
  | .ok _ t => .ok () t
  | .error .undefinedBehaviour t => .error .undefinedBehaviour t
  | .error e t => .ok () { t with out := t.out ++ [.reported e] }

theorem receiveMsgFromSv_eq (env : ClientEnv) (d : ClientState) :
    Client.receiveMsgFromSv env d = caught (Client.receiveBody env d) := by
  unfold Client.receiveMsgFromSv
  cases Client.receiveBody env d with
  | ok u t => rfl
  | error e t => cases e <;> rfl

theorem report_returned (hc : p.crashed = false) (e : Exn) :
    Returned (p.report e) (caught (.error e p.data)) := by
  cases e with
  | undefinedBehaviour => rfl
  | _ => exact ⟨rfl, rfl, hc⟩

theorem alone_one (hs : p.receiveStep false env = some q) (hc : p.crashed = false) :
    p.alone 1 env = some q := by
  rw [alone_succ hs hc]
  rfl

theorem getColor_error {c : Int} {e : Exn} (h : Client.getColor c = .error e) :
    e = .undefinedBehaviour := by
  unfold Client.getColor at h
  split_ifs at h
  cases h
  rfl

theorem naming_alone {m : ServerMessage} (env : ClientEnv) (hr : p.receiver = .naming m)
    (hc : p.crashed = false) :
    ∃ q, p.alone 3 env = some q ∧ Returned q (caught ((do
      modify fun s => { s with client := { s.client with id := m.id, initDone := true } }
      Client.sendMsg env Client.initDoneMsg.getConcatenatedMsg
      modify fun s => { s with frame := s.frame.clearMsg } : CProg Unit) p.data)) := by
  have h1 : p.receiveStep false env =
      some { p.setClient { p.client with id := m.id } with receiver := .marking } := by
    simp only [receiveStep, hr]
  have h2 : receiveStep { p.setClient { p.client with id := m.id } with receiver := .marking }
      false env = some { p.setClient { p.client with id := m.id, initDone := true } with
        receiver := .confirming } := rfl
  rw [alone_succ h1 hc, alone_succ h2 hc]
  cases hs : env.sendOk with
  | true =>
    refine ⟨_, alone_one (by simp only [receiveStep, hs, if_true]; rfl) hc, ?_⟩
    simp [Client.sendMsg, Client.emit, hs, caught, Returned, clearFrame, setFrame, emit, setClient,
      hc, client]
  | false =>
    refine ⟨_, alone_one (by simp only [receiveStep, hs, Bool.false_eq_true, if_false]; rfl) hc, ?_⟩
    simp [Client.sendMsg, hs, caught, Returned, report, emit, setClient, hc, client]

theorem deciding_alone {m : ServerMessage} (env : ClientEnv) (hr : p.receiver = .deciding m)
    (hc : p.crashed = false) :
    ∃ n q, p.alone n env = some q ∧ Returned q (caught (Client.handleMessage env m p.data)) := by
  cases hi : p.client.initDone with
  | true =>
    have h1 : p.receiveStep false env = some { p with receiver := .showing m } := by
      simp only [receiveStep, hr, hi, if_true]
    have hm : Client.handleMessage env m p.data = (Client.stdoutFormattedMsg m >>= fun _ =>
        modify fun s => { s with frame := s.frame.clearMsg }) p.data := by
      have hi : p.data.client.initDone = true := hi
      simp only [Client.handleMessage, get_bind_run, hi, if_true]
    rw [hm, bind_run]
    cases hs : Client.stdoutFormattedMsg m p.data with
    | ok u d =>
      have h2 : receiveStep { p with receiver := .showing m } false env =
          some { p with data := d, receiver := .showing m }.clearFrame := by
        simp only [receiveStep, hs]
      exact ⟨2, _, (alone_succ h1 hc).trans (alone_one h2 hc), rfl, rfl, hc⟩
    | error e d =>
      have h2 : receiveStep { p with receiver := .showing m } false env =
          some ({ p with data := d, receiver := .showing m }.report e) := by
        simp only [receiveStep, hs]
      exact ⟨2, _, (alone_succ h1 hc).trans (alone_one h2 hc),
        report_returned (p := { p with data := d, receiver := .showing m }) hc e⟩
  | false =>
    have hi' : p.data.client.initDone = false := hi
    by_cases ha : m.action = getAction .initReq
    · have h1 : p.receiveStep false env = some { p with receiver := .coloring m } := by
        simp only [receiveStep, hr, hi, Bool.false_eq_true, if_false, ha, if_true]
      cases hst : stoi m.colorId with
      | error e =>
        have h2 : receiveStep { p with receiver := .coloring m } false env =
            some (report { p with receiver := .coloring m } e) := by
          simp only [receiveStep, hst]
        have hm : Client.handleMessage env m p.data = .error e p.data := by
          simp [Client.handleMessage, hi', Client.finalizeInit, ha, hst, Client.lift]
        rw [hm]
        exact ⟨2, _, (alone_succ h1 hc).trans (alone_one h2 hc),
          report_returned (p := { p with receiver := .coloring m }) hc e⟩
      | ok c =>
        cases hg : Client.getColor c with
        | error e =>
          have h2 : receiveStep { p with receiver := .coloring m } false env =
              some (setClient { p with receiver := .coloring m }
                { p.client with colorId := c }).crash := by
            simp only [receiveStep, hst, hg, client]
          obtain rfl := getColor_error hg
          have hm : ∃ d, Client.handleMessage env m p.data = .error .undefinedBehaviour d := by
            refine ⟨{ p.data with client := { p.data.client with colorId := c } }, ?_⟩
            simp [Client.handleMessage, hi', Client.finalizeInit, ha, hst, Client.lift,
              Client.updateColor, hg, bind_run]
          obtain ⟨d, hm⟩ := hm
          rw [hm]
          exact ⟨2, _, (alone_succ h1 hc).trans (alone_one h2 hc), rfl⟩
        | ok i =>
          have h2 : receiveStep { p with receiver := .coloring m } false env =
              some { setClient { p with receiver := .coloring m }
                { p.client with colorId := c } with receiver := .naming m } := by
            simp only [receiveStep, hst, hg, client]
          obtain ⟨q, hq, hret⟩ := naming_alone (p := { setClient
            { p with receiver := .coloring m } { p.client with colorId := c } with
              receiver := .naming m }) env rfl hc
          refine ⟨5, q, (alone_succ h1 hc).trans ((alone_succ h2 hc).trans hq), ?_⟩
          have hm : Client.handleMessage env m p.data = (do
              modify fun s => { s with client := { s.client with id := m.id, initDone := true } }
              Client.sendMsg env Client.initDoneMsg.getConcatenatedMsg
              modify fun s => { s with frame := s.frame.clearMsg } : CProg Unit)
                { p.data with client := { p.data.client with colorId := c } } := by
            simp [Client.handleMessage, hi', Client.finalizeInit, ha, hst, Client.lift,
              Client.updateColor, hg, bind_run]
          rw [hm]
          exact hret
    · have h1 : p.receiveStep false env = some p.clearFrame := by
        simp only [receiveStep, hr, hi, Bool.false_eq_true, if_false, ha]
      refine ⟨1, _, alone_one h1 hc, ?_⟩
      have hm : Client.handleMessage env m p.data =
          .ok () { p.data with frame := p.data.frame.clearMsg } := by
        simp [Client.handleMessage, hi', Client.finalizeInit, ha]
      rw [hm]
      exact ⟨rfl, rfl, hc⟩

theorem receiveBody_chunk {c : Chunk} (hv : env.recv = .chunk c) (d : ClientState) :
    Client.receiveBody env d =
      if d.client.initReq then
        match (d.frame.recv c).toStdString.bind ({} : ServerMessage).constructFromString with
        | .ok m => Client.handleMessage env m { d with frame := d.frame.recv c }
        | .error e => .error e { d with frame := d.frame.recv c }
      else .ok () { d with frame := d.frame.recv c } := by
  simp only [Client.receiveBody, hv, modify_bind_run, get_bind_run]
  split_ifs
  · cases hs : (d.frame.recv c).toStdString with
    | error e => rfl
    | ok str =>
      cases hm : ({} : ServerMessage).constructFromString str with
      | error e => simp [Client.lift, hm, Except.bind]
      | ok m => simp [Client.lift, hm, Except.bind]
  · rfl

-- with no step of the send thread between, receive_msg_from_sv does what it does in one piece
theorem receive_alone (hr : p.receiver = .reading) (hc : p.crashed = false) (env : ClientEnv) :
    ∃ n q, p.alone n env = some q ∧ Returned q (Client.receiveMsgFromSv env p.data) := by
  rw [receiveMsgFromSv_eq]
  cases hv : env.recv with
  | failed =>
    have h1 : p.receiveStep false env = some (p.report (.runtimeError "Failed read\n")) := by
      simp only [receiveStep, hr, hv]
    have hb : Client.receiveBody env p.data = .error (.runtimeError "Failed read\n") p.data := by
      simp [Client.receiveBody, hv]
    rw [hb]
    exact ⟨1, _, alone_one h1 hc, report_returned hc _⟩
  | zero =>
    have h1 : p.receiveStep false env = some { p.requestStop with receiver := .waking } := by
      simp only [receiveStep, hr, hv]
    cases hw : env.wakeOk with
    | true =>
      have h2 : receiveStep { p.requestStop with receiver := .waking } false env =
          some { p.requestStop with evfd := p.evfd + 1, receiver := .head } := by
        simp only [receiveStep, hw, if_true]
        rfl
      have hb : Client.receiveBody env p.data = .ok () p.requestStop.data := by
        simp [Client.receiveBody, hv, hw, requestStop, setClient, client]
      rw [hb]
      exact ⟨2, _, (alone_succ h1 hc).trans (alone_one h2 hc), rfl, rfl, hc⟩
    | false =>
      have h2 : receiveStep { p.requestStop with receiver := .waking } false env =
          some (report { p.requestStop with receiver := .waking }
            (.runtimeError "Failed to write to event fd to wake up send loop\n")) := by
        simp only [receiveStep, hw, Bool.false_eq_true, if_false]
      have hb : Client.receiveBody env p.data =
          .error (.runtimeError "Failed to write to event fd to wake up send loop\n")
            p.requestStop.data := by
        simp [Client.receiveBody, hv, hw, requestStop, setClient, client]
      rw [hb]
      exact ⟨2, _, (alone_succ h1 hc).trans (alone_one h2 hc),
        report_returned (p := { p.requestStop with receiver := .waking }) hc _⟩
  | chunk c =>
    have h1 : p.receiveStep false env =
        some { p.setFrame (p.data.frame.recv c) with receiver := .testing } := by
      simp only [receiveStep, hr, hv]
    have hbody := receiveBody_chunk hv p.data
    cases hi : p.client.initReq with
    | false =>
      have h2 : receiveStep { p.setFrame (p.data.frame.recv c) with receiver := .testing } false
          env = some { p.setFrame (p.data.frame.recv c) with receiver := .head } :=
        if_neg (by rw [Bool.not_eq_true]; exact hi)
      rw [hbody.trans (if_neg (by rw [Bool.not_eq_true]; exact hi))]
      exact ⟨2, _, (alone_succ h1 hc).trans (alone_one h2 hc), rfl, rfl, hc⟩
    | true =>
      rw [hbody.trans (if_pos hi)]
      have h2 : receiveStep { p.setFrame (p.data.frame.recv c) with receiver := .testing } false
          env = match (p.data.frame.recv c).toStdString.bind
              ({} : ServerMessage).constructFromString with
            | .ok m => some { p.setFrame (p.data.frame.recv c) with receiver := .deciding m }
            | .error e =>
              some (report { p.setFrame (p.data.frame.recv c) with receiver := .testing } e) :=
        if_pos hi
      cases hx : (p.data.frame.recv c).toStdString.bind
          ({} : ServerMessage).constructFromString with
      | error e =>
        simp only [hx] at h2
        exact ⟨2, _, (alone_succ h1 hc).trans (alone_one h2 hc), report_returned
          (p := { p.setFrame (p.data.frame.recv c) with receiver := .testing }) hc e⟩
      | ok m =>
        simp only [hx] at h2
        obtain ⟨n, q, hq, hret⟩ := deciding_alone
          (p := { p.setFrame (p.data.frame.recv c) with receiver := .deciding m }) env rfl hc
        exact ⟨n + 2, q, (alone_succ h1 hc).trans ((alone_succ h2 hc).trans hq), hret⟩

-- INIT_REQ has gone out, and the reply to it is there to be read
def replyAtHand : ClientProcess where
  data := { client := { name := "ann".toList, initReq := true }, frame := freshFrame }
  receiver := .reading

def replyRead : ClientEnv :=
  arriving { action := getAction .initReq, id := "0".toList, colorId := "3".toList }

def replied (d : ClientState) : Bool :=
  d.client.id = "0".toList && d.client.colorId = 3 && d.client.initDone &&
    d.out = [.sent Client.initDoneMsg.getConcatenatedMsg]

theorem receive_alone_reply : ∃ n q, replyAtHand.alone n replyRead = some q ∧
    q.receiver = .head ∧ replied q.data = true := by
  obtain ⟨n, q, hq, hret⟩ := receive_alone (p := replyAtHand) rfl rfl replyRead
  have hone : (match Client.receiveMsgFromSv replyRead replyAtHand.data with
    | .ok _ d => replied d
    | .error _ _ => false) = true := by
    decide +kernel
  cases hr : Client.receiveMsgFromSv replyRead replyAtHand.data with
  | error e d =>
    rw [hr] at hone
    cases hone
  | ok u d =>
    rw [hr] at hret hone
    obtain ⟨rfl, hhead, _⟩ := hret
    exact ⟨n, q, hq, hhead, hone⟩

end Alone

end ClientProcess

end ChatApp
