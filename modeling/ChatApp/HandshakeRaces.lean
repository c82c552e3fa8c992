import ChatApp.Handshake

namespace ChatApp

open Effects Runs

variable {cfg : Config}

def SessionLabel.isReceive : SessionLabel cfg → Bool
  | .receive => true
  | _ => false

def ReceiveLoop.testsReq : ReceiveLoop → Bool
  | .testReq _ => true
  | _ => false

namespace Session

section Frames

variable {s t : Session cfg} {clId : Int} {l : SessionLabel cfg}

theorem send_frame (h : s.sendStep = some t) : t.shared = s.shared ∧ t.toClient = s.toClient ∧
    t.receiver = s.receiver ∧ t.client.initDone = s.client.initDone := by
  unfold sendStep at h
  split at h
  · split_ifs at h <;> cases h <;> exact ⟨rfl, rfl, rfl, rfl⟩
  · cases h
    exact ⟨rfl, rfl, rfl, rfl⟩
  · cases h
  · split_ifs at h <;> cases h <;> exact ⟨rfl, rfl, rfl, rfl⟩
  · cases h
    exact ⟨rfl, rfl, rfl, rfl⟩
  · cases h

-- what the server leaves of the client's side
structure ServerFrame (s t : Session cfg) : Prop where
  client : t.client = s.client
  msg : t.msg = s.msg
  sender : t.sender = s.sender
  receiver : t.receiver = s.receiver
  chats : t.chats = s.chats
  toClient : ∃ texts, t.toClient = s.toClient ++ texts

theorem server_frame (h : ServerTurn clId s t) : ServerFrame s t := by
  cases h with
  | input _ _ _ _ _ _ => exact ⟨rfl, rfl, rfl, rfl, rfl, _, rfl⟩
  | output _ _ _ _ => exact ⟨rfl, rfl, rfl, rfl, rfl, _, rfl⟩
  | zero _ _ _ _ => exact ⟨rfl, rfl, rfl, rfl, rfl, [], (List.append_nil _).symm⟩
  | others _ _ => exact ⟨rfl, rfl, rfl, rfl, rfl, [], (List.append_nil _).symm⟩

end Frames

-- the reply is under way, in the receive thread's hands or has been taken in
def Awaited (s : Session cfg) : Prop :=
  s.client.initDone = true ∨ s.toClient ≠ [] ∨ s.receiver ≠ .recv

def Replying (clId : Int) (s : Session cfg) : Prop :=
  ∀ c, s.entry clId = some c → c.initState = sentInitConfirmation → s.Awaited

section Replies

variable {clId color : Int} {name : Str} {s t : Session cfg}

theorem replying_receive (hcolor : InPalette color) (ha : Agreeing clId color name s)
    (hreq : ∀ text, s.receiver = .testReq text → s.client.initReq = true)
    (ht : s.receiveStep = some t) : t.Awaited := by
  have hrec := ha.receiver
  unfold receiveStep at ht
  split at ht <;> rename_i hpc <;> rw [hpc] at hrec
  · split at ht <;> cases ht
    exact .inr (.inr (by simp))
  · rename_i text
    rw [if_pos (hreq text hpc)] at ht
    split at ht <;> cases ht
    · exact .inr (.inr (by simp))
    · rename_i e he
      cases hdone : s.client.initDone with
      | true => exact .inl hdone
      | false =>
        obtain ⟨m, hreply, rfl⟩ := hrec hdone
        rw [ServerMessage.constructFromString_getConcatenatedMsg {} hreply.clean] at he
        cases he
  · split_ifs at ht with hdone hreq' <;> cases ht
    · exact .inl hdone
    · exact .inr (.inr (by simp))
    · exact absurd (hrec (by simpa using hdone)).action hreq'
  · rw [hrec.2.colorId, stoi_color hcolor] at ht
    simp only at ht
    split at ht <;> cases ht
    exact .inr (.inr (by simp))
  · cases ht
    exact .inr (.inr (by simp))
  · cases ht
    exact .inl rfl
  · cases ht
    exact .inl hrec

-- the reply is sent when the entry becomes SENT_INIT_CONFIRMATION
theorem replying_server (h : Replying clId s) (ht : ServerTurn clId s t) : Replying clId t := by
  intro d hd h2
  have hf := server_frame ht
  obtain ⟨texts, htexts⟩ := hf.toClient
  have keep (h : s.Awaited) : t.Awaited := by
    rcases h with h | h | h
    · exact .inl (by rwa [hf.client])
    · exact .inr (.inl (by simp [htexts, h]))
    · exact .inr (.inr (by rwa [hf.receiver]))
  cases ht with
  | input hq hm hc ha hd' hb =>
    obtain rfl := Option.some.inj (hd'.symm.trans hd)
    cases ha with
    | left _ => exact absurd h2 (show disconnectState ≠ sentInitConfirmation by decide)
    | named _ h0 =>
      simp [ClientData.incState, h0, initialState, sentInitConfirmation] at h2
    | greeted _ h2' =>
      simp [ClientData.incState, h2', sentInitConfirmation] at h2
    | kept _ _ => exact keep (h _ hc h2)
  | output hc ho hd' hb =>
    obtain rfl := Option.some.inj (hd'.symm.trans hd)
    cases ho with
    | replied _ => exact .inr (.inl (by simp))
    | flushed h3 => exact absurd (h3.symm.trans h2) (by decide)
    | kept => exact keep (h _ hc h2)
  | zero _ _ hd' _ =>
    obtain rfl := Option.some.inj (hd'.symm.trans hd)
    exact absurd h2 (show disconnectState ≠ sentInitConfirmation by decide)
  | @others b u he hb =>
    have hd' : u.sv.getClientRef clId = some d := hd
    rw [hd'] at he
    obtain ⟨c, hc, hsame⟩ := sameEntry_some he
    exact keep (h c hc ((congrArg ClientData.initState hsame).symm.trans h2))

-- the receive thread looks at init_req with a message in hand only once it is set
def LooksOnceSet (s : Session cfg) (l : SessionLabel cfg) : Prop :=
  l.isReceive = true → s.receiver.testsReq = true → s.client.initReq = true

instance (s : Session cfg) (l : SessionLabel cfg) : Decidable (s.LooksOnceSet l) :=
  inferInstanceAs (Decidable (_ → _ → _))

theorem replying_step {l : SessionLabel cfg} (hcolor : InPalette color)
    (ha : Agreeing clId color name s) (h : Replying clId s) (hp : s.LooksOnceSet l)
    (ht : Turn clId s t l) : Replying clId t := by
  cases ht with
  | send ht =>
    obtain ⟨hsh, hto, hrec, hdone⟩ := send_frame ht
    intro c hc h2
    rw [entry, hsh] at hc
    rw [Awaited, hto, hrec, hdone]
    exact h c hc h2
  | getline _ ht =>
    subst ht
    exact h
  | receive ht =>
    intro _ _ _
    exact replying_receive hcolor ha (fun text hpc => hp rfl (hpc ▸ rfl)) ht
  | eof ht =>
    subst ht
    exact h
  | server ht => exact replying_server h ht

end Replies

-- text is an answer to INIT_REQ
def IsReplyText (text : Str) : Prop :=
  ∃ m, ({} : ServerMessage).constructFromString text = .ok m ∧ m.action = getAction .initReq

def TakingReply : ReceiveLoop → Prop
  | .recv => False
  | .testReq text => IsReplyText text
  | .testDone m => m.action = getAction .initReq
  | _ => True

def ReplyKept (clId : Int) (s : Session cfg) : Prop :=
  ∀ c, s.entry clId = some c → c.initState = sentInitConfirmation →
    (∃ text ∈ s.toClient, IsReplyText text) ∨ TakingReply s.receiver ∨ s.client.initDone = true

theorem replyKept_of {clId color : Int} {name : Str} {s : Session cfg}
    (ha : Agreeing clId color name s) (h : Replying clId s) : ReplyKept clId s := by
  intro c hc h2
  have isReply {text : Str} (ht : ∃ m, IsInitReply clId color m ∧ text = m.getConcatenatedMsg) :
      IsReplyText text := by
    obtain ⟨m, hm, rfl⟩ := ht
    exact ⟨m, ServerMessage.constructFromString_getConcatenatedMsg {} hm.clean, hm.action⟩
  cases hdone : s.client.initDone with
  | true => exact .inr (.inr rfl)
  | false =>
    rcases h c hc h2 with h | h | h
    · exact absurd (hdone.symm.trans h) (by decide)
    · obtain ⟨text, ht⟩ := List.exists_mem_of_ne_nil _ h
      exact .inl ⟨text, ht, isReply (ha.replies hdone text ht)⟩
    · refine .inr (.inl ?_)
      have hrec := ha.receiver
      rw [hdone] at hrec
      cases hpc : s.receiver with
      | recv => exact absurd hpc h
      | testReq text =>
        rw [hpc] at hrec
        exact isReply (hrec rfl)
      | testDone m =>
        rw [hpc] at hrec
        exact (hrec rfl).action
      | _ => trivial

-- no reply is dropped in a run whose receive thread never gets ahead of init_req
theorem reply_kept {svSocket evfd : Nat} {s : State cfg} {env : AcceptEnv} {clId L : Int}
    {u : Shared cfg} {b : ServerMessage} {name : Str} {x : Session cfg}
    (hr : Reach State.step (fun _ _ => True) (State.init cfg svSocket evfd) s)
    (ha : Accepted s env clId u) (hb : b.Clean) (hname : splitToken ∉ name)
    (hx : Reach (step clId L) (fun x l => l.Honest ∧ x.LooksOnceSet l) (start u b name) x) :
    ReplyKept clId x := by
  have hcolor := inPalette_of_envOk ha.drawn
  have hI : Agreeing clId env.color name x ∧ Replying clId x := by
    refine hx.invariant (I := fun x => Agreeing clId env.color name x ∧ Replying clId x)
      ⟨start_agreeing ha (State.sound_of_reach hr) hb name, fun c hc h2 => ?_⟩
      fun x l y hI hl hy => ?_
    · obtain ⟨fd, hentry⟩ := ha.entry (State.sound_of_reach hr)
      obtain rfl := Option.some.inj (hentry.symm.trans hc)
      cases h2
    · have ht := agreeing_turn hname hI.1 hy
      exact ⟨agreeing_step hname hcolor hI.1 hl.1 ht, replying_step hcolor hI.1 hI.2 hl.2 ht⟩
  exact replyKept_of hI.1 hI.2

-- the reply arrives between the send of INIT_REQ and the store to init_req
def overtaken : List (SessionLabel Config.deployed) :=
  [.send, .input, .output, .receive, .receive, .send]

def replyLost (x : Session Config.deployed) : Bool :=
  ((x.entry 0).any fun c => c.initState = sentInitConfirmation) && x.toClient = [] &&
  x.receiver = .recv && !x.client.initDone

theorem overtaken_loses : ¬ ∀ x : Session Config.deployed,
    Reach (step 0 4) (fun _ l => l.Honest) (start firstEntry {} ann) x → ReplyKept 0 x := by
  intro hall
  have hrun : (run (step 0 4) (start firstEntry {} ann) overtaken).any replyLost = true := by
    decide +kernel
  have hhonest : ∀ l ∈ overtaken, l.Honest := by
    simp [overtaken, SessionLabel.Honest, SessionLabel.line]
  obtain ⟨x, hx, hlost⟩ := exists_of_run hhonest hrun
  simp only [replyLost, Bool.and_eq_true, decide_eq_true_eq, Bool.not_eq_true'] at hlost
  obtain ⟨⟨⟨hentry, hto⟩, hrec⟩, hdone⟩ := hlost
  obtain ⟨c, hc, h2⟩ := (Option.any_eq_true _ _).mp hentry
  rcases hall x hx c hc (of_decide_eq_true h2) with ⟨text, ht, _⟩ | h | h
  · rw [hto] at ht
    cases ht
  · rw [hrec] at h
    exact h
  · rw [hdone] at h
    cases h

theorem reply_kept_uninterrupted : ∃ x : Session Config.deployed,
    ((x.entry 0).any fun c => c.initState = sentInitConfirmation) = true ∧ ReplyKept 0 x := by
  have hrun : (run (guarded (step 0 4) fun x l => l.Honest ∧ x.LooksOnceSet l)
      (start firstEntry {} ann) (uninterrupted.take 7)).any
      (fun x => (x.entry 0).any fun c => c.initState = sentInitConfirmation) = true := by
    decide +kernel
  obtain ⟨x, hx, h2⟩ := exists_of_guarded hrun
  exact ⟨x, h2, reply_kept .refl firstEntry_accepted clean_default (by decide) hx⟩

end Session

end ChatApp
