import ChatApp.MessageLengths
import ChatApp.WorkerFaults
import ChatApp.WorkerFrames

namespace ChatApp

open Effects Runs

variable {cfg : Config}

-- what the worker meets of a client on its turn: its entry, its message and its socket
structure Visit where
  entry : Option ClientData
  reading : Reading
  writable : Bool
  deriving DecidableEq

-- the entry that is answered, once the client's own message has been handled
def Visit.answered (v : Visit) : Option ClientData :=
  v.entry.bind fun c =>
    if v.writable ∧ (visited false c v.reading).initState = requestedInit then
      some (visited false c v.reading)
    else none

-- the reply with nothing in it that was in server_msg
def Visit.reply (v : Visit) : Option Str :=
  v.answered.map fun c => (initReplyMsg {} c).getConcatenatedMsg

def visitIn (clId : Int) (p : Buffers × Bool) : LoopTurn cfg → Option Visit
  | .client ev _ client s =>
    if client.2 = clId then
      some ⟨s.sv.getClientRef clId, reading ev p.1.msgFrame client, ev.pollOut client.1⟩
    else none
  | .gone _ => none

def inState (P : Int → Prop) [DecidablePred P] (clId : Int) (s : Shared cfg) : Bool :=
  (s.sv.getClientRef clId).any fun c => P c.initState

-- server_msg as the turn leaves it, if the client has come to SENT_INIT_CONFIRMATION in it
def replyOf (clId : Int) (b : Buffers) (s t : Shared cfg) : Option Str :=
  if inState (· ≠ sentInitConfirmation) clId s ∧ inState (· = sentInitConfirmation) clId t then
    some b.serverMsg.getConcatenatedMsg
  else none

-- the text of the INIT_REQ reply that send_msg is given on the turn
def replyIn (clId : Int) (p : Buffers × Bool) : LoopTurn cfg → Option Str
  | .client ev listenerEvfd client s =>
    match handleClient ev listenerEvfd client p.1 s with
    | .ok b t => if client.2 = clId then replyOf clId b s t else none
    | .error _ _ => none
  | .gone _ => none

-- the reply is made of the client's own entry
def OwnReply (clId : Int) (p : Buffers × Bool) (l : LoopTurn cfg) : Prop :=
  replyIn clId p l = (visitIn clId p l).bind Visit.reply

-- the fields that the reply takes over are empty
def Blank (m : ServerMessage) : Prop :=
  m.threadNumber = [] ∧ m.fd = [] ∧ m.initDone = [] ∧ m.msgContent = []

instance (m : ServerMessage) : Decidable (Blank m) := inferInstanceAs (Decidable (_ ∧ _))

-- a message of a client that waits for the reply is dropped, and stays in server_msg
def FoundBlank (m : ServerMessage) : Reading → Prop
  | .silent => Blank m
  | .message m' => m'.action ≠ getAction .clDisconnected → Blank m'
  | _ => True

instance (m : ServerMessage) (r : Reading) : Decidable (FoundBlank m r) :=
  match r with
  | .silent => inferInstanceAs (Decidable (Blank m))
  | .message m' => inferInstanceAs (Decidable (m'.action ≠ getAction .clDisconnected → Blank m'))
  | .zero => isTrue trivial
  | .fault => isTrue trivial

-- whenever a client that waits can be written to, server_msg holds nothing the reply takes over
def Unmarked (clId : Int) (p : Buffers × Bool) : LoopTurn cfg → Prop
  | .client ev _ client s => client.2 = clId → inState (· = requestedInit) clId s →
      ev.pollOut client.1 → FoundBlank p.1.serverMsg (reading ev p.1.msgFrame client)
  | .gone _ => True

instance (clId : Int) (p : Buffers × Bool) (l : LoopTurn cfg) : Decidable (Unmarked clId p l) :=
  match l with
  | .client _ _ _ _ => inferInstanceAs (Decidable (_ → _ → _ → _))
  | .gone _ => isTrue trivial

theorem initReply_eq_iff {m : ServerMessage} {c : ClientData} :
    (initReplyMsg m c).getConcatenatedMsg = (initReplyMsg {} c).getConcatenatedMsg ↔ Blank m := by
  constructor
  · intro h
    have hlen := congrArg List.length h
    simp only [length_initReplyMsg, List.length_nil, Nat.add_zero] at hlen
    have hzero : m.threadNumber.length = 0 ∧ m.fd.length = 0 ∧ m.initDone.length = 0 ∧
        m.msgContent.length = 0 := by omega
    obtain ⟨ht, hf, hd, hx⟩ := hzero
    exact ⟨List.eq_nil_of_length_eq_zero ht, List.eq_nil_of_length_eq_zero hf,
      List.eq_nil_of_length_eq_zero hd, List.eq_nil_of_length_eq_zero hx⟩
  · rintro ⟨ht, hf, hd, hx⟩
    simp only [ServerMessage.getConcatenatedMsg, initReplyMsg, ht, hf, hd, hx]

section Turns

variable {s t u : Shared cfg} {ev : Events} {client : Int × Int} {b b' : Buffers} {L clId : Int}
variable {c d : ClientData} {m m' : ServerMessage}

theorem flushQueue_entry {queue : List Str} (hc : s.sv.getClientRef clId = some c)
    (h : flushQueue clId queue s = .ok () t) :
    ∃ d, t.sv.getClientRef clId = some d ∧ d.initState = c.initState := by
  induction queue generalizing s c with
  | nil =>
    cases h
    exact ⟨c, hc, rfl⟩
  | cons msg rest ih =>
    obtain ⟨_, u, hu, h₁⟩ := bind_ok h
    obtain ⟨_, v, hv, h₂⟩ := bind_ok h₁
    cases hu
    obtain rfl := sendMsg_ok hv
    refine ih (c := { c with sendQueue := rest }) ?_ h₂
    rw [Shared.sendDone_sv]
    exact getClientRef_modifyClient hc fun _ => rfl

-- what the output half of a client's turn leaves
inductive OutputTurn (writable : Bool) (clId : Int) (b : Buffers) (c : ClientData)
    (s : Shared cfg) :
    Buffers → Shared cfg → Prop
  | replied (hw : writable = true) (h1 : c.initState = requestedInit) :
    OutputTurn writable clId b c s { b with serverMsg := initReplyMsg b.serverMsg c }
      ((s.modifyClient clId ClientData.incState).sendDone clId
        (initReplyMsg b.serverMsg c).getConcatenatedMsg)
  | silent {d : ClientData} {t : Shared cfg} (h : ¬ (writable ∧ c.initState = requestedInit))
    (hd : t.sv.getClientRef clId = some d) (hs : d.initState = c.initState) :
    OutputTurn writable clId b c s b t

theorem handleOutput_turn (hc : s.sv.getClientRef client.2 = some c)
    (h : handleOutput ev client b s = .ok b' t) :
    OutputTurn (ev.pollOut client.1) client.2 b c s b' t := by
  rcases handleOutput_done h with ⟨hw, rfl, rfl⟩ | ⟨hw, d, m, hd, hout, rfl⟩
  · exact .silent (fun hreq => absurd (hw.symm.trans hreq.1) (by decide)) hc rfl
  · obtain rfl := Option.some.inj (hc.symm.trans hd)
    have hid := getClientRef_id hc
    rw [← hid]
    cases processOutput_done hout with
    | replied h1 => exact .replied hw h1
    | flushed h3 hq =>
      obtain ⟨d, hd, hs⟩ := flushQueue_entry (hid ▸ hc) hq
      refine .silent (fun hreq => ?_) hd hs
      exact absurd (h3.symm.trans hreq.2) (by decide)
    | idle h1 => exact .silent (fun hreq => h1 hreq.2) (hid ▸ hc) rfl

theorem inputEntry_sent (h : (inputEntry m c).initState = sentInitConfirmation) :
    c.initState = sentInitConfirmation := by
  unfold inputEntry at h
  split_ifs at h with ha h0 hreq h2 hdone
  · exact absurd h (by decide : disconnectState ≠ sentInitConfirmation)
  · have hinc : c.initState + 1 = sentInitConfirmation := h
    rw [h0] at hinc
    exact absurd hinc (by decide)
  · exact h
  · exact h2
  · exact h
  · exact h

-- an entry that waits after the input half: INIT_REQ has been handled, or the message dropped
theorem processInput_waits (hc : s.sv.getClientRef clId = some c)
    (h : processInput m c L s = .ok m' t) :
    t.sv.getClientRef clId = some (inputEntry m c) ∧
      ((inputEntry m c).initState = requestedInit →
        m' = {} ∧ c.initState = initialState ∨
        m' = m ∧ c.initState = requestedInit ∧ m.action ≠ getAction .clDisconnected) := by
  obtain rfl := getClientRef_id hc
  cases processInput_done h with
  | left ha =>
    rw [inputEntry, if_pos ha]
    refine ⟨getClientRef_modifyClient hc fun _ => rfl, fun h1 => ?_⟩
    exact absurd h1 (by decide : disconnectState ≠ requestedInit)
  | named ha h0 hi =>
    rw [inputEntry, if_neg ha, if_pos h0, if_pos hi]
    exact ⟨getClientRef_modifyClient (f := fun c => { c.incState with name := m.name }) hc
      fun _ => rfl, fun _ => .inl ⟨rfl, h0⟩⟩
  | reset ha h0 hi =>
    rw [inputEntry, if_neg ha, if_pos h0, if_neg hi]
    exact ⟨hc, fun _ => .inl ⟨rfl, h0⟩⟩
  | greeted ha h2 hd =>
    have h0 : c.initState ≠ initialState := by
      rw [h2]
      decide
    rw [inputEntry, if_neg ha, if_neg h0, if_pos h2, if_pos hd, Shared.pushUp_sv,
      Shared.sendDone_sv]
    refine ⟨getClientRef_modifyClient hc fun _ => rfl, fun h1 => ?_⟩
    have hinc : c.initState + 1 = requestedInit := h1
    rw [h2] at hinc
    exact absurd hinc (by decide)
  | relayed ha h3 hu =>
    rw [inputEntry, if_neg ha, if_neg (by rw [h3]; decide), if_neg (by rw [h3]; decide)]
    refine ⟨hc, fun h1 => ?_⟩
    exact absurd (h3.symm.trans h1) (by decide)
  | kept ha h0 hd _ =>
    have hsame : inputEntry m c = c := by
      rw [inputEntry, if_neg ha, if_neg h0]
      split_ifs with h2 hdone
      · exact absurd hdone (hd h2)
      · rfl
      · rfl
    rw [hsame]
    exact ⟨hc, fun h1 => .inr ⟨rfl, h1, ha⟩⟩

theorem replyOf_entries {before after : ClientData} (hs : s.sv.getClientRef clId = some before)
    (ht : t.sv.getClientRef clId = some after) :
    replyOf clId b s t =
      if before.initState ≠ sentInitConfirmation ∧ after.initState = sentInitConfirmation then
        some b.serverMsg.getConcatenatedMsg
      else none := by
  simp only [replyOf, inState, hs, ht, Option.any_some, decide_eq_true_eq]

theorem OutputTurn.answer {writable : Bool} {before : ClientData}
    (h : OutputTurn writable clId b c u b' t) (hs : s.sv.getClientRef clId = some before)
    (hu : u.sv.getClientRef clId = some c)
    (hwaits : c.initState = requestedInit → before.initState ≠ sentInitConfirmation)
    (hsent : c.initState = sentInitConfirmation → before.initState = sentInitConfirmation) :
    replyOf clId b' s t = if writable ∧ c.initState = requestedInit then
      some (initReplyMsg b.serverMsg c).getConcatenatedMsg else none := by
  cases h with
  | replied hw h1 =>
    have ht : ((u.modifyClient clId ClientData.incState).sendDone clId
        (initReplyMsg b.serverMsg c).getConcatenatedMsg).sv.getClientRef clId =
        some c.incState := by
      rw [Shared.sendDone_sv]
      exact getClientRef_modifyClient hu fun _ => rfl
    have hafter : c.incState.initState = sentInitConfirmation := by
      change c.initState + 1 = sentInitConfirmation
      rw [h1]
      rfl
    rw [replyOf_entries hs ht, if_pos ⟨hwaits h1, hafter⟩, if_pos ⟨hw, h1⟩]
  | silent hno hd hstate =>
    rw [replyOf_entries hs hd, if_neg hno, if_neg]
    rintro ⟨hbefore, hafter⟩
    exact hbefore (hsent (hstate.symm.trans hafter))

theorem OutputTurn.sent {writable : Bool} (h : OutputTurn writable clId b c u b' t)
    (hreq : writable ∧ c.initState = requestedInit) :
    ∃ v : Shared cfg, t = v.sendDone clId (initReplyMsg b.serverMsg c).getConcatenatedMsg := by
  cases h with
  | replied _ _ => exact ⟨_, rfl⟩
  | silent hno _ _ => exact absurd hreq hno

-- what server_msg holds when the reply is built in it
structure ReplyBuilt (clId : Int) (b : Buffers) (c : ClientData) (r : Reading) (writable : Bool)
    (reply : Option Str) (t : Shared cfg) (m : ServerMessage) : Prop where
  reply : reply = if writable ∧ (visited false c r).initState = requestedInit then
    some (initReplyMsg m (visited false c r)).getConcatenatedMsg else none
  sent : writable ∧ (visited false c r).initState = requestedInit → ∃ u : Shared cfg,
    t = u.sendDone clId (initReplyMsg m (visited false c r)).getConcatenatedMsg
  blank : (visited false c r).initState = requestedInit →
    (Blank m ↔ (c.initState = requestedInit → FoundBlank b.serverMsg r))

theorem handleClient_builds (hc : s.sv.getClientRef client.2 = some c)
    (h : handleClient ev L client b s = .ok b' t) :
    ∃ m, ReplyBuilt client.2 b c (reading ev b.msgFrame client) (ev.pollOut client.1)
      (replyOf client.2 b' s t) t m := by
  have hwaiting {d : ClientData} (h1 : d.initState = requestedInit) :
      d.initState ≠ sentInitConfirmation := by
    rw [h1]
    decide
  cases handleClient_done h with
  | silent hin ho =>
    have hsilent : reading ev b.msgFrame client = .silent := by
      rw [reading, hin, if_neg Bool.false_ne_true]
    have hout := handleOutput_turn hc ho
    rw [hsilent]
    refine ⟨b.serverMsg, ?_, hout.sent, fun h1 => ⟨fun hm _ => hm, fun hm => hm h1⟩⟩
    exact hout.answer hc hc hwaiting id
  | closed hin hr _ =>
    have hgone := getClientRef_modifyClient (f := (·.setState disconnectState)) hc fun _ => rfl
    have hleft : (visited false c .zero).initState ≠ requestedInit := by
      change disconnectState ≠ requestedInit
      decide
    rw [reading_polled hin, hr]
    refine ⟨{}, ?_, fun h1 => absurd h1.2 hleft, fun h1 => absurd h1 hleft⟩
    rw [replyOf_entries hc hgone, if_neg, if_neg]
    · exact fun h1 => hleft h1.2
    · rintro ⟨_, h2⟩
      exact absurd h2 (by decide : disconnectState ≠ sentInitConfirmation)
  | @heard chunk d text m m' _ u _ hin hr hd hstr hdec hp ho =>
    obtain rfl := Option.some.inj (hc.symm.trans hd)
    have hread : (b.msgFrame.recv chunk).decode = .ok m := by
      rw [MessageFrame.decode, hstr]
      exact (ServerMessage.constructFromString_any _ _ _).trans hdec
    rw [reading_polled hin]
    simp only [hr, hread]
    obtain ⟨hentry, hheld⟩ := processInput_waits hc hp
    have hout := handleOutput_turn hentry ho
    refine ⟨m', ?_, hout.sent, fun h1 => ?_⟩
    · refine hout.answer hc hentry (fun h1 => ?_) inputEntry_sent
      rcases hheld h1 with ⟨_, h0⟩ | ⟨_, h1', _⟩
      · rw [h0]
        decide
      · exact hwaiting h1'
    · rcases hheld h1 with ⟨rfl, h0⟩ | ⟨rfl, h1', ha⟩
      · refine iff_of_true ⟨rfl, rfl, rfl, rfl⟩ fun h1' => ?_
        exact absurd (h0.symm.trans h1') (by decide)
      · exact ⟨fun hm _ _ => hm, fun hm => hm h1' ha⟩

theorem foundBlank_of_left {r : Reading} (h1 : c.initState = requestedInit)
    (hleft : (visited false c r).initState ≠ requestedInit) : FoundBlank m r := by
  cases r with
  | silent => exact absurd h1 hleft
  | zero => trivial
  | fault => trivial
  | message m' =>
    intro ha
    have hkept : inputEntry m' c = c := by
      rw [inputEntry, if_neg ha, if_neg, if_neg] <;> rw [h1] <;> decide
    refine absurd ?_ hleft
    change (inputEntry m' c).initState = requestedInit
    rw [hkept, h1]

-- the text that is read off server_msg is the one that went to send_msg
theorem replyIn_sent {p : Buffers × Bool} {l : LoopTurn cfg} {text : Str}
    (h : replyIn clId p l = some text) : ∃ ev L client s b u,
      l = .client ev L client s ∧ client.2 = clId ∧
      handleClient ev L client p.1 s = .ok b (Shared.sendDone u clId text) := by
  cases l with
  | gone m => cases h
  | client ev L client s =>
    simp only [replyIn] at h
    split at h
    · rename_i b t hb
      obtain ⟨hid, hreply⟩ := Option.ite_none_right_eq_some.mp h
      subst hid
      cases hc : s.sv.getClientRef client.2 with
      | none =>
        simp only [replyOf, inState, hc, Option.any_none, Bool.false_eq_true, false_and,
          if_false, reduceCtorEq] at hreply
      | some c =>
        obtain ⟨m, hbuilt, hsent, _⟩ := handleClient_builds hc hb
        rw [hbuilt] at hreply
        obtain ⟨hanswered, htext⟩ := Option.ite_none_right_eq_some.mp hreply
        obtain ⟨u, rfl⟩ := hsent hanswered
        rw [Option.some.inj htext] at hb
        exact ⟨ev, L, client, s, b, u, rfl, rfl, hb⟩
    · cases h

theorem ownReply_iff {p q : Buffers × Bool} {l : LoopTurn cfg} (hq : loopTurn p l = some q) :
    OwnReply clId p l ↔ Unmarked clId p l := by
  cases l with
  | gone m => exact iff_of_true rfl trivial
  | client ev L client s =>
    simp only [loopTurn] at hq
    split at hq
    · rename_i b t hb
      by_cases hid : client.2 = clId
      · subst hid
        simp only [OwnReply, Unmarked, replyIn, hb, if_true, visitIn, Option.bind_some,
          true_imp_iff]
        cases hc : s.sv.getClientRef client.2 with
        | none =>
          simp only [replyOf, inState, hc, Option.any_none, Bool.false_eq_true, false_and, if_false,
            false_imp_iff, iff_true]
          rfl
        | some c =>
          obtain ⟨m, hreply, _, hblank⟩ := handleClient_builds hc hb
          rw [hreply]
          simp only [Visit.reply, Visit.answered, Option.bind_some, inState, hc, Option.any_some,
            decide_eq_true_eq]
          split_ifs with hanswered
          · simp only [Option.map_some, Option.some.injEq, initReply_eq_iff]
            rw [hblank hanswered.2]
            exact ⟨fun hm h1 _ => hm h1, fun hm h1 => hm h1 hanswered.1⟩
          · refine iff_of_true rfl fun h1 hw => ?_
            exact foundBlank_of_left h1 fun hreq => hanswered ⟨hw, hreq⟩
      · refine iff_of_true ?_ fun hsame => absurd hsame hid
        simp only [OwnReply, replyIn, hb, hid, if_false, visitIn, Option.bind_none]
    · cases hq

end Turns

-- two loops that meet one client alike, with whatever else they meet
theorem replies_own (clId : Int) {f₁ f₂ : MessageFrame} {r₁ r₂ : List (LoopTurn cfg)}
    (h : observed loopTurn (visitIn clId) (⟨f₁, {}⟩, false) r₁ =
      observed loopTurn (visitIn clId) (⟨f₂, {}⟩, false) r₂) :
    (Every loopTurn (fun p l _ => OwnReply clId p l) (⟨f₁, {}⟩, false) r₁ ∧
      Every loopTurn (fun p l _ => OwnReply clId p l) (⟨f₂, {}⟩, false) r₂ ∧
      observed loopTurn (replyIn clId) (⟨f₁, {}⟩, false) r₁ =
        observed loopTurn (replyIn clId) (⟨f₂, {}⟩, false) r₂) ↔
    Every loopTurn (fun p l _ => Unmarked clId p l) (⟨f₁, {}⟩, false) r₁ ∧
      Every loopTurn (fun p l _ => Unmarked clId p l) (⟨f₂, {}⟩, false) r₂ := by
  have hiff (f : MessageFrame) (r : List (LoopTurn cfg)) :
      Every loopTurn (fun p l _ => OwnReply clId p l) (⟨f, {}⟩, false) r ↔
        Every loopTurn (fun p l _ => Unmarked clId p l) (⟨f, {}⟩, false) r :=
    every_congr r fun _ _ _ hq => ownReply_iff hq
  rw [← hiff, ← hiff]
  constructor
  · rintro ⟨h₁, h₂, _⟩
    exact ⟨h₁, h₂⟩
  · rintro ⟨h₁, h₂⟩
    refine ⟨h₁, h₂, ?_⟩
    rw [observed_eq_filterMap h₁, observed_eq_filterMap h₂, h]

section Leak

-- some clients ask for the reply and none of them can be written to
def asking (fds : List Int) : Events where
  pollIn x := x ∈ fds
  pollOut _ := false
  recv _ := encoded { action := getAction .initReq }

-- two clients of one worker wait for the reply: the third that joins shares it with the first
def bothAsk : List Label :=
  listenerRound false true (connection 5 6) ++ listenerRound false true (connection 7 8) ++
  listenerRound false true (connection 9 10) ++ [.start 0 freshFrame] ++
  workerRound 0 (asking [5, 6]) ++ workerRound 0 (asking [9])

-- the first says something, and the other can be written to
def saying (m : ServerMessage) : Events where
  pollIn x := x = 5
  pollOut x := x = 9
  recv _ := encoded m

-- irreducible, so that the run is left to the kernel
@[irreducible] def sayingTurns (m : ServerMessage) : List (LoopTurn Config.deployed) :=
  match run State.step (State.init Config.deployed 3 4) bothAsk with
  | some s => [.client (saying m) 4 (5, 0) s.shared, .client (saying m) 4 (9, 2) s.shared]
  | none => []

def sentAfter (m : ServerMessage) : Option (List (Int × Str)) :=
  (run State.step (State.init Config.deployed 3 4) (bothAsk ++ workerRound 0 (saying m))).map
    (·.shared.hist.sent)

def earlyChat (content : Str) : ServerMessage where
  action := getAction .unicastRepeated
  msgContent := content

theorem unmarked_of_checked (clId : Int) (p : Buffers × Bool) (ls : List (LoopTurn cfg))
    (h : checked loopTurn (fun p l => decide (Unmarked clId p l)) p ls = true) :
    Every loopTurn (fun p l _ => Unmarked clId p l) p ls := by
  have hstep (p : Buffers × Bool) (l : LoopTurn cfg) (_ : Buffers × Bool)
      (hu : decide (Unmarked clId p l) = true) : Unmarked clId p l := of_decide_eq_true hu
  exact every_of_checked hstep h

theorem replies_own_named :
    Every loopTurn (fun p l _ => OwnReply 2 p l) (⟨freshFrame, {}⟩, false)
      (sayingTurns { name := ['x'] }) ∧
    Every loopTurn (fun p l _ => OwnReply 2 p l) (⟨freshFrame, {}⟩, false)
      (sayingTurns { name := ['y'] }) ∧
    observed loopTurn (replyIn 2) (⟨freshFrame, {}⟩, false) (sayingTurns { name := ['x'] }) =
      observed loopTurn (replyIn 2) (⟨freshFrame, {}⟩, false) (sayingTurns { name := ['y'] }) := by
  have hsame : observed loopTurn (visitIn 2) (⟨freshFrame, {}⟩, false)
      (sayingTurns { name := ['x'] }) =
      observed loopTurn (visitIn 2) (⟨freshFrame, {}⟩, false) (sayingTurns { name := ['y'] }) := by
    decide +kernel
  have hx := unmarked_of_checked 2 (⟨freshFrame, {}⟩, false) (sayingTurns { name := ['x'] })
    (by decide +kernel)
  have hy := unmarked_of_checked 2 (⟨freshFrame, {}⟩, false) (sayingTurns { name := ['y'] })
    (by decide +kernel)
  exact (replies_own 2 hsame).mpr ⟨hx, hy⟩

-- what the first client says before it is answered is sent to the other
theorem earlyChat_leaks :
    sentAfter (earlyChat ['a']) = some [(2, "`INIT_REQ``2``7``a`".toList)] ∧
    sentAfter (earlyChat ['b']) = some [(2, "`INIT_REQ``2``7``b`".toList)] ∧
    ¬ ∀ (clId : Int) (f₁ f₂ : MessageFrame) (r₁ r₂ : List (LoopTurn Config.deployed)),
      observed loopTurn (visitIn clId) (⟨f₁, {}⟩, false) r₁ =
        observed loopTurn (visitIn clId) (⟨f₂, {}⟩, false) r₂ →
      observed loopTurn (replyIn clId) (⟨f₁, {}⟩, false) r₁ =
        observed loopTurn (replyIn clId) (⟨f₂, {}⟩, false) r₂ := by
  refine ⟨by decide +kernel, by decide +kernel, fun hall => ?_⟩
  have hsame := hall 2 freshFrame freshFrame (sayingTurns (earlyChat ['a']))
    (sayingTurns (earlyChat ['b'])) (by decide +kernel)
  exact absurd hsame (by decide +kernel)

end Leak

end ChatApp
