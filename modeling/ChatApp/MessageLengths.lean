import ChatApp.Session
import ChatApp.SystemInvariant

namespace ChatApp

open Effects

variable {cfg : Config}

-- what start_send_loop builds before anything else: 7 is the colour a client starts with
def requestMsg (name : Str) : ServerMessage where
  action := getAction .initReq
  name := name
  colorId := Decimal.toString 7

-- the announcement of a new client as the listener sends it on
def announcedMsg (m : ServerMessage) (cl : ClientData) : ServerMessage :=
  { joinedMsg (helloMsg m cl) cl with action := getAction .unicastRepeated }

def FitsFrame (m : ServerMessage) : Prop := m.getConcatenatedMsg.length ≤ maxLen

-- m is what the worker's server_msg holds when the message is built in it
structure AllFit (m : ServerMessage) (cl : ClientData) (personalIndex : Nat) : Prop where
  reply : FitsFrame (initReplyMsg m cl)
  hello : FitsFrame (helloMsg m cl)
  announced : FitsFrame (announcedMsg m cl)
  left : FitsFrame (leftMsg (goneMsg m personalIndex cl.personalId cl))

section Builders

variable {s : Shared cfg} {m : ServerMessage} {cl : ClientData}

theorem requestMsg_sent {s t : Session cfg} (hhead : s.sender = .head)
    (hclient : s.client = { name := s.client.name }) (hmsg : s.msg = {})
    (ht : s.sendStep = some t) :
    t.toServer = s.toServer ++ [(requestMsg s.client.name).getConcatenatedMsg] := by
  have hdone : s.client.doneRequested = false := by rw [hclient]
  have hreq : s.client.initReq = false := by rw [hclient]
  have hcolor : s.client.colorId = 7 := by rw [hclient]
  simp only [Session.sendStep, hhead, hdone, hreq, Bool.false_eq_true, if_false] at ht
  split_ifs at ht
  cases ht
  simp only [hmsg, hcolor, requestMsg]

theorem processMessage_announces (hm : m.Clean) (hn : splitToken ∉ cl.name) :
    processMessage (joinedMsg (helloMsg m cl) cl).getConcatenatedMsg s =
      if s.sv.getConnectedIDs = [] then .ok () s
      else (do
        unicastRepeated (← liftExcept (stoi (Decimal.toString cl.personalId)))
          s.sv.getConnectedIDs (announcedMsg m cl).getConcatenatedMsg : Prog cfg Unit) s := by
  have hdec := ServerMessage.constructFromString_getConcatenatedMsg {}
    (joinedMsg_clean (helloMsg_clean hm hn) hn)
  rw [processMessage, hdec, bind_of_ok (liftExcept_ok _), get_bind_run]
  split_ifs with h
  · rfl
  · rfl

end Builders

section Lengths

variable {m : ServerMessage} {cl : ClientData} {personalIndex : Nat}

theorem length_getConcatenatedMsg (m : ServerMessage) :
    m.getConcatenatedMsg.length = m.threadNumber.length + m.action.length + m.fd.length +
      m.id.length + m.name.length + m.colorId.length + m.initDone.length +
      m.msgContent.length + 8 := by
  simp only [ServerMessage.getConcatenatedMsg, List.length_append, List.length_singleton]
  omega

theorem length_unicastRepeated : (getAction .unicastRepeated).length = 16 := rfl

theorem length_initReq : (getAction .initReq).length = 8 := rfl

theorem length_serverName : serverName.length = 6 := rfl

theorem length_requestMsg (name : Str) :
    (requestMsg name).getConcatenatedMsg.length = 17 + name.length := by
  have h7 : (Decimal.toString 7).length = 1 := by decide
  simp only [length_getConcatenatedMsg, requestMsg, length_initReq, h7, List.length_nil]
  omega

theorem length_initReplyMsg (m : ServerMessage) (cl : ClientData) :
    (initReplyMsg m cl).getConcatenatedMsg.length = 16 + cl.name.length +
      (Decimal.toString cl.personalId).length + (Decimal.toString cl.colorId).length +
      m.threadNumber.length + m.fd.length + m.initDone.length + m.msgContent.length := by
  simp only [length_getConcatenatedMsg, initReplyMsg, length_initReq]
  omega

theorem length_helloMsg (m : ServerMessage) (cl : ClientData) :
    (helloMsg m cl).getConcatenatedMsg.length = 55 + cl.name.length +
      (Decimal.toString cl.personalId).length + (Decimal.toString cl.colorId).length +
      m.threadNumber.length + m.fd.length + m.initDone.length := by
  have hbefore : "Hello ".toList.length = 6 := by decide
  have hafter : ", now you can chat!".toList.length = 19 := by decide
  simp only [length_getConcatenatedMsg, helloMsg, length_unicastRepeated, length_serverName,
    List.length_append, hbefore, hafter]
  omega

theorem length_announcedMsg (m : ServerMessage) (cl : ClientData) :
    (announcedMsg m cl).getConcatenatedMsg.length = 50 + cl.name.length +
      (Decimal.toString cl.personalId).length + (Decimal.toString cl.colorId).length +
      m.threadNumber.length + m.fd.length + m.initDone.length := by
  have hafter : " Has Just Connected!".toList.length = 20 := by decide
  simp only [length_getConcatenatedMsg, announcedMsg, joinedMsg, helloMsg, length_unicastRepeated,
    length_serverName, List.length_append, hafter]
  omega

theorem length_leftMsg (m : ServerMessage) (cl : ClientData) (personalIndex : Nat) :
    (leftMsg (goneMsg m personalIndex cl.personalId cl)).getConcatenatedMsg.length =
      45 + cl.name.length + (Decimal.toString cl.personalId).length +
      (Decimal.toString cl.colorId).length + (Decimal.toString personalIndex).length +
      m.fd.length + m.initDone.length := by
  have hafter : " Has just left!".toList.length = 15 := by decide
  simp only [length_getConcatenatedMsg, leftMsg, goneMsg, length_unicastRepeated,
    length_serverName, List.length_append, hafter]
  omega

end Lengths

-- what a name leaves free for the longest of the four messages
theorem allFit_iff (m : ServerMessage) (cl : ClientData) (personalIndex : Nat) :
    AllFit m cl personalIndex ↔
      cl.name.length + (Decimal.toString cl.personalId).length +
        (Decimal.toString cl.colorId).length + m.fd.length + m.initDone.length +
        max (m.threadNumber.length + max 55 (16 + m.msgContent.length))
          (45 + (Decimal.toString personalIndex).length) ≤ maxLen := by
  constructor
  · rintro ⟨hreply, hhello, _, hleft⟩
    rw [FitsFrame, length_initReplyMsg] at hreply
    rw [FitsFrame, length_helloMsg] at hhello
    rw [FitsFrame, length_leftMsg] at hleft
    omega
  · intro h
    refine ⟨?_, ?_, ?_, ?_⟩
    · rw [FitsFrame, length_initReplyMsg]
      omega
    · rw [FitsFrame, length_helloMsg]
      omega
    · rw [FitsFrame, length_announcedMsg]
      omega
    · rw [FitsFrame, length_leftMsg]
      omega

def longNamed : ClientData where
  personalId := 0
  fd := 5
  name := List.replicate 494 'n'
  colorId := 7

-- a request that a receiver can take, and an answer it cannot
theorem longName_overflows :
    FitsFrame (requestMsg longNamed.name) ∧ ¬ FitsFrame (helloMsg {} longNamed) ∧
    ¬ ∀ (cl : ClientData) (personalIndex : Nat),
      FitsFrame (requestMsg cl.name) → AllFit {} cl personalIndex := by
  have hname : longNamed.name.length = 494 := List.length_replicate
  have hrequest : FitsFrame (requestMsg longNamed.name) := by
    rw [FitsFrame, length_requestMsg, hname]
    decide
  have hhello : ¬ FitsFrame (helloMsg {} longNamed) := by
    rw [FitsFrame, length_helloMsg, hname]
    decide
  exact ⟨hrequest, hhello, fun h => hhello (h longNamed 0 hrequest).hello⟩

end ChatApp
