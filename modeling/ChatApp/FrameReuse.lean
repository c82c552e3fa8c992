import ChatApp.Library.Runs
import ChatApp.Framing

namespace ChatApp

open Effects Runs MessageFrame

namespace MessageFrame

-- how much of the frame a scan from its first byte reads
def filled (f : MessageFrame) : Nat := (f.msg.takeWhile (· ≠ nul)).length

-- one string from the first byte on, and NULs behind it
def Tidy (f : MessageFrame) : Prop :=
  ∃ str : Str, nul ∉ str ∧ str.length < maxLen ∧
    f.msg = str ++ List.replicate (maxLen - str.length) nul

variable {f : MessageFrame} {c : Chunk}

theorem toStdString_recv_iff (hc : nul ∉ c.bytes) :
    (f.recv c).toStdString = .ok c.bytes ↔ f.msg[c.bytes.length]? = some nul := by
  rw [toStdString_recv hc, ← List.head?_drop]
  cases f.msg.drop c.bytes.length with
  | nil => simp
  | cons x rest =>
    by_cases hx : x = nul
    · simp [hx]
    · split_ifs <;> simp [hx]

theorem tidy_clearMsg (f : MessageFrame) : f.clearMsg.Tidy :=
  ⟨[], by simp, by decide, by simp [clearMsg]⟩

theorem takeWhile_tidy {str : Str} (hn : nul ∉ str) (n : Nat) :
    (str ++ List.replicate n nul).takeWhile (· ≠ nul) = str := by
  rw [List.takeWhile_append_of_pos fun a ha => by simpa using ne_of_mem_of_not_mem ha hn]
  cases n <;> simp [List.replicate_succ]

theorem Tidy.recv (h : f.Tidy) (hc : nul ∉ c.bytes) (hl : c.bytes.length < maxLen) :
    (f.recv c).Tidy := by
  obtain ⟨str, hn, hlt, hmsg⟩ := h
  refine ⟨c.bytes ++ str.drop c.bytes.length, ?_, ?_, ?_⟩
  · rw [List.mem_append, not_or]
    exact ⟨hc, fun h => hn (List.mem_of_mem_drop h)⟩
  · rw [List.length_append, List.length_drop]
    omega
  · simp only [MessageFrame.recv, hmsg, List.drop_append, List.append_assoc, List.length_append,
      List.length_drop, List.drop_replicate]
    congr 3
    omega

theorem Tidy.get_iff (h : f.Tidy) {n : Nat} (hn : n < maxLen) :
    f.msg[n]? = some nul ↔ f.filled ≤ n := by
  obtain ⟨str, hnul, hlt, hmsg⟩ := h
  rw [filled, hmsg, takeWhile_tidy hnul]
  by_cases hle : str.length ≤ n
  · rw [List.getElem?_append_right hle, List.getElem?_replicate]
    simp [hle]
    omega
  · rw [List.getElem?_append_left (by omega)]
    refine iff_of_false (fun hget => hnul (List.mem_of_getElem? hget)) hle

end MessageFrame

namespace Client

-- one call of receive_msg_from_sv that gets a chunk, and whether send takes an answer
structure Arrival where
  chunk : Chunk
  sendOk : Bool
  deriving DecidableEq

def Arrival.env (a : Arrival) : ClientEnv := { recv := .chunk a.chunk, sendOk := a.sendOk }

def arrive (s : ClientState) (a : Arrival) : Option ClientState :=
  match receiveMsgFromSv a.env s with
  | .ok _ t => some t
  | .error _ _ => none

-- construct_from_string is given the chunk, so what follows does not look at earlier ones
def TakesChunk (s : ClientState) (a : Arrival) : Prop :=
  (s.frame.recv a.chunk).toStdString = .ok a.chunk.bytes ∧
    receiveBody a.env s =
      (lift (({} : ServerMessage).constructFromString a.chunk.bytes) >>= handleMessage a.env)
        { s with frame := s.frame.recv a.chunk }

-- the chunk covers what chunks that were not handled have left in the frame
def CoversFrame (s : ClientState) (a : Arrival) : Prop :=
  s.frame.filled ≤ a.chunk.bytes.length

def Listening (s : ClientState) : Prop := s.client.initReq = true ∧ s.frame.Tidy

def Plain (a : Arrival) : Prop := a.chunk.bytes.length < maxLen ∧ nul ∉ a.chunk.bytes

section Steps

variable {s t : ClientState} {a : Arrival} {env : ClientEnv}

theorem lift_keeps {α : Type} (x : Except Exn α) : Keeps Listening (lift x) := by
  cases x with
  | ok a => exact Keeps.pure a
  | error e => exact Keeps.throw e

theorem emit_keeps (o : ClientOut) : Keeps Listening (emit o) := Keeps.modify fun _ h => h

theorem updateColor_keeps (colorId : Int) : Keeps Listening (updateColor colorId) := by
  refine Keeps.bind (fun _ h => h) fun _ => ?_
  exact (lift_keeps _).bind fun _ => Keeps.pure _

theorem sendMsg_keeps (env : ClientEnv) (msg : Str) : Keeps Listening (sendMsg env msg) := by
  unfold sendMsg
  split_ifs
  · exact emit_keeps _
  · exact Keeps.throw _

theorem finalizeInit_keeps (env : ClientEnv) (m : ServerMessage) :
    Keeps Listening (finalizeInit env m) := by
  unfold finalizeInit
  split_ifs
  · refine (lift_keeps _).bind fun c => (updateColor_keeps c).bind fun _ => ?_
    exact Keeps.bind (fun _ h => h) fun _ => sendMsg_keeps env _
  · exact Keeps.pure _

theorem stdoutFormattedMsg_keeps (m : ServerMessage) : Keeps Listening (stdoutFormattedMsg m) := by
  unfold stdoutFormattedMsg
  split_ifs
  · cases stoi m.colorId with
    | error e => exact emit_keeps _
    | ok c =>
      refine (lift_keeps _).bind fun _ => Keeps.get.bind fun _ => ?_
      exact (lift_keeps _).bind fun _ => emit_keeps _
  · exact Keeps.pure _

theorem handleMessage_keeps (env : ClientEnv) (m : ServerMessage) :
    Keeps Listening (handleMessage env m) := by
  have hclear : Keeps Listening
      (modify fun s : ClientState => { s with frame := s.frame.clearMsg } : CProg Unit) :=
    fun s h => ⟨h.1, tidy_clearMsg s.frame⟩
  intro s hs
  rw [handleMessage, get_bind_run]
  split
  · exact ((stdoutFormattedMsg_keeps m).bind fun _ => hclear) s hs
  · exact ((finalizeInit_keeps env m).bind fun _ => hclear) s hs

theorem receiveBody_chunk (h : s.client.initReq = true) :
    receiveBody a.env s = (lift (s.frame.recv a.chunk).toStdString >>= fun str =>
      lift (({} : ServerMessage).constructFromString str) >>= handleMessage a.env)
        { s with frame := s.frame.recv a.chunk } := by
  simp only [receiveBody, Arrival.env, modify_bind_run, get_bind_run, h, if_true]

theorem arrive_listening (h : Listening s) (ha : Plain a) (ht : arrive s a = some t) :
    Listening t := by
  have hbody : Listening (final (receiveBody a.env s)) := by
    rw [receiveBody_chunk h.1]
    refine ((lift_keeps _).bind fun str => (lift_keeps _).bind fun m =>
      handleMessage_keeps a.env m) _ ⟨h.1, h.2.recv ha.2 ha.1⟩
  unfold arrive receiveMsgFromSv at ht
  cases hr : receiveBody a.env s with
  | ok _ u =>
    rw [hr] at ht hbody
    cases ht
    exact hbody
  | error e u =>
    rw [hr] at ht hbody
    cases e <;> cases ht <;> exact hbody

theorem takesChunk_iff (h : Listening s) (ha : Plain a) : TakesChunk s a ↔ CoversFrame s a := by
  rw [CoversFrame, ← h.2.get_iff ha.1, ← toStdString_recv_iff ha.2, TakesChunk,
    receiveBody_chunk h.1]
  refine and_iff_left_of_imp fun hstr => ?_
  rw [hstr]
  rfl

end Steps

theorem chunks_taken (s : ClientState) (as : List Arrival) (hreq : s.client.initReq = true)
    (hclear : s.frame = s.frame.clearMsg) (hplain : ∀ a ∈ as, Plain a) :
    Before arrive TakesChunk s as ↔ Before arrive CoversFrame s as :=
  before_iff (I := Listening) ⟨hreq, hclear ▸ tidy_clearMsg s.frame⟩ hplain
    (fun _ _ => takesChunk_iff) fun _ _ _ => arrive_listening

section Tinted

def tintMsg : ServerMessage := { chatMsg with colorId := "7".toList }

def tintChunk : Chunk := ⟨tintMsg.getConcatenatedMsg, by decide, by decide⟩

def listener : ClientState where
  client := { name := [], initReq := true, initDone := true }
  frame := freshFrame

def junkChunk : Chunk := ⟨List.replicate 40 splitToken, by decide, by decide⟩

def longTintChunk : Chunk :=
  ⟨{ tintMsg with msgContent := List.replicate 40 'x' }.getConcatenatedMsg, by decide, by decide⟩

instance (a : Arrival) : Decidable (Plain a) := inferInstanceAs (Decidable (_ ∧ _))

instance (s : ClientState) (a : Arrival) : Decidable (CoversFrame s a) :=
  inferInstanceAs (Decidable (_ ≤ _))

-- what is left of a chunk that was reported is covered by the one behind it
theorem chunks_taken_tint : Before arrive TakesChunk listener
    [⟨tintChunk, true⟩, ⟨junkChunk, true⟩, ⟨longTintChunk, true⟩, ⟨tintChunk, true⟩] := by
  have hplain : ∀ a ∈ [⟨tintChunk, true⟩, ⟨junkChunk, true⟩, ⟨longTintChunk, true⟩,
      ⟨tintChunk, true⟩], Plain a := by decide +kernel
  have hcovers : Before arrive CoversFrame listener
      [⟨tintChunk, true⟩, ⟨junkChunk, true⟩, ⟨longTintChunk, true⟩, ⟨tintChunk, true⟩] :=
    before_of_checked (fun _ _ => of_decide_eq_true) (by decide +kernel)
  exact (chunks_taken listener _ rfl rfl hplain).mpr hcovers

def shows (m : ServerMessage) (s : ClientState) : Bool := .shown m ∈ s.out

-- the tail of a chunk that was reported is read as part of the next message, which is shown
-- when it comes first
theorem junk_not_taken :
    ¬ Before arrive TakesChunk listener ([⟨junkChunk, true⟩] ++ [⟨tintChunk, true⟩]) ∧
    (run arrive listener [⟨tintChunk, true⟩]).any (shows tintMsg) = true ∧
    (run arrive listener [⟨junkChunk, true⟩, ⟨tintChunk, true⟩]).any (!shows tintMsg ·) = true := by
  refine ⟨not_before_of_run (p := fun t =>
    t.frame.msg[tintChunk.bytes.length]? == some nul) (fun t h => ?_) (by decide +kernel),
    by decide +kernel, by decide +kernel⟩
  exact beq_iff_eq.mpr ((toStdString_recv_iff (by decide)).mp h.1)

end Tinted

end Client

end ChatApp
