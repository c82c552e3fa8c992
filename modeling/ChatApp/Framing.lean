import ChatApp.Client
import ChatApp.Worker

namespace ChatApp

open Effects MessageFrame

namespace ServerMessage

def Sendable (m : ServerMessage) : Prop := m.Clean ∧ ∀ f ∈ m.toFields, nul ∉ f

instance (m : ServerMessage) : Decidable m.Sendable := by
  unfold Sendable
  infer_instance

theorem nul_not_mem {m : ServerMessage} (h : m.Sendable) : nul ∉ m.getConcatenatedMsg := by
  have hne : nul ≠ splitToken := by decide
  rw [getConcatenatedMsg_eq, Delimited.terminate, List.mem_flatMap]
  rintro ⟨f, hf, hm⟩
  rcases List.mem_append.mp hm with hm | hm
  · exact h.2 f hf hm
  · exact hne (List.mem_singleton.mp hm)

theorem constructFromString_any (m m' : ServerMessage) (s : Str) :
    m.constructFromString s = m'.constructFromString s := by
  rw [constructFromString_eq, constructFromString_eq]

end ServerMessage

namespace MessageFrame

def decode (f : MessageFrame) : Except Exn ServerMessage :=
  match f.toStdString with
  | .ok str => ({} : ServerMessage).constructFromString str
  | .error e => .error e

-- behind the first n bytes a NUL comes before any separator and before the end of the array
def QuietBehind (f : MessageFrame) (n : Nat) : Prop :=
  nul ∈ f.msg.drop n ∧ splitToken ∉ (f.msg.drop n).takeWhile (· ≠ nul)

theorem quietBehind_clearMsg (f : MessageFrame) (n : Nat) :
    f.clearMsg.QuietBehind n ↔ n < maxLen := by
  have hstop : (List.replicate (maxLen - n) nul).takeWhile (· ≠ nul) = [] := by
    cases maxLen - n with
    | zero => rfl
    | succ k => simp [List.replicate_succ]
  rw [QuietBehind, drop_clearMsg, hstop]
  simp
  omega

theorem lt_of_quietBehind {f : MessageFrame} {n : Nat} (h : f.QuietBehind n) : n < maxLen := by
  have := List.length_pos_of_mem h.1
  rw [List.length_drop, f.size] at this
  omega

section Decode

variable {f : MessageFrame} {c : Chunk} {m : ServerMessage}

theorem decode_recv (hc : nul ∉ c.bytes) :
    (f.recv c).decode = .ok m ↔ nul ∈ f.msg.drop c.bytes.length ∧
      Delimited.decode splitToken nrOfSeparations
        (c.bytes ++ (f.msg.drop c.bytes.length).takeWhile (· ≠ nul)) = some m.toFields := by
  rw [decode, toStdString_recv hc]
  split_ifs with h
  · simp only [ServerMessage.constructFromString_ok_iff, h, true_and]
  · simp [h]

theorem decode_recv_encoding (hm : m.Sendable) (hc : c.bytes = m.getConcatenatedMsg) :
    (f.recv c).decode = .ok m ↔ f.QuietBehind c.bytes.length := by
  have hnul : nul ∉ c.bytes := hc ▸ ServerMessage.nul_not_mem hm
  have he : c.bytes = Delimited.terminate splitToken m.toFields :=
    hc.trans m.getConcatenatedMsg_eq
  rw [decode_recv hnul, QuietBehind]
  refine and_congr_right fun _ => ⟨fun hd => ?_, fun hg => ?_⟩
  · have hcount : c.bytes.count splitToken = nrOfSeparations := by
      rw [he, Delimited.count_terminate hm.1]
      rfl
    exact (Delimited.chunk_of_decode (by decide) hcount hd).1
  · rw [he] at hg ⊢
    exact Delimited.decode_eq_some_iff.mpr ⟨rfl, hm.1, _, hg, rfl⟩

end Decode

end MessageFrame

-- the end of a connection that reads: its frame, whether it decodes what it reads, and what one
-- chunk makes of it, none when it reads no more
structure Receiver (σ : Type) where
  frame : σ → MessageFrame
  ready : σ → Bool
  next : σ → Chunk → Option σ

namespace Receiver

variable {σ : Type} (R : Receiver σ)

def outcomes : Option σ → List Chunk → List (Option ServerMessage)
  | _, [] => []
  | none, _ :: cs => none :: outcomes none cs
  | some s, c :: cs =>
    (if R.ready s then ((R.frame s).recv c).decode.toOption else none) :: outcomes (R.next s c) cs

def QuietBehindEach : Option σ → List Chunk → Prop
  | _, [] => True
  | none, _ :: _ => False
  | some s, c :: cs =>
    R.ready s = true ∧ (R.frame s).QuietBehind c.bytes.length ∧ QuietBehindEach (R.next s c) cs

section Stream

variable {R} {s : Option σ} {cs : List Chunk} {msgs : List ServerMessage}

@[simp] theorem length_outcomes (s : Option σ) (cs : List Chunk) :
    (R.outcomes s cs).length = cs.length := by
  induction cs generalizing s with
  | nil => cases s <;> rfl
  | cons c cs ih => cases s <;> simp [outcomes, ih]

theorem toOption_eq_some {α : Type} {x : Except Exn α} {a : α} :
    x.toOption = some a ↔ x = .ok a := by
  cases x <;> simp [Except.toOption]

theorem decodes_of_outcomes (hnul : ∀ c ∈ cs, nul ∉ c.bytes)
    (h : R.outcomes s cs = msgs.map some) :
    List.Forall₂ (fun c m => ∃ g, Delimited.decode splitToken nrOfSeparations (c ++ g) = some m)
      (cs.map Chunk.bytes) (msgs.map ServerMessage.toFields) := by
  induction cs generalizing s msgs with
  | nil =>
    have hl := congrArg List.length h
    obtain rfl : msgs = [] := by simpa [eq_comm] using hl
    exact .nil
  | cons c cs ih =>
    cases msgs with
    | nil => cases s <;> simp [outcomes] at h
    | cons m msgs =>
      cases s with
      | none => simp [outcomes] at h
      | some s =>
        simp only [outcomes, List.map_cons, List.cons.injEq] at h
        obtain ⟨hd, htail⟩ := h
        have hok : ((R.frame s).recv c).decode = .ok m := by
          split_ifs at hd with hr
          exact toOption_eq_some.mp hd
        refine .cons ⟨_, ((decode_recv (hnul c (by simp))).mp hok).2⟩ (ih ?_ htail)
        exact fun d hd => hnul d (List.mem_cons_of_mem c hd)

theorem outcomes_of_encodings (hm : ∀ m ∈ msgs, m.Sendable)
    (h : cs.map Chunk.bytes = msgs.map ServerMessage.getConcatenatedMsg) :
    R.outcomes s cs = msgs.map some ↔ R.QuietBehindEach s cs := by
  induction cs generalizing s msgs with
  | nil =>
    have hnil : msgs = [] := by simpa [eq_comm] using h
    cases s <;> simp [outcomes, QuietBehindEach, hnil]
  | cons c cs ih =>
    cases msgs with
    | nil => simp at h
    | cons m msgs =>
      simp only [List.map_cons, List.cons.injEq] at h
      have hrest := ih (s := s.bind (R.next · c)) (fun x hx => hm x (by simp [hx])) h.2
      cases s with
      | none => simp [outcomes, QuietBehindEach]
      | some s =>
        have hd := decode_recv_encoding (f := R.frame s) (hm m (by simp)) h.1
        simp only [outcomes, QuietBehindEach, List.map_cons, List.cons.injEq, Option.bind_some] at hrest ⊢
        rw [hrest, ← hd, ← toOption_eq_some]
        cases R.ready s <;> simp

theorem outcomes_iff (hm : ∀ m ∈ msgs, m.Sendable)
    (hflat : (cs.map Chunk.bytes).flatten =
      (msgs.map ServerMessage.getConcatenatedMsg).flatten) :
    R.outcomes s cs = msgs.map some ↔
      cs.map Chunk.bytes = msgs.map ServerMessage.getConcatenatedMsg ∧ R.QuietBehindEach s cs := by
  have henc : msgs.map ServerMessage.getConcatenatedMsg =
      (msgs.map ServerMessage.toFields).map (Delimited.terminate splitToken) := by
    simp [Function.comp_def, ServerMessage.getConcatenatedMsg_eq]
  have hnul : ∀ c ∈ cs, nul ∉ c.bytes := by
    intro c hc hn
    have hmem : nul ∈ (cs.map Chunk.bytes).flatten := by
      simp only [List.mem_flatten, List.mem_map]
      exact ⟨c.bytes, ⟨c, hc, rfl⟩, hn⟩
    rw [hflat] at hmem
    simp only [List.mem_flatten, List.mem_map] at hmem
    obtain ⟨_, ⟨m, hmm, rfl⟩, hn⟩ := hmem
    exact ServerMessage.nul_not_mem (hm m hmm) hn
  constructor
  · intro h
    have hcs : cs.map Chunk.bytes = msgs.map ServerMessage.getConcatenatedMsg := by
      rw [henc] at hflat ⊢
      refine Delimited.chunks_of_decodes (n := nrOfSeparations) (by decide) ?_ hflat
        (decodes_of_outcomes hnul h)
      intro fs hfs
      obtain ⟨m, hmm, rfl⟩ := List.mem_map.mp hfs
      exact ⟨rfl, (hm m hmm).1⟩
    exact ⟨hcs, (outcomes_of_encodings hm hcs).mp h⟩
  · rintro ⟨hcs, hq⟩
    exact (outcomes_of_encodings hm hcs).mpr hq

end Stream

end Receiver

section Worker

variable {cfg : Config}

-- the frame of worker_loop as one client's chunks see it
def workerReceiver : Receiver MessageFrame where
  frame f := f
  ready _ := true
  next f c :=
    match (f.recv c).decode with
    | .ok m =>
      if m.action = getAction .clDisconnected then none else some (f.recv c).clearMsg
    | .error _ => none

theorem getSelectedClientFd_run {s : Shared cfg} {clId : Int} {cl : ClientData}
    (hsv : 0 ≤ s.sv.svSocket) (hcl : s.sv.getClientRef clId = some cl) (hfd : 0 ≤ cl.fd) :
    onServer (Server.getSelectedClientFd clId) s = .ok cl.fd s := by
  have hn : ¬ s.sv.svSocket < 0 := by omega
  have hn' : ¬ cl.fd < 0 := by omega
  exact onServer_ok (by simp [Server.getSelectedClientFd, hn, hcl, hn'])

theorem handleInput_chunk {s : Shared cfg} {ev : Events} {client : Int × Int} {b : Buffers}
    {c : Chunk} {cl : ClientData} (hsv : 0 ≤ s.sv.svSocket)
    (hcl : s.sv.getClientRef client.2 = some cl) (hfd : 0 ≤ cl.fd)
    (hr : ev.recv client.1 = .chunk c) :
    handleInput ev client b s =
      match (b.msgFrame.recv c).decode with
      | .ok m => .ok (false, ⟨(b.msgFrame.recv c).clearMsg, m⟩) s
      | .error e => .error e s := by
  have hc : c.bytes.length ≠ 0 := by have := c.nonempty; omega
  have hrecv : receiveMsg b.msgFrame client.2 (ev.recv client.1) s =
      .ok (c.bytes.length, b.msgFrame.recv c) s := by
    unfold receiveMsg
    rw [bind_of_ok (getSelectedClientFd_run hsv hcl hfd), hr]
    rfl
  rw [handleInput, bind_of_ok hrecv]
  simp only [hc, if_false, get_bind_run, hcl, Option.isNone_some, Bool.false_eq_true]
  rw [decode]
  cases hstr : (b.msgFrame.recv c).toStdString with
  | error e => exact bind_of_error rfl
  | ok str =>
    rw [bind_of_ok (liftExcept_ok str)]
    simp only [ServerMessage.constructFromString_any b.serverMsg {}]
    cases ServerMessage.constructFromString {} str with
    | error e => exact bind_of_error rfl
    | ok m => exact bind_of_ok rfl

theorem processInput_clDisconnected {s : Shared cfg} {m : ServerMessage} {cl : ClientData}
    {listenerEvfd : Int} (h : m.action = getAction .clDisconnected) :
    processInput m cl listenerEvfd s =
      .ok m { s with sv := s.sv.modifyClient cl.personalId (·.setState disconnectState) } := by
  simp [processInput, h, modifyClient, disconnectState, initialState, sentInitConfirmation,
    initDone, map_run]

def WorkerQuiet (f : MessageFrame) (msgs : List ServerMessage) : Prop :=
  (∀ m ∈ msgs.head?, f.QuietBehind m.getConcatenatedMsg.length) ∧
    (∀ m ∈ msgs, m.getConcatenatedMsg.length < maxLen) ∧
    ∀ m ∈ msgs.dropLast, m.action ≠ getAction .clDisconnected

theorem workerQuiet_cons {f : MessageFrame} {m : ServerMessage} {msgs : List ServerMessage} :
    WorkerQuiet f (m :: msgs) ↔ f.QuietBehind m.getConcatenatedMsg.length ∧
      (msgs ≠ [] → m.action ≠ getAction .clDisconnected) ∧ WorkerQuiet f.clearMsg msgs := by
  simp only [WorkerQuiet, quietBehind_clearMsg]
  cases msgs with
  | nil =>
    simpa using lt_of_quietBehind
  | cons x xs =>
    simp only [List.head?_cons, Option.mem_some_iff, forall_eq', List.dropLast_cons_cons,
      List.forall_mem_cons, ne_eq, reduceCtorEq, not_false_eq_true, true_imp_iff]
    constructor
    · rintro ⟨hq, ⟨_, hx, hxs⟩, hm, hrest⟩
      exact ⟨hq, hm, hx, ⟨hx, hxs⟩, hrest⟩
    · rintro ⟨hq, hm, _, ⟨hx, hxs⟩, hrest⟩
      exact ⟨hq, ⟨lt_of_quietBehind hq, hx, hxs⟩, hm, hrest⟩

theorem quiet_worker {f : MessageFrame} {cs : List Chunk} {msgs : List ServerMessage}
    (hm : ∀ m ∈ msgs, m.Sendable)
    (h : cs.map Chunk.bytes = msgs.map ServerMessage.getConcatenatedMsg) :
    workerReceiver.QuietBehindEach (some f) cs ↔ WorkerQuiet f msgs := by
  induction msgs generalizing f cs with
  | nil =>
    obtain rfl : cs = [] := by simpa using h
    simp [Receiver.QuietBehindEach, WorkerQuiet]
  | cons m msgs ih =>
    cases cs with
    | nil => simp at h
    | cons c cs =>
      simp only [List.map_cons, List.cons.injEq] at h
      rw [workerQuiet_cons, ← h.1]
      simp only [Receiver.QuietBehindEach, workerReceiver, true_and]
      refine and_congr_right fun hq => ?_
      rw [(decode_recv_encoding (hm m (by simp)) h.1).mpr hq]
      by_cases ha : m.action = getAction .clDisconnected
      · have hnil : cs = [] ↔ msgs = [] := by
          rw [← List.map_eq_nil_iff (f := Chunk.bytes), h.2, List.map_eq_nil_iff]
        simp only [ha, if_true, ne_eq, not_true_eq_false, imp_false, not_not]
        rw [← hnil]
        cases cs with
        | nil => simp [Receiver.QuietBehindEach, hnil.mp rfl, WorkerQuiet]
        | cons d ds => simp [Receiver.QuietBehindEach]
      · have hclear : (f.recv c).clearMsg = f.clearMsg := rfl
        simp only [ha, if_false, ne_eq, not_false_eq_true, implies_true, true_and, hclear]
        exact ih (fun x hx => hm x (by simp [hx])) h.2

end Worker

-- receive_msg_from_sv, with every send of the client accepted whole
def clientReceiver : Receiver ClientState where
  frame := ClientState.frame
  ready s := s.client.initReq
  next s c :=
    match Client.receiveMsgFromSv { recv := .chunk c } s with
    | .ok _ t => some t
    | .error _ _ => none

theorem framing (msgs : List ServerMessage) (cs : List Chunk) (f : MessageFrame)
    (s : ClientState) (hm : ∀ m ∈ msgs, m.Sendable)
    (hflat : (cs.map Chunk.bytes).flatten =
      (msgs.map ServerMessage.getConcatenatedMsg).flatten) :
    (workerReceiver.outcomes (some f) cs = msgs.map some ↔
      cs.map Chunk.bytes = msgs.map ServerMessage.getConcatenatedMsg ∧ WorkerQuiet f msgs) ∧
    (clientReceiver.outcomes (some s) cs = msgs.map some ↔
      cs.map Chunk.bytes = msgs.map ServerMessage.getConcatenatedMsg ∧
        clientReceiver.QuietBehindEach (some s) cs) := by
  constructor
  · rw [Receiver.outcomes_iff hm hflat]
    exact and_congr_right fun h => quiet_worker hm h
  · exact Receiver.outcomes_iff hm hflat

section Coalesced

def chatMsg : ServerMessage where
  action := getAction .unicastRepeated
  id := "0".toList
  msgContent := "hi".toList

def chatChunk : Chunk := ⟨chatMsg.getConcatenatedMsg, by decide, by decide⟩

def coalesced : Chunk :=
  ⟨chatMsg.getConcatenatedMsg ++ chatMsg.getConcatenatedMsg, by decide, by decide⟩

def freshFrame : MessageFrame := ⟨List.replicate maxLen nul, List.length_replicate⟩

def longMsg : ServerMessage := { chatMsg with msgContent := "how are you?".toList }

def longChunk : Chunk := ⟨longMsg.getConcatenatedMsg, by decide, by decide⟩

-- three messages in three chunks, in both directions
theorem framing_chat :
    workerReceiver.outcomes (some freshFrame) [chatChunk, longChunk, chatChunk] =
      [chatMsg, longMsg, chatMsg].map some ∧
    WorkerQuiet freshFrame [chatMsg, longMsg, chatMsg] ∧
    clientReceiver.QuietBehindEach
      (some ⟨⟨[], [], 7, true, true, false⟩, freshFrame, []⟩) [chatChunk, longChunk, chatChunk] := by
  have hm : ∀ m ∈ [chatMsg, longMsg, chatMsg], m.Sendable := by decide
  obtain ⟨hworker, hclient⟩ := framing [chatMsg, longMsg, chatMsg] [chatChunk, longChunk, chatChunk]
    freshFrame ⟨⟨[], [], 7, true, true, false⟩, freshFrame, []⟩ hm rfl
  have hgot : workerReceiver.outcomes (some freshFrame) [chatChunk, longChunk, chatChunk] =
      [chatMsg, longMsg, chatMsg].map some := by decide +kernel
  have hshown : clientReceiver.outcomes (some ⟨⟨[], [], 7, true, true, false⟩, freshFrame, []⟩)
      [chatChunk, longChunk, chatChunk] = [chatMsg, longMsg, chatMsg].map some := by decide +kernel
  exact ⟨hgot, (hworker.mp hgot).2, (hclient.mp hshown).2⟩

-- two sends that one recv returns together are rejected together
theorem coalesced_rejected :
    (∀ m ∈ [chatMsg, chatMsg], m.Sendable) ∧
    ([coalesced].map Chunk.bytes).flatten =
      ([chatMsg, chatMsg].map ServerMessage.getConcatenatedMsg).flatten ∧
    workerReceiver.outcomes (some freshFrame) [coalesced] = [none] ∧
    workerReceiver.outcomes (some freshFrame) [coalesced] ≠ [chatMsg, chatMsg].map some := by
  have hm : chatMsg.Sendable := by decide
  have hnone : workerReceiver.outcomes (some freshFrame) [coalesced] = [none] := by
    have hnul : nul ∉ coalesced.bytes := by decide
    have hd : (freshFrame.recv coalesced).decode.toOption = none := by
      cases h : (freshFrame.recv coalesced).decode with
      | error e => rfl
      | ok m =>
        obtain ⟨hl, hc, t, ht, he⟩ :=
          Delimited.decode_eq_some_iff.mp ((decode_recv hnul).mp h).2
        have hcount := congrArg (List.count splitToken) he
        rw [List.count_append, List.count_append, Delimited.count_terminate hc, hl,
          List.count_eq_zero_of_not_mem ht] at hcount
        have h16 : coalesced.bytes.count splitToken = 16 := by decide
        simp only [h16, nrOfSeparations] at hcount
        omega
    simpa [Receiver.outcomes, workerReceiver] using hd
  refine ⟨by simp [hm], by simp [coalesced], hnone, ?_⟩
  rw [hnone]
  simp

end Coalesced

end ChatApp
