import ChatApp.Library.Delimited
import ChatApp.Resources

namespace ChatApp

def splitToken : Char := Char.ofNat 96

def nrOfSeparations : Nat := 8

structure ServerMessage where
  threadNumber : Str := []
  action : Str := []
  fd : Str := []
  id : Str := []
  name : Str := []
  colorId : Str := []
  initDone : Str := []
  msgContent : Str := []
  deriving DecidableEq, Repr

structure IStringStream where
  rest : Str
  good : Bool

-- the target keeps its value only when the stream is exhausted before the call
def getline (iss : IStringStream) (target : Str) : IStringStream × Str :=
  if iss.good then
    match iss.rest.dropWhile (· ≠ splitToken) with
    | [] => (⟨[], false⟩, iss.rest.takeWhile (· ≠ splitToken))
    | _ :: rest => (⟨rest, true⟩, iss.rest.takeWhile (· ≠ splitToken))
  else (iss, target)

namespace ServerMessage

def getConcatenatedMsg (m : ServerMessage) : Str :=
  m.threadNumber ++ [splitToken] ++ m.action ++ [splitToken] ++ m.fd ++ [splitToken] ++ m.id ++
    [splitToken] ++ m.name ++ [splitToken] ++ m.colorId ++ [splitToken] ++ m.initDone ++
    [splitToken] ++ m.msgContent ++ [splitToken]

def resetMsg (_ : ServerMessage) : ServerMessage := {}

def constructFromString (m : ServerMessage) (str : Str) : Except Exn ServerMessage :=
  if str.foldl (fun a b => if b = splitToken then a + 1 else a) 0 ≠ nrOfSeparations then
    .error (.runtimeError "Error in message construction. Invalid Msg format\n")
  else
    let iss : IStringStream := ⟨str, true⟩
    let (iss, threadNumber) := getline iss m.threadNumber
    let (iss, action) := getline iss m.action
    let (iss, fd) := getline iss m.fd
    let (iss, id) := getline iss m.id
    let (iss, name) := getline iss m.name
    let (iss, colorId) := getline iss m.colorId
    let (iss, initDone) := getline iss m.initDone
    let (_, msgContent) := getline iss m.msgContent
    .ok ⟨threadNumber, action, fd, id, name, colorId, initDone, msgContent⟩

def toFields (m : ServerMessage) : List Str :=
  [m.threadNumber, m.action, m.fd, m.id, m.name, m.colorId, m.initDone, m.msgContent]

def Clean (m : ServerMessage) : Prop := Delimited.Clean splitToken m.toFields

instance (m : ServerMessage) : Decidable m.Clean :=
  inferInstanceAs (Decidable (∀ f ∈ m.toFields, splitToken ∉ f))

theorem getConcatenatedMsg_eq (m : ServerMessage) :
    m.getConcatenatedMsg = Delimited.terminate splitToken m.toFields := by
  simp [getConcatenatedMsg, toFields]

theorem count_eq_foldl (s : Str) (n : Nat) :
    s.foldl (fun a b => if b = splitToken then a + 1 else a) n = n + s.count splitToken := by
  induction s generalizing n with
  | nil => rfl
  | cons c s ih =>
    by_cases h : c = splitToken
    · simp [ih, h, Nat.add_assoc, Nat.add_comm 1]
    · simp [ih, h]

theorem getline_of_mem {s : Str} (h : splitToken ∈ s) (target : Str) :
    getline ⟨s, true⟩ target =
      (⟨(s.dropWhile (· ≠ splitToken)).tail, true⟩, s.takeWhile (· ≠ splitToken)) := by
  have hs := Delimited.split_at h
  cases hd : s.dropWhile (· ≠ splitToken) with
  | nil =>
    have hnone : splitToken ∉ s := by
      intro hm
      have := List.dropWhile_eq_nil_iff.mp hd _ hm
      simp at this
    exact absurd h hnone
  | cons c rest => simp only [getline, if_true, hd, List.tail_cons]

-- with eight separators every getline finds one, so no field keeps what it held before
theorem constructFromString_eq (m : ServerMessage) (s : Str) :
    m.constructFromString s =
      if s.count splitToken = nrOfSeparations then
        match Delimited.fields splitToken nrOfSeparations s with
        | [t, a, f, i, n, c, d, x] => .ok ⟨t, a, f, i, n, c, d, x⟩
        | _ => .error (.runtimeError "Error in message construction. Invalid Msg format\n")
      else .error (.runtimeError "Error in message construction. Invalid Msg format\n") := by
  simp only [constructFromString, count_eq_foldl, Nat.zero_add, ne_eq, ite_not]
  split
  · rename_i h
    have tailCount {k : Nat} {s : Str} (hs : s.count splitToken = k + 1) :
        (s.dropWhile (· ≠ splitToken)).tail.count splitToken = k := by
      have := Delimited.count_tail (List.count_pos_iff.mp (by omega : 0 < s.count splitToken))
      omega
    have memOf {k : Nat} {s : Str} (hs : s.count splitToken = k + 1) : splitToken ∈ s :=
      List.count_pos_iff.mp (by omega)
    have h8 : s.count splitToken = 7 + 1 := h
    have h7 := tailCount h8
    have h6 := tailCount h7
    have h5 := tailCount h6
    have h4 := tailCount h5
    have h3 := tailCount h4
    have h2 := tailCount h3
    have h1 := tailCount h2
    simp only [nrOfSeparations, Delimited.fields, getline_of_mem (memOf h8),
      getline_of_mem (memOf h7), getline_of_mem (memOf h6), getline_of_mem (memOf h5),
      getline_of_mem (memOf h4), getline_of_mem (memOf h3), getline_of_mem (memOf h2),
      getline_of_mem (memOf h1)]
  · rfl

theorem fields_eight (s : Str) : ∃ t a f i n c d x : Str,
    Delimited.fields splitToken nrOfSeparations s = [t, a, f, i, n, c, d, x] :=
  ⟨_, _, _, _, _, _, _, _, rfl⟩

theorem constructFromString_ok_iff {m m' : ServerMessage} {s : Str} :
    m.constructFromString s = .ok m' ↔
      Delimited.decode splitToken nrOfSeparations s = some m'.toFields := by
  rw [constructFromString_eq, Delimited.decode]
  split
  · obtain ⟨t, a, f, i, n, c, d, x, hf⟩ := fields_eight s
    rw [hf]
    cases m'
    simp [toFields]
  · simp

theorem constructFromString_isOk_iff (m : ServerMessage) (s : Str) :
    (∃ m', m.constructFromString s = .ok m') ↔ s.count splitToken = nrOfSeparations := by
  constructor
  · rintro ⟨m', h⟩
    have := constructFromString_ok_iff.mp h
    simp only [Delimited.decode, Option.ite_none_right_eq_some] at this
    exact this.1
  · intro h
    obtain ⟨t, a, f, i, n, c, d, x, hf⟩ := fields_eight s
    rw [constructFromString_eq, if_pos h, hf]
    exact ⟨_, rfl⟩

theorem constructFromString_clean {m m' : ServerMessage} {s : Str}
    (h : m.constructFromString s = .ok m') : m'.Clean :=
  (Delimited.decode_eq_some_iff.mp (constructFromString_ok_iff.mp h)).2.1

theorem constructFromString_getConcatenatedMsg (m₀ : ServerMessage) {m : ServerMessage}
    (h : m.Clean) : m₀.constructFromString m.getConcatenatedMsg = .ok m := by
  rw [constructFromString_ok_iff, getConcatenatedMsg_eq]
  exact Delimited.decode_terminate h

theorem getConcatenatedMsg_injective {a b : ServerMessage} (ha : a.Clean) (hb : b.Clean)
    (h : a.getConcatenatedMsg = b.getConcatenatedMsg) : a = b := by
  have e := constructFromString_getConcatenatedMsg {} ha
  rw [h, constructFromString_getConcatenatedMsg {} hb] at e
  exact (Except.ok.inj e).symm

end ServerMessage

def actionOf (text : Str) : Option Str :=
  (({} : ServerMessage).constructFromString text).toOption.map ServerMessage.action

def idOf (text : Str) : Option Str :=
  (({} : ServerMessage).constructFromString text).toOption.map ServerMessage.id

def IsChatText (text : Str) : Prop := actionOf text = some (getAction .unicastRepeated)

def IsConfirmText (text : Str) : Prop := actionOf text = some (getAction .initDone)

def IsLeaveText (text : Str) : Prop := actionOf text = some (getAction .clDisconnected)

theorem actionOf_encoded {m : ServerMessage} (h : m.Clean) :
    actionOf m.getConcatenatedMsg = some m.action := by
  rw [actionOf, ServerMessage.constructFromString_getConcatenatedMsg {} h]
  rfl

theorem idOf_encoded {m : ServerMessage} (h : m.Clean) :
    idOf m.getConcatenatedMsg = some m.id := by
  rw [idOf, ServerMessage.constructFromString_getConcatenatedMsg {} h]
  rfl

section Encoded

variable {m : ServerMessage}

theorem isChatText_iff (h : m.Clean) :
    IsChatText m.getConcatenatedMsg ↔ m.action = getAction .unicastRepeated := by
  rw [IsChatText, actionOf_encoded h, Option.some.injEq]

theorem isConfirmText_iff (h : m.Clean) :
    IsConfirmText m.getConcatenatedMsg ↔ m.action = getAction .initDone := by
  rw [IsConfirmText, actionOf_encoded h, Option.some.injEq]

theorem isLeaveText_iff (h : m.Clean) :
    IsLeaveText m.getConcatenatedMsg ↔ m.action = getAction .clDisconnected := by
  rw [IsLeaveText, actionOf_encoded h, Option.some.injEq]

end Encoded

theorem splitToken_not_mem_toString (n : Int) : splitToken ∉ Decimal.toString n :=
  Decimal.not_mem_toString (by decide) (by decide)

theorem splitToken_not_mem_getAction (a : Actions) : splitToken ∉ getAction a := by
  cases a <;> decide

theorem splitToken_not_mem_serverName : splitToken ∉ serverName := by decide

structure MessageFrame where
  msg : List Char
  size : msg.length = maxLen
  deriving DecidableEq

structure Chunk where
  bytes : List Char
  nonempty : 0 < bytes.length
  bounded : bytes.length ≤ maxLen
  deriving DecidableEq

inductive RecvResult where
  | chunk (c : Chunk)
  | zero
  | failed
  deriving DecidableEq

namespace MessageFrame

def nul : Char := Char.ofNat 0

def clearMsg (_ : MessageFrame) : MessageFrame := ⟨List.replicate maxLen nul, by simp⟩

-- recv overwrites the first bytes of the frame and leaves the rest
def recv (f : MessageFrame) (c : Chunk) : MessageFrame :=
  ⟨c.bytes ++ f.msg.drop c.bytes.length, by
    have := c.bounded
    simp [f.size]
    omega⟩

-- std::string(msg) scans for a NUL; without one inside the array it reads past its end
def toStdString (f : MessageFrame) : Except Exn Str :=
  if nul ∈ f.msg then .ok (f.msg.takeWhile (· ≠ nul)) else .error .undefinedBehaviour

section Scan

variable {f : MessageFrame} {c : Chunk}

-- a chunk without NUL is read together with what the frame holds behind it
theorem toStdString_recv (hc : nul ∉ c.bytes) :
    (f.recv c).toStdString =
      if nul ∈ f.msg.drop c.bytes.length then
        .ok (c.bytes ++ (f.msg.drop c.bytes.length).takeWhile (· ≠ nul))
      else .error .undefinedBehaviour := by
  have ht : (c.bytes ++ f.msg.drop c.bytes.length).takeWhile (· ≠ nul) =
      c.bytes ++ (f.msg.drop c.bytes.length).takeWhile (· ≠ nul) :=
    List.takeWhile_append_of_pos fun a ha => by simpa using ne_of_mem_of_not_mem ha hc
  simp only [toStdString, recv, List.mem_append, hc, false_or, ht]

theorem drop_clearMsg (f : MessageFrame) (n : Nat) :
    f.clearMsg.msg.drop n = List.replicate (maxLen - n) nul := by simp [clearMsg]

end Scan

end MessageFrame

end ChatApp
