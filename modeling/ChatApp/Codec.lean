import ChatApp.Library.Effects
import ChatApp.Messages

namespace ChatApp

namespace ServerMessage

open Effects

-- std::getline(iss, field, split_token) on a field of the message itself
def getlineInto (field : ServerMessage → Str) (store : ServerMessage → Str → ServerMessage)
    (iss : IStringStream) : EStateM Exn ServerMessage IStringStream := do
  let m ← get
  let (iss, line) := getline iss (field m)
  set (store m line)
  return iss

def constructInPlace (str : Str) : EStateM Exn ServerMessage Unit := do
  if str.foldl (fun a b => if b = splitToken then a + 1 else a) 0 ≠ nrOfSeparations then
    throw (.runtimeError "Error in message construction. Invalid Msg format\n")
  else do
    let iss ← getlineInto threadNumber (fun m x => { m with threadNumber := x }) ⟨str, true⟩
    let iss ← getlineInto action (fun m x => { m with action := x }) iss
    let iss ← getlineInto fd (fun m x => { m with fd := x }) iss
    let iss ← getlineInto id (fun m x => { m with id := x }) iss
    let iss ← getlineInto name (fun m x => { m with name := x }) iss
    let iss ← getlineInto colorId (fun m x => { m with colorId := x }) iss
    let iss ← getlineInto initDone (fun m x => { m with initDone := x }) iss
    let _ ← getlineInto msgContent (fun m x => { m with msgContent := x }) iss

theorem getlineInto_bind_run {α : Type} (field : ServerMessage → Str)
    (store : ServerMessage → Str → ServerMessage) (iss : IStringStream)
    (k : IStringStream → EStateM Exn ServerMessage α) (m : ServerMessage) :
    (getlineInto field store iss >>= k) m =
      k (getline iss (field m)).1 (store m (getline iss (field m)).2) := rfl

-- the target is written field by field, and only after the count has been checked
theorem constructInPlace_run (str : Str) (m : ServerMessage) :
    constructInPlace str m =
      match m.constructFromString str with
      | .ok m' => .ok () m'
      | .error e => .error e m := by
  unfold constructInPlace constructFromString
  split
  · rfl
  · simp only [getlineInto_bind_run]
    rfl

section Decoded

variable {str : Str} {m m' : ServerMessage}

theorem constructInPlace_ok_iff :
    constructInPlace str m = .ok () m' ↔ m.constructFromString str = .ok m' := by
  rw [constructInPlace_run]
  split <;> simp_all

theorem constructFromString_split (h : m.constructFromString str = .ok m') :
    ∃ t, splitToken ∉ t ∧ str = Delimited.terminate splitToken m'.toFields ++ t := by
  obtain ⟨-, -, ht⟩ := Delimited.decode_eq_some_iff.mp (constructFromString_ok_iff.mp h)
  exact ht

theorem constructFromString_segments (h : m.constructFromString str = .ok m') :
    m'.toFields = (str.splitOn splitToken).dropLast := by
  obtain ⟨t, ht, rfl⟩ := constructFromString_split h
  rw [Delimited.splitOn_terminate (constructFromString_clean h) ht, List.dropLast_concat]

theorem constructFromString_prefix (h : m.constructFromString str = .ok m') :
    m'.getConcatenatedMsg = str.rdropWhile (· ≠ splitToken) := by
  obtain ⟨t, ht, rfl⟩ := constructFromString_split h
  rw [getConcatenatedMsg_eq, Delimited.rdropWhile_terminate (by simp [toFields]) ht]

end Decoded

theorem constructFromString_encoded_iff (m₀ m : ServerMessage) :
    (∃ m', m₀.constructFromString m.getConcatenatedMsg = .ok m') ↔ m.Clean := by
  rw [constructFromString_isOk_iff, getConcatenatedMsg_eq]
  exact ⟨Delimited.clean_of_count_terminate, Delimited.count_terminate⟩

theorem codec (m₀ : ServerMessage) :
    (∀ str : Str, (∃ m, constructInPlace str m₀ = .ok () m) ↔
      str.count splitToken = nrOfSeparations) ∧
    (∀ str m, constructInPlace str m₀ = .ok () m →
      m.toFields = (str.splitOn splitToken).dropLast ∧
      m.getConcatenatedMsg = str.rdropWhile (· ≠ splitToken)) ∧
    (∀ str e m, constructInPlace str m₀ = .error e m → m = m₀) ∧
    ∀ m : ServerMessage,
      ((∃ m', constructInPlace m.getConcatenatedMsg m₀ = .ok () m') ↔
        ∀ field ∈ m.toFields, splitToken ∉ field) ∧
      ∀ m', constructInPlace m.getConcatenatedMsg m₀ = .ok () m' → m' = m := by
  refine ⟨fun str => ?_, fun str m h => ?_, fun str e m h => ?_, fun m => ⟨?_, fun m' h => ?_⟩⟩
  · simp only [constructInPlace_ok_iff]
    exact constructFromString_isOk_iff m₀ str
  · have h' := constructInPlace_ok_iff.mp h
    exact ⟨constructFromString_segments h', constructFromString_prefix h'⟩
  · rw [constructInPlace_run] at h
    split at h
    · cases h
    · exact ((EStateM.Result.error.inj h).2).symm
  · simp only [constructInPlace_ok_iff]
    exact constructFromString_encoded_iff m₀ m
  · have h' := constructInPlace_ok_iff.mp h
    have hc := (constructFromString_encoded_iff m₀ m).mp ⟨m', h'⟩
    rw [constructFromString_getConcatenatedMsg m₀ hc] at h'
    exact (Except.ok.inj h').symm

end ServerMessage

end ChatApp
