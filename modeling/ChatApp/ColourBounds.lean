import ChatApp.Handshake
import ChatApp.QueueContents
import ChatApp.WorkerFrames

namespace ChatApp

open Effects Relation Runs

variable {cfg : Config}

-- std::stoi throws on it, or it is an index of COLOR_ARR
def InBounds (colorId : Str) : Prop :=
  ∀ c, stoi colorId = .ok c → 0 ≤ c ∧ c < Client.nrOfColors

def TintedText (text : Str) : Prop :=
  ∃ m : ServerMessage, m.Clean ∧ InBounds m.colorId ∧ text = m.getConcatenatedMsg

structure Tinted (s : Shared cfg) : Prop where
  table : ∀ c ∈ s.sv.clients.values,
    Session.InPalette c.colorId ∧ ∀ text ∈ c.sendQueue, TintedText text
  queue : ∀ text ∈ s.mgr.qWorkerToListener, TintedText text
  sent : ∀ x ∈ s.hist.sent, ∀ m,
    ({} : ServerMessage).constructFromString x.2 = .ok m → InBounds m.colorId

namespace Client

section Reading

variable {s t : ClientState} {m m' : ServerMessage} {env : ClientEnv} {a : Arrival}

end Reading

end Client

section Texts

variable {m : ServerMessage} {cl : ClientData} {text : Str}

-- what is cut off does not decode
theorem TintedText.sent (h : TintedText text) (n : Nat)
    (hm : ({} : ServerMessage).constructFromString (text.take n) = .ok m) :
    InBounds m.colorId := by
  obtain ⟨m', hclean, hcol, rfl⟩ := h
  have hcount := (ServerMessage.constructFromString_isOk_iff {} _).mp ⟨m, hm⟩
  by_cases hn : m'.getConcatenatedMsg.length ≤ n
  · rw [List.take_of_length_le hn] at hm
    obtain rfl := Session.decoded_eq hclean hm
    exact hcol
  · rw [ServerMessage.getConcatenatedMsg_eq] at hcount hn
    have hlt := Delimited.count_take_terminate hclean (Nat.lt_of_not_le hn)
    rw [hcount] at hlt
    exact absurd hlt (by simp [nrOfSeparations, ServerMessage.toFields])

theorem TintedText.decoded (h : TintedText text)
    (hm : ({} : ServerMessage).constructFromString text = .ok m) :
    text = m.getConcatenatedMsg ∧ m.Clean ∧ InBounds m.colorId := by
  obtain ⟨m', hclean, hcol, rfl⟩ := h
  obtain rfl := Session.decoded_eq hclean hm
  exact ⟨rfl, hclean, hcol⟩

end Texts

section Operations

variable {s t : Shared cfg} {m m' : ServerMessage} {cl : ClientData} {clId listenerEvfd : Int}

theorem Tinted.modifyClient {f : ClientData → ClientData} (h : Tinted s)
    (hf : ∀ c ∈ s.sv.clients.values, (f c).colorId = c.colorId ∧
      ∀ text ∈ (f c).sendQueue, TintedText text) : Tinted (s.modifyClient clId f) := by
  refine ⟨fun c hc => ?_, h.queue, h.sent⟩
  rcases mem_modifyClient hc with hc | ⟨d, hd, _, rfl⟩
  · exact h.table c hc
  · obtain ⟨hcol, hq⟩ := hf d hd
    rw [hcol]
    exact ⟨(h.table d hd).1, hq⟩

theorem Tinted.sendDone {text : Str} (h : Tinted s) (ht : TintedText text) :
    Tinted (s.sendDone clId text) := by
  have hrecord (n : Nat) (x : Int × Str) (hx : x ∈ s.hist.sent ++ [(clId, text.take n)]) (m)
      (hm : ({} : ServerMessage).constructFromString x.2 = .ok m) : InBounds m.colorId := by
    rcases List.mem_append.mp hx with hx | hx
    · exact h.sent x hx m hm
    · rw [List.mem_singleton.mp hx] at hm
      exact ht.sent n hm
  have hwhole := hrecord text.length
  rw [List.take_length] at hwhole
  unfold Shared.sendDone
  split
  · exact ⟨h.table, h.queue, hwhole⟩
  · exact ⟨h.table, h.queue, hwhole⟩
  · exact ⟨h.table, h.queue, hrecord _⟩
  · exact ⟨h.table, h.queue, h.sent⟩

theorem Tinted.pushUp (h : Tinted s) (hm : TintedText m.getConcatenatedMsg) :
    Tinted (s.pushUp listenerEvfd m) := by
  refine ⟨h.table, fun text ht => ?_, h.sent⟩
  rcases List.mem_append.mp ht with ht | ht
  · exact h.queue text ht
  · rwa [List.mem_singleton.mp ht]

theorem Tinted.flushQueue {q : List Str} (h : Tinted s) (hq : ∀ text ∈ q, TintedText text)
    (hr : ChatApp.flushQueue clId q s = .ok () t) : Tinted t := by
  induction q generalizing s with
  | nil =>
    cases hr
    exact h
  | cons text rest ih =>
    obtain ⟨htext, hrest⟩ := List.forall_mem_cons.mp hq
    obtain ⟨_, u, hu, h₁⟩ := bind_ok hr
    obtain ⟨_, v, hv, h₂⟩ := bind_ok h₁
    cases hu
    obtain rfl := sendMsg_ok hv
    refine ih (Tinted.sendDone ?_ htext) hrest h₂
    exact h.modifyClient fun c _ => ⟨rfl, hrest⟩

end Operations

section Turns

variable {s t : Shared cfg} {ev : Events} {client : Int × Int} {b b' : Buffers}
variable {listenerEvfd : Int} {clients : List (Int × Int)}

end Turns

section Delivery

variable {s : Shared cfg} {m : ServerMessage}

end Delivery

namespace State

variable {s t : State cfg}

end State

section Relayed

end Relayed

end ChatApp
