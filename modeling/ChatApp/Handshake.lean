import ChatApp.Session

namespace ChatApp

open Effects Runs

variable {cfg : Config}

def SessionLabel.line : SessionLabel cfg → Str
  | .getline buffer => buffer
  | _ => []

def SessionLabel.Honest (l : SessionLabel cfg) : Prop := splitToken ∉ l.line

instance (l : SessionLabel cfg) : Decidable l.Honest := inferInstanceAs (Decidable (_ ∉ _))

namespace Session

-- the answer to INIT_REQ, with what the server assigned
structure IsInitReply (clId color : Int) (m : ServerMessage) : Prop where
  clean : m.Clean
  action : m.action = getAction .initReq
  id : m.id = Decimal.toString clId
  colorId : m.colorId = Decimal.toString color

-- what the receive thread has in hand, by how far it has come
def Handling (clId color : Int) (done : Bool) (id : Str) (colorId : Int) : ReceiveLoop → Prop
  | .recv => True
  | .testReq text =>
    done = false → ∃ m, IsInitReply clId color m ∧ text = m.getConcatenatedMsg
  | .testDone m => done = false → IsInitReply clId color m
  | .updateColor m => done = false ∧ IsInitReply clId color m
  | .setId m => done = false ∧ IsInitReply clId color m ∧ colorId = color
  | .setDone => done = false ∧ id = Decimal.toString clId ∧ colorId = color
  | .confirm => done = true

structure Outgoing (name : Str) (done : Bool) (m : ServerMessage) : Prop where
  clean : m.Clean
  request : m.action = getAction .initReq → m.name = name
  confirm : m.action = getAction .initDone → done = true

structure EntryOk (color : Int) (name : Str) (done : Bool) (c : ClientData) : Prop where
  coloured : c.colorId = color
  named : c.initState = requestedInit ∨ c.initState = sentInitConfirmation ∨
    c.initState = initDone → c.name = name
  confirmed : c.initState = initDone → done = true

structure Agreeing (clId color : Int) (name : Str) (s : Session cfg) : Prop where
  named : s.client.name = name
  idClean : splitToken ∉ s.client.id
  msg : s.msg.Clean
  serverMsg : s.serverMsg.Clean
  line : ∀ b, s.sender = .typed b ∨ s.sender = .filled b → splitToken ∉ b
  filled : ∀ b, s.sender = .filled b →
    s.msg.action ≠ getAction .initReq ∧ s.msg.action ≠ getAction .initDone
  outgoing : ∀ text ∈ s.toServer, ∃ m,
    Outgoing name s.client.initDone m ∧ text = m.getConcatenatedMsg
  settled : s.client.initDone = true →
    s.client.id = Decimal.toString clId ∧ s.client.colorId = color
  replies : s.client.initDone = false → ∀ text ∈ s.toClient,
    ∃ m, IsInitReply clId color m ∧ text = m.getConcatenatedMsg
  receiver : Handling clId color s.client.initDone s.client.id s.client.colorId s.receiver
  entry : ∀ c, s.entry clId = some c → EntryOk color name s.client.initDone c

def InPalette (color : Int) : Prop := 1 ≤ color ∧ color ≤ 14

section Steps

variable {clId listenerEvfd color : Int} {name : Str} {s t : Session cfg}

theorem sameEntry_some {x : Option ClientData} {d : ClientData} (h : SameEntry x (some d)) :
    ∃ c, x = some c ∧ { d with sendQueue := c.sendQueue } = c := by
  cases x with
  | none => exact absurd h id
  | some c => exact ⟨c, rfl, h⟩

theorem decoded_eq {m m' m₀ : ServerMessage} (hm : m.Clean)
    (h : m₀.constructFromString m.getConcatenatedMsg = .ok m') : m = m' := by
  rw [ServerMessage.constructFromString_getConcatenatedMsg m₀ hm] at h
  exact Except.ok.inj h

theorem outgoing_append {m : ServerMessage} (h : Agreeing clId color name s)
    (hm : Outgoing name s.client.initDone m) : ∀ text ∈ s.toServer ++ [m.getConcatenatedMsg],
      ∃ m, Outgoing name s.client.initDone m ∧ text = m.getConcatenatedMsg := by
  intro text ht
  rcases List.mem_append.mp ht with ht | ht
  · exact h.outgoing text ht
  · exact ⟨m, hm, List.mem_singleton.mp ht⟩

theorem lineMsg_action (s : Session cfg) (buffer : Str) :
    (s.lineMsg buffer).action = s.msg.action := by
  unfold lineMsg
  split_ifs <;> rfl

theorem lineMsg_id (s : Session cfg) (buffer : Str) : (s.lineMsg buffer).id = s.msg.id := by
  unfold lineMsg
  split_ifs <;> rfl

theorem lineMsg_clean (h : Agreeing clId color name s) {buffer : Str}
    (hb : s.sender = .filled buffer) : (s.lineMsg buffer).Clean := by
  obtain ⟨hthr, hact, hfd, hid, hnm, _, hdone, _⟩ := clean_iff.mp h.msg
  unfold lineMsg
  split_ifs
  · exact h.msg
  · exact clean_iff.mpr ⟨hthr, hact, hfd, hid, hnm, splitToken_not_mem_toString _, hdone,
      h.line buffer (.inr hb)⟩

theorem agreeing_send (hname : splitToken ∉ name) (h : Agreeing clId color name s)
    (ht : s.sendStep = some t) : Agreeing clId color name t := by
  obtain ⟨hthr, hact, hfd, hid, hnm, hcol, hdone, hcont⟩ := clean_iff.mp h.msg
  unfold sendStep at ht
  split at ht
  · split_ifs at ht <;> cases ht
    · exact { h with line := by simp, filled := by simp }
    · exact { h with line := by simp, filled := by simp }
    · have hclean : ({ s.msg with
          action := getAction .initReq
          name := s.client.name
          colorId := Decimal.toString s.client.colorId } : ServerMessage).Clean :=
        clean_iff.mpr ⟨hthr, splitToken_not_mem_getAction .initReq, hfd, hid, h.named ▸ hname,
          splitToken_not_mem_toString _, hdone, hcont⟩
      exact { h with
        msg := hclean
        line := by simp
        filled := by simp
        outgoing := outgoing_append h ⟨hclean, fun _ => h.named, fun ha => by simp at ha⟩ }
  · cases ht
    exact { h with line := by simp, filled := by simp }
  · cases ht
  · rename_i buffer hb
    have hline := h.line buffer (.inl hb)
    split_ifs at ht with hquit hempty <;> cases ht
    · refine { h with
        msg := ?_
        line := fun b hb' => ?_
        filled := fun b _ => by simp }
      · exact clean_iff.mpr ⟨hthr, splitToken_not_mem_getAction .clDisconnected, hfd, h.idClean,
          h.named ▸ hname, hcol, hdone, hcont⟩
      · rcases hb' with hb' | hb' <;> cases hb'
        exact hline
    · exact { h with msg := clean_default, line := by simp, filled := by simp }
    · refine { h with
        msg := ?_
        line := fun b hb' => ?_
        filled := fun b _ => by simp }
      · exact clean_iff.mpr ⟨hthr, splitToken_not_mem_getAction .unicastRepeated, hfd, h.idClean,
          h.named ▸ hname, hcol, hdone, hcont⟩
      · rcases hb' with hb' | hb' <;> cases hb'
        exact hline
  · rename_i buffer hb
    cases ht
    obtain ⟨hreq, hconf⟩ := h.filled buffer hb
    rw [← lineMsg_action s buffer] at hreq hconf
    exact { h with
      msg := clean_default
      line := by simp
      filled := by simp
      outgoing := outgoing_append h ⟨lineMsg_clean h hb, fun ha => absurd ha hreq,
        fun ha => absurd ha hconf⟩ }
  · cases ht

theorem stoi_color (hcolor : InPalette color) : stoi (Decimal.toString color) = .ok color := by
  obtain ⟨h1, h14⟩ := hcolor
  exact stoi_toString (by simp only [Decimal.InRange, Decimal.intMin, Decimal.intMax]; omega)

theorem agreeing_receive (hcolor : InPalette color) (h : Agreeing clId color name s)
    (ht : s.receiveStep = some t) : Agreeing clId color name t := by
  have hrec := h.receiver
  unfold receiveStep at ht
  split at ht <;> rename_i hpc <;> rw [hpc] at hrec
  · split at ht <;> cases ht
    rename_i text rest hq
    refine { h with
      replies := fun hnot x hx => h.replies hnot x (hq ▸ List.mem_cons_of_mem _ hx)
      receiver := fun hnot => h.replies hnot text (hq ▸ List.mem_cons_self) }
  · split_ifs at ht
    · split at ht <;> cases ht
      · rename_i m hm
        refine { h with receiver := fun hnot => ?_ }
        obtain ⟨m', hreply, rfl⟩ := hrec hnot
        rw [← decoded_eq hreply.clean hm]
        exact hreply
      · exact { h with receiver := trivial }
    · cases ht
      exact { h with receiver := trivial }
  · split_ifs at ht with hdone hreq <;> cases ht
    · exact { h with receiver := trivial }
    · exact { h with receiver := ⟨by simpa using hdone, hrec (by simpa using hdone)⟩ }
    · exact { h with receiver := trivial }
  · obtain ⟨hnot, hreply⟩ := hrec
    rw [hreply.colorId, stoi_color hcolor] at ht
    simp only at ht
    split at ht <;> cases ht
    exact { h with
      settled := fun hd => absurd (hnot.symm.trans hd) (by decide)
      receiver := ⟨hnot, hreply, rfl⟩
      entry := h.entry }
  · cases ht
    obtain ⟨hnot, hreply, hcol⟩ := hrec
    exact { h with
      idClean := (clean_iff.mp hreply.clean).2.2.2.1
      settled := fun hd => absurd (hnot.symm.trans hd) (by decide)
      receiver := ⟨hnot, hreply.id, hcol⟩ }
  · cases ht
    obtain ⟨hnot, hid, hcol⟩ := hrec
    exact { h with
      outgoing := fun text ht => by
        obtain ⟨m, ⟨hm, hreq, _⟩, rfl⟩ := h.outgoing text ht
        exact ⟨m, ⟨hm, hreq, fun _ => rfl⟩, rfl⟩
      settled := fun _ => ⟨hid, hcol⟩
      replies := fun hd => by cases hd
      receiver := rfl
      entry := fun c hc => by
        obtain ⟨hcolor, hname, _⟩ := h.entry c hc
        exact ⟨hcolor, hname, fun _ => rfl⟩ }
  · cases ht
    exact { h with
      outgoing := outgoing_append h ⟨by decide, fun ha => absurd ha (by decide), fun _ => hrec⟩
      receiver := trivial }

theorem entryOk_left {c : ClientData} {done : Bool} (h : c.colorId = color) :
    EntryOk color name done (c.setState disconnectState) :=
  ⟨h, fun hs => absurd hs (show ¬ (disconnectState = requestedInit ∨
      disconnectState = sentInitConfirmation ∨ disconnectState = initDone) by decide),
    fun hs => absurd hs (show disconnectState ≠ initDone by decide)⟩

theorem answer_ok {m : ServerMessage} {c d : ClientData} {texts : List Str} {done : Bool}
    (hm : Outgoing name done m) (hc : EntryOk color name done c) (ha : Answer m c d texts) :
    EntryOk color name done d ∧ (done = false → texts = []) := by
  obtain ⟨hcolor, hname, hdone⟩ := hc
  cases ha with
  | left ha => exact ⟨entryOk_left hcolor, fun _ => rfl⟩
  | named ha h0 =>
    refine ⟨⟨hcolor, fun _ => hm.request ha, fun h => ?_⟩, fun _ => rfl⟩
    simp [ClientData.incState, h0, initialState, initDone] at h
  | greeted ha h2 =>
    have hd := hm.confirm ha
    exact ⟨⟨hcolor, fun _ => hname (.inr (.inl h2)), fun _ => hd⟩,
      fun h => absurd (h.symm.trans hd) (by decide)⟩
  | kept _ _ => exact ⟨⟨hcolor, hname, hdone⟩, fun _ => rfl⟩

theorem output_ok {b : ServerMessage} {c d : ClientData} {texts : List Str} {done : Bool}
    (hb : b.Clean) (hname : splitToken ∉ name) (hid : c.personalId = clId)
    (hc : EntryOk color name done c) (ho : Output b c d texts) :
    EntryOk color name done d ∧ (done = false → ∀ text ∈ texts,
      ∃ m, IsInitReply clId color m ∧ text = m.getConcatenatedMsg) := by
  obtain ⟨hcolor, hn, hdone⟩ := hc
  cases ho with
  | replied h1 =>
    refine ⟨⟨hcolor, fun _ => hn (.inl h1), fun h => ?_⟩, fun _ text ht => ?_⟩
    · simp [ClientData.incState, h1, requestedInit, initDone] at h
    · have hcl : (initReplyMsg b c).Clean := initReplyMsg_clean hb (hn (.inl h1) ▸ hname)
      exact ⟨initReplyMsg b c,
        ⟨hcl, rfl, congrArg Decimal.toString hid, congrArg Decimal.toString hcolor⟩,
        List.mem_singleton.mp ht⟩
  | flushed h3 =>
    exact ⟨⟨hcolor, hn, hdone⟩, fun h => absurd (h.symm.trans (hdone h3)) (by decide)⟩
  | kept => exact ⟨⟨hcolor, hn, hdone⟩, fun _ text ht => absurd ht List.not_mem_nil⟩

theorem agreeing_server (hname : splitToken ∉ name) (h : Agreeing clId color name s)
    (ht : ServerTurn clId s t) : Agreeing clId color name t := by
  cases ht with
  | @input text rest texts m b c d u hq hm hc ha hd hb =>
    have hrest : ∀ x ∈ rest, x ∈ s.toServer := fun x hx => hq ▸ List.mem_cons_of_mem _ hx
    obtain ⟨m', hout, rfl⟩ := h.outgoing text (hq ▸ List.mem_cons_self)
    obtain rfl := decoded_eq hout.clean hm
    obtain ⟨hd', htexts⟩ := answer_ok hout (h.entry c hc) ha
    refine { h with
      serverMsg := hb
      outgoing := fun x hx => h.outgoing x (hrest x hx)
      replies := fun hnot x hx => ?_
      entry := fun e he => ?_ }
    · rw [htexts hnot, List.append_nil] at hx
      exact h.replies hnot x hx
    · obtain rfl : d = e := Option.some.inj (hd.symm.trans he)
      exact hd'
  | @output texts b c d u hc ho hd hb =>
    obtain ⟨hd', htexts⟩ := output_ok h.serverMsg hname (getClientRef_id hc) (h.entry c hc) ho
    refine { h with
      serverMsg := hb
      replies := fun hnot x hx => ?_
      entry := fun e he => ?_ }
    · rcases List.mem_append.mp hx with hx | hx
      · exact h.replies hnot x hx
      · exact htexts hnot x hx
    · obtain rfl : d = e := Option.some.inj (hd.symm.trans he)
      exact hd'
  | @zero c u _ _ hd hc =>
    refine { h with entry := fun e he => ?_ }
    obtain rfl := Option.some.inj (hd.symm.trans he)
    exact entryOk_left (h.entry c hc).coloured
  | @others b u he hb =>
    refine { h with serverMsg := hb, entry := fun e hd => ?_ }
    change u.sv.getClientRef clId = some e at hd
    rw [hd] at he
    obtain ⟨c, hc, hsame⟩ := sameEntry_some he
    have hok := h.entry c hc
    rw [← hsame] at hok
    exact ⟨hok.coloured, hok.named, hok.confirmed⟩

theorem agreeing_step {l : SessionLabel cfg} (hname : splitToken ∉ name)
    (hcolor : InPalette color) (h : Agreeing clId color name s)
    (hl : l.Honest) (ht : Turn clId s t l) :
    Agreeing clId color name t := by
  cases ht with
  | send ht => exact agreeing_send hname h ht
  | getline hs ht =>
    subst ht
    refine { h with line := fun b hb => ?_, filled := by simp }
    rcases hb with hb | hb <;> cases hb
    exact hl
  | receive ht => exact agreeing_receive hcolor h ht
  | eof ht =>
    subst ht
    exact { h with entry := h.entry }
  | server ht => exact agreeing_server hname h ht

theorem agreeing_turn {l : SessionLabel cfg} (hname : splitToken ∉ name)
    (h : Agreeing clId color name s) (ht : s.step clId listenerEvfd l = some t) :
    Turn clId s t l :=
  step_turn h.serverMsg (fun c hc h1 => (h.entry c hc).named (.inl h1) ▸ hname) ht

end Steps

-- the connection has just been accepted and given its entry
structure Accepted (s : State cfg) (env : AcceptEnv) (clId : Int) (u : Shared cfg) : Prop where
  drawn : s.envOk env = true
  accepted : ∃ fd, acceptClient env s.shared = .ok (fd, clId) u
  admitted : 0 ≤ clId

def start (u : Shared cfg) (b : ServerMessage) (name : Str) : Session cfg where
  shared := u
  serverMsg := b
  client := { name := name }

theorem inPalette_of_envOk {s : State cfg} {env : AcceptEnv} (h : s.envOk env = true) :
    InPalette env.color := by
  simp only [State.envOk, Bool.and_eq_true, decide_eq_true_eq] at h
  exact h.1.1

theorem Accepted.entry {s : State cfg} {env : AcceptEnv} {clId : Int} {u : Shared cfg}
    (h : Accepted s env clId u) (hs : s.Sound) : ∃ fd, u.sv.getClientRef clId =
      some { personalId := clId, fd := fd, colorId := env.color } := by
  obtain ⟨accepts, ups, ho, _⟩ := hs.owned
  obtain ⟨fd, hacc⟩ := h.accepted
  have h0 := h.admitted
  have hent := acceptClient_entered hacc
  generalize hp : (fd, clId) = p at hent
  cases hent with
  | refused fds =>
    cases hp
    exact absurd h0 (by decide)
  | @entered n hn hfull hmax =>
    obtain ⟨rfl, rfl⟩ := Prod.mk.inj hp
    have ho' := ho.enrol hfull hmax (State.fd_of_envOk h.drawn n hn) env.color
    have hmem := (values_enrol hfull n env.color).mem_iff.mpr List.mem_cons_self
    exact ⟨n, getClientRef_of_mem ho'.nodup hmem⟩

theorem start_agreeing {s : State cfg} {env : AcceptEnv} {clId : Int} {u : Shared cfg}
    {b : ServerMessage} (h : Accepted s env clId u) (hs : s.Sound) (hb : b.Clean) (name : Str) :
    Agreeing clId env.color name (start u b name) := by
  obtain ⟨fd, hentry⟩ := h.entry hs
  refine ⟨rfl, List.not_mem_nil, clean_default, hb, by simp [start], by simp [start],
    by simp [start], by simp [start], by simp [start], trivial, fun c hc => ?_⟩
  obtain rfl := Option.some.inj (hentry.symm.trans hc)
  refine ⟨rfl, fun h => ?_, fun h => ?_⟩
  · rcases h with h | h | h <;> cases h
  · cases h

-- the states an entry goes through
def Advances (a b : Int) : Prop :=
  b = a ∨ b = disconnectState ∨ a = initialState ∧ b = requestedInit ∨
  a = requestedInit ∧ b = sentInitConfirmation ∨ a = sentInitConfirmation ∧ b = initDone

theorem incState_advances {c : ClientData} (h : c.initState = initialState ∨
    c.initState = requestedInit ∨ c.initState = sentInitConfirmation) :
    Advances c.initState c.incState.initState := by
  rcases h with h | h | h <;> simp [Advances, ClientData.incState, h, initialState, requestedInit,
    sentInitConfirmation, initDone]

theorem server_advances {s t : Session cfg} {clId : Int} {c d : ClientData}
    (ht : ServerTurn clId s t) (hc : s.entry clId = some c) (hd : t.entry clId = some d) :
    Advances c.initState d.initState := by
  cases ht with
  | input hq hm hc' ha hd' hb =>
    obtain rfl := Option.some.inj (hc.symm.trans hc')
    obtain rfl := Option.some.inj (hd.symm.trans hd')
    cases ha with
    | left _ => exact .inr (.inl rfl)
    | named _ h0 => exact incState_advances (.inl h0)
    | greeted _ h2 => exact incState_advances (.inr (.inr h2))
    | kept _ _ => exact .inl rfl
  | output hc' ho hd' hb =>
    obtain rfl := Option.some.inj (hc.symm.trans hc')
    obtain rfl := Option.some.inj (hd.symm.trans hd')
    cases ho with
    | replied h1 => exact incState_advances (.inr (.inl h1))
    | flushed _ => exact .inl rfl
    | kept => exact .inl rfl
  | zero _ _ hd' _ =>
    obtain rfl := Option.some.inj (hd.symm.trans hd')
    exact .inr (.inl rfl)
  | @others b u he hb =>
    have hd : u.sv.getClientRef clId = some d := hd
    rw [hc, hd] at he
    have hsame := congrArg ClientData.initState he
    exact .inl hsame

theorem send_shared {s t : Session cfg} (h : s.sendStep = some t) : t.shared = s.shared := by
  unfold sendStep at h
  split at h
  · split_ifs at h <;> cases h <;> rfl
  · cases h
    rfl
  · cases h
  · split_ifs at h <;> cases h <;> rfl
  · cases h
    rfl
  · cases h

theorem receive_shared {s t : Session cfg} (h : s.receiveStep = some t) :
    t.shared = s.shared := by
  unfold receiveStep at h
  split at h
  · split at h <;> cases h
    rfl
  · split_ifs at h
    · split at h <;> cases h <;> rfl
    · cases h
      rfl
  · split_ifs at h <;> cases h <;> rfl
  · split at h
    · cases h
      rfl
    · split at h <;> cases h
      rfl
  · cases h
    rfl
  · cases h
    rfl
  · cases h
    rfl

theorem turn_advances {s t : Session cfg} {clId : Int} {l : SessionLabel cfg} {c d : ClientData}
    (ht : Turn clId s t l) (hc : s.entry clId = some c) (hd : t.entry clId = some d) :
    Advances c.initState d.initState := by
  have same (h : t.shared = s.shared) : Advances c.initState d.initState := by
    rw [entry, h] at hd
    obtain rfl := Option.some.inj (hc.symm.trans hd)
    exact .inl rfl
  cases ht with
  | send h => exact same (send_shared h)
  | getline _ h =>
    subst h
    exact same rfl
  | receive h => exact same (receive_shared h)
  | eof h =>
    subst h
    exact same rfl
  | server h => exact server_advances h hc hd

theorem agreeing_of_reach {svSocket evfd : Nat} {s : State cfg} {env : AcceptEnv} {clId L : Int}
    {u : Shared cfg} {b : ServerMessage} {name : Str} {x : Session cfg}
    (hr : Reach State.step (fun _ _ => True) (State.init cfg svSocket evfd) s)
    (ha : Accepted s env clId u) (hb : b.Clean) (hname : splitToken ∉ name)
    (hx : Reach (step clId L) (fun _ l => l.Honest) (start u b name) x) :
    Agreeing clId env.color name x :=
  hx.invariant (start_agreeing ha (State.sound_of_reach hr) hb name) fun _ _ _ h hl ht =>
    agreeing_step hname (inPalette_of_envOk ha.drawn) h hl (agreeing_turn hname h ht)

-- an entry that is done speaks of a client that is done, with the same name, id and colour
theorem handshake_agrees {svSocket evfd : Nat} {s : State cfg} {env : AcceptEnv} {clId L : Int}
    {u : Shared cfg} {b : ServerMessage} {name : Str} {x : Session cfg}
    (hr : Reach State.step (fun _ _ => True) (State.init cfg svSocket evfd) s)
    (ha : Accepted s env clId u) (hb : b.Clean) (hname : splitToken ∉ name)
    (hx : Reach (step clId L) (fun _ l => l.Honest) (start u b name) x) :
    (∀ c, x.entry clId = some c → c.initState = initDone →
      x.client.initDone = true ∧ x.client.id = Decimal.toString c.personalId ∧
        x.client.colorId = c.colorId ∧ c.name = x.client.name) ∧
    ∀ l y c d, x.step clId L l = some y → x.entry clId = some c →
      y.entry clId = some d → Advances c.initState d.initState := by
  have h := agreeing_of_reach hr ha hb hname hx
  refine ⟨fun c hc h3 => ?_, fun l y c d hy hc hd =>
    turn_advances (agreeing_turn hname h hy) hc hd⟩
  obtain ⟨hcolor, hcname, hdone⟩ := h.entry c hc
  obtain ⟨hid, hcol⟩ := h.settled (hdone h3)
  have hpid : c.personalId = clId := getClientRef_id hc
  exact ⟨hdone h3, hpid ▸ hid, hcol.trans hcolor.symm,
    (hcname (.inr (.inr h3))).trans h.named.symm⟩

section Runs

-- the first connection of a fresh server
def firstEntry : Shared Config.deployed := (State.init Config.deployed 3 4).shared.enrol 5 7

def ann : Str := "ann".toList

theorem firstEntry_accepted :
    Accepted (State.init Config.deployed 3 4) (connection 5 6) 0 firstEntry :=
  ⟨by decide, ⟨5, rfl⟩, by decide⟩

def uninterrupted : List (SessionLabel Config.deployed) :=
  [.send, .send, .send, .input, .output] ++ List.replicate 7 .receive ++ [.input]

theorem handshake_agrees_uninterrupted : ∃ (x : Session Config.deployed) (c : ClientData),
    x.entry 0 = some c ∧ c.initState = initDone ∧ x.client.initDone = true ∧
    x.client.id = Decimal.toString c.personalId ∧ x.client.colorId = c.colorId ∧
    c.name = x.client.name := by
  have hrun : (run (step 0 4) (start firstEntry {} ann) uninterrupted).any
      (fun x => (x.entry 0).any fun c => c.initState = initDone) = true := by decide +kernel
  have hhonest : ∀ l ∈ uninterrupted, l.Honest := by
    simp [uninterrupted, SessionLabel.Honest, SessionLabel.line]
  obtain ⟨x, hx, h3⟩ := exists_of_run hhonest hrun
  obtain ⟨c, hc, h3⟩ := (Option.any_eq_true _ _).mp h3
  have h3 := of_decide_eq_true h3
  exact ⟨x, c, hc, h3, (handshake_agrees .refl firstEntry_accepted clean_default (by decide)
    hx).1 c hc h3⟩

end Runs

end Session

end ChatApp
