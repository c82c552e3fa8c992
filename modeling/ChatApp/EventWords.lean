import ChatApp.ClientLists
import ChatApp.EventLog

namespace ChatApp

open Effects Relation Runs

variable {cfg : Config}

-- one message pushed to the listener: by a worker thread for a client, or by the listener itself
structure Push where
  origin : Option (Nat × Int)
  text : Str
  deriving DecidableEq

structure Logged (cfg : Config) where
  state : State cfg
  log : List Push := []

def State.pushes (s : State cfg) (l : Label) (t : State cfg) : List Push :=
  match l with
  | .iterate k ev =>
    match s.threads[k]? with
    | some ⟨launch, .waiting w⟩ =>
      if t.terminated then []
      else (iterationLog ev launch w (s.withSends ev.sends).shared).map fun p =>
        ⟨some (k, p.1), p.2⟩
    | _ => []
  | _ => (pushedBy s.shared t.shared).map fun text => ⟨none, text⟩

namespace Logged

def init (cfg : Config) (svSocket listenerEvfd : Nat) : Logged cfg :=
  { state := State.init cfg svSocket listenerEvfd }

def step (g : Logged cfg) (l : Label) : Option (Logged cfg) :=
  (g.state.step l).map fun t => ⟨t, g.log ++ g.state.pushes l t⟩

-- the log is kept beside the run: every run has one
theorem exists_of_reach {C : State cfg → Label → Prop} {svSocket listenerEvfd : Nat} {s : State cfg}
    (h : Reach State.step C (State.init cfg svSocket listenerEvfd) s) :
    ∃ g, Reach step (fun g l => C g.state l) (init cfg svSocket listenerEvfd) g ∧ g.state = s := by
  induction h with
  | refl => exact ⟨_, .refl, rfl⟩
  | @tail t u l _ hc hs ih =>
    obtain ⟨g, hg, rfl⟩ := ih
    exact ⟨⟨u, g.log ++ g.state.pushes l u⟩, hg.tail hc (by simp [step, hs]), rfl⟩

end Logged

abbrev Entry := Option (Nat × Int) × ServerMessage

namespace Entry

def push (e : Entry) : Push := ⟨e.1, e.2.getConcatenatedMsg⟩

def word (es : List Entry) (k : Nat) (clId : Int) : List ServerMessage :=
  (es.filter (·.1 = some (k, clId))).map Prod.snd

def ofThread (k : Nat) (es : List (Int × ServerMessage)) : List Entry :=
  es.map fun e => (some (k, e.1), e.2)

theorem word_append (es es' : List Entry) (k : Nat) (clId : Int) :
    word (es ++ es') k clId = word es k clId ++ word es' k clId := by
  simp [word]

theorem word_ofThread (k k' : Nat) (clId : Int) (es : List (Int × ServerMessage)) :
    word (ofThread k' es) k clId = if k = k' then saidBy clId es else [] := by
  by_cases h : k = k'
  · subst h
    simp [word, ofThread, saidBy, List.filter_map, Function.comp_def]
  · simp [word, ofThread, List.filter_map, Function.comp_def, h, Ne.symm h]

theorem word_of_none {es : List Entry} (h : ∀ e ∈ es, e.1 = none) (k : Nat) (clId : Int) :
    word es k clId = [] := by
  simp only [word, List.map_eq_nil_iff, List.filter_eq_nil_iff, decide_eq_true_eq]
  intro e he hk
  rw [h e he] at hk
  cases hk

theorem mem_word {es : List Entry} {k : Nat} {clId : Int} {m : ServerMessage} :
    m ∈ word es k clId ↔ (some (k, clId), m) ∈ es := by
  simp [word]

end Entry

open Entry

-- what the log of a run says about each client, and where its clients are
structure Audited (s : State cfg) (es : List Entry) : Prop where
  tabled : s.Tabled
  words : ∀ k clId, EventWord clId (word es k clId)
  spoken : ∀ (k : Nat) th, s.threads[k]? = some th → ∀ p ∈ th.held, 0 ≤ p.2 →
    Spoken p.2 (word es k p.2) s.shared.sv ∧ ∀ k', k' ≠ k → word es k' p.2 = []
  queued : ∀ i fd clId, acceptText i fd clId ∈ s.shared.mgr.qListenerToWorker → 0 ≤ clId →
    Spoken clId [] s.shared.sv ∧ ∀ k, word es k clId = []
  given : ∀ k clId, word es k clId ≠ [] → 0 ≤ clId ∧ clId < s.shared.sv.clientDataId
  gone : ∀ k clId, ∀ m ∈ word es k clId, m.action = getAction .clDisconnected →
    clId ∉ s.held.map Prod.snd ∧
      ∀ i fd, acceptText i fd clId ∉ s.shared.mgr.qListenerToWorker
  indexed : ∀ k clId, ∀ m ∈ word es k clId, m.action = getAction .clDisconnected →
    ∃ th, s.threads[k]? = some th ∧ m.threadNumber = Decimal.toString th.launch.personalIndex

-- a step that is not an iteration: whoever is new in it has the next id
structure Uneventful (s t : State cfg) : Prop where
  threads : ∀ (k : Nat) th', t.threads[k]? = some th' →
    (∃ th, s.threads[k]? = some th ∧ ∀ p ∈ th'.held, p ∈ th.held) ∨
      ∀ p ∈ th'.held, 0 ≤ p.2 → p.2 = s.shared.sv.clientDataId
  launches : ∀ (k : Nat) th, s.threads[k]? = some th →
    ∃ th', t.threads[k]? = some th' ∧ th'.launch = th.launch
  queue : ∀ i fd clId, acceptText i fd clId ∈ t.shared.mgr.qListenerToWorker → 0 ≤ clId →
    acceptText i fd clId ∈ s.shared.mgr.qListenerToWorker ∨ clId = s.shared.sv.clientDataId
  table : ∀ m ∈ t.shared.sv.roster, m ∈ s.shared.sv.roster ∨
    m.id = s.shared.sv.clientDataId ∧ m.state = initialState
  counter : s.shared.sv.clientDataId ≤ t.shared.sv.clientDataId

section Uneventful

variable {s t : State cfg} {es n : List Entry}

theorem Spoken.roster {clId : Int} {word : List ServerMessage} {sv sv' : Server cfg}
    (h : Spoken clId word sv) (hr : ∀ m ∈ sv'.roster, m.id = clId → m ∈ sv.roster) :
    Spoken clId word sv' := by
  have back {c : ClientData} (hc : c ∈ sv'.clients.values) (hid : c.personalId = clId) :
      ∃ d ∈ sv.clients.values, d.personalId = clId ∧ d.initState = c.initState := by
    obtain ⟨d, hd, he⟩ := List.mem_map.mp (hr c.member (List.mem_map_of_mem hc) hid)
    exact ⟨d, hd, (congrArg Member.id he).trans hid, congrArg Member.state he⟩
  refine ⟨h.talk, fun c hc hid hst => ?_, fun c hc hid hst hst' => ?_⟩
  · obtain ⟨d, hd, hid', hst'⟩ := back hc hid
    exact h.joined d hd hid' (hst'.trans hst)
  · obtain ⟨d, hd, hid', he⟩ := back hc hid
    exact h.silent d hd hid' (he ▸ hst) (he ▸ hst')

theorem Uneventful.spoken_old {clId : Int} {word : List ServerMessage} (hq : Uneventful s t)
    (hne : clId ≠ s.shared.sv.clientDataId) (h : Spoken clId word s.shared.sv) :
    Spoken clId word t.shared.sv := by
  refine h.roster fun m hm hid => (hq.table m hm).resolve_right ?_
  rintro ⟨hm', _⟩
  exact hne (hid.symm.trans hm')

theorem Uneventful.spoken_new (hq : Uneventful s t) (hs : s.Sound) :
    Spoken (s.shared.sv.clientDataId : Int) [] t.shared.sv := by
  obtain ⟨accepts, ups, ho, _⟩ := hs.owned
  refine ⟨.inl rfl, fun c hc hid hst => ?_, fun _ _ _ _ _ => rfl⟩
  rcases hq.table c.member (List.mem_map_of_mem hc) with hm | ⟨_, hm⟩
  · exfalso
    refine ho.id_fresh ?_
    have hm' : c.member.pair.2 ∈ s.shared.sv.ids :=
      List.mem_map_of_mem (List.mem_map_of_mem hm)
    rwa [← hid]
  · exact absurd (hm.symm.trans hst) (by decide)

theorem Audited.word_new (h : Audited s es) (k : Nat) :
    word es k (s.shared.sv.clientDataId : Int) = [] := by
  by_contra hne
  have := (h.given k _ hne).2
  omega

theorem Uneventful.held_old (hq : Uneventful s t) {p : Int × Int} (hp : p ∈ t.held) :
    p ∈ s.held ∨ (0 ≤ p.2 → p.2 = s.shared.sv.clientDataId) := by
  obtain ⟨th', hth', hp'⟩ := List.mem_flatMap.mp hp
  obtain ⟨k, hk⟩ := List.mem_iff_getElem?.mp hth'
  rcases hq.threads k th' hk with ⟨th, hth, hsub⟩ | hnew
  · exact .inl (List.mem_flatMap.mpr ⟨th, List.mem_of_getElem? hth, hsub p hp'⟩)
  · exact .inr (hnew p hp')

theorem Audited.uneventful (h : Audited s es) (hq : Uneventful s t) (ht : t.Tabled)
    (hn : ∀ e ∈ n, e.1 = none) : Audited t (es ++ n) := by
  have hword : ∀ k clId, word (es ++ n) k clId = word es k clId := fun k clId => by
    rw [word_append, word_of_none hn, List.append_nil]
  refine ⟨ht, ?_, ?_, ?_, ?_, ?_, ?_⟩ <;> simp only [hword]
  · exact h.words
  · intro k th' hth' p hp h0
    have hnew (he : p.2 = s.shared.sv.clientDataId) :
        Spoken p.2 (word es k p.2) t.shared.sv ∧ ∀ k', k' ≠ k → word es k' p.2 = [] := by
      rw [he, h.word_new]
      exact ⟨hq.spoken_new h.tabled.sound, fun k' _ => h.word_new k'⟩
    rcases hq.threads k th' hth' with ⟨th, hth, hsub⟩ | hheld
    · by_cases he : p.2 = s.shared.sv.clientDataId
      · exact hnew he
      · obtain ⟨hsp, hother⟩ := h.spoken k th hth p (hsub p hp) h0
        exact ⟨hq.spoken_old he hsp, hother⟩
    · exact hnew (hheld p hp h0)
  · intro i fd clId hm h0
    by_cases he : clId = s.shared.sv.clientDataId
    · subst he
      exact ⟨hq.spoken_new h.tabled.sound, h.word_new⟩
    · obtain ⟨hsp, hother⟩ := h.queued i fd clId ((hq.queue i fd clId hm h0).resolve_right he) h0
      exact ⟨hq.spoken_old he hsp, hother⟩
  · intro k clId hne
    obtain ⟨h0, hlt⟩ := h.given k clId hne
    have := hq.counter
    exact ⟨h0, by omega⟩
  · intro k clId m hm ha
    obtain ⟨hheld, hqueue⟩ := h.gone k clId m hm ha
    obtain ⟨h0, hlt⟩ := h.given k clId (List.ne_nil_of_mem hm)
    refine ⟨fun hmem => ?_, fun i fd hmem => ?_⟩
    · obtain ⟨p, hp, rfl⟩ := List.mem_map.mp hmem
      rcases hq.held_old hp with hp | hnew
      · exact hheld (List.mem_map_of_mem hp)
      · have := hnew h0
        omega
    · rcases hq.queue i fd clId hmem h0 with hm' | hnew
      · exact hqueue i fd hm'
      · omega
  · intro k clId m hm ha
    obtain ⟨th, hth, hnum⟩ := h.indexed k clId m hm ha
    obtain ⟨th', hth', hl⟩ := hq.launches k th hth
    exact ⟨th', hth', hl ▸ hnum⟩

end Uneventful

section Apart

variable {held rest : List (Int × Int)} {accepts : List (Nat × Int × Int)}
variable {ups : List ServerMessage} {s : Shared cfg}

theorem Owned.apart (h : Owned (held ++ rest) accepts ups s) {p : Int × Int} (hp : p ∈ held)
    (h0 : 0 ≤ p.2) : (held.map Prod.snd).count p.2 ≤ 1 ∧ p.2 ∉ rest.map Prod.snd ∧
      p.2 ∉ accepts.map fun a => a.2.2 := by
  have hone := List.nodup_iff_count_le_one.mp h.nodup p.2
  have hh := h.holders p.2 h0
  have hpos := List.count_pos_iff.mpr (List.mem_map_of_mem (f := Prod.snd) hp)
  rw [List.map_append, List.count_append] at hh
  refine ⟨by omega, fun hm => ?_, fun hm => ?_⟩
  · have := List.count_pos_iff.mpr hm
    omega
  · have := List.count_pos_iff.mpr hm
    omega

theorem Thread.mem_rest {threads : List Thread} {k k' : Nat} {th th' : Thread} {p : Int × Int}
    {rest : List (Int × Int)} (hth : threads[k]? = some th)
    (hrest : ∀ x, ((threads.set k x).flatMap Thread.held).Perm (x.held ++ rest)) (hne : k' ≠ k)
    (hth' : threads[k']? = some th') (hp : p ∈ th'.held) : p ∈ rest := by
  -- with thread k gone, the others hold exactly the rest
  obtain ⟨l, _⟩ := th
  have hperm := hrest ⟨l, .ended ⟨[], ⟨freshFrame, {}⟩⟩⟩
  have hget : (threads.set k ⟨l, .ended ⟨[], ⟨freshFrame, {}⟩⟩⟩)[k']? = some th' := by
    rw [List.getElem?_set_ne (Ne.symm hne), hth']
  have hm := List.mem_flatMap.mpr ⟨th', List.mem_of_getElem? hget, hp⟩
  exact hperm.mem_iff.mp hm

theorem acceptText_mem (h : Owned held accepts ups s) {a : Nat × Int × Int} (ha : a ∈ accepts) :
    acceptText a.1 a.2.1 a.2.2 ∈ s.mgr.qListenerToWorker := by
  rw [h.downQueue]
  exact List.mem_map_of_mem (f := Routing.text) ha

theorem mem_accepts (h : Owned held accepts ups s) {i : Nat} {fd clId : Int}
    (hm : acceptText i fd clId ∈ s.mgr.qListenerToWorker) : (i, fd, clId) ∈ accepts := by
  rw [h.downQueue] at hm
  obtain ⟨a, ha, he⟩ := List.mem_map.mp hm
  obtain ⟨h₁, h₂, h₃⟩ := acceptText_inj.mp he
  rwa [← h₁, ← h₂, ← h₃]

end Apart

-- what one iteration of thread k did, with the words of its clients
structure Turn (s : State cfg) (k : Nat) (launch : Launch) (w w' : WorkerState) (u : Shared cfg)
    (es es' : List (Int × ServerMessage)) (kept : List (Int × Int)) (q : QueueAction) : Prop where
  thread : s.threads[k]? = some ⟨launch, .waiting w⟩
  events : ∀ e ∈ es, e.1 ∈ w.clients.map Prod.snd ∧ Event e.1 e.2
  leaves : ∀ e ∈ es', e.2.Clean ∧ IsGone e.1 e.2 ∧
    e.2.threadNumber = Decimal.toString launch.personalIndex
  parted : (w.clients.map Prod.snd).Perm (kept.map Prod.snd ++ es'.map Prod.fst)
  staying : ∀ p ∈ kept, p ∈ w.clients
  clients : w'.clients = kept ++ taken q
  taken : ∀ p ∈ taken q, ∃ i, acceptText i p.1 p.2 ∈ s.shared.mgr.qListenerToWorker
  queue : ∀ x ∈ u.mgr.qListenerToWorker, x ∈ s.shared.mgr.qListenerToWorker
  words : ∀ c word, Spoken c word s.shared.sv → Spoken c (word ++ saidBy c es) u.sv
  counter : u.sv.clientDataId = s.shared.sv.clientDataId
  ids : ∀ p ∈ w.clients, 0 ≤ p.2 ∧ p.2 < s.shared.sv.clientDataId
  once : ∀ p ∈ w.clients, (w.clients.map Prod.snd).count p.2 ≤ 1
  others : ∀ p ∈ w.clients, ∀ (k' : Nat) th, s.threads[k']? = some th → k' ≠ k →
    p.2 ∉ th.held.map Prod.snd
  waiting : ∀ p ∈ w.clients, ∀ i fd, acceptText i fd p.2 ∉ s.shared.mgr.qListenerToWorker

section Turn

variable {s : State cfg} {k : Nat} {launch : Launch} {w w' : WorkerState} {u : Shared cfg}
variable {es es' : List (Int × ServerMessage)} {kept : List (Int × Int)} {q : QueueAction}
variable {log : List Entry}

def Turn.after (_ : Turn s k launch w w' u es es' kept q) : State cfg :=
  { s with shared := u }.setPhase k ⟨launch, .waiting w⟩ (.head w')

theorem saidBy_once {clId : Int} {es : List (Int × ServerMessage)}
    (h : (es.map Prod.fst).count clId ≤ 1) (hm : clId ∈ es.map Prod.fst) :
    ∃ m, saidBy clId es = [m] ∧ (clId, m) ∈ es := by
  have hlen : (saidBy clId es).length = (es.map Prod.fst).count clId := by
    rw [saidBy, List.length_map, List.count, List.countP_map, List.countP_eq_length_filter]
    rfl
  have hpos := List.count_pos_iff.mpr hm
  obtain ⟨m, hmem⟩ := List.length_eq_one_iff.mp (by omega : (saidBy clId es).length = 1)
  refine ⟨m, hmem, ?_⟩
  have : m ∈ saidBy clId es := by
    rw [hmem]
    exact List.mem_singleton_self m
  simpa [saidBy] using this

namespace Turn

theorem word_log (_ : Turn s k launch w w' u es es' kept q) (k' : Nat) (clId : Int) :
    word (log ++ ofThread k (es ++ es')) k' clId =
      if k' = k then word log k' clId ++ (saidBy clId es ++ saidBy clId es')
      else word log k' clId := by
  rw [word_append, word_ofThread, saidBy_append]
  split_ifs <;> simp

theorem unheard (h : Turn s k launch w w' u es es' kept q) {clId : Int}
    (hc : clId ∉ w.clients.map Prod.snd) : saidBy clId es = [] ∧ saidBy clId es' = [] := by
  refine ⟨saidBy_of_not_mem fun hm => hc ?_, saidBy_of_not_mem fun hm => hc ?_⟩
  · obtain ⟨e, he, rfl⟩ := List.mem_map.mp hm
    exact (h.events e he).1
  · exact h.parted.mem_iff.mpr (List.mem_append_right _ hm)

theorem kept_stays (h : Turn s k launch w w' u es es' kept q) {p : Int × Int} (hp : p ∈ kept) :
    p.2 ∉ es'.map Prod.fst := by
  intro hm
  have hone := h.once p (h.staying p hp)
  have hkept := List.count_pos_iff.mpr (List.mem_map_of_mem (f := Prod.snd) hp)
  have hgone := List.count_pos_iff.mpr hm
  rw [h.parted.count_eq, List.count_append] at hone
  omega

theorem gone_once (h : Turn s k launch w w' u es es' kept q) {clId : Int}
    (hm : clId ∈ es'.map Prod.fst) :
    clId ∈ w.clients.map Prod.snd ∧ (es'.map Prod.fst).count clId ≤ 1 := by
  have hc := h.parted.mem_iff.mpr (List.mem_append_right _ hm)
  obtain ⟨p, hp, rfl⟩ := List.mem_map.mp hc
  have hone := h.once p hp
  rw [h.parted.count_eq, List.count_append] at hone
  exact ⟨hc, by omega⟩

theorem spoken_of (h : Turn s k launch w w' u es es' kept q) {clId : Int}
    {word : List ServerMessage} (hc : clId ∉ w.clients.map Prod.snd)
    (hs : Spoken clId word s.shared.sv) : Spoken clId word u.sv := by
  have := h.words clId word hs
  rwa [(h.unheard hc).1, List.append_nil] at this

theorem get (h : Turn s k launch w w' u es es' kept q) {k' : Nat} {th : Thread}
    (hth : h.after.threads[k']? = some th) :
    k' = k ∧ th = ⟨launch, .head w'⟩ ∨ k' ≠ k ∧ s.threads[k']? = some th := by
  have hlt := (List.getElem?_eq_some_iff.mp h.thread).1
  by_cases hk : k' = k
  · subst hk
    have : h.after.threads[k']? = some ⟨launch, .head w'⟩ := List.getElem?_set_self hlt
    rw [this] at hth
    exact .inl ⟨rfl, (Option.some.inj hth).symm⟩
  · have : h.after.threads[k']? = s.threads[k']? := List.getElem?_set_ne (Ne.symm hk)
    exact .inr ⟨hk, this ▸ hth⟩

theorem not_taken (h : Turn s k launch w w' u es es' kept q) {clId : Int}
    (hc : clId ∈ w.clients.map Prod.snd) : clId ∉ (ChatApp.taken q).map Prod.snd := by
  intro hm
  obtain ⟨p, hp, rfl⟩ := List.mem_map.mp hm
  obtain ⟨i, hi⟩ := h.taken p hp
  obtain ⟨p', hp', he⟩ := List.mem_map.mp hc
  exact h.waiting p' hp' i p.1 (he.symm ▸ hi)

theorem held_after (h : Turn s k launch w w' u es es' kept q) {clId : Int}
    (hm : clId ∈ h.after.held.map Prod.snd) :
    clId ∈ w'.clients.map Prod.snd ∨
      ∃ (k' : Nat) (th : Thread), k' ≠ k ∧ s.threads[k']? = some th ∧
        clId ∈ th.held.map Prod.snd := by
  obtain ⟨p, hp, rfl⟩ := List.mem_map.mp hm
  obtain ⟨th, hth, hpt⟩ := List.mem_flatMap.mp hp
  obtain ⟨k', hk'⟩ := List.mem_iff_getElem?.mp hth
  rcases h.get hk' with ⟨rfl, rfl⟩ | ⟨hne, hold⟩
  · exact .inl (List.mem_map_of_mem hpt)
  · exact .inr ⟨k', th, hne, hold, List.mem_map_of_mem hpt⟩

theorem held_before (h : Turn s k launch w w' u es es' kept q) {clId : Int}
    (hm : clId ∈ h.after.held.map Prod.snd) :
    clId ∈ s.held.map Prod.snd ∨
      ∃ i fd, acceptText i fd clId ∈ s.shared.mgr.qListenerToWorker := by
  have hold {k' : Nat} {th : Thread} (hth : s.threads[k']? = some th)
      (hc : clId ∈ th.held.map Prod.snd) : clId ∈ s.held.map Prod.snd := by
    obtain ⟨p, hp, rfl⟩ := List.mem_map.mp hc
    exact List.mem_map_of_mem (List.mem_flatMap.mpr ⟨th, List.mem_of_getElem? hth, hp⟩)
  rcases h.held_after hm with hc | ⟨k', th, _, hth, hc⟩
  · rw [h.clients, List.map_append] at hc
    rcases List.mem_append.mp hc with hc | hc
    · obtain ⟨p, hp, rfl⟩ := List.mem_map.mp hc
      exact .inl (hold h.thread (List.mem_map_of_mem (h.staying p hp)))
    · obtain ⟨p, hp, rfl⟩ := List.mem_map.mp hc
      obtain ⟨i, hi⟩ := h.taken p hp
      exact .inr ⟨i, p.1, hi⟩
  · exact .inl (hold hth hc)

end Turn

theorem event_not_gone {clId : Int} {m : ServerMessage} (h : Event clId m) :
    m.action ≠ getAction .clDisconnected := by
  rcases h.kind with ⟨ha, _⟩ | ha
  · rw [ha]
    decide
  · rw [ha]
    decide

theorem Audited.self {p : Int × Int} (h : Audited s log)
    (ht : Turn s k launch w w' u es es' kept q) (hp : p ∈ w.clients) :
    Spoken p.2 (word log k p.2) s.shared.sv ∧ ∀ k', k' ≠ k → word log k' p.2 = [] :=
  h.spoken k _ ht.thread p hp (ht.ids p hp).1

-- a CL_DISCONNECTED of the new log was there before or comes from the removal pass
theorem Turn.gone_cases {k' : Nat} {clId : Int} {m : ServerMessage}
    (ht : Turn s k launch w w' u es es' kept q)
    (hm : m ∈ word (log ++ ofThread k (es ++ es')) k' clId)
    (ha : m.action = getAction .clDisconnected) :
    m ∈ word log k' clId ∨ k' = k ∧ (clId, m) ∈ es' := by
  rw [mem_word, List.mem_append] at hm
  rcases hm with hm | hm
  · exact .inl (mem_word.mpr hm)
  · obtain ⟨e, he, heq⟩ := List.mem_map.mp hm
    simp only [Prod.mk.injEq, Option.some.injEq] at heq
    obtain ⟨⟨rfl, rfl⟩, rfl⟩ := heq
    rcases List.mem_append.mp he with he | he
    · exact absurd ha (event_not_gone (ht.events e he).2)
    · exact .inr ⟨rfl, he⟩

theorem Audited.turn_words (h : Audited s log) (ht : Turn s k launch w w' u es es' kept q)
    (k' : Nat) (clId : Int) : EventWord clId (word (log ++ ofThread k (es ++ es')) k' clId) := by
  rw [ht.word_log]
  split_ifs with hk
  · subst hk
    by_cases hc : clId ∈ w.clients.map Prod.snd
    · obtain ⟨p, hp, rfl⟩ := List.mem_map.mp hc
      have hsp := ht.words p.2 _ (h.self ht hp).1
      rw [← List.append_assoc]
      by_cases hl : p.2 ∈ es'.map Prod.fst
      · obtain ⟨m, hm, hmem⟩ := saidBy_once (ht.gone_once hl).2 hl
        rw [hm]
        exact hsp.talk.leave (ht.leaves _ hmem).2.1
      · rw [saidBy_of_not_mem hl, List.append_nil]
        exact hsp.talk.eventWord
    · obtain ⟨h₁, h₂⟩ := ht.unheard hc
      rw [h₁, h₂, List.append_nil, List.append_nil]
      exact h.words k' clId
  · exact h.words k' clId

theorem Turn.word_other {clId : Int} (ht : Turn s k launch w w' u es es' kept q)
    (hc : clId ∉ w.clients.map Prod.snd) (k' : Nat) :
    word (log ++ ofThread k (es ++ es')) k' clId = word log k' clId := by
  obtain ⟨h₁, h₂⟩ := ht.unheard hc
  rw [ht.word_log, h₁, h₂, List.append_nil, List.append_nil, ite_self]

theorem Audited.turn_spoken (h : Audited s log) (ht : Turn s k launch w w' u es es' kept q)
    {k' : Nat} {th : Thread} (hth : ht.after.threads[k']? = some th) {p : Int × Int}
    (hp : p ∈ th.held) (h0 : 0 ≤ p.2) :
    Spoken p.2 (word (log ++ ofThread k (es ++ es')) k' p.2) u.sv ∧
      ∀ k'', k'' ≠ k' → word (log ++ ofThread k (es ++ es')) k'' p.2 = [] := by
  rcases ht.get hth with ⟨rfl, rfl⟩ | ⟨hne, hold⟩
  · have hp : p ∈ w'.clients := hp
    rw [ht.clients] at hp
    rcases List.mem_append.mp hp with hp | hp
    · obtain ⟨hsp, hother⟩ := h.self ht (ht.staying p hp)
      refine ⟨?_, fun k'' hk => ?_⟩
      · rw [ht.word_log, if_pos rfl, saidBy_of_not_mem (ht.kept_stays hp), List.append_nil]
        exact ht.words p.2 _ hsp
      · rw [ht.word_log, if_neg hk]
        exact hother k'' hk
    · obtain ⟨i, hi⟩ := ht.taken p hp
      obtain ⟨hsp, hnil⟩ := h.queued i p.1 p.2 hi h0
      have hc : p.2 ∉ w.clients.map Prod.snd :=
        fun hc => ht.not_taken hc (List.mem_map_of_mem hp)
      simp only [ht.word_other hc, hnil]
      exact ⟨ht.spoken_of hc hsp, fun _ _ => trivial⟩
  · obtain ⟨hsp, hother⟩ := h.spoken k' th hold p hp h0
    have hc : p.2 ∉ w.clients.map Prod.snd := by
      intro hc
      obtain ⟨p', hp', he⟩ := List.mem_map.mp hc
      exact ht.others p' hp' k' th hold hne (he ▸ List.mem_map_of_mem hp)
    simp only [ht.word_other hc]
    exact ⟨ht.spoken_of hc hsp, hother⟩

theorem Audited.turn_queued (h : Audited s log) (ht : Turn s k launch w w' u es es' kept q)
    {i : Nat} {fd clId : Int} (hm : acceptText i fd clId ∈ u.mgr.qListenerToWorker)
    (h0 : 0 ≤ clId) : Spoken clId [] u.sv ∧
      ∀ k', word (log ++ ofThread k (es ++ es')) k' clId = [] := by
  have hq := ht.queue _ hm
  obtain ⟨hsp, hnil⟩ := h.queued i fd clId hq h0
  have hc : clId ∉ w.clients.map Prod.snd := by
    intro hc
    obtain ⟨p', hp', he⟩ := List.mem_map.mp hc
    exact ht.waiting p' hp' i fd (he.symm ▸ hq)
  simp only [ht.word_other hc]
  exact ⟨ht.spoken_of hc hsp, hnil⟩

theorem Audited.turn_given (h : Audited s log) (ht : Turn s k launch w w' u es es' kept q)
    {k' : Nat} {clId : Int} (hne : word (log ++ ofThread k (es ++ es')) k' clId ≠ []) :
    0 ≤ clId ∧ clId < u.sv.clientDataId := by
  rw [ht.counter]
  by_cases hc : clId ∈ w.clients.map Prod.snd
  · obtain ⟨p, hp, rfl⟩ := List.mem_map.mp hc
    exact ht.ids p hp
  · rw [ht.word_other hc] at hne
    exact h.given k' clId hne

theorem Audited.turn_gone (h : Audited s log) (ht : Turn s k launch w w' u es es' kept q)
    {k' : Nat} {clId : Int} {m : ServerMessage}
    (hm : m ∈ word (log ++ ofThread k (es ++ es')) k' clId)
    (ha : m.action = getAction .clDisconnected) : clId ∉ ht.after.held.map Prod.snd ∧
      ∀ i fd, acceptText i fd clId ∉ u.mgr.qListenerToWorker := by
  rcases ht.gone_cases hm ha with hold | ⟨_, hnew⟩
  · obtain ⟨hheld, hqueue⟩ := h.gone k' clId m hold ha
    refine ⟨fun hm' => ?_, fun i fd hm' => hqueue i fd (ht.queue _ hm')⟩
    rcases ht.held_before hm' with hm' | ⟨i, fd, hm'⟩
    · exact hheld hm'
    · exact hqueue i fd hm'
  · have hleft : clId ∈ es'.map Prod.fst := List.mem_map_of_mem (f := Prod.fst) hnew
    have hc := (ht.gone_once hleft).1
    obtain ⟨p, hp, rfl⟩ := List.mem_map.mp hc
    refine ⟨fun hm' => ?_, fun i fd hm' => ht.waiting p hp i fd (ht.queue _ hm')⟩
    rcases ht.held_after hm' with hm' | ⟨k'', th, hne, hth, hm'⟩
    · rw [ht.clients, List.map_append] at hm'
      rcases List.mem_append.mp hm' with hm' | hm'
      · obtain ⟨p', hp', he⟩ := List.mem_map.mp hm'
        exact ht.kept_stays hp' (he ▸ hleft)
      · exact ht.not_taken hc hm'
    · exact ht.others p hp k'' th hth hne hm'

theorem Audited.turn_indexed (h : Audited s log) (ht : Turn s k launch w w' u es es' kept q)
    {k' : Nat} {clId : Int} {m : ServerMessage}
    (hm : m ∈ word (log ++ ofThread k (es ++ es')) k' clId)
    (ha : m.action = getAction .clDisconnected) : ∃ th, ht.after.threads[k']? = some th ∧
      m.threadNumber = Decimal.toString th.launch.personalIndex := by
  have hlt := (List.getElem?_eq_some_iff.mp ht.thread).1
  have hnow : ht.after.threads[k]? = some ⟨launch, .head w'⟩ := List.getElem?_set_self hlt
  rcases ht.gone_cases hm ha with hold | ⟨rfl, hnew⟩
  · obtain ⟨th, hth, hnum⟩ := h.indexed k' clId m hold ha
    by_cases hk : k' = k
    · subst hk
      obtain rfl : _ = th := Option.some.inj (ht.thread.symm.trans hth)
      exact ⟨_, hnow, hnum⟩
    · exact ⟨th, (List.getElem?_set_ne (Ne.symm hk)).trans hth, hnum⟩
  · exact ⟨_, hnow, (ht.leaves _ hnew).2.2⟩

theorem Audited.turn (h : Audited s log) (ht : Turn s k launch w w' u es es' kept q)
    (htab : ht.after.Tabled) : Audited ht.after (log ++ ofThread k (es ++ es')) where
  tabled := htab
  words := h.turn_words ht
  spoken := fun _ _ hth _ hp h0 => h.turn_spoken ht hth hp h0
  queued := fun _ _ _ hm h0 => h.turn_queued ht hm h0
  given := fun _ _ hne => h.turn_given ht hne
  gone := fun _ _ _ hm ha => h.turn_gone ht hm ha
  indexed := fun _ _ _ hm ha => h.turn_indexed ht hm ha

theorem Serve.counter {L clId : Int} {a b : Shared cfg} (hs : Serve L clId a b) :
    b.sv.clientDataId = a.sv.clientDataId := by
  cases hs <;> simp [Server.modifyClient]

theorem servesAny_counter {L : Int} {clients : List (Int × Int)} {a b : Shared cfg}
    (hs : ReflTransGen (ServeAny L clients) a b) : b.sv.clientDataId = a.sv.clientDataId := by
  induction hs with
  | refl => rfl
  | tail _ hs ih =>
    obtain ⟨_, _, hs⟩ := hs
    exact hs.counter.trans ih

-- an iteration that throws nothing is a turn, and its log is what the turn says
theorem turn_of_iteration {ev : Events} (h : s.Tabled)
    (hth : s.threads[k]? = some ⟨launch, .waiting w⟩)
    (hr : workerIteration ev launch w (s.withSends ev.sends).shared = .ok w' u) :
    ∃ q kept es es', Turn s k launch w w' u es es' kept q ∧
      iterationLog ev launch w (s.withSends ev.sends).shared = tagged (es ++ es') ∧
      u.mgr.qWorkerToListener = s.shared.mgr.qWorkerToListener ++ texts (es ++ es') := by
  obtain ⟨accepts, ups, ho, _⟩ := h.sound.owned
  obtain ⟨rest, hp, hrest⟩ := Thread.perm_set hth
  have ho₀ : Owned (w.clients ++ rest) accepts ups (s.withSends ev.sends).shared :=
    (ho.perm hp).of_core rfl
  have hclean : w.buffers.serverMsg.Clean := h.sound.clean _ (List.mem_of_getElem? hth)
  obtain ⟨q, s₁, s₂, kept, es, es', hit, hlog, hheard, hleft⟩ :=
    workerIteration_log ho₀.nodup ho₀.names hclean hr
  obtain ⟨accepts', evfd, hpoll, rfl⟩ := pollQueue_polled ho₀ hit.polled
  have hknown : ∀ p ∈ w.clients, p ∈ s.shared.sv.pairs := (h.listed hth).known
  have hids : ∀ p ∈ w.clients, 0 ≤ p.2 ∧ p.2 < s.shared.sv.clientDataId :=
    fun p hp => (ho.range p (hknown p hp)).2
  refine ⟨q, kept, es, es', ⟨hth, hheard.events, hleft.events, hleft.parted, hit.removed.subset,
    hit.clients, fun p hp => ?_, fun x hx => ?_, fun c word hw => ?_, ?_, hids,
    fun p hp => (ho₀.apart hp (hids p hp).1).1, fun p hp k' th' hth' hne hm => ?_,
    fun p hp i fd hm => ?_⟩, hlog, ?_⟩
  · cases hpoll with
    | idle hq => simp [hq] at hp
    | discarded _ hq => simp [hq] at hp
    | @took a _ _ _ _ hq =>
      rw [hq, List.mem_singleton] at hp
      rw [hp]
      exact ⟨a.1, acceptText_mem ho List.mem_cons_self⟩
  · have hmgr : u.mgr.qListenerToWorker = acceptTexts accepts' := by
      rw [hit.kept.mgr]
      rfl
    rw [hmgr] at hx
    rw [ho.downQueue]
    exact (hpoll.suffix.map _).subset hx
  · rw [hit.removed.sv]
    exact hheard.words c word hw
  · rw [hit.removed.sv, servesAny_counter hit.served]
    rfl
  · refine (ho₀.apart hp (hids p hp).1).2.1 ?_
    obtain ⟨p', hp', he⟩ := List.mem_map.mp hm
    exact he ▸ List.mem_map_of_mem (Thread.mem_rest hth hrest hne hth' hp')
  · exact (ho₀.apart hp (hids p hp).1).2.2
      (List.mem_map_of_mem (f := fun a : Nat × Int × Int => a.2.2) (mem_accepts ho hm))
  · rw [hleft.queue, hheard.queue, List.append_assoc]
    simp [texts, Shared.popped]
    rfl

end Turn

end ChatApp
