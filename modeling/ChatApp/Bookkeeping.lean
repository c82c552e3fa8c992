import ChatApp.Accounts

namespace ChatApp

open Runs

variable {cfg : Config}

-- whatever the workers do, but for saying that a client has left
def Elsewhere (s t : State cfg) : Prop :=
  t.listener = s.listener ∧ t.listenerEvfd = s.listenerEvfd ∧
  accounts t.shared = accounts s.shared ∧
  s.shared.mgr.qWorkerToListener <+: t.shared.mgr.qWorkerToListener ∧
  ∀ text ∈ t.shared.mgr.qWorkerToListener.drop s.shared.mgr.qWorkerToListener.length,
    ¬ IsLeaveText text

instance (text : Str) : Decidable (IsLeaveText text) := inferInstanceAs (Decidable (_ = _))

instance (s t : State cfg) : Decidable (Elsewhere s t) := inferInstanceAs (Decidable (_ ∧ _))

inductive Act (cfg : Config) where
  | listener (l : Label)
  | leave (p : Int × Nat) (text : Str)
  | others (s : State cfg)

-- the listener's side of the system, with the clients nobody has said have left and their slots
structure Books (cfg : Config) where
  state : State cfg
  assigned : List (Int × Nat) := []

-- connections are attempted only while the table has room
def Attempted (s : State cfg) : Label → Prop
  | .accept _ => s.listener = .accept true → s.shared.sv.clients.values.length < cfg.maxClients
  | _ => True

instance (s : State cfg) : ∀ l, Decidable (Attempted s l)
  | .accept _ => inferInstanceAs (Decidable (_ → _))
  | .poll .. | .queue | .stdin _ | .start .. | .wait _ | .iterate .. | .leave _ =>
    inferInstanceAs (Decidable True)

namespace Books

def init (cfg : Config) (svSocket listenerEvfd : Nat) : Books cfg :=
  ⟨.init cfg svSocket listenerEvfd, []⟩

-- the client that entered between s and t, with its slot
def newcomer (s t : Shared cfg) : List (Int × Nat) :=
  if t.sv.clientDataId = s.sv.clientDataId then []
  else (slotFor s.mgr).toList.map fun i => ((s.sv.clientDataId : Int), i)

def said (s : State cfg) (text : Str) : State cfg :=
  { s with
    shared := (s.shared.pushWorkerToListener text).setEvfd s.listenerEvfd
      (s.shared.kernel.evfd s.listenerEvfd + 1) }

def step (b : Books cfg) : Act cfg → Option (Books cfg)
  | .listener l =>
    if b.state.terminated = false ∧ Attempted b.state l then
      (b.state.listenerStep l).map fun t =>
        ⟨t, b.assigned ++ newcomer b.state.shared t.shared⟩
    else none
  | .leave p text =>
    if p ∈ b.assigned ∧ leaverOf text = some p then
      some ⟨said b.state text, b.assigned.erase p⟩
    else none
  | .others t => if Elsewhere b.state t then some { b with state := t } else none

end Books

structure Admits (L : Int) (env : AcceptEnv) (s t : Shared cfg) : Prop where
  admitted : acceptBranchBody L env s = .ok () t
  enters : t.sv.ids.Perm ((s.sv.clientDataId : Int) :: s.sv.ids)
  assigned : ∃ i, slotFor s.mgr = some i ∧ ∀ j, countAt t.mgr.workerThreads j =
    countAt s.mgr.workerThreads j + if j = i then 1 else 0

structure Releases (L : Int) (p : Int × Nat) (s t : Shared cfg) : Prop where
  processed : listenerProcessWorkerToListenerQ L s = .ok () t
  leaves : p.1 ∈ s.sv.ids ∧ t.sv.ids = s.sv.ids.erase p.1
  released : ∀ j, countAt s.mgr.workerThreads j =
    countAt t.mgr.workerThreads j + if j = p.2 then 1 else 0

-- the CL_DISCONNECTED that the listener is about to take up
def State.takesUp (s : State cfg) : Option (Int × Nat) :=
  match s.listener with
  | .queue true _ _ =>
    if s.shared.kernel.evfd s.listenerEvfd = 0 then none
    else s.shared.mgr.qWorkerToListener.head?.bind leaverOf
  | _ => none

def InStep (b : Books cfg) (a : Act cfg) (b' : Books cfg) : Prop :=
  CountsAddUp b'.state.shared ∧
    match a with
    | .listener (.accept env) => b.state.listener = .accept true →
      Admits b.state.listenerEvfd env b.state.shared b'.state.shared
    | .listener .queue => ∀ p, b.state.takesUp = some p →
      Releases b.state.listenerEvfd p b.state.shared b'.state.shared
    | _ => True

def Smooth (b : Books cfg) (a : Act cfg) (_ : Books cfg) : Prop :=
  match a with
  | .listener (.accept env) => b.state.listener = .accept true → Admissible env b.state.shared
  | .listener .queue => ∀ p, b.state.takesUp = some p → OthersHaveRoom b.state.shared p.1
  | _ => True

structure Books.Kept (b : Books cfg) : Prop where
  tallied : Tallied (b.assigned ++ leaving b.state.shared) b.state.shared
  told : ∀ text ∈ b.state.shared.mgr.qWorkerToListener, IsLeaveText text → leaverOf text ≠ none

namespace Books

variable {b : Books cfg} {t : State cfg} {u : Shared cfg} {L : Int}

theorem newcomer_same {s t : Shared cfg} (h : t.sv.clientDataId = s.sv.clientDataId) :
    newcomer s t = [] := if_pos h

theorem runListener_ok {s : State cfg} {m : Prog cfg Unit} {next : ListenerPc}
    (h : m s.shared = .ok () u) : (s.runListener m next).shared = u := by
  simp only [State.runListener, h]
  rfl

theorem Kept.unmoved (h : b.Kept) (hu : Unmoved b.state.shared t.shared) :
    Kept { b with state := t } := by
  refine ⟨?_, fun text ht hl => h.told text (hu.queue text ht hl) hl⟩
  change Tallied (b.assigned ++ leaving t.shared) t.shared
  rw [hu.leaving]
  exact h.tallied.congr hu.accounts

theorem clientDataId_of_accounts {s t : Shared cfg} (h : accounts t = accounts s) :
    t.sv.clientDataId = s.sv.clientDataId := by
  simp only [accounts, Prod.mk.injEq] at h
  exact h.2.1

-- what a turn of the listener leaves for the next one
structure Turned (b : Books cfg) (l : Label) (t : State cfg) : Prop where
  same : InStep b (.listener l) ⟨t, b.assigned ++ newcomer b.state.shared t.shared⟩ ↔
    Smooth b (.listener l) ⟨t, b.assigned ++ newcomer b.state.shared t.shared⟩
  kept : Smooth b (.listener l) ⟨t, b.assigned ++ newcomer b.state.shared t.shared⟩ →
    Kept ⟨t, b.assigned ++ newcomer b.state.shared t.shared⟩

theorem Kept.idle {l : Label} (h : b.Kept) (hu : Unmoved b.state.shared t.shared)
    (htake : l = .queue → b.state.takesUp = none)
    (hconn : ∀ env, l = .accept env → b.state.listener ≠ .accept true) : Turned b l t := by
  have hkept := h.unmoved hu
  have hnew := newcomer_same (clientDataId_of_accounts hu.accounts)
  refine ⟨iff_of_true ⟨hkept.tallied.balanced, ?_⟩ ?_, fun _ => ?_⟩
  · cases l with
    | queue => exact fun p hp => by simp [htake rfl] at hp
    | accept env => exact fun hl => absurd hl (hconn env rfl)
    | _ => trivial
  · cases l with
    | queue => exact fun p hp => by simp [htake rfl] at hp
    | accept env => exact fun hl => absurd hl (hconn env rfl)
    | _ => trivial
  · rw [hnew, List.append_nil]
    exact hkept

theorem Kept.accepts {env : AcceptEnv} (h : b.Kept) (hl : b.state.listener = .accept true)
    (hroom : b.state.shared.sv.clients.values.length < cfg.maxClients) :
    Turned b (.accept env)
      (b.state.runListener (acceptBranch b.state.listenerEvfd env) .head) := by
  have runs {u : Shared cfg}
      (hu : acceptBranchBody b.state.listenerEvfd env b.state.shared = .ok () u) :
      (b.state.runListener (acceptBranch b.state.listenerEvfd env) .head).shared = u := by
    refine runListener_ok ?_
    rw [acceptBranch, hu]
  have hsmooth (ha : Admissible env b.state.shared) :=
    acceptBranchBody_admits (L := b.state.listenerEvfd) h.tallied hroom ha
  refine ⟨⟨fun hin _ => ?_, fun hs => ?_⟩, fun hs => ?_⟩
  · obtain ⟨hbal, hin⟩ := hin
    obtain ⟨hok, hids, _⟩ := hin hl
    exact admissible_of_countsAddUp h.tallied hroom hok hbal hids
  · obtain ⟨u, i, n, hu, hi, hseat, hsv, hq⟩ := hsmooth (hs hl)
    have hfull := (h.tallied.room hroom).1
    unfold InStep
    simp only [runs hu]
    refine ⟨(h.tallied.enter hfull hseat hsv).balanced, fun _ => ⟨hu, ?_, i, hi, hseat.counts⟩⟩
    rw [hsv]
    exact ids_enrol hfull n env.color
  · obtain ⟨u, i, n, hu, hi, hseat, hsv, hq⟩ := hsmooth (hs hl)
    have hfull := (h.tallied.room hroom).1
    have hnew : newcomer b.state.shared u = [((b.state.shared.sv.clientDataId : Int), i)] := by
      have hne : u.sv.clientDataId ≠ b.state.shared.sv.clientDataId := by
        rw [hsv]
        exact Nat.succ_ne_self _
      simp [newcomer, hne, hi]
    have hleave : leaving u = leaving b.state.shared := by rw [leaving, hq, leaving]
    constructor
    · simp only [runs hu, hnew, hleave, List.append_assoc]
      exact (h.tallied.enter hfull hseat hsv).perm List.perm_middle.symm
    · simp only [runs hu, hq]
      exact h.told

theorem takesUp_some {s : State cfg} {p : Int × Nat} (h : s.takesUp = some p) :
    s.shared.kernel.evfd s.listenerEvfd ≠ 0 ∧
      ∃ text rest, s.shared.mgr.qWorkerToListener = text :: rest ∧ leaverOf text = some p := by
  unfold State.takesUp at h
  split at h
  · split_ifs at h with h0
    refine ⟨h0, ?_⟩
    cases hq : s.shared.mgr.qWorkerToListener with
    | nil => simp [hq] at h
    | cons text rest => exact ⟨text, rest, rfl, by simpa [hq] using h⟩
  · cases h

theorem takesUp_none {s : State cfg} {stdin socket : Bool} (h : s.takesUp = none)
    (hl : s.listener = .queue true stdin socket) (h0 : s.shared.kernel.evfd s.listenerEvfd ≠ 0)
    {text : Str} {rest : List Str} (hq : s.shared.mgr.qWorkerToListener = text :: rest) :
    leaverOf text = none := by
  simpa [State.takesUp, hl, h0, hq] using h

theorem Kept.processes {stdin socket : Bool} (h : b.Kept)
    (hl : b.state.listener = .queue true stdin socket) :
    Turned b .queue (b.state.runListener
      (listenerProcessWorkerToListenerQ b.state.listenerEvfd) (.stdin stdin socket)) := by
  cases htake : b.state.takesUp with
  | none =>
    refine h.idle (State.runListener_shared (P := Unmoved b.state.shared) _ .rfl fun _ => ?_)
      (fun _ => htake) (by simp)
    refine listenerProcess_quiet fun h0 text rest hq hleave => ?_
    exact h.told text (by simp [hq]) hleave (takesUp_none htake hl h0 hq)
  | some p =>
    obtain ⟨h0, text, rest, hq, hp⟩ := takesUp_some htake
    have hpop : Tallied (p :: (b.assigned ++ rest.filterMap leaverOf))
        ((b.state.shared.setEvfd b.state.listenerEvfd 0).setWorkerToListener rest) := by
      have hall := h.tallied
      rw [leaving, hq, List.filterMap_cons_some hp] at hall
      exact (hall.perm List.perm_middle).congr rfl
    obtain ⟨hends, hleft⟩ := processMessage_leaver hpop hp
    have heq : listenerProcessWorkerToListenerQ b.state.listenerEvfd b.state.shared =
        processMessage text
          ((b.state.shared.setEvfd b.state.listenerEvfd 0).setWorkerToListener rest) := by
      rw [listenerProcess_eq, if_neg h0, hq]
    have hmem : p.1 ∈ b.state.shared.sv.ids := hpop.table.mem_iff.mpr (by simp)
    refine ⟨⟨fun hin q hqp => ?_, fun hs => ?_⟩, fun hs => ?_⟩
    · obtain rfl := Option.some.inj (htake.symm.trans hqp)
      have hok := (hin.2 p htake).processed
      exact hends.mp ⟨_, heq ▸ hok⟩
    · obtain ⟨u, hu⟩ := hends.mpr (hs p htake)
      obtain ⟨htal, -, hids, hcounts⟩ := hleft u hu
      have hrun := heq.trans hu
      unfold InStep
      simp only [runListener_ok hrun]
      refine ⟨htal.balanced, fun q hqp => ?_⟩
      obtain rfl := Option.some.inj (htake.symm.trans hqp)
      exact ⟨hrun, ⟨hmem, hids⟩, hcounts⟩
    · obtain ⟨u, hu⟩ := hends.mpr (hs p htake)
      obtain ⟨htal, hnext, _, _⟩ := hleft u hu
      have hrun := heq.trans hu
      have hnew : newcomer b.state.shared u = [] := newcomer_same hnext
      have hrest : u.mgr.qWorkerToListener = rest := by
        have := processMessage_queue text
          ((b.state.shared.setEvfd b.state.listenerEvfd 0).setWorkerToListener rest)
        rw [hu] at this
        exact this
      constructor
      · simp only [runListener_ok hrun, hnew, List.append_nil, leaving, hrest]
        exact htal
      · simp only [runListener_ok hrun, hrest]
        exact fun x hx => h.told x (by simp [hq, hx])

theorem Kept.types {buffer : Option Str} {socket : Bool} (h : b.Kept) :
    Turned b (.stdin buffer) (b.state.runListener (stdinBranch buffer) (.accept socket)) := by
  refine h.idle (State.runListener_shared (P := Unmoved b.state.shared) _ .rfl fun _ => ?_)
    (by simp) (by simp)
  have hnot : ¬ IsLeaveText svDisconnectedMsg.getConcatenatedMsg := by decide
  have hnone : leaverOf svDisconnectedMsg.getConcatenatedMsg = none :=
    Option.eq_none_iff_forall_ne_some.mpr fun p hp => hnot (isLeaveText_of_leaver hp)
  obtain ⟨d, hd | hd⟩ := stdinBranch_final buffer b.state.shared
  · rw [hd]
    exact ⟨rfl, rfl, fun _ ht _ => ht⟩
  · rw [hd]
    refine ⟨rfl, ?_, fun x hx hleave => ?_⟩
    · simp [leaving, Shared.pushWorkerToListener, Shared.setDone, List.filterMap_append, hnone]
    · rcases List.mem_append.mp hx with hx | hx
      · exact hx
      · exact absurd (List.mem_singleton.mp hx ▸ hleave) hnot

theorem Kept.turned {l : Label} (h : b.Kept) (hconn : Attempted b.state l)
    (ht : b.state.listenerStep l = some t) : Turned b l t := by
  cases State.listenerStep_turn ht with
  | moved pc hq ha =>
    refine h.idle .rfl (fun hl => ?_) ha
    unfold State.takesUp
    split
    · rename_i stdin socket hpc
      exact absurd hpc (hq stdin socket hl)
    · rfl
  | queue hl => exact h.processes hl
  | stdin _ _ => exact h.types
  | accept hl _ => exact h.accepts hl (hconn hl)

theorem Kept.leave {p : Int × Nat} {text : Str} (h : b.Kept) (hp : p ∈ b.assigned)
    (ht : leaverOf text = some p) : Kept ⟨said b.state text, b.assigned.erase p⟩ := by
  have hleave : leaving (said b.state text).shared = leaving b.state.shared ++ [p] := by
    simp [leaving, said, Shared.pushWorkerToListener, List.filterMap_append, ht]
  have hperm : (b.assigned ++ leaving b.state.shared).Perm
      (b.assigned.erase p ++ (leaving b.state.shared ++ [p])) := by
    rw [← List.append_assoc]
    exact ((List.perm_cons_erase hp).append_right _).trans (List.perm_append_singleton _ _).symm
  refine ⟨?_, fun x hx hl => ?_⟩
  · rw [hleave]
    exact (h.tallied.perm hperm).congr rfl
  · rcases List.mem_append.mp hx with hx | hx
    · exact h.told x hx hl
    · rw [List.mem_singleton.mp hx, ht]
      exact Option.some_ne_none p

theorem Kept.others (h : b.Kept) (ht : Elsewhere b.state t) : Kept { b with state := t } := by
  obtain ⟨_, _, hacc, ⟨new, hq⟩, hnew⟩ := ht
  rw [← hq, List.drop_left] at hnew
  have hnone : new.filterMap leaverOf = [] := by
    rw [List.filterMap_eq_nil_iff]
    intro text hm
    exact Option.eq_none_iff_forall_ne_some.mpr fun p hp => hnew text hm (isLeaveText_of_leaver hp)
  refine h.unmoved ⟨hacc, ?_, fun text hm hl => ?_⟩
  · rw [leaving, ← hq, List.filterMap_append, hnone, List.append_nil, leaving]
  · rw [← hq] at hm
    exact (List.mem_append.mp hm).resolve_right fun hm => hnew text hm hl

theorem kept_init (cfg : Config) (svSocket listenerEvfd : Nat) :
    Kept (init cfg svSocket listenerEvfd) := by
  have hids : (init cfg svSocket listenerEvfd).state.shared.sv.ids = [] := by
    simp [Server.ids_eq, Server.getConnectedIDs, init, State.init]
  have hvalues : (init cfg svSocket listenerEvfd).state.shared.mgr.workerThreads.values = [] :=
    Slots.values_empty
  refine ⟨⟨?_, ?_, ?_, ?_, fun i => ?_, ?_, ?_, ?_⟩, fun text ht => absurd ht List.not_mem_nil⟩
  · exact Int.natCast_nonneg svSocket
  · rw [hids]
    exact List.nodup_nil
  · simp [hids]
  · rw [hids]
    exact List.Perm.refl _
  · exact countAt_empty i
  · simp [Live, hvalues]
  · rw [Counted, Shared.occupied, hvalues]
    rfl
  · rw [CountsAddUp, ← length_ids, hids, load, hvalues]
    rfl

theorem step_kept {b' : Books cfg} {a : Act cfg} (h : b.Kept) (hb : b.step a = some b') :
    (InStep b a b' ↔ Smooth b a b') ∧ (Smooth b a b' → b'.Kept) := by
  cases a with
  | listener l =>
    obtain ⟨hconn, hb⟩ := Option.ite_none_right_eq_some.mp hb
    obtain ⟨t, ht, rfl⟩ := Option.map_eq_some_iff.mp hb
    have hturn := h.turned hconn.2 ht
    exact ⟨hturn.same, hturn.kept⟩
  | leave p text =>
    obtain ⟨⟨hp, ht⟩, hb⟩ := Option.ite_none_right_eq_some.mp hb
    cases hb
    have hkept := h.leave hp ht
    exact ⟨iff_of_true ⟨hkept.tallied.balanced, trivial⟩ trivial, fun _ => hkept⟩
  | others t =>
    obtain ⟨ht, hb⟩ := Option.ite_none_right_eq_some.mp hb
    cases hb
    have hkept := h.others ht
    exact ⟨iff_of_true ⟨hkept.tallied.balanced, trivial⟩ trivial, fun _ => hkept⟩

end Books

theorem books_inStep (cfg : Config) (svSocket listenerEvfd : Nat) (as : List (Act cfg)) :
    Every Books.step InStep (Books.init cfg svSocket listenerEvfd) as ↔
      Every Books.step Smooth (Books.init cfg svSocket listenerEvfd) as := by
  have h0 := Books.kept_init cfg svSocket listenerEvfd
  constructor
  · refine Every.imp h0 as fun b a b' h hb hin => ?_
    have hs := (Books.step_kept h hb).1.mp hin
    exact ⟨hs, (Books.step_kept h hb).2 hs⟩
  · refine Every.imp h0 as fun b a b' h hb hs => ?_
    exact ⟨(Books.step_kept h hb).1.mpr hs, (Books.step_kept h hb).2 hs⟩

def goneText (p : Int × Nat) : Str :=
  ServerMessage.getConcatenatedMsg
    { action := getAction .clDisconnected
      threadNumber := Decimal.toString p.2
      id := Decimal.toString p.1 }

-- two clients, each on its own worker; the first leaves, and a third one comes
def leaveAndJoin : List (Act Config.deployed) :=
  ((listenerRound false true (connection 5 6) ++
    listenerRound false true (connection 7 8)).map .listener) ++
  [.leave (0, 0) (goneText (0, 0))] ++
  (listenerRound true true (connection 9 10)).map .listener

theorem leaveAndJoin_unbalanced :
    ¬ Every Books.step InStep (Books.init Config.deployed 3 4) leaveAndJoin := by
  refine not_every_of_run (q := fun b => decide (CountsAddUp b.state.shared)) (by decide)
    (fun b a b' h => decide_eq_true h.1) (by decide +kernel)

end ChatApp
