import ChatApp.InterleavedCustody

namespace ChatApp

namespace Interleaved

open Effects Scripts Runs

variable {cfg : Config}

-- accept_client gives an id with a descriptor
def IdWithSocket (p : Int × Int) : Prop :=
  Decimal.InRange p.1 ∧ Decimal.InRange p.2 ∧ (0 ≤ p.1 → 0 ≤ p.2)

-- no client id is in two of these hands or twice in one, whoever has left meanwhile; the next one to
-- be dealt out is in none
def Dealt (ps : List (Int × Int)) (s : Shared cfg) : Prop :=
  ∃ accepts : List (Nat × Int × Int), s.mgr.qListenerToWorker = acceptTexts accepts ∧
    (∀ p ∈ ps ++ accepts.map Prod.snd, IdWithSocket p) ∧
    ∀ clId : Int, 0 ≤ clId → ((ps ++ accepts.map Prod.snd).map Prod.snd).count clId ≤
      if clId < s.sv.clientDataId then 1 else 0

section Deals

variable {ps qs : List (Int × Int)} {s t : Shared cfg} {p : Int × Int}

theorem Dealt.of_same (h : Dealt ps s) (hq : t.mgr.qListenerToWorker = s.mgr.qListenerToWorker)
    (hid : t.sv.clientDataId = s.sv.clientDataId) : Dealt ps t := by
  obtain ⟨accepts, hdown, hrange, hone⟩ := h
  refine ⟨accepts, hq.trans hdown, hrange, ?_⟩
  rwa [hid]

theorem Dealt.fewer (h : Dealt ps s) (hs : qs.Subperm ps) : Dealt qs s := by
  obtain ⟨accepts, hdown, hrange, hone⟩ := h
  have hsub : (qs ++ accepts.map Prod.snd).Subperm (ps ++ accepts.map Prod.snd) :=
    (List.subperm_append_right _).mpr hs
  refine ⟨accepts, hdown, fun p hp => hrange p (hsub.subset hp), fun clId h0 => ?_⟩
  obtain ⟨rs, hperm, hfew⟩ := hsub
  rw [← (hperm.map Prod.snd).count_eq]
  exact ((hfew.map Prod.snd).count_le clId).trans (hone clId h0)

theorem Dealt.handOver {i : Nat} (h : Dealt (p :: ps) s) :
    Dealt ps (s.pushListenerToWorker (acceptText i p.1 p.2)) := by
  obtain ⟨accepts, hdown, hrange, hone⟩ := h
  have hperm : (ps ++ (accepts ++ [(i, p)]).map Prod.snd).Perm
      (p :: ps ++ accepts.map Prod.snd) := by
    refine List.perm_iff_count.mpr fun x => ?_
    simp only [List.map_append, List.map_cons, List.map_nil, List.count_append, List.count_cons,
      List.count_nil, List.cons_append]
    omega
  refine ⟨accepts ++ [(i, p)], ?_, fun q hq => hrange q (hperm.subset hq), fun clId h0 => ?_⟩
  · simp only [Shared.pushListenerToWorker, hdown, acceptTexts, List.map_append]
    rfl
  · rw [(hperm.map Prod.snd).count_eq]
    exact hone clId h0

theorem Dealt.takeOver {text : Str} {rest : List Str} (h : Dealt ps s)
    (hq : s.mgr.qListenerToWorker = text :: rest) :
    ∃ g, Handed g text ∧ Dealt (g ++ ps) (s.setListenerToWorker rest) := by
  obtain ⟨accepts, hdown, hrange, hone⟩ := h
  have hqueue := hdown.symm.trans hq
  cases accepts with
  | nil => cases hqueue
  | cons a accepts =>
    obtain ⟨rfl, rfl⟩ := List.cons.inj hqueue
    have hperm : ([a.2] ++ ps ++ accepts.map Prod.snd).Perm
        (ps ++ (a :: accepts).map Prod.snd) := by
      refine List.perm_iff_count.mpr fun x => ?_
      simp only [List.map_cons, List.count_append, List.count_cons, List.count_nil]
      omega
    obtain ⟨hfd, hid, _⟩ := hrange a.2 (by simp)
    refine ⟨[a.2], ⟨a, rfl, rfl, hfd, hid⟩, accepts, rfl, fun q hq => hrange q (hperm.subset hq),
      fun clId h0 => ?_⟩
    rw [(hperm.map Prod.snd).count_eq]
    exact hone clId h0

instance : @Accounting cfg Dealt where
  same h ht := by
    simp only [holdings, Prod.mk.injEq] at ht
    exact h.of_same ht.2.1 ht.2.2.2.1
  fewer := Dealt.fewer
  handOver h _ := h.handOver
  takeOver := Dealt.takeOver

-- the listener deals out the next id
theorem Dealt.deal {n : Nat} (h : Dealt ps s) (hmax : (s.sv.clientDataId : Int) ≤ Decimal.intMax)
    (hn : (n : Int) ≤ Decimal.intMax) (color : Int) :
    Dealt (((n : Int), (s.sv.clientDataId : Int)) :: ps) (s.enrol n color) := by
  obtain ⟨accepts, hdown, hrange, hone⟩ := h
  refine ⟨accepts, hdown, fun q hq => ?_, fun clId h0 => ?_⟩
  · rcases List.mem_cons.mp hq with rfl | hq
    · simp only [IdWithSocket, Decimal.InRange, Decimal.intMin, Decimal.intMax] at hmax hn ⊢
      omega
    · exact hrange q hq
  · have hle := hone clId h0
    have hnext : (s.enrol n color).sv.clientDataId = s.sv.clientDataId + 1 := rfl
    rw [List.cons_append, List.map_cons, hnext]
    rcases eq_or_ne (s.sv.clientDataId : Int) clId with hid | hid
    · rw [hid, List.count_cons_self, if_pos (by omega)]
      rw [if_neg (by omega)] at hle
      omega
    · rw [List.count_cons_of_ne hid]
      split_ifs at hle ⊢ <;> omega

theorem Dealt.refuse (h : Dealt ps s) : Dealt ((-1, -1) :: ps) s := by
  obtain ⟨accepts, hdown, hrange, hone⟩ := h
  refine ⟨accepts, hdown, fun q hq => ?_, fun clId h0 => ?_⟩
  · rcases List.mem_cons.mp hq with rfl | hq
    · unfold IdWithSocket
      decide
    · exact hrange q hq
  · have hne : (-1 : Int) ≠ clId := by omega
    rw [List.cons_append, List.map_cons, List.count_cons_of_ne hne]
    exact hone clId h0

theorem acceptClient_deals {env : AcceptEnv} {r : List (Int × Int)} (hs : Dealt r s)
    (hfd : ∀ n : Nat, env.accept4 = .fd n → (n : Int) ≤ Decimal.intMax) :
    ∃ g', Move Dealt [] r [] s g' (final (acceptClient env s)) ∧
      ∀ pair t, acceptClient env s = .ok pair t → g' = [pair] := by
  cases hr : acceptClient env s with
  | error e t =>
    obtain ⟨⟨fds, rfl⟩, _⟩ := acceptClient_throws hr
    exact ⟨[], .same (hs.of_same rfl rfl) rfl, fun pair t hp => by cases hp⟩
  | ok pair t =>
    refine ⟨[pair], .same ?_ ?_, fun x u hx => by cases hx; rfl⟩
    · cases acceptClient_entered hr with
      | refused fds => exact (hs.of_same rfl rfl).refuse
      | entered hn hfull hmax => exact hs.deal hmax (hfd _ hn) env.color
    · cases acceptClient_entered hr <;> rfl

end Deals

-- what an id can be dealt out or handed on by
def dealing (s : Shared cfg) : List Str × Nat × List Launch :=
  (s.mgr.qListenerToWorker, s.sv.clientDataId, s.kernel.spawned)

section Bystanders

variable {α : Type} {listenerEvfd : Int} {m : ServerMessage} {clId : Int}

theorem dealing_core {s t : Shared cfg} (h : core t = core s) : dealing t = dealing s := by
  simp only [core, dealing, Prod.mk.injEq] at h ⊢
  exact ⟨h.2.1, h.2.2.2.2.1, h.2.2.1⟩

theorem call_frames {m : Prog cfg α} (h : Frame core m) : (call m).Frames dealing :=
  .op fun s => dealing_core (h s)

theorem modify_frames {f : Shared cfg → Shared cfg} (h : ∀ s, core (f s) = core s) :
    (call (modify f) : Steps cfg Unit).Frames dealing := call_frames (.modify h)

theorem refClient_frames (clId : Int) : (refClient clId : Steps cfg ClientData).Frames dealing := by
  intro s
  cases hc : s.sv.getClientRef clId <;> simp only [hc] <;> exact ⟨rfl, trivial⟩

theorem updateClient_frames (clId : Int) (f : ClientData → ClientData) :
    (updateClient clId f : Steps cfg Unit).Frames dealing := by
  intro s
  cases hc : s.sv.getClientRef clId <;> simp only [hc] <;> exact ⟨rfl, trivial⟩

theorem popQueue_frames (clId : Int) : (popQueue clId : Steps cfg (Option Str)).Frames dealing := by
  intro s
  cases hc : s.sv.getClientRef clId <;> simp only [hc] <;> exact ⟨rfl, trivial⟩

theorem checkEvent_frames (fd : Int) (poll : Int → Bool) :
    (checkEvent fd poll : Steps cfg Bool).Frames dealing := by
  unfold checkEvent
  split_ifs <;> trivial

theorem sendMsg_frames (msg : Str) (clId : Int) :
    (sendMsg msg clId : Steps cfg Unit).Frames dealing :=
  .bind (call_frames (getSelectedClientFd_core clId)) fun _ => call_frames (transmit_core msg clId)

theorem tryPushWorkerToListener_frames (msg : Str) :
    (call (tryPushWorkerToListener msg) : Steps cfg Bool).Frames dealing := by
  refine .op fun s => ?_
  cases h : cfg.hasRoom s.mgr.qWorkerToListener with
  | false =>
    rw [tryPushWorkerToListener_full h]
    rfl
  | true =>
    rw [tryPushWorkerToListener_room h]
    rfl

theorem pushUp_frames (m : ServerMessage) (listenerEvfd : Int) :
    (pushUp m listenerEvfd : Steps cfg Unit).Frames dealing := by
  unfold pushUp
  split_ifs
  · trivial
  · refine .bind (tryPushWorkerToListener_frames _) fun pushed => ?_
    split_ifs <;> trivial

theorem notify_frames (listenerEvfd : Int) :
    (notify listenerEvfd : Steps cfg Unit).Frames dealing :=
  call_frames (writeEvfd_core _ _)

theorem workerPush_frames (m : ServerMessage) (listenerEvfd : Int) :
    (workerPush m listenerEvfd : Steps cfg Unit).Frames dealing :=
  .bind (pushUp_frames m listenerEvfd) fun _ => notify_frames listenerEvfd

theorem processInput_frames (m : ServerMessage) (clId listenerEvfd : Int) :
    (processInput m clId listenerEvfd : Steps cfg ServerMessage).Frames dealing := by
  have hmark : (markLeft m clId : Steps cfg Unit).Frames dealing := by
    unfold markLeft
    split_ifs
    · exact updateClient_frames _ _
    · trivial
  have htake : (takeName m clId : Steps cfg Unit).Frames dealing := by
    unfold takeName
    split_ifs
    · exact .bind (updateClient_frames _ _) fun _ => updateClient_frames _ _
    · trivial
  refine .bind hmark fun _ => .bind (refClient_frames clId) fun cl => ?_
  split_ifs
  · exact .bind htake fun _ => trivial
  · refine .bind (updateClient_frames _ _) fun _ => .bind (refClient_frames clId) fun cl => ?_
    exact .bind (sendMsg_frames _ _) fun _ => .bind (workerPush_frames _ _) fun _ => trivial
  · trivial
  · exact .bind (workerPush_frames _ _) fun _ => trivial
  · trivial
  · trivial

theorem processOutput_frames (m : ServerMessage) (clId : Int) :
    (processOutput m clId : Steps cfg (Bool × ServerMessage)).Frames dealing := by
  refine .bind (refClient_frames clId) fun cl => ?_
  split_ifs
  · refine .bind (updateClient_frames _ _) fun _ => .bind (refClient_frames clId) fun cl => ?_
    exact .bind (sendMsg_frames _ _) fun _ => trivial
  · trivial

section Turns

variable (ev : Events) (client : Int × Int) (current : Bool) (b : Buffers)

theorem handleOutput_frames :
    (handleOutput ev client current b : Steps cfg (Bool × Buffers)).Frames dealing := by
  refine .bind (checkEvent_frames _ _) fun poll => ?_
  split_ifs
  · trivial
  · exact .bind (processOutput_frames _ _) fun _ => trivial
  · trivial

theorem handleInput_frames :
    (handleInput ev client current b : Steps cfg (Bool × Buffers)).Frames dealing := by
  refine .bind (call_frames (receiveMsg_core _ _ _)) fun r => ?_
  split_ifs
  · exact .bind (refClient_frames _) fun _ => .bind (updateClient_frames _ _) fun _ => trivial
  · trivial
  · exact .bind (.lift _) fun _ => .bind (.lift _) fun _ => trivial

theorem handleClient_frames (listenerEvfd : Int) :
    (handleClient ev listenerEvfd client b : Steps cfg (Bool × Buffers)).Frames dealing := by
  refine .bind (call_frames (hasClient_core _)) fun current =>
    .bind (checkEvent_frames _ _) fun poll => ?_
  split_ifs
  · refine .bind (handleInput_frames ev client current b) fun r => ?_
    split_ifs
    · trivial
    · exact .bind (processInput_frames _ _ _) fun _ => handleOutput_frames _ _ _ _
  · exact handleOutput_frames _ _ _ _

end Turns

theorem signalled_frames (i : Nat) (client : Int × Int) (m : ServerMessage) :
    (signalled i client m : Steps cfg (Option ServerMessage)).Frames dealing := by
  refine .bind (refClient_frames _) fun cl => ?_
  split_ifs
  · exact .bind (refClient_frames _) fun _ => .bind (refClient_frames _) fun _ => trivial
  · trivial

theorem unicastRepeated_frames (exceptedId : Int) (ids : List Int) (msg : Str) :
    (unicastRepeated exceptedId ids msg : Steps cfg Unit).Frames dealing := by
  refine .bind (modify_frames fun _ => rfl) fun _ => ?_
  induction ids with
  | nil => trivial
  | cons clId ids ih =>
    unfold unicastLoop
    split_ifs
    · exact ih
    · refine .bind (call_frames (hasClient_core clId)) fun found => ?_
      split_ifs
      · exact ih
      · refine .bind (call_frames (pushToClient_core clId msg)) fun pushed => ?_
        split_ifs
        · trivial
        · exact ih

theorem workerClientDisconnect_frames (i : Int) :
    (workerClientDisconnect i : Steps cfg Unit).Frames dealing := by
  refine .bind (call_frames (workerAt_frame core i)) fun x => ?_
  cases x with
  | none => trivial
  | some w =>
    simp only
    split_ifs
    · trivial
    · refine .bind ?_ fun _ => modify_frames fun _ => rfl
      unfold releaseWorker
      split_ifs
      · exact .bind (call_frames (resetWorker_core _ _)) fun _ => modify_frames fun _ => rfl
      · exact modify_frames fun _ => rfl

theorem disconnectClient_frames (clId : Int) :
    (call (onServer (Server.disconnectClient clId)) : Steps cfg Unit).Frames dealing := by
  refine .op fun s => ?_
  cases hc : s.sv.getClientRef clId with
  | none =>
    simp only [onServer, Server.disconnectClient, get_bind_run, hc]
    rfl
  | some c =>
    rw [disconnectClient_run hc]
    rfl

theorem processMessage_frames (text : Str) :
    (processMessage text : Steps cfg Unit).Frames dealing := by
  have hread : Frame core (do return (← get).sv.getConnectedIDs : Prog cfg (List Int)) :=
    fun _ => rfl
  refine .bind (.lift _) fun m => .bind (call_frames hread) fun ids => ?_
  split_ifs
  · trivial
  · unfold dispatch
    split_ifs
    · unfold processClDisconnected
      refine .bind (.lift _) fun clId => .bind (disconnectClient_frames clId) fun _ => ?_
      refine .bind (.lift _) fun n => .bind (call_frames (workerAt_frame core n)) fun x => ?_
      cases x with
      | none => trivial
      | some w =>
        simp only
        split_ifs
        · trivial
        · exact .bind (unicastRepeated_frames _ _ _) fun _ => workerClientDisconnect_frames n
    · exact .bind (.lift _) fun _ => unicastRepeated_frames _ _ _
    · exact unicastRepeated_frames _ _ _
    · exact .bind (.lift _) fun _ => unicastRepeated_frames _ _ _
    · trivial

theorem listenerProcess_frames (listenerEvfd : Int) :
    (listenerProcessWorkerToListenerQ listenerEvfd : Steps cfg Unit).Frames dealing := by
  refine .bind (call_frames (readEvfd_core _)) fun told => ?_
  split_ifs
  · trivial
  · have hpop : (call tryPopWorkerToListener : Steps cfg (Option Str)).Frames dealing := by
      refine .op fun s => ?_
      cases hq : s.mgr.qWorkerToListener with
      | nil =>
        rw [tryPopWorkerToListener_nil hq]
        rfl
      | cons msg rest =>
        rw [tryPopWorkerToListener_cons hq]
        rfl
    refine .bind hpop fun popped => ?_
    cases popped with
    | none => trivial
    | some text => exact processMessage_frames text

theorem stdinBranch_frames (buffer : Option Str) :
    (stdinBranch buffer : Steps cfg Unit).Frames dealing := by
  unfold stdinBranch
  split_ifs
  · have hdone : (call (onServer Server.setIsDone) : Steps cfg Unit).Frames dealing := by
      refine .op fun s => ?_
      obtain ⟨d, hd⟩ := setIsDone_final s
      rw [hd]
      rfl
    exact .bind hdone fun _ => .bind (tryPushWorkerToListener_frames _) fun _ => trivial
  · trivial

end Bystanders

namespace Thread

-- the list of a worker that is running, as it is until erase and emplace_back
def clients (th : Thread cfg) : List (Int × Int) :=
  match th.phase with
  | .launched => []
  | .head w => w.clients
  | .waiting w => w.clients
  | .polling _ w _ => w.clients
  | .serving _ w _ _ _ _ => w.clients
  | .popping _ w _ _ _ _ _ => w.clients
  | .sending _ w _ _ _ _ _ => w.clients
  | .checking w _ _ _ _ _ _ => w.clients
  | .pushing w _ _ _ _ _ _ => w.clients
  | .notifying w _ _ _ _ _ => w.clients
  | .erasing w _ _ _ => w.clients
  | .ended _ => []

end Thread

-- the clients whose ids a worker may still list, by where it stands
inductive Roll (l : Launch) : Phase cfg → List (Int × Int) → Prop
  | launched (hl : IdWithSocket l.client) : Roll l .launched [l.client]
  | head {w : WorkerState} (hw : ∀ p ∈ w.clients, 0 ≤ p.2) : Roll l (.head w) w.clients
  | waiting {w : WorkerState} (hw : ∀ p ∈ w.clients, 0 ≤ p.2) : Roll l (.waiting w) w.clients
  | polling {ev : Events} {w : WorkerState} {p : Steps cfg QueueAction} {g : List (Int × Int)}
    (hw : ∀ p ∈ w.clients, 0 ≤ p.2) (hp : Holds Dealt w.clients Took p g) :
    Roll l (.polling ev w p) (g ++ w.clients)
  | serving {ev : Events} {w : WorkerState} {q : QueueAction} {client : Int × Int}
    {todo : List (Int × Int)} {p : Steps cfg (Bool × Buffers)} (hw : ∀ p ∈ w.clients, 0 ≤ p.2)
    (hp : p.Frames dealing) : Roll l (.serving ev w q client todo p) (taken q ++ w.clients)
  | popping {ev : Events} {w : WorkerState} {q : QueueAction} {client : Int × Int}
    {todo : List (Int × Int)} {b : Buffers} {p : Steps cfg (Option Str)}
    (hw : ∀ p ∈ w.clients, 0 ≤ p.2) (hp : p.Frames dealing) :
    Roll l (.popping ev w q client todo b p) (taken q ++ w.clients)
  | sending {ev : Events} {w : WorkerState} {q : QueueAction} {client : Int × Int}
    {todo : List (Int × Int)} {b : Buffers} {p : Steps cfg Unit} (hw : ∀ p ∈ w.clients, 0 ≤ p.2)
    (hp : p.Frames dealing) : Roll l (.sending ev w q client todo b p) (taken q ++ w.clients)
  | checking {w : WorkerState} {q : QueueAction} {kept rest : List (Int × Int)}
    {client : Int × Int} {b : Buffers} {p : Steps cfg (Option ServerMessage)}
    (hw : ∀ p ∈ w.clients, 0 ≤ p.2) (hsub : (kept ++ client :: rest).Sublist w.clients)
    (hp : p.Frames dealing) : Roll l (.checking w q kept client rest b p) (taken q ++ w.clients)
  | pushing {w : WorkerState} {q : QueueAction} {kept rest : List (Int × Int)}
    {client : Int × Int} {b : Buffers} {p : Steps cfg Unit} (hw : ∀ p ∈ w.clients, 0 ≤ p.2)
    (hsub : (kept ++ client :: rest).Sublist w.clients) (hp : p.Frames dealing) :
    Roll l (.pushing w q kept client rest b p) (taken q ++ w.clients)
  | notifying {w : WorkerState} {q : QueueAction} {kept rest : List (Int × Int)} {b : Buffers}
    {p : Steps cfg Unit} (hw : ∀ p ∈ w.clients, 0 ≤ p.2) (hsub : (kept ++ rest).Sublist w.clients)
    (hp : p.Frames dealing) : Roll l (.notifying w q kept rest b p) (taken q ++ w.clients)
  | erasing {w : WorkerState} {q : QueueAction} {kept : List (Int × Int)} {b : Buffers}
    (hw : ∀ p ∈ w.clients, 0 ≤ p.2) (hsub : kept.Sublist w.clients) :
    Roll l (.erasing w q kept b) (taken q ++ w.clients)
  | ended {w : WorkerState} : Roll l (.ended w) []

-- the listener deals out ids and hands them on; how it may fail does not matter here
def Deals (p : Steps cfg Unit) (g : List (Int × Int)) : Prop :=
  p.Outline (Rely Dealt []) (Move Dealt []) (fun _ => True) (fun _ _ => True) g

def roll (cfg : Config) : Custody cfg where
  table := Dealt
  hand := Roll
  listener := Deals
  fault _ := True

section Rolls

variable {l : Launch} {ev : Events} {w : WorkerState} {q : QueueAction} {b : Buffers}
variable {kept rest todo g r : List (Int × Int)} {client : Int × Int} {s t : Shared cfg}

abbrev Enters (l : Launch) (g : List (Int × Int)) (res : Except Fault (Phase cfg)) : Prop :=
  (roll cfg).Lands l g res

theorem enters_of_roll {ph : Phase cfg} (h : Roll l ph g) : Enters l g (.ok ph) :=
  Custody.Lands.of_hand (K := roll cfg) h

theorem dealing_move (hs : Dealt (g ++ r) s) (ht : dealing t = dealing s) :
    Move Dealt [] r [] s g t := by
  simp only [dealing, Prod.mk.injEq] at ht
  exact .same (hs.of_same ht.1 ht.2.1) ht.2.2

theorem frames_enters {α : Type} {p : Steps cfg α} {now : Steps cfg α → Phase cfg}
    {next : α → Except Fault (Phase cfg)} (hp : p.Frames dealing) (hs : Dealt (g ++ r) s)
    (hnow : ∀ p, p.Frames dealing → Roll l (now p) g) (hnext : ∀ a, Enters l g (next a)) :
    ∃ g', Move Dealt [] r [] s g' (p.next s).1 ∧
      Enters l g' (Phase.settle (p.next s).2 now next) := by
  obtain ⟨hsame, hframes⟩ := hp.next s
  refine ⟨g, dealing_move hs hsame, ?_⟩
  cases hr : (p.next s).2 with
  | done a => exact hnext a
  | fail d => exact trivial
  | act f k => exact enters_of_roll (hnow _ (hr ▸ hframes))

theorem check_enters (hw : ∀ p ∈ w.clients, 0 ≤ p.2) (hsub : (kept ++ rest).Sublist w.clients) :
    Enters l (taken q ++ w.clients) (Phase.check l w q kept b rest : Except _ (Phase cfg)) := by
  cases rest with
  | nil =>
    rw [List.append_nil] at hsub
    exact enters_of_roll (.erasing hw hsub)
  | cons client rest => exact enters_of_roll (.checking hw hsub (signalled_frames _ _ _))

theorem serve_enters (hw : ∀ p ∈ w.clients, 0 ≤ p.2) :
    Enters l (taken q ++ w.clients) (Phase.serve l ev w q b todo : Except _ (Phase cfg)) := by
  cases todo with
  | nil => exact check_enters hw (.refl _)
  | cons client todo => exact enters_of_roll (.serving hw (handleClient_frames _ _ _ _))

theorem flush_enters (hw : ∀ p ∈ w.clients, 0 ≤ p.2) :
    Enters l (taken q ++ w.clients) (Phase.flush ev w q client todo b : Except _ (Phase cfg)) :=
  enters_of_roll (.popping hw (popQueue_frames _))

theorem polled_enters (hw : ∀ p ∈ w.clients, 0 ≤ p.2) (hq : Took g q) :
    Enters l (g ++ w.clients) (Phase.serve l ev w q w.buffers w.clients : Except _ (Phase cfg)) :=
  (serve_enters hw).sublist (hq.1.append_right _)

theorem push_enters {p : Steps cfg Unit} (hw : ∀ p ∈ w.clients, 0 ≤ p.2)
    (hsub : (kept ++ client :: rest).Sublist w.clients) (hp : p.Frames dealing) :
    Enters l (taken q ++ w.clients) (Phase.push l w q kept client rest b p) := by
  cases p with
  | done a =>
    have hfew : (kept ++ rest).Sublist (kept ++ client :: rest) :=
      (List.sublist_cons_self client rest).append_left kept
    exact enters_of_roll (.notifying hw (hfew.trans hsub) (notify_frames _))
  | fail d => exact trivial
  | act f k => exact enters_of_roll (.pushing hw hsub hp)

theorem poll_enters {p : Steps cfg QueueAction} (hw : ∀ p ∈ w.clients, 0 ≤ p.2)
    (hp : Holds Dealt w.clients Took p g) :
    Enters l (g ++ w.clients) (Phase.settle p (.polling ev w) fun q =>
      Phase.serve l ev w q w.buffers w.clients) := by
  cases p with
  | done q => exact polled_enters hw (holds_done.mp hp)
  | fail d => exact trivial
  | act f k => exact enters_of_roll (.polling hw hp)

theorem act_enters {ph : Phase cfg} {res : Except Fault (Phase cfg)} (h : Roll l ph g)
    (hs : Dealt (g ++ r) s) (ha : ph.act l s = some (t, res)) :
    ∃ g', Move Dealt [] r [] s g' t ∧ Enters l g' res := by
  cases h with
  | launched | head | waiting | erasing | ended => cases ha
  | @polling ev w p g hw hp =>
    cases ha
    rw [List.append_assoc] at hs
    obtain ⟨g', hmove, hnext⟩ := hp.next hs
    obtain ⟨new, hspawn, hidx, hdealt⟩ := hmove
    refine ⟨g' ++ w.clients, ⟨new, hspawn, hidx, ?_⟩, poll_enters hw hnext⟩
    rwa [List.nil_append, List.append_assoc]
  | serving hw hp =>
    cases ha
    refine frames_enters hp hs (fun _ hp => .serving hw hp) fun r => ?_
    split_ifs
    · exact flush_enters hw
    · exact serve_enters hw
  | popping hw hp =>
    cases ha
    refine frames_enters hp hs (fun _ hp => Roll.popping hw hp) fun x => ?_
    cases x with
    | none => exact serve_enters hw
    | some msg => exact enters_of_roll (.sending hw (sendMsg_frames _ _))
  | sending hw hp =>
    cases ha
    exact frames_enters hp hs (fun _ hp => .sending hw hp) fun _ => flush_enters hw
  | checking hw hsub hp =>
    cases ha
    refine frames_enters hp hs (fun _ hp => .checking hw hsub hp) fun x => ?_
    cases x with
    | none => exact check_enters hw (by simpa using hsub)
    | some m => exact push_enters hw hsub (pushUp_frames _ _)
  | pushing hw hsub hp =>
    cases ha
    obtain ⟨hsame, hframes⟩ := hp.next s
    exact ⟨_, dealing_move hs hsame, push_enters hw hsub hframes⟩
  | notifying hw hsub hp =>
    cases ha
    exact frames_enters hp hs (fun _ hp => .notifying hw hsub hp) fun _ => check_enters hw hsub

theorem start_enters (frame : MessageFrame) (h : Roll l (.launched : Phase cfg) g) :
    Enters l g (Phase.settle (workerPrologue l frame : Steps cfg WorkerState)
      (fun _ => .launched) fun w => .ok (.head w)) := by
  cases h with
  | launched hl =>
    unfold workerPrologue addMonitoredFd
    split_ifs with hc
    · exact trivial
    · exact trivial
    · exact trivial
    · refine enters_of_roll (.head (w := ⟨[l.client], ⟨frame, {}⟩⟩) fun p hp => ?_)
      rw [List.mem_singleton.mp hp]
      exact hl.2.2 (Int.not_lt.mp hc)

theorem erase_enters (h : Roll l (.erasing w q kept b : Phase cfg) g) :
    Enters l g (Phase.settle (takeUp q kept : Steps cfg (List (Int × Int)))
      (fun _ => .erasing w q kept b) fun clients => .ok (.head ⟨clients, b⟩)) := by
  cases h with
  | erasing hw hsub =>
    have hkept : ∀ p ∈ kept, 0 ≤ p.2 := fun p hp => hw p (hsub.subset hp)
    unfold takeUp
    split_ifs with ha hneg
    · exact trivial
    · have htook : taken q = [(q.fd, q.id)] := if_pos ha
      rw [htook]
      have hperm : (kept ++ [(q.fd, q.id)]).Perm ([(q.fd, q.id)] ++ kept) := List.perm_append_comm
      refine ⟨_, hperm.subperm.trans (hsub.append_left _).subperm, .head (w := ⟨_, b⟩) fun p hp => ?_⟩
      rcases List.mem_append.mp hp with hp | hp
      · exact hkept p hp
      · rw [List.mem_singleton.mp hp]
        exact Int.not_lt.mp (not_or.mp hneg).2
    · have hnone : taken q = [] := if_neg ha
      rw [hnone]
      exact ⟨_, hsub.subperm, .head (w := ⟨kept, b⟩) hkept⟩

theorem Deals.of_ends {p : Steps cfg Unit} (h : Ends Dealt [] p g) : Deals p g := by
  unfold Ends Holds at h
  exact Script.Outline.weaken h fun _ _ => trivial

theorem Deals.of_frames {p : Steps cfg Unit} (h : p.Frames dealing) : Deals p g :=
  h.outline (fun _ _ _ hs ht => dealing_move hs ht) (fun _ => trivial) fun _ => trivial

theorem Deals.next {p : Steps cfg Unit} (h : Deals p g) (hs : Dealt (g ++ r) s) :
    ∃ g', Move Dealt [] r [] s g' (p.next s).1 ∧ Deals (p.next s).2 g' := by
  cases p with
  | done a => exact ⟨g, .same hs rfl, h⟩
  | fail d => exact ⟨g, .same hs rfl, h⟩
  | act f k => exact h r s hs

theorem roll_kept : (roll cfg).Kept where
  accounting := inferInstanceAs (Accounting Dealt)
  launched hs hl := by
    obtain ⟨accepts, _, hnumbered, _⟩ := hs
    exact .launched (hnumbered _ (List.mem_append_left _ hl))
  start := start_enters
  wait h := by
    cases h with
    | head hw => exact .waiting hw
  leave h := ⟨[], List.nil_subperm, .ended⟩
  wake _ h ev := by
    cases h with
    | waiting hw => exact poll_enters hw (pollQueue_holds ev _)
  act _ := act_enters
  erase := erase_enters
  failed _ := trivial
  next h hs := Deals.next h hs
  reading listenerEvfd := .of_frames (listenerProcess_frames listenerEvfd)
  typing buffer := .of_frames (stdinBranch_frames buffer)
  accepting listenerEvfd hs hopen := by
    obtain ⟨g', hmove, hends⟩ := acceptBranch_next listenerEvfd
      (acceptClient_deals hs fun n hn => (hopen n hn).1)
    exact ⟨g', hmove, .of_ends hends⟩

theorem Roll.listed {ph : Phase cfg} (h : Roll l ph g) :
    (⟨l, ph⟩ : Thread cfg).clients.Sublist g ∧
      ∀ p ∈ (⟨l, ph⟩ : Thread cfg).clients, 0 ≤ p.2 := by
  cases h with
  | launched => exact ⟨List.nil_sublist _, fun _ hp => absurd hp List.not_mem_nil⟩
  | head hw | waiting hw => exact ⟨.refl _, hw⟩
  | polling hw _ | serving hw _ | popping hw _ | sending hw _ =>
    exact ⟨List.sublist_append_right _ _, hw⟩
  | checking hw _ _ | pushing hw _ _ | notifying hw _ _ | erasing hw _ =>
    exact ⟨List.sublist_append_right _ _, hw⟩
  | ended => exact ⟨.refl _, fun _ hp => absurd hp List.not_mem_nil⟩

end Rolls

namespace State

-- all of the lists
def listed (s : State cfg) : List (Int × Int) := s.threads.flatMap Thread.clients

theorem Divided.listed {s : State cfg} {lg : List (Int × Int)}
    {ts : List (Thread cfg × List (Int × Int))} (h : s.Divided (roll cfg) lg ts) :
    s.listed.Sublist (lg ++ ts.flatMap Prod.snd) ∧ ∀ p ∈ s.listed, 0 ≤ p.2 := by
  have hhands := h.hands
  rw [State.listed, h.threads]
  clear h
  refine ⟨List.Sublist.trans ?_ (List.sublist_append_right _ _), fun p hp => ?_⟩
  · induction ts with
    | nil => exact .refl _
    | cons x ts ih =>
      obtain ⟨hx, hts⟩ := List.forall_mem_cons.mp hhands
      exact (Roll.listed hx).1.append (ih hts)
  · obtain ⟨th, hth, hp⟩ := List.mem_flatMap.mp hp
    obtain ⟨x, hx, rfl⟩ := List.mem_map.mp hth
    exact (Roll.listed (hhands x hx)).2 p hp

theorem reach_dealt {svSocket listenerEvfd : Nat} {s : State cfg}
    (h : Reach step (fun _ _ => True) (init cfg svSocket listenerEvfd) s) :
    s.InHands (roll cfg) := by
  have hinit : Dealt [] (init cfg svSocket listenerEvfd).shared :=
    ⟨[], rfl, fun p hp => absurd hp List.not_mem_nil, fun clId _ => by simp⟩
  exact h.invariant (init_inHands hinit) fun _ _ _ hI _ ht => step_inHands roll_kept hI ht

end State

end Interleaved

end ChatApp
