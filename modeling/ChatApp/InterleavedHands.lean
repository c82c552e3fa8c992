import ChatApp.ClientLists
import ChatApp.Interleaving

namespace ChatApp

namespace Interleaved

open Effects Scripts

variable {cfg : Config}

-- a queued ACCEPT, with the client it hands over
def Handed (g : List (Int × Int)) (text : Str) : Prop :=
  ∃ a : Nat × Int × Int, g = [a.2] ∧ text = Routing.text a ∧ Decimal.InRange a.2.1 ∧
    Decimal.InRange a.2.2

-- what a count of the clients that are held can depend on
def holdings (s : Shared cfg) : List Str × List Str × Int × Nat × List Member :=
  (s.mgr.qWorkerToListener, s.mgr.qListenerToWorker, s.sv.svSocket, s.sv.clientDataId, s.sv.roster)

-- A says of the state what follows from these clients being held, each by one hand; an ACCEPT in
-- the queue is a hand too
class Accounting (A : List (Int × Int) → Shared cfg → Prop) : Prop where
  same {ps : List (Int × Int)} {s t : Shared cfg} (h : A ps s) (ht : holdings t = holdings s) :
    A ps t
  fewer {ps qs : List (Int × Int)} {s : Shared cfg} (h : A ps s) (hs : qs.Subperm ps) : A qs s
  handOver {i : Nat} {p : Int × Int} {ps : List (Int × Int)} {s : Shared cfg} (h : A (p :: ps) s)
    (hi : i < cfg.maxNrOfThreads) : A ps (s.pushListenerToWorker (acceptText i p.1 p.2))
  takeOver {text : Str} {rest : List Str} {ps : List (Int × Int)} {s : Shared cfg} (h : A ps s)
    (hq : s.mgr.qListenerToWorker = text :: rest) :
    ∃ g, Handed g text ∧ A (g ++ ps) (s.setListenerToWorker rest)

-- what a script may count on and what it may do: g is what it has in its own hand, ws what its
-- thread holds throughout, r what the others hold
def Rely (A : List (Int × Int) → Shared cfg → Prop) (ws r g : List (Int × Int))
    (s : Shared cfg) : Prop := A (g ++ (ws ++ r)) s

-- each thread that is launched holds its client
def Move (A : List (Int × Int) → Shared cfg → Prop) (ws r : List (Int × Int))
    (_ : List (Int × Int)) (s : Shared cfg) (g' : List (Int × Int)) (t : Shared cfg) : Prop :=
  ∃ new : List Launch, t.kernel.spawned = s.kernel.spawned ++ new ∧
    (∀ l ∈ new, l.personalIndex < cfg.maxNrOfThreads) ∧
    A (new.map Launch.client ++ (g' ++ (ws ++ r))) t

def Harmless (d : Fault) : Prop := d ≠ .emptyOptional

theorem harmless_thrown (e : Exn) : Harmless (.thrown e) := Fault.noConfusion

def Holds {α : Type} (A : List (Int × Int) → Shared cfg → Prop) (ws : List (Int × Int))
    (Q : List (Int × Int) → α → Prop) (p : Steps cfg α) (g : List (Int × Int)) : Prop :=
  p.Outline (Rely A ws) (Move A ws) Harmless Q g

-- the script holds at its end what it held at its start
def Keeps {α : Type} (A : List (Int × Int) → Shared cfg → Prop) (ws g : List (Int × Int))
    (p : Steps cfg α) (Q : α → Prop) : Prop := Holds A ws (fun g' a => g' = g ∧ Q a) p g

-- the listener ends a branch with whatever it has in hand
def Ends (A : List (Int × Int) → Shared cfg → Prop) (ws : List (Int × Int)) (p : Steps cfg Unit)
    (g : List (Int × Int)) : Prop := Holds A ws (fun _ _ => True) p g

variable {α β : Type} {A : List (Int × Int) → Shared cfg → Prop} {ws g r : List (Int × Int)}
variable {s t : Shared cfg} {p : Steps cfg α} {Q : α → Prop} {R : β → Prop}

section Rules

theorem Move.same {g' : List (Int × Int)} (h : A (g' ++ (ws ++ r)) t)
    (hs : t.kernel.spawned = s.kernel.spawned) : Move A ws r g s g' t :=
  ⟨[], by rw [hs, List.append_nil], by simp, h⟩

theorem Holds.pure {Q : List (Int × Int) → α → Prop} {a : α} (h : Q g a) :
    Holds A ws Q (Pure.pure a : Steps cfg α) g := h

theorem Holds.raise {Q : List (Int × Int) → α → Prop} {e : Exn} :
    Holds A ws Q (Interleaved.raise e : Steps cfg α) g := harmless_thrown e

theorem Holds.bind {Q : List (Int × Int) → α → Prop} {R : List (Int × Int) → β → Prop}
    {k : α → Steps cfg β} (h : Holds A ws Q p g) (hk : ∀ g a, Q g a → Holds A ws R (k a) g) :
    Holds A ws R (p >>= k) g := Script.Outline.bind h hk

theorem Holds.call {Q : List (Int × Int) → α → Prop} {m : Prog cfg α}
    (h : ∀ r s, A (g ++ (ws ++ r)) s → ∃ g', Move A ws r g s g' (final (m s)) ∧
      ∀ a t, m s = .ok a t → Q g' a) : Holds A ws Q (Interleaved.call m) g := by
  refine .op fun r s hs => ?_
  obtain ⟨g', hm, hok⟩ := h r s hs
  exact ⟨g', hm, hok, fun e _ _ => harmless_thrown e⟩

theorem holds_done {Q : List (Int × Int) → α → Prop} {a : α} :
    Holds A ws Q (.done a : Steps cfg α) g ↔ Q g a := .rfl

theorem Holds.next {Q : List (Int × Int) → α → Prop} (h : Holds A ws Q p g)
    (hs : A (g ++ (ws ++ r)) s) :
    ∃ g', Move A ws r g s g' (p.next s).1 ∧ Holds A ws Q (p.next s).2 g' := by
  cases p with
  | done a => exact ⟨g, .same hs rfl, h⟩
  | fail d => exact ⟨g, .same hs rfl, h⟩
  | act f k => exact h r s hs

theorem Keeps.act {f : Shared cfg → Shared cfg} {k : Shared cfg → Steps cfg α}
    (h : ∀ ps s, A (g ++ (ws ++ ps)) s → A (g ++ (ws ++ ps)) (f s) ∧
      (f s).kernel.spawned = s.kernel.spawned ∧ Keeps A ws g (k s) Q) :
    Keeps A ws g (.act f k : Steps cfg α) Q := by
  intro r s hs
  obtain ⟨hacc, hsp, hk⟩ := h r s hs
  exact ⟨g, .same hacc hsp, hk⟩

theorem Keeps.pure {a : α} (ha : Q a) : Keeps A ws g (Pure.pure a : Steps cfg α) Q := ⟨rfl, ha⟩

theorem Keeps.raise {e : Exn} : Keeps A ws g (Interleaved.raise e : Steps cfg α) Q :=
  harmless_thrown e

theorem Keeps.bind {k : α → Steps cfg β} (h : Keeps A ws g p Q)
    (hk : ∀ a, Q a → Keeps A ws g (k a) R) : Keeps A ws g (p >>= k) R :=
  Script.Outline.bind h fun _ a h => h.1 ▸ hk a h.2

theorem Keeps.checked {x : Except Exn α} (h : ∀ a, x = .ok a → Q a) :
    Keeps A ws g (Interleaved.checked x : Steps cfg α) Q :=
  .lift (fun a ha => ⟨rfl, h a ha⟩) fun e _ => harmless_thrown e

theorem Keeps.call {m : Prog cfg α}
    (h : ∀ ps s, A (g ++ (ws ++ ps)) s → A (g ++ (ws ++ ps)) (final (m s)) ∧
      (final (m s)).kernel.spawned = s.kernel.spawned ∧ ∀ a t, m s = .ok a t → Q a) :
    Keeps A ws g (Interleaved.call m) Q := by
  refine .op fun r s hs => ?_
  obtain ⟨hacc, hsp, hok⟩ := h r s hs
  exact ⟨g, .same hacc hsp, fun a t hr => ⟨rfl, hok a t hr⟩, fun e _ _ => harmless_thrown e⟩

theorem Keeps.checkEvent (fd : Int) (poll : Int → Bool) :
    Keeps A ws g (Interleaved.checkEvent fd poll : Steps cfg Bool) fun _ => True := by
  unfold Interleaved.checkEvent
  split_ifs
  · exact .raise
  · exact .pure trivial

theorem holdings_core (h : core t = core s) : holdings t = holdings s := by
  simp only [core, holdings, Prod.mk.injEq] at h ⊢
  exact ⟨h.1, h.2.1, h.2.2.2.1, h.2.2.2.2.1, h.2.2.2.2.2.2⟩

theorem Keeps.call_core [Accounting A] {m : Prog cfg α} (hm : Frame core m) :
    Keeps A ws g (Interleaved.call m) fun _ => True := by
  refine .call fun ps s hs => ⟨Accounting.same hs (holdings_core (hm s)), ?_, fun _ _ _ => trivial⟩
  have hc := hm s
  simp only [core, Prod.mk.injEq] at hc
  exact hc.2.2.1

theorem Keeps.followed {R : List (Int × Int) → β → Prop} {k : α → Steps cfg β}
    (h : Keeps A ws g p Q) (hk : ∀ a, Q a → Holds A ws R (k a) g) : Holds A ws R (p >>= k) g :=
  Holds.bind h fun _ a h => h.1 ▸ hk a h.2

theorem Keeps.holds {R : List (Int × Int) → α → Prop} (h : Keeps A ws g p Q)
    (hQ : ∀ a, Q a → R g a) : Holds A ws R p g :=
  Script.Outline.imp h fun _ a h => h.1 ▸ hQ a h.2

theorem Ends.of_keeps {p : Steps cfg Unit} (h : Keeps A ws g p fun _ => True) : Ends A ws p g :=
  h.holds fun _ _ => trivial

theorem Ends.call_core [Accounting A] {m : Prog cfg Unit} (hm : Frame core m) :
    Ends A ws (call m) g :=
  .of_keeps (.call_core hm)

end Rules

attribute [irreducible] Holds

section Frames

theorem readEvfd_core (fd : Int) : Frame core (readEvfd fd : Prog cfg Bool) := by
  intro s
  by_cases h : s.kernel.evfd fd = 0
  · rw [readEvfd_zero h]
    rfl
  · rw [readEvfd_pos h]
    rfl

theorem writeEvfd_core (fd : Int) (what : String) :
    Frame core (writeEvfd fd what : Prog cfg Unit) := by
  intro s
  by_cases h : s.kernel.evfd fd < evfdMax
  · rw [writeEvfd_run h]
    rfl
  · rw [writeEvfd_full h]
    rfl

theorem getSelectedClientFd_core (clId : Int) :
    Frame core (onServer (Server.getSelectedClientFd clId) : Prog cfg Int) := by
  intro s
  have hsame : final (Server.getSelectedClientFd clId s.sv) = s.sv := by
    simp only [Server.getSelectedClientFd, get_bind_run]
    split_ifs
    · rfl
    · cases s.sv.getClientRef clId with
      | none => rfl
      | some c =>
        simp only
        split_ifs <;> rfl
  unfold onServer
  cases hr : Server.getSelectedClientFd clId s.sv <;> rw [hr] at hsame <;> cases hsame <;> rfl

theorem transmit_core (msg : Str) (clId : Int) :
    Frame core (transmit msg clId : Prog cfg Unit) := by
  intro s
  simp only [transmit, get_bind_run]
  cases hk : s.kernel.sends with
  | nil => rfl
  | cons x rest => cases x <;> rfl

theorem receiveMsg_core (f : MessageFrame) (clId : Int) (x : RecvResult) :
    Frame core (receiveMsg f clId x : Prog cfg (Nat × MessageFrame)) :=
  Frame.bind (getSelectedClientFd_core clId) fun _ => by
    cases x with
    | chunk c => exact .pure _
    | zero => exact .pure _
    | failed => exact .throw _

theorem hasClient_core (clId : Int) : Frame core (hasClient clId : Prog cfg Bool) := fun _ => rfl

theorem pushToClient_core (clId : Int) (msg : Str) :
    Frame core (pushToClient clId msg : Prog cfg Bool) := by
  intro s
  cases hc : s.sv.getClientRef clId with
  | none =>
    simp only [pushToClient, get_bind_run, hc]
    rfl
  | some c =>
    rw [pushToClient_eq hc]
    split_ifs
    · simp only [final_ok, core, Shared.modifyClient_sv, Shared.modifyClient_mgr,
        Shared.modifyClient_kernel, Server.roster_enqueue]
      rfl
    · rfl

theorem joinOf_core (old : Option WorkerEntry) : Frame core (joinOf old : Prog cfg Unit) := by
  intro s
  cases old <;> rfl

theorem resetWorker_core (i : Nat) (old : Option WorkerEntry) :
    Frame core (resetWorker i old : Prog cfg Unit) :=
  (joinOf_core old).bind fun _ => .modify fun _ => rfl

theorem derefWorker_core (i : Nat) : Frame core (derefWorker i : Prog cfg WorkerEntry) := by
  intro s
  simp only [derefWorker, get_bind_run]
  cases s.mgr.workerThreads.entries[i]? with
  | none => rfl
  | some x => cases x <;> rfl

theorem incCount_core (i : Nat) : Frame core (incCount i : Prog cfg Unit) :=
  (derefWorker_core i).bind fun _ => .modify fun _ => rfl

theorem getEvfd_core (evfd : Int) : Frame core (getEvfd evfd : Prog cfg Int) := by
  unfold getEvfd
  split_ifs
  · exact .throw _
  · exact Frame.bind (.modify fun _ => rfl) fun _ => .pure _

end Frames

section Polling

theorem tryPopListenerToWorker_holds [Accounting A] :
    Holds A ws (fun g x => ∀ text, x = some text → Handed g text)
      (call tryPopListenerToWorker : Steps cfg (Option Str)) [] := by
  refine .call fun r s hs => ?_
  cases hq : s.mgr.qListenerToWorker with
  | nil =>
    rw [tryPopListenerToWorker_nil hq]
    refine ⟨[], .same hs rfl, fun a t hr text ht => ?_⟩
    cases hr
    cases ht
  | cons text rest =>
    obtain ⟨g, hg, hrest⟩ := Accounting.takeOver hs hq
    rw [tryPopListenerToWorker_cons hq]
    refine ⟨g, .same hrest rfl, fun x t hr text ht => ?_⟩
    cases hr
    cases ht
    exact hg

-- what the iteration takes up is the client of the ACCEPT
def Took (g : List (Int × Int)) (q : QueueAction) : Prop :=
  (taken q).Sublist g ∧ ∀ p ∈ taken q, 0 ≤ p.1

theorem took_nothing (g : List (Int × Int)) : Took g {} := by
  have hnone : taken {} = [] := by decide
  rw [Took, hnone]
  exact ⟨List.nil_sublist _, fun _ hp => absurd hp List.not_mem_nil⟩

theorem checked_ok_bind (a : α) (k : α → Steps cfg β) : checked (.ok a) >>= k = k a := rfl

theorem processQueued_holds (i : Nat) {a : Nat × Int × Int} (hfd : Decimal.InRange a.2.1)
    (hid : Decimal.InRange a.2.2) :
    Holds A ws Took (processQueued i (Routing.text a) : Steps cfg QueueAction) [a.2] := by
  have hdec : ({} : ServerMessage).constructFromString (Routing.text a) =
      .ok (acceptMsg a.1 a.2.1 a.2.2) :=
    ServerMessage.constructFromString_getConcatenatedMsg {} (acceptMsg_clean _ _ _)
  have hf : stoi (acceptMsg a.1 a.2.1 a.2.2).fd = .ok a.2.1 := stoi_toString hfd
  have hi : stoi (acceptMsg a.1 a.2.1 a.2.2).id = .ok a.2.2 := stoi_toString hid
  have hact : (acceptMsg a.1 a.2.1 a.2.2).action = getAction .accept := rfl
  rw [processQueued, hdec, checked_ok_bind, if_pos hact, takeAccept]
  split_ifs
  · exact .pure (took_nothing _)
  · rw [hf, hi, checked_ok_bind, checked_ok_bind, addMonitoredFd]
    split_ifs with hneg
    · exact Holds.bind (Q := fun _ _ => False) .raise fun _ _ h => h.elim
    · refine .pure ⟨List.Sublist.refl _, fun p hp => ?_⟩
      have hp : p ∈ [(a.2.1, a.2.2)] := hp
      rw [List.mem_singleton.mp hp]
      exact Int.not_lt.mp hneg

theorem pollQueue_holds [Accounting A] (ev : Events) (l : Launch) :
    Holds A ws Took (pollQueue ev l : Steps cfg QueueAction) [] := by
  unfold pollQueue
  refine Keeps.followed (.checkEvent _ _) fun poll _ => ?_
  split_ifs
  · unfold workerProcessListenerToWorkerQ
    refine Keeps.followed (.call_core (readEvfd_core _)) fun told _ => ?_
    split_ifs
    · exact .pure (took_nothing _)
    · refine tryPopListenerToWorker_holds.bind fun g popped hp => ?_
      cases popped with
      | none => exact .pure (took_nothing _)
      | some text =>
        obtain ⟨a, hg, ht, hfd, hid⟩ := hp text rfl
        rw [hg, ht]
        exact processQueued_holds _ hfd hid
  · exact .pure (took_nothing _)

end Polling

section Connections

variable [Accounting A] {socket id listenerEvfd eventfd : Int} {i : Nat}

-- the client goes into the queue with the ACCEPT
theorem handOver_ends (hi : i < cfg.maxNrOfThreads) (eventFd : Int) :
    Ends A ws (assignClientToWorker i socket id eventFd : Steps cfg Unit) [(socket, id)] := by
  have hpush : Holds A ws (fun _ _ => True) (call (tryPushListenerToWorker
      (acceptMsg i socket id).getConcatenatedMsg) : Steps cfg Bool) [(socket, id)] := by
    refine .call fun r s hs => ?_
    cases hroom : cfg.hasRoom s.mgr.qListenerToWorker with
    | false =>
      rw [tryPushListenerToWorker_full hroom]
      exact ⟨[(socket, id)], .same hs rfl, fun _ _ _ => trivial⟩
    | true =>
      rw [tryPushListenerToWorker_room hroom]
      have hqueued : A (ws ++ r) (s.pushListenerToWorker (acceptText i socket id)) :=
        Accounting.handOver (p := (socket, id)) hs hi
      exact ⟨[], .same hqueued rfl, fun _ _ _ => trivial⟩
  refine Holds.bind hpush fun g pushed _ => ?_
  split_ifs
  · exact Holds.raise
  · exact Ends.call_core (writeEvfd_core _ _)

theorem assignTo_ends (hi : i < cfg.maxNrOfThreads) :
    Ends A ws (assignTo i socket id : Steps cfg Unit) [(socket, id)] := by
  refine Keeps.followed (.call_core (incCount_core i)) fun _ _ => ?_
  exact Keeps.followed (.call_core (derefWorker_core i)) fun w _ => handOver_ends hi w.evfd

-- a worker that is launched holds the client it is launched with
theorem launch_holds {l : Launch} (hi : l.personalIndex < cfg.maxNrOfThreads) :
    Holds A ws (fun _ _ => True) (call (launch l) : Steps cfg Nat) [l.client] := by
  refine .call fun r s hs => ?_
  refine ⟨[], ⟨[l], rfl, fun x hx => ?_, Accounting.same hs rfl⟩, fun _ _ _ => trivial⟩
  rwa [List.mem_singleton.mp hx]

theorem emplaceNewWorker_ends (hi : i < cfg.maxNrOfThreads) :
    Ends A ws (emplaceNewWorker socket id i listenerEvfd eventfd : Steps cfg Unit)
      [(socket, id)] := by
  have hread : Frame core (nextEntry : Prog cfg (Nat × Option (Option WorkerEntry))) :=
    fun _ => rfl
  refine Keeps.followed (.call_core (getEvfd_core _)) fun evfd _ => ?_
  refine Keeps.followed (.call_core hread) fun x _ => ?_
  obtain ⟨slot, entry⟩ := x
  cases entry with
  | none => exact Holds.raise
  | some old =>
    refine Holds.bind (launch_holds (l := ⟨socket, id, i, evfd, listenerEvfd⟩) hi)
      fun g k _ => Ends.of_keeps ?_
    refine .bind (.call_core (resetWorker_core _ _)) fun _ _ => ?_
    refine .bind (.call_core (.modify fun _ => rfl)) fun _ _ => ?_
    refine .bind (.call_core (incCount_core i)) fun _ _ => ?_
    exact .call_core (.modify fun _ => rfl)

theorem processNewClient_ends :
    Ends A ws (processNewClient socket id listenerEvfd eventfd : Steps cfg Unit)
      [(socket, id)] := by
  have hread : Frame core (do return (← get).mgr : Prog cfg (ServerThreadManager cfg)) := fun _ => rfl
  refine Keeps.followed (.call_core hread) fun mgr _ => ?_
  have hfirst : Ends A ws (emplaceNewWorker socket id 0 listenerEvfd eventfd : Steps cfg Unit)
    [(socket, id)] := emplaceNewWorker_ends cfg.threads_pos
  by_cases h0 : mgr.nrOfLaunchedThreads = 0
  · rw [if_pos h0]
    exact hfirst
  · rw [if_neg h0]
    cases hmin : getMinAndIdx mgr.workerThreads with
    | none => exact hfirst
    | some b =>
      obtain ⟨min, minIdx⟩ := b
      have hi : minIdx < cfg.maxNrOfThreads := by
        obtain ⟨⟨w, hw, _⟩, _⟩ := getMinAndIdx_least hmin
        exact Slots.lt_of_get hw
      have hassign : Ends A ws (assignTo minIdx socket id : Steps cfg Unit) [(socket, id)] :=
        assignTo_ends hi
      simp only
      split_ifs
      · exact hassign
      · exact Keeps.followed (.call_core (.modify fun _ => rfl)) fun _ _ => Holds.raise
      · exact Keeps.followed (.call_core (.modify fun _ => rfl)) fun _ _ => hassign
      · exact Holds.raise
      · exact emplaceNewWorker_ends (by omega)

theorem setIsDone_ends : Ends A ws (call (onServer Server.setIsDone) : Steps cfg Unit) g := by
  refine Holds.call fun r s hs => ?_
  obtain ⟨d, hd⟩ := setIsDone_final s
  rw [hd]
  exact ⟨g, .same (Accounting.same hs rfl) rfl, fun _ _ _ => trivial⟩

theorem recover_ends {d : Fault} (hd : Harmless d) : Ends A ws (recover d : Steps cfg Unit) g := by
  cases d with
  | emptyOptional => exact absurd rfl hd
  | thrown e =>
    cases e with
    | undefinedBehaviour => exact Holds.raise
    | serverFullException what => exact Holds.pure trivial
    | threadManagingException what => exact Holds.pure trivial
    | _ => exact setIsDone_ends

theorem Ends.recovered {p : Steps cfg Unit} (h : Ends A ws p g) : Ends A ws (p.handle recover) g := by
  unfold Ends Holds at h ⊢
  refine Script.Outline.handle h fun g d hd => ?_
  have : Ends A ws (recover d : Steps cfg Unit) g := recover_ends hd
  unfold Ends Holds at this
  exact this

-- accept_client runs in the state in which the kernel and the generator answer
theorem acceptBranch_next {env : AcceptEnv} (listenerEvfd : Int)
    (h : ∃ g', Move A [] r [] s g' (final (acceptClient env s)) ∧
      ∀ pair t, acceptClient env s = .ok pair t → g' = [pair]) :
    ∃ g', Move A [] r [] s g' ((acceptBranch listenerEvfd env).next s).1 ∧
      Ends A [] ((acceptBranch listenerEvfd env).next s).2 g' := by
  obtain ⟨g, hmove, hpair⟩ := h
  refine ⟨g, hmove, ?_⟩
  cases hr : acceptClient env s with
  | ok pair t =>
    obtain rfl := hpair pair t hr
    simp only [acceptBranch, call, Script.op, Bind.bind, Script.bind, Script.handle, Script.next,
      hr]
    exact processNewClient_ends.recovered
  | error e t =>
    simp only [acceptBranch, call, Script.op, Bind.bind, Script.bind, Script.handle, Script.next,
      hr]
    exact recover_ends (harmless_thrown e)

end Connections

end Interleaved

end ChatApp
