import ChatApp.InterleavedAlone
import ChatApp.InterleavedIds

namespace ChatApp

namespace Interleaved

open Effects Scripts Relation Runs

variable {cfg : Config}

def spawned (s : Shared cfg) : List Launch := s.kernel.spawned

-- the iteration of one worker goes on, with nobody else moving
def Goes (l : Launch) : Phase cfg × Shared cfg → Phase cfg × Shared cfg → Prop :=
  ReflTransGen fun x y => x.1.act l x.2 = some (y.2, .ok y.1) ∧ spawned y.2 = spawned x.2

def Comes (l : Launch) (res : Except Fault (Phase cfg)) (s : Shared cfg)
    (y : Phase cfg × Shared cfg) : Prop := ∃ ph, res = .ok ph ∧ Goes l (ph, s) y

section Iteration

variable {α : Type} {l : Launch} {ev : Events} {w : WorkerState} {q : QueueAction} {b : Buffers}
variable {kept rest todo : List (Int × Int)} {client : Int × Int} {s t : Shared cfg}
variable {y : Phase cfg × Shared cfg}

theorem settle_comes {p : Steps cfg α} {a : α} (now : Steps cfg α → Phase cfg)
    {next : α → Except Fault (Phase cfg)} (hp : p.Frames spawned)
    (hact : ∀ p s, (now p).act l s = some ((p.next s).1, Phase.settle (p.next s).2 now next))
    (hr : alone p s = .ok a t) (hn : Comes l (next a) t y) :
    Comes l (Phase.settle p now next) s y := by
  induction p generalizing s with
  | done x =>
    cases hr
    exact hn
  | fail d => cases hr
  | act f k ih =>
    obtain ⟨hsame, hk⟩ := hp s
    obtain ⟨ph, hph, hgo⟩ := ih s hk hr
    refine ⟨now (.act f k), rfl, .head ⟨?_, hsame⟩ hgo⟩
    rw [hact]
    exact congrArg (fun res => some (f s, res)) hph

theorem Frames.spawned {p : Steps cfg α} (h : p.Frames dealing) :
    p.Frames Interleaved.spawned := h.map fun x => x.2.2

theorem modifyClient_congr {clId : Int} {cl : ClientData} {f g : ClientData → ClientData}
    (h : s.sv.getClientRef clId = some cl) (hfg : f cl = g cl) :
    s.modifyClient clId f = s.modifyClient clId g := by
  have hsame : s.sv.clients.modify (Server.hasId clId) f =
      s.sv.clients.modify (Server.hasId clId) g := by
    refine Slots.modify_congr fun c hc => ?_
    have hc : s.sv.getClientRef clId = some c := hc
    rw [Option.some.inj (h.symm.trans hc)] at hfg
    exact hfg
  exact congrArg (fun clients => { s with sv := { s.sv with clients := clients } }) hsame

theorem modifyClient_self {clId : Int} {cl : ClientData} {f : ClientData → ClientData}
    (h : s.sv.getClientRef clId = some cl) (hf : f cl = cl) : s.modifyClient clId f = s := by
  rw [modifyClient_congr h (g := id) hf]
  exact congrArg (fun clients => { s with sv := { s.sv with clients := clients } })
    (Slots.modify_id _ _)

-- the worker pops and sends until the queue is empty
theorem flush_comes {cl : ClientData} (hcl : s.sv.getClientRef client.2 = some cl)
    (hr : flushQueue client.2 cl.sendQueue s = .ok () t)
    (hn : Comes l (Phase.serve l ev w q b todo) t y) :
    Comes l (Phase.flush ev w q client todo b) s y := by
  generalize hq : cl.sendQueue = queue at hr
  induction queue generalizing s cl with
  | nil =>
    cases hr
    have hpop : alone (popQueue client.2 : Steps cfg (Option Str)) t = .ok none t := by
      rw [popQueue_alone hcl, hq, List.head?_nil]
      refine congrArg (EStateM.Result.ok none) (modifyClient_self hcl ?_)
      rw [hq, List.tail_nil, ← hq]
    exact settle_comes (.popping ev w q client todo b) (Frames.spawned (popQueue_frames _))
      (fun _ _ => rfl) hpop hn
  | cons msg rest ih =>
    obtain ⟨_, u, hu, h₁⟩ := bind_ok hr
    obtain ⟨_, v, hv, h₂⟩ := bind_ok h₁
    cases hu
    have hpop : alone (popQueue client.2 : Steps cfg (Option Str)) s =
        .ok (some msg) (s.modifyClient client.2 fun c => { c with sendQueue := rest }) := by
      rw [popQueue_alone hcl, hq, List.head?_cons]
      refine congrArg (EStateM.Result.ok (some msg)) (modifyClient_congr hcl ?_)
      rw [hq, List.tail_cons]
    refine settle_comes (.popping ev w q client todo b) (Frames.spawned (popQueue_frames _))
      (fun _ _ => rfl) hpop ?_
    have hsend : alone (sendMsg msg client.2 : Steps cfg Unit)
        (s.modifyClient client.2 fun c => { c with sendQueue := rest }) = .ok () v := by
      rw [sendMsg_alone]
      exact hv
    refine settle_comes (.sending ev w q client todo b) (Frames.spawned (sendMsg_frames _ _))
      (fun _ _ => rfl) hsend ?_
    have hcurrent : v.sv.getClientRef client.2 = some { cl with sendQueue := rest } := by
      rw [sendMsg_ok hv, Shared.sendDone_sv]
      exact getClientRef_modifyClient hcl fun _ => rfl
    exact ih hcurrent rfl h₂

-- a client that is not in the table has no turn
theorem handleClient_missing {listenerEvfd : Int} {b' : Buffers}
    (h : s.sv.getClientRef client.2 = none)
    (hr : ChatApp.handleClient ev listenerEvfd client b s = .ok b' t) :
    alone (handleClient ev listenerEvfd client b : Steps cfg (Bool × Buffers)) s =
      .ok (false, b') t := by
  have hcurrent : hasClient client.2 s = .ok false s := by
    simp only [hasClient, get_bind_run, h, pure_run, Option.isSome_none]
  obtain ⟨readable, u, hin, hr⟩ := bind_ok hr
  obtain ⟨rfl, _⟩ := checkEvent_ok hin
  rw [handleClient, alone_bind, alone_call, bind_of_ok hcurrent, alone_bind, checkEvent_alone,
    bind_of_ok hin]
  cases readable with
  | true =>
    obtain ⟨r, v, hv, _⟩ := bind_ok hr
    obtain ⟨x, v, hv, _⟩ := bind_ok hv
    obtain ⟨fd, v, hfd, _⟩ := bind_ok hv
    simp only [onServer, Server.getSelectedClientFd, get_bind_run, h] at hfd
    split_ifs at hfd <;> cases hfd
  | false =>
    obtain ⟨writable, v, hout, hr⟩ := bind_ok hr
    obtain ⟨rfl, _⟩ := checkEvent_ok hout
    cases writable with
    | true =>
      obtain ⟨cl, v, hcl, _⟩ := bind_ok hr
      obtain ⟨_, hcl⟩ := derefClient_ok hcl
      rw [h] at hcl
      cases hcl
    | false =>
      cases hr
      simp only [Bool.false_eq_true, if_false, handleOutput, alone_bind, checkEvent_alone]
      rw [bind_of_ok hout]
      rfl

theorem serve_comes {b' : Buffers} (hr : handleClients ev l.listenerEvfd todo b s = .ok b' t)
    (hn : Comes l (Phase.check l w q [] b' w.clients) t y) :
    Comes l (Phase.serve l ev w q b todo) s y := by
  induction todo generalizing b s with
  | nil =>
    cases hr
    exact hn
  | cons client todo ih =>
    obtain ⟨b₁, u, hu, hr⟩ := bind_ok hr
    have hframes : (handleClient ev l.listenerEvfd client b : Steps cfg (Bool × Buffers)).Frames
        spawned := Frames.spawned (handleClient_frames _ _ _ _)
    cases hcl : s.sv.getClientRef client.2 with
    | none =>
      exact settle_comes (.serving ev w q client todo) hframes (fun _ _ => rfl)
        (handleClient_missing hcl hu) (ih hr)
    | some cl =>
      rw [← handleClient_alone hcl] at hu
      obtain ⟨r, v, hv, hflush⟩ := bind_ok hu
      refine settle_comes (.serving ev w q client todo) hframes (fun _ _ => rfl) hv ?_
      unfold flushed at hflush
      split_ifs at hflush ⊢
      · obtain ⟨cl', x, hx, h₁⟩ := bind_ok hflush
        obtain ⟨rfl, hcl'⟩ := derefClient_ok hx
        obtain ⟨_, x, hx, h₂⟩ := bind_ok h₁
        cases h₂
        exact flush_comes hcl' hx (ih hr)
      · cases hflush
        exact ih hr

theorem check_comes {r : List (Int × Int) × ServerMessage}
    (hr : removeDisconnected l.personalIndex l.listenerEvfd rest b.serverMsg s = .ok r t)
    (hn : Goes l (.erasing w q (kept ++ r.1) { b with serverMsg := r.2 }, t) y) :
    Comes l (Phase.check l w q kept b rest) s y := by
  induction rest generalizing kept b s r with
  | nil =>
    cases hr
    rw [List.append_nil] at hn
    exact ⟨_, rfl, hn⟩
  | cons client rest ih =>
    obtain ⟨cl, u, hu, h₁⟩ := bind_ok hr
    obtain ⟨rfl, hcl⟩ := derefClient_ok hu
    refine settle_comes (.checking w q kept client rest b)
      (Frames.spawned (signalled_frames _ _ _)) (fun _ _ => rfl)
      (signalled_alone hcl l.personalIndex b.serverMsg) ?_
    split_ifs at h₁ ⊢
    · obtain ⟨_, v, hv, h₂⟩ := bind_ok h₁
      rw [← workerPush_alone, workerPush, alone_bind] at hv
      obtain ⟨_, x, hx, hnotify⟩ := bind_ok hv
      refine settle_comes (.pushing w q kept client rest _) (Frames.spawned (pushUp_frames _ _))
        (fun _ _ => rfl) hx ?_
      exact settle_comes (.notifying w q kept rest _) (Frames.spawned (notify_frames _))
        (fun _ _ => rfl) hnotify (ih h₂ hn)
    · obtain ⟨r', v, hv, h₂⟩ := bind_ok h₁
      cases h₂
      refine ih hv ?_
      rwa [List.append_assoc]

theorem pollQueue_spawned (ev : Events) (l : Launch) :
    (pollQueue ev l : Steps cfg QueueAction).Frames spawned := by
  have hpop : (call tryPopListenerToWorker : Steps cfg (Option Str)).Frames spawned := by
    refine .op fun s => ?_
    cases hq : s.mgr.qListenerToWorker with
    | nil =>
      rw [tryPopListenerToWorker_nil hq]
      rfl
    | cons text rest =>
      rw [tryPopListenerToWorker_cons hq]
      rfl
  have hpush (text : Str) :
      (call (tryPushListenerToWorker text) : Steps cfg Bool).Frames spawned := by
    refine .op fun s => ?_
    cases h : cfg.hasRoom s.mgr.qListenerToWorker with
    | false =>
      rw [tryPushListenerToWorker_full h]
      rfl
    | true =>
      rw [tryPushListenerToWorker_room h]
      rfl
  refine .bind (Frames.spawned (checkEvent_frames _ _)) fun poll => ?_
  split_ifs
  · refine .bind (Frames.spawned (call_frames (readEvfd_core _))) fun told => ?_
    split_ifs
    · trivial
    · refine .bind hpop fun popped => ?_
      cases popped with
      | none => trivial
      | some text =>
        refine .bind (.lift _) fun msg => ?_
        split_ifs
        · unfold takeAccept addMonitoredFd
          split_ifs
          · trivial
          · refine .bind (.lift _) fun fd => .bind (.lift _) fun id => ?_
            split_ifs <;> trivial
        · refine .bind (hpush text) fun pushed => ?_
          split_ifs <;> trivial
  · trivial

theorem takeUp_erased {clients : List (Int × Int)}
    (hr : ChatApp.takeUp q kept s = .ok clients t) :
    t = s ∧ Phase.settle (takeUp q kept : Steps cfg (List (Int × Int)))
      (fun _ => .erasing w q kept b) (fun clients => .ok (.head ⟨clients, b⟩)) =
        .ok (.head ⟨clients, b⟩) := by
  unfold ChatApp.takeUp at hr
  unfold takeUp
  split_ifs at hr ⊢ <;> cases hr <;> exact ⟨rfl, rfl⟩

-- a worker that nobody interrupts does in its steps what an iteration does in one
theorem iteration_comes {w' : WorkerState} (hr : workerIteration ev l w s = .ok w' t) :
    ∃ q kept b, Comes l (Phase.settle (pollQueue ev l) (.polling ev w) fun q =>
        Phase.serve l ev w q w.buffers w.clients) s (.erasing w q kept b, t) ∧
      Phase.settle (takeUp q kept : Steps cfg (List (Int × Int))) (fun _ => .erasing w q kept b)
        (fun clients => .ok (.head ⟨clients, b⟩)) = .ok (.head w') := by
  obtain ⟨q, u, hq, h₁⟩ := bind_ok hr
  obtain ⟨b, v, hb, h₂⟩ := bind_ok h₁
  obtain ⟨r, x, hx, h₃⟩ := bind_ok h₂
  obtain ⟨clients, z, hz, h₄⟩ := bind_ok h₃
  cases h₄
  rw [← pollQueue_alone] at hq
  obtain ⟨rfl, hhead⟩ := takeUp_erased (w := w) (b := { b with serverMsg := r.2 }) hz
  refine ⟨q, r.1, _, ?_, hhead⟩
  refine settle_comes (.polling ev w) (pollQueue_spawned ev l) (fun _ _ => rfl) hq ?_
  exact serve_comes hb (check_comes hx .refl)

end Iteration

def Label.thread : Label → Option Nat
  | .start k _ | .wait k | .wake k _ | .act k | .erase k | .leave k => some k
  | _ => none

def Label.isListener : Label → Bool
  | .poll _ _ _ | .stdin _ | .accept _ | .listener => true
  | _ => false

namespace State

section Alone

variable {s : State cfg} {k : Nat} {l : Launch} {ph ph' : Phase cfg} {t sh : Shared cfg}

theorem withShared_still (hlen : s.shared.kernel.spawned.length = s.threads.length)
    (hsp : sh.kernel.spawned = s.shared.kernel.spawned) :
    s.withShared sh = { s with shared := sh } := by
  have := threads_withShared hlen (hsp.trans (List.append_nil _).symm)
  rw [List.map_nil, List.append_nil] at this
  exact congrArg (fun ths => { s with shared := sh, threads := ths }) this

theorem step_threadStep {th : Thread cfg} {x : Label} (hx : x.thread = some k)
    (hf : s.fault = none) (hth : s.threads[k]? = some th) : s.step x = s.threadStep k th x := by
  cases x with
  | start | wait | wake | act | erase | leave =>
    cases hx
    simp only [step, hf, Option.isSome_none, Bool.false_eq_true, if_false, hth, Option.bind_some]
  | _ => cases hx

theorem step_listenerStep {x : Label} (hx : x.isListener = true) (hf : s.fault = none)
    (hj : s.joined = true) : s.step x = s.listenerStep x := by
  cases x with
  | poll | stdin | accept | listener => simp only [step, hf, Option.isSome_none,
      Bool.false_eq_true, if_false, hj, if_true]
  | _ => cases hx

theorem step_act (hf : s.fault = none)
    (hlen : s.shared.kernel.spawned.length = s.threads.length)
    (hth : s.threads[k]? = some ⟨l, ph⟩) (ha : ph.act l s.shared = some (t, .ok ph'))
    (hsp : spawned t = spawned s.shared) :
    s.step (.act k) = some { s with shared := t, threads := s.threads.set k ⟨l, ph'⟩ } := by
  rw [step_threadStep rfl hf hth]
  simp only [threadStep, ha, Option.map_some, withShared_still hlen hsp, setPhase]

theorem step_erase {w : WorkerState} {q : QueueAction} {kept : List (Int × Int)} {b : Buffers}
    (hf : s.fault = none) (hth : s.threads[k]? = some ⟨l, .erasing w q kept b⟩)
    (he : Phase.settle (takeUp q kept : Steps cfg (List (Int × Int)))
      (fun _ => .erasing w q kept b) (fun clients => .ok (.head ⟨clients, b⟩)) = .ok ph) :
    s.step (.erase k) = some { s with threads := s.threads.set k ⟨l, ph⟩ } := by
  rw [step_threadStep rfl hf hth]
  simp only [threadStep, he, setPhase]

theorem reach_of_goes (hf : s.fault = none)
    (hlen : s.shared.kernel.spawned.length = s.threads.length)
    (hth : s.threads[k]? = some ⟨l, ph⟩) (hgo : Goes l (ph, s.shared) (ph', t)) :
    Reach step (fun _ _ => True) s { s with shared := t, threads := s.threads.set k ⟨l, ph'⟩ } ∧
      spawned t = spawned s.shared := by
  have hk := (List.getElem?_eq_some_iff.mp hth).1
  generalize hy : (ph', t) = y at hgo
  induction hgo generalizing ph' t with
  | refl =>
    cases hy
    have hself : s.threads.set k ⟨l, ph⟩ = s.threads := by
      rw [← (List.getElem?_eq_some_iff.mp hth).2, List.set_getElem_self]
    rw [hself]
    exact ⟨.refl, rfl⟩
  | @tail x y _ hact ih =>
    subst hy
    obtain ⟨ph₁, sh₁⟩ := x
    obtain ⟨hreach, hsp⟩ := ih rfl
    obtain ⟨hact, hsame⟩ := hact
    refine ⟨hreach.tail (l := .act k) trivial ?_, hsame.trans hsp⟩
    have hth₁ : (s.threads.set k ⟨l, ph₁⟩)[k]? = some ⟨l, ph₁⟩ := List.getElem?_set_self hk
    have hlen₁ : sh₁.kernel.spawned.length = (s.threads.set k ⟨l, ph₁⟩).length := by
      rw [List.length_set, ← hlen]
      exact congrArg List.length hsp
    have hstep := step_act (s := { s with shared := sh₁, threads := s.threads.set k ⟨l, ph₁⟩ }) hf
      hlen₁ hth₁ hact hsame
    rwa [List.set_set] at hstep

end Alone

-- the listener need not wait for a thread of s that is still running
def free (s : State cfg) (sh : Shared cfg) : Bool :=
  match sh.kernel.joining with
  | none => true
  | some k => (s.threads[k]?).any Thread.isEnded

-- where the listener stands after a branch
def returned (s : State cfg) (next : ListenerPc cfg) :
    EStateM.Result Exn (Shared cfg) Unit → State cfg
  | .ok _ t => (s.withShared t).goTo next
  | .error _ t => (s.withShared t).goTo .ended

section Branches

variable {s : State cfg} {sh sh' : Shared cfg} {new new' : List Launch}
variable {now : Steps cfg Unit → ListenerPc cfg} {next : ListenerPc cfg}

theorem withShared_withShared (hlen : s.shared.kernel.spawned.length = s.threads.length)
    (hsp : sh.kernel.spawned = s.shared.kernel.spawned ++ new)
    (hsp' : sh'.kernel.spawned = sh.kernel.spawned ++ new') :
    (s.withShared sh).withShared sh' = s.withShared sh' := by
  have hfirst := threads_withShared hlen hsp
  have hlen' : (s.withShared sh).shared.kernel.spawned.length =
      (s.withShared sh).threads.length := by
    change sh.kernel.spawned.length = _
    rw [hfirst, hsp, List.length_append, List.length_append, List.length_map, hlen]
  have hsecond := threads_withShared hlen' hsp'
  have hall : sh'.kernel.spawned = s.shared.kernel.spawned ++ (new ++ new') := by
    rw [hsp', hsp, List.append_assoc]
  have hboth := threads_withShared hlen hall
  have hthreads : ((s.withShared sh).withShared sh').threads = (s.withShared sh').threads := by
    rw [hsecond, hfirst, hboth, List.map_append, List.append_assoc]
  exact congrArg (fun ths => { s with shared := sh', threads := ths }) hthreads

theorem free_joined (h : s.free sh = true) : (s.withShared sh).joined = true := by
  change (match sh.kernel.joining with
    | none => true
    | some k => ((s.withShared sh).threads[k]?).all Thread.isEnded) = true
  unfold free at h
  cases hj : sh.kernel.joining with
  | none => rfl
  | some k =>
    simp only [hj] at h ⊢
    obtain ⟨th, hth, hended⟩ := (Option.any_eq_true _ _).mp h
    have hk := (List.getElem?_eq_some_iff.mp hth).1
    rw [withShared, List.getElem?_append_left hk, hth]
    exact hended

theorem free_withShared (h : s.free sh' = true) : (s.withShared sh).free sh' = true := by
  unfold free at h ⊢
  cases hj : sh'.kernel.joining with
  | none => rfl
  | some k =>
    simp only [hj] at h ⊢
    obtain ⟨th, hth, hended⟩ := (Option.any_eq_true _ _).mp h
    have hk := (List.getElem?_eq_some_iff.mp hth).1
    rw [withShared, List.getElem?_append_left hk, hth]
    exact hended

-- left alone, with nobody to wait for, the listener goes through p to where the branch returns
def Completes (now : Steps cfg Unit → ListenerPc cfg) (next : ListenerPc cfg)
    (p : Steps cfg Unit) (g : List (Int × Int)) : Prop :=
  ∀ (s : State cfg) (r : List (Int × Int)), Dealt (g ++ r) s.shared → s.fault = none →
    s.shared.kernel.spawned.length = s.threads.length → s.joined = true →
    (∀ sh ∈ p.trace s.shared, s.free sh = true) →
    (∀ u, alone p s.shared ≠ .error .undefinedBehaviour u) →
    Reach step (fun _ _ => True) (s.settle p now next) (s.returned next (alone p s.shared)) ∧
      ∃ new, (final (alone p s.shared)).kernel.spawned = s.shared.kernel.spawned ++ new

theorem completes_op {f : Shared cfg → Shared cfg} {k : Shared cfg → Steps cfg Unit}
    {g r : List (Int × Int)} (hm : Move Dealt [] r [] s.shared g (f s.shared))
    (hk : Completes now next (k s.shared) g) (hf : s.fault = none)
    (hlen : s.shared.kernel.spawned.length = s.threads.length)
    (hw : ∀ sh ∈ (Script.act f k : Steps cfg Unit).trace s.shared, s.free sh = true)
    (hdef : ∀ u, alone (.act f k) s.shared ≠ .error .undefinedBehaviour u)
    (pc : ListenerPc cfg) :
    Reach step (fun _ _ => True)
        (((s.goTo pc).withShared (f s.shared)).settle (k s.shared) now next)
        (s.returned next (alone (.act f k) s.shared)) ∧
      ∃ new, (final (alone (.act f k) s.shared)).kernel.spawned =
        s.shared.kernel.spawned ++ new := by
  obtain ⟨new, hsp, _, hdealt⟩ := hm
  let u := (s.goTo pc).withShared (f s.shared)
  have hulen : u.shared.kernel.spawned.length = u.threads.length := by
    have hthreads : u.threads = s.threads ++ new.map fun l => ⟨l, .launched⟩ :=
      threads_withShared hlen hsp
    change (f s.shared).kernel.spawned.length = _
    rw [hthreads, hsp, List.length_append, List.length_append, List.length_map, hlen]
  have hheld : Dealt (g ++ (new.map Launch.client ++ r)) u.shared := by
    refine Dealt.fewer hdealt (List.Perm.subperm (List.perm_iff_count.mpr fun x => ?_))
    simp only [List.count_append, List.nil_append]
    omega
  obtain ⟨hreach, new', hsp'⟩ := hk u _ hheld hf hulen (free_joined (hw _ List.mem_cons_self))
    (fun sh hsh => free_withShared (hw sh (List.mem_cons_of_mem _ hsh))) hdef
  have hsame : u.returned next (alone (k s.shared) (f s.shared)) =
      s.returned next (alone (k s.shared) (f s.shared)) := by
    have hboth := withShared_withShared hlen hsp hsp'
    cases hr : alone (k s.shared) (f s.shared) with
    | ok a t =>
      rw [show alone (k s.shared) u.shared = .ok a t from hr] at hboth
      have hgo := congrArg (fun v => State.goTo v next) hboth
      exact hgo
    | error e t =>
      rw [show alone (k s.shared) u.shared = .error e t from hr] at hboth
      have hgo := congrArg (fun v => State.goTo v .ended) hboth
      exact hgo
  refine ⟨?_, new ++ new', ?_⟩
  · change Reach _ _ _ (s.returned next (alone (k s.shared) (f s.shared)))
    rw [← hsame]
    exact hreach
  · rw [← List.append_assoc, ← hsp]
    exact hsp'

-- a branch of the listener that nobody interrupts and that has to wait for nobody
theorem Deals.completes (now : Steps cfg Unit → ListenerPc cfg) (next : ListenerPc cfg)
    {p : Steps cfg Unit} {g : List (Int × Int)} (hp : Deals p g)
    (hstep : ∀ (s : State cfg) p, s.fault = none → s.joined = true → s.listener = now p →
      s.step .listener = some (s.listen p now next)) : Completes now next p g := by
  induction p generalizing g with
  | done a =>
    intro s r _ _ hlen _ _ _
    change Reach _ _ (s.goTo next) ((s.withShared s.shared).goTo next) ∧ _
    rw [withShared_self hlen]
    exact ⟨.refl, [], (List.append_nil _).symm⟩
  | fail d =>
    intro s r _ _ hlen _ _ hdef
    have hended : s.settle (.fail d) now next = s.goTo .ended := by
      cases d with
      | emptyOptional => exact absurd rfl (hdef s.shared)
      | thrown e =>
        cases e with
        | undefinedBehaviour => exact absurd rfl (hdef s.shared)
        | _ => rfl
    rw [hended]
    change Reach _ _ (s.goTo .ended) ((s.withShared s.shared).goTo .ended) ∧ _
    rw [withShared_self hlen]
    exact ⟨.refl, [], (List.append_nil _).symm⟩
  | act f k ih =>
    intro s r hs hf hlen hj hw hdef
    obtain ⟨g', hm, hk⟩ := hp.next hs
    obtain ⟨hreach, hsp⟩ := completes_op hm (ih s.shared hk) hf hlen hw hdef (now (.act f k))
    have hfirst := hstep (s.goTo (now (.act f k))) (.act f k) hf hj rfl
    exact ⟨.trans (.tail .refl trivial hfirst) hreach, hsp⟩

end Branches

end State

section Whole

-- where the parties stand between two calls
def phaseOf : ChatApp.Phase → Phase cfg
  | .launched => .launched
  | .head w => .head w
  | .waiting w => .waiting w
  | .ended w => .ended w

def threadOf (th : ChatApp.Thread) : Thread cfg := ⟨th.launch, phaseOf th.phase⟩

def pcOf (listenerEvfd : Int) : ChatApp.ListenerPc → ListenerPc cfg
  | .head => .head
  | .queue true stdin socket =>
    .reading stdin socket (listenerProcessWorkerToListenerQ listenerEvfd)
  | .queue false stdin socket => .atStdin stdin socket
  | .stdin stdin socket => .atStdin stdin socket
  | .accept socket => .atAccept socket
  | .ended => .ended

def stateOf (s : ChatApp.State cfg) : State cfg where
  shared := s.shared
  threads := s.threads.map threadOf
  listener := pcOf s.listenerEvfd s.listener
  listenerEvfd := s.listenerEvfd

-- the branch of listener_loop that a step goes through
def branch (s : ChatApp.State cfg) : ChatApp.Label → Steps cfg Unit
  | .queue =>
    match s.listener with
    | .queue true _ _ => listenerProcessWorkerToListenerQ s.listenerEvfd
    | _ => pure ()
  | .stdin buffer =>
    match s.listener with
    | .stdin true _ => stdinBranch buffer
    | _ => pure ()
  | .accept env =>
    match s.listener with
    | .accept true => acceptBranch s.listenerEvfd env
    | _ => pure ()
  | _ => pure ()

-- epoll_wait has a reason to return, and no join is with a thread that still runs
def unhindered (s : ChatApp.State cfg) (l : ChatApp.Label) : Bool :=
  ((branch s l).trace s.shared).all (stateOf s).free &&
    match l with
    | .iterate _ ev => (stateOf s).reports ev
    | _ => true

variable {s t : ChatApp.State cfg} {k : Nat} {th : ChatApp.Thread}

theorem stateOf_joined (h : s.joined = true) : (stateOf s).joined = true := by
  unfold ChatApp.State.joined at h
  unfold State.joined
  change (match s.shared.kernel.joining with
    | none => true
    | some k => ((s.threads.map threadOf)[k]?).all Thread.isEnded) = true
  cases hj : s.shared.kernel.joining with
  | none => rfl
  | some k =>
    simp only [hj] at h ⊢
    rw [List.getElem?_map]
    cases hth : s.threads[k]? with
    | none => rfl
    | some th =>
      obtain ⟨launch, phase⟩ := th
      rw [hth] at h
      cases phase with
      | ended w => rfl
      | _ => cases h

theorem stateOf_withShared (sh : Shared cfg) (pc : ChatApp.ListenerPc) :
    stateOf (s.withShared sh pc) = ((stateOf s).withShared sh).goTo (pcOf s.listenerEvfd pc) := by
  have hthreads : (s.withShared sh pc).threads.map threadOf =
      ((stateOf s).withShared sh).threads := by
    rw [ChatApp.State.withShared, State.withShared, List.map_append, List.map_map]
    change _ = s.threads.map threadOf ++
      (sh.kernel.spawned.drop (s.threads.map threadOf).length).map _
    rw [List.length_map]
    rfl
  exact congrArg (fun ths => { stateOf (s.withShared sh pc) with threads := ths }) hthreads

theorem stateOf_runListener {m : Prog cfg Unit} {pc : ChatApp.ListenerPc}
    (ht : (s.runListener m pc).terminated = false) :
    stateOf (s.runListener m pc) =
        (stateOf s).returned (pcOf s.listenerEvfd pc) (m s.shared) ∧
      ∀ u, m s.shared ≠ .error .undefinedBehaviour u := by
  unfold ChatApp.State.runListener at ht ⊢
  cases hr : m s.shared with
  | ok a sh => exact ⟨stateOf_withShared sh pc, fun u he => by cases he⟩
  | error e sh =>
    rw [hr] at ht
    cases e with
    | undefinedBehaviour => cases ht
    | _ => exact ⟨stateOf_withShared sh .ended, fun u he => by cases he⟩

-- what a reachable state of the interleaved system says of the states between calls
structure Midway (s : ChatApp.State cfg) (lg r : List (Int × Int)) : Prop where
  dealt : Dealt (lg ++ r) s.shared
  spawned : s.shared.kernel.spawned.length = s.threads.length
  listener : ∀ p, (stateOf s).listener.script = some p → Deals p lg

theorem Midway.of_inHands (h : (stateOf s).InHands (roll cfg)) : ∃ lg r, Midway s lg r := by
  obtain ⟨lg, ts, hd⟩ := h.2 rfl
  have hlen := hd.spawned
  rw [show (stateOf s).threads = s.threads.map threadOf from rfl, List.length_map] at hlen
  exact ⟨lg, _, hd.table, hlen, hd.listener⟩

section Listener

variable {lg r : List (Int × Int)} {l : ChatApp.Label}

theorem Midway.length (h : Midway s lg r) :
    (stateOf s).shared.kernel.spawned.length = (stateOf s).threads.length := by
  change s.shared.kernel.spawned.length = (s.threads.map threadOf).length
  rw [List.length_map, h.spawned]

theorem branch_whole {p : Steps cfg Unit} {m : Prog cfg Unit}
    (now : Steps cfg Unit → ListenerPc cfg) (pc : ChatApp.ListenerPc) (h : Midway s lg r)
    (hp : Deals p lg) (hpm : alone p = m) (hj : s.joined = true)
    (hw : ∀ sh ∈ p.trace s.shared, (stateOf s).free sh = true)
    (hstep : ∀ (u : State cfg) p, u.joined = true → u.listener = now p →
      u.listenerStep .listener = some (u.listen p now (pcOf s.listenerEvfd pc)))
    (halive : (s.runListener m pc).terminated = false) :
    Reach State.step (fun _ _ => True)
      ((stateOf s).settle p now (pcOf s.listenerEvfd pc)) (stateOf (s.runListener m pc)) := by
  obtain ⟨hret, hdef⟩ := stateOf_runListener halive
  subst hpm
  rw [hret]
  have hcompletes : State.Completes now (pcOf s.listenerEvfd pc) p lg :=
    State.Deals.completes now _ hp fun u p hf hju hpc => by
      rw [State.step_listenerStep rfl hf hju]
      exact hstep u p hju hpc
  exact (hcompletes _ _ h.dealt rfl h.length (stateOf_joined hj) hw hdef).1

theorem acceptBranch_whole {env : AcceptEnv} (h : Midway s lg r)
    (hw : ∀ sh ∈ (acceptBranch s.listenerEvfd env : Steps cfg Unit).trace s.shared,
      (stateOf s).free sh = true) (henv : s.envOk env = true)
    (halive : (s.runListener (ChatApp.acceptBranch s.listenerEvfd env) .head).terminated = false) :
    Reach State.step (fun _ _ => True)
      ((stateOf s).listen (acceptBranch s.listenerEvfd env) .accepting .head)
      (stateOf (s.runListener (ChatApp.acceptBranch s.listenerEvfd env) .head)) := by
  obtain ⟨hret, hdef⟩ := stateOf_runListener halive
  rw [← acceptBranch_alone] at hdef
  rw [hret, ← acceptBranch_alone]
  have hfresh : ∀ n : Nat, env.accept4 = .fd n →
      (n : Int) ≤ Decimal.intMax ∧ (n : Int) ∉ s.shared.sv.pairs.map Prod.fst :=
    fun n => State.envOk_fresh (s := stateOf s) henv
  have hs : Dealt r s.shared := h.dealt.fewer (List.sublist_append_right _ _).subperm
  obtain ⟨g, hm, hk⟩ := roll_kept.accepting s.listenerEvfd hs hfresh
  obtain ⟨f, k, hact⟩ : ∃ f k, (acceptBranch s.listenerEvfd env : Steps cfg Unit) = .act f k :=
    ⟨_, _, rfl⟩
  rw [hact] at hw hdef hm hk ⊢
  have hcompletes := State.Deals.completes .accepting .head hk
    fun u p hf hju hpc => by
      rw [State.step_listenerStep rfl hf hju]
      simp only [State.listenerStep, hpc]
  exact (State.completes_op (s := stateOf s) (f := f) (k := k) hm hcompletes rfl h.length hw hdef
    (stateOf s).listener).1

theorem reach_one {x : Label} {u : State cfg} (hj : s.joined = true) (hx : x.isListener = true)
    (hstep : (stateOf s).listenerStep x = some u) :
    Reach State.step (fun _ _ => True) (stateOf s) u :=
  .tail .refl trivial ((State.step_listenerStep hx rfl (stateOf_joined hj)).trans hstep)

theorem free_of_unhindered (hu : unhindered s l = true) :
    ∀ sh ∈ (branch s l).trace s.shared, (stateOf s).free sh = true :=
  List.all_eq_true.mp (Bool.and_eq_true_iff.mp hu).1

theorem poll_whole {evfd stdin socket : Bool} (hj : s.joined = true)
    (ht : s.listenerStep (.poll evfd stdin socket) = some t) :
    Reach State.step (fun _ _ => True) (stateOf s) (stateOf t) := by
  refine reach_one (x := .poll evfd stdin socket) hj rfl ?_
  simp only [ChatApp.State.listenerStep] at ht
  split_ifs at ht with hpc hdone
  · cases ht
    simp [State.listenerStep, stateOf, hpc, pcOf, hdone, State.goTo]
  · cases ht
    cases evfd <;> simp [State.listenerStep, stateOf, hpc, pcOf, hdone, State.goTo]

theorem queue_whole (h : Midway s lg r) (hj : s.joined = true)
    (ht : s.listenerStep .queue = some t) (halive : t.terminated = false)
    (hu : unhindered s .queue = true) :
    Reach State.step (fun _ _ => True) (stateOf s) (stateOf t) := by
  cases hpc : s.listener with
  | queue evfd stdin socket =>
    simp only [ChatApp.State.listenerStep, hpc] at ht
    cases evfd with
    | false =>
      cases ht
      have hsame : stateOf { s with listener := .stdin stdin socket } = stateOf s := by
        simp only [stateOf, hpc, pcOf]
      rw [hsame]
      exact .refl
    | true =>
      cases ht
      have hlisten : (stateOf s).listener =
          .reading stdin socket (listenerProcessWorkerToListenerQ s.listenerEvfd) := by
        simp only [stateOf, hpc, pcOf]
      have hfree := free_of_unhindered hu
      simp only [branch, hpc] at hfree
      have hrun := branch_whole (.reading stdin socket) (.stdin stdin socket) h
        (h.listener _ (by rw [hlisten]; rfl)) (listenerProcess_alone s.listenerEvfd) hj hfree
        (fun u p _ hu => by simp only [State.listenerStep, hu, pcOf]) halive
      have hstart : (stateOf s).settle (listenerProcessWorkerToListenerQ s.listenerEvfd)
          (.reading stdin socket) (pcOf s.listenerEvfd (.stdin stdin socket)) =
            (stateOf s).goTo (stateOf s).listener := by
        rw [hlisten]
        rfl
      rw [hstart] at hrun
      exact hrun
  | _ => simp [ChatApp.State.listenerStep, hpc] at ht

theorem stdin_whole {buffer : Option Str} (h : Midway s lg r) (hj : s.joined = true)
    (ht : s.listenerStep (.stdin buffer) = some t) (halive : t.terminated = false)
    (hu : unhindered s (.stdin buffer) = true) :
    Reach State.step (fun _ _ => True) (stateOf s) (stateOf t) := by
  cases hpc : s.listener with
  | stdin stdin socket =>
    simp only [ChatApp.State.listenerStep, hpc] at ht
    have hlisten : (stateOf s).listener = .atStdin stdin socket := by
      simp only [stateOf, hpc, pcOf]
    cases stdin with
    | false =>
      cases ht
      refine reach_one (x := .stdin buffer) hj rfl ?_
      simp only [State.listenerStep, hlisten]
      rfl
    | true =>
      cases ht
      have hfree := free_of_unhindered hu
      simp only [branch, hpc] at hfree
      have hrun := branch_whole (.typing socket) (.accept socket) h
        (.of_frames (stdinBranch_frames buffer)) (stdinBranch_alone buffer) hj hfree
        (fun u p _ hu => by simp only [State.listenerStep, hu, pcOf]) halive
      refine .trans (reach_one (x := .stdin buffer) hj rfl ?_) hrun
      simp only [State.listenerStep, hlisten, if_true, pcOf]
  | _ => simp [ChatApp.State.listenerStep, hpc] at ht

theorem accept_whole {env : AcceptEnv} (h : Midway s lg r) (hj : s.joined = true)
    (ht : s.listenerStep (.accept env) = some t) (halive : t.terminated = false)
    (hu : unhindered s (.accept env) = true) :
    Reach State.step (fun _ _ => True) (stateOf s) (stateOf t) := by
  cases hpc : s.listener with
  | accept socket =>
    simp only [ChatApp.State.listenerStep, hpc] at ht
    have hlisten : (stateOf s).listener = .atAccept socket := by
      simp only [stateOf, hpc, pcOf]
    cases socket with
    | false =>
      cases ht
      refine reach_one (x := .accept env) hj rfl ?_
      simp only [State.listenerStep, hlisten]
      rfl
    | true =>
      simp only [if_true] at ht
      split_ifs at ht with henv
      cases ht
      have hfree := free_of_unhindered hu
      simp only [branch, hpc] at hfree
      refine .trans (reach_one (x := .accept env) hj rfl ?_)
        (acceptBranch_whole h hfree henv halive)
      have henv : (stateOf s).envOk env = true := henv
      simp only [State.listenerStep, hlisten, if_true, henv]
      rfl
  | _ => simp [ChatApp.State.listenerStep, hpc] at ht

theorem listenerStep_whole (h : Midway s lg r) (hj : s.joined = true)
    (ht : s.listenerStep l = some t) (halive : t.terminated = false)
    (hu : unhindered s l = true) :
    Reach State.step (fun _ _ => True) (stateOf s) (stateOf t) := by
  cases l with
  | poll evfd stdin socket => exact poll_whole hj ht
  | queue => exact queue_whole h hj ht halive hu
  | stdin buffer => exact stdin_whole h hj ht halive hu
  | accept env => exact accept_whole h hj ht halive hu
  | _ => cases ht

end Listener

section Workers

variable {l : ChatApp.Label}

theorem stateOf_setPhase (s : ChatApp.State cfg) (k : Nat) (th : ChatApp.Thread) (sh : Shared cfg)
    (ph : ChatApp.Phase) :
    stateOf (ChatApp.State.setPhase { s with shared := sh } k th ph) =
      { stateOf s with
        shared := sh
        threads := (stateOf s).threads.set k ⟨th.launch, phaseOf ph⟩ } :=
  congrArg (fun ths => { stateOf s with shared := sh, threads := ths }) List.map_set

theorem stateOf_thread (hth : s.threads[k]? = some th) :
    (stateOf s).threads[k]? = some (threadOf th) := by
  change (s.threads.map threadOf)[k]? = _
  rw [List.getElem?_map, hth]
  rfl

theorem prologue_whole {frame : MessageFrame} {launch : Launch} {w : WorkerState}
    {sh sh' : Shared cfg} (hr : ChatApp.workerPrologue launch frame sh = .ok w sh') :
    sh' = sh ∧ Phase.settle (workerPrologue launch frame : Steps cfg WorkerState)
      (fun _ => .launched) (fun w => .ok (.head w)) = .ok (.head w) := by
  obtain ⟨_, u, hu, h₁⟩ := bind_ok hr
  obtain ⟨_, v, hv, h₂⟩ := bind_ok h₁
  cases h₂
  unfold ChatApp.addMonitoredFd at hu hv
  unfold workerPrologue addMonitoredFd
  split_ifs at hu hv ⊢ <;> cases hu <;> cases hv
  exact ⟨rfl, rfl⟩

theorem iteration_whole {ev : Events} {w w' : WorkerState} {sh : Shared cfg}
    (hlen : s.shared.kernel.spawned.length = s.threads.length) (hth : s.threads[k]? = some th)
    (hph : th.phase = .waiting w) (hreports : (stateOf s).reports ev = true)
    (hr : workerIteration ev th.launch w (s.withSends ev.sends).shared = .ok w' sh) :
    Reach State.step (fun _ _ => True) (stateOf s)
      (stateOf (ChatApp.State.setPhase { s with shared := sh } k th (.head w'))) := by
  obtain ⟨launch, phase⟩ := th
  simp only at hph hr
  subst hph
  have hk : k < (stateOf s).threads.length := by
    change k < (s.threads.map threadOf).length
    rw [List.length_map]
    exact (List.getElem?_eq_some_iff.mp hth).1
  have hthread : (stateOf (s.withSends ev.sends)).threads[k]? = some ⟨launch, .waiting w⟩ :=
    stateOf_thread hth
  obtain ⟨q, kept, b, ⟨ph, hpoll, hgo⟩, herase⟩ := iteration_comes hr
  have hanswers : (stateOf s).step (.answers ev.sends) =
      some (stateOf (s.withSends ev.sends)) := rfl
  let u : State cfg := { stateOf (s.withSends ev.sends) with
    threads := (stateOf s).threads.set k ⟨launch, ph⟩ }
  have hwake : (stateOf (s.withSends ev.sends)).step (.wake k ev) = some u := by
    have hready : (stateOf (s.withSends ev.sends)).reports ev = true := hreports
    rw [State.step_threadStep rfl rfl hthread]
    simp only [State.threadStep, hready, if_true, hpoll, State.setPhase]
    rfl
  have huth : u.threads[k]? = some ⟨launch, ph⟩ := List.getElem?_set_self hk
  have hulen : u.shared.kernel.spawned.length = u.threads.length := by
    change s.shared.kernel.spawned.length = ((s.threads.map threadOf).set k _).length
    rw [List.length_set, List.length_map, hlen]
  obtain ⟨hacts, _⟩ := State.reach_of_goes rfl hulen huth hgo
  let v : State cfg :=
    { u with shared := sh, threads := u.threads.set k ⟨launch, .erasing w q kept b⟩ }
  have herasing : v.step (.erase k) =
        some (stateOf (ChatApp.State.setPhase { s with shared := sh } k
          ⟨launch, .waiting w⟩ (.head w'))) := by
    have hself : (u.threads.set k ⟨launch, .erasing w q kept b⟩)[k]? =
        some ⟨launch, .erasing w q kept b⟩ := List.getElem?_set_self (by
      rw [List.length_set]
      exact hk)
    rw [State.step_erase rfl hself herase, stateOf_setPhase]
    simp only [List.set_set, u, v]
    rfl
  exact .tail (.trans (.tail (.tail .refl trivial hanswers) trivial hwake) hacts) trivial herasing

theorem threadStep_one {x : Label} {u : State cfg} (hx : x.thread = some k)
    (hth : s.threads[k]? = some th) (hstep : (stateOf s).threadStep k (threadOf th) x = some u) :
    Reach State.step (fun _ _ => True) (stateOf s) u :=
  .tail .refl trivial ((State.step_threadStep hx rfl (stateOf_thread hth)).trans hstep)

theorem start_whole {frame : MessageFrame} (hth : s.threads[k]? = some th)
    (ht : s.threadStep k th (.start k frame) = some t) (halive : t.terminated = false) :
    Reach State.step (fun _ _ => True) (stateOf s) (stateOf t) := by
  obtain ⟨launch, phase⟩ := th
  cases phase with
  | launched =>
    simp only [ChatApp.State.threadStep, ChatApp.State.runWorker] at ht
    cases hr : ChatApp.workerPrologue launch frame s.shared with
    | error e sh =>
      rw [hr] at ht
      cases ht
      cases halive
    | ok w sh =>
      rw [hr] at ht
      cases ht
      obtain ⟨rfl, hhead⟩ := prologue_whole hr
      refine threadStep_one (x := .start k frame) rfl hth ?_
      simp only [State.threadStep, threadOf, phaseOf, hhead, State.setPhase, stateOf_setPhase]
      rfl
  | _ => cases ht

theorem wait_whole (hth : s.threads[k]? = some th) (ht : s.threadStep k th (.wait k) = some t) :
    Reach State.step (fun _ _ => True) (stateOf s) (stateOf t) := by
  obtain ⟨launch, phase⟩ := th
  cases phase with
  | head w =>
    simp only [ChatApp.State.threadStep] at ht
    split_ifs at ht with hc
    cases ht
    refine threadStep_one (x := .wait k) rfl hth ?_
    have hc : w.clients ≠ [] ∧ (stateOf s).shared.sv.checkIsDone = false := hc
    simp only [State.threadStep, threadOf, phaseOf, if_pos hc, State.setPhase]
    exact congrArg some (stateOf_setPhase s k ⟨launch, .head w⟩ s.shared (.waiting w)).symm
  | _ => cases ht

theorem leave_whole (hth : s.threads[k]? = some th) (ht : s.threadStep k th (.leave k) = some t) :
    Reach State.step (fun _ _ => True) (stateOf s) (stateOf t) := by
  obtain ⟨launch, phase⟩ := th
  cases phase with
  | head w =>
    simp only [ChatApp.State.threadStep] at ht
    split_ifs at ht with hc
    cases ht
    refine threadStep_one (x := .leave k) rfl hth ?_
    have hc : w.clients = [] ∨ (stateOf s).shared.sv.checkIsDone = true := hc
    simp only [State.threadStep, threadOf, phaseOf, if_pos hc, State.setPhase]
    exact congrArg some (stateOf_setPhase s k ⟨launch, .head w⟩ s.shared (.ended w)).symm
  | _ => cases ht

theorem iterate_whole {ev : Events} (hlen : s.shared.kernel.spawned.length = s.threads.length)
    (hth : s.threads[k]? = some th) (hreports : (stateOf s).reports ev = true)
    (ht : s.threadStep k th (.iterate k ev) = some t) (halive : t.terminated = false) :
    Reach State.step (fun _ _ => True) (stateOf s) (stateOf t) := by
  cases hw : th.phase with
  | waiting w =>
    simp only [ChatApp.State.threadStep, hw, ChatApp.State.runWorker] at ht
    cases hr : workerIteration ev th.launch w (s.withSends ev.sends).shared with
    | error e sh =>
      rw [hr] at ht
      cases ht
      cases halive
    | ok w' sh =>
      rw [hr] at ht
      cases ht
      exact iteration_whole hlen hth hw hreports hr
  | _ =>
    simp only [ChatApp.State.threadStep, hw] at ht
    cases ht

end Workers

-- a step between calls is a run of the operations of that call
theorem step_whole {lg r : List (Int × Int)} {l : ChatApp.Label} (h : Midway s lg r)
    (ht : s.step l = some t) (halive : t.terminated = false) (hu : unhindered s l = true) :
    Reach State.step (fun _ _ => True) (stateOf s) (stateOf t) := by
  unfold ChatApp.State.step at ht
  by_cases hdead : s.terminated = true
  · rw [if_pos hdead] at ht
    cases ht
  rw [if_neg hdead] at ht
  cases l with
  | start k frame =>
    obtain ⟨th, hth, ht⟩ := Option.bind_eq_some_iff.mp ht
    exact start_whole hth ht halive
  | wait k =>
    obtain ⟨th, hth, ht⟩ := Option.bind_eq_some_iff.mp ht
    exact wait_whole hth ht
  | leave k =>
    obtain ⟨th, hth, ht⟩ := Option.bind_eq_some_iff.mp ht
    exact leave_whole hth ht
  | iterate k ev =>
    obtain ⟨th, hth, ht⟩ := Option.bind_eq_some_iff.mp ht
    exact iterate_whole h.spawned hth (Bool.and_eq_true_iff.mp hu).2 ht halive
  | poll _ _ _ | queue | stdin _ | accept _ =>
    simp only at ht
    by_cases hj : s.joined = true
    · rw [if_pos hj] at ht
      exact listenerStep_whole h hj ht halive hu
    · rw [if_neg hj] at ht
      cases ht

theorem terminated_of_step {l : ChatApp.Label} (h : s.step l = some t) : s.terminated = false := by
  unfold ChatApp.State.step at h
  by_cases hdead : s.terminated = true
  · rw [if_pos hdead] at h
    cases h
  · simpa using hdead

-- what the server reaches with calls that nothing interrupts and that need not wait it reaches
-- with single operations
theorem whole_interleaved {svSocket listenerEvfd : Nat}
    (h : Reach ChatApp.State.step (fun s l => unhindered s l = true)
      (ChatApp.State.init cfg svSocket listenerEvfd) s) (halive : s.terminated = false) :
    Reach State.step (fun _ _ => True) (State.init cfg svSocket listenerEvfd) (stateOf s) := by
  induction h with
  | refl => exact .refl
  | tail _ hu hs ih =>
    have hreach := ih (terminated_of_step hs)
    obtain ⟨lg, r, hmid⟩ := Midway.of_inHands (State.reach_dealt hreach)
    exact hreach.trans (step_whole hmid hs halive hu)

-- two clients join, the second one leaves with its worker, and a third one gets the worker's entry
def entryReused : List ChatApp.Label :=
  listenerRound false true (connection 5 6) ++ [.start 0 freshFrame] ++ handshake 0 5 ++
  listenerRound true true (connection 7 8) ++ [.start 1 freshFrame] ++
  workerRound 1 (receiving 7 .zero) ++ [.leave 1] ++ listenerRound true true (connection 9 10)

theorem whole_interleaved_entryReused : ∃ s : ChatApp.State Config.deployed,
    s.shared.sv.clients.values.length = 2 ∧ s.shared.kernel.spawned.length = 3 ∧
    s.shared.kernel.joining = some 1 ∧ (stateOf s).joined = true ∧
    Reach State.step (fun _ _ => True) (State.init Config.deployed 3 4) (stateOf s) := by
  have hrun : (run (guarded ChatApp.State.step fun s l => unhindered s l = true)
      (ChatApp.State.init Config.deployed 3 4) entryReused).any (fun s =>
        s.terminated = false ∧ s.shared.sv.clients.values.length = 2 ∧
        s.shared.kernel.spawned.length = 3 ∧ s.shared.kernel.joining = some 1 ∧
        (stateOf s).joined = true) = true := by
    decide +kernel
  obtain ⟨s, hr, hs⟩ := exists_of_guarded hrun
  obtain ⟨halive, hclients, hspawned, hjoining, hjoined⟩ := of_decide_eq_true hs
  exact ⟨s, hclients, hspawned, hjoining, hjoined, whole_interleaved hr halive⟩

end Whole

end Interleaved

end ChatApp
