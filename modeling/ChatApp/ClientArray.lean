import ChatApp.Library.Runs
import ChatApp.Admission

namespace ChatApp

namespace ClientArray

open Effects

variable {cfg : Config}

inductive Call where
  | accept (makeNonBlocking : Bool) (env : AcceptEnv)
  | disconnect (clId : Int)
  -- what is written through the reference that get_client_ref returns
  | write (clId : Int) (name : Str) (initState : Int) (sendQueue : List Str)

-- what the calls make of the map: a member is a client that has been accepted and not yet
-- disconnected; an id is the number of those given out before it
structure Ledger (cfg : Config) where
  svSocket : Int
  members : List (Int × Int) := []
  given : List Int := []
  accepted : List Int := []
  closed : List Int := []
  accepts : Nat := 0

structure Audit (cfg : Config) where
  sv : Server cfg
  ledger : Ledger cfg

namespace Ledger

-- the descriptor that accept4 returns, if it is called
def obtained (l : Ledger cfg) (env : AcceptEnv) : List Int :=
  if l.svSocket < 0 then []
  else match env.accept4 with
    | .fd n => [(n : Int)]
    | _ => []

-- the map has room and the descriptor is one of a socket that can be set up
def admits (l : Ledger cfg) (makeNonBlocking : Bool) (env : AcceptEnv) : Bool :=
  l.members.length < cfg.maxClients && (!makeNonBlocking || (env.getFlagsOk && env.setFlagsOk))

def refuse (l : Ledger cfg) (fds : List Int) : Ledger cfg :=
  { l with
    accepted := l.accepted ++ fds
    closed := l.closed ++ fds
    accepts := l.accepts + 1 }

def enter (l : Ledger cfg) (fd : Int) : Ledger cfg :=
  { l with
    members := l.members ++ [(fd, (l.given.length : Int))]
    given := l.given ++ [(l.given.length : Int)]
    accepted := l.accepted ++ [fd]
    accepts := l.accepts + 1 }

def accept (l : Ledger cfg) (makeNonBlocking : Bool) (env : AcceptEnv) : Ledger cfg :=
  match l.obtained env with
  | [fd] => if l.admits makeNonBlocking env then l.enter fd else l.refuse [fd]
  | fds => l.refuse fds

def disconnect (l : Ledger cfg) (clId : Int) : Ledger cfg :=
  { l with
    members := l.members.filter (·.2 ≠ clId)
    closed := l.closed ++ (l.members.filter (·.2 = clId)).map Prod.fst }

end Ledger

-- the ledger follows the calls, whatever the server makes of them
def step (s : Audit cfg) : Call → Option (Audit cfg)
  | .accept makeNonBlocking env =>
    some ⟨final (Server.acceptClient makeNonBlocking env s.sv),
      s.ledger.accept makeNonBlocking env⟩
  | .disconnect clId =>
    some ⟨final (Server.disconnectClient clId s.sv), s.ledger.disconnect clId⟩
  | .write clId name initState sendQueue =>
    some { s with sv := s.sv.modifyClient clId fun c =>
      { c with name := name, initState := initState, sendQueue := sendQueue } }

-- accept4 returns a descriptor that is not open, and there are fewer than 2^31 accepts
def Admissible (s : Audit cfg) : Call → Prop
  | .accept _ env => (s.ledger.accepts : Int) < Decimal.intMax ∧
      ∀ fd ∈ s.ledger.obtained env, fd ∉ s.sv.pairs.map Prod.fst
  | _ => True

instance (s : Audit cfg) (call : Call) : Decidable (Admissible s call) :=
  match call with
  | .accept _ env => inferInstanceAs (Decidable ((s.ledger.accepts : Int) < Decimal.intMax ∧
      ∀ fd ∈ s.ledger.obtained env, fd ∉ s.sv.pairs.map Prod.fst))
  | .disconnect _ => .isTrue trivial
  | .write .. => .isTrue trivial

def start (cfg : Config) (svSocket : Int) : Audit cfg :=
  { sv := { svSocket := svSocket }, ledger := { svSocket := svSocket } }

-- the server is at the map that its ledger describes
structure Represents (s : Audit cfg) : Prop where
  svSocket : s.sv.svSocket = s.ledger.svSocket
  members : s.sv.pairs.Perm s.ledger.members
  connections : s.sv.nrOfConnections = s.ledger.members.length
  counter : s.sv.clientDataId = s.ledger.given.length
  closed : s.sv.closed = s.ledger.closed
  ids_nodup : (s.ledger.members.map Prod.snd).Nodup
  ids_given : ∀ p ∈ s.ledger.members, p.2 ∈ s.ledger.given
  given_nodup : s.ledger.given.Nodup
  given_lt : ∀ clId ∈ s.ledger.given, 0 ≤ clId ∧ clId < s.ledger.given.length
  given_le : s.ledger.given.length ≤ s.ledger.accepts
  fds_nodup : (s.ledger.members.map Prod.fst).Nodup
  tally : ∀ fd : Int, s.ledger.accepted.count fd =
    s.ledger.closed.count fd + (s.ledger.members.map Prod.fst).count fd

-- the flags of a socket that stays blocking are not looked at
theorem acceptClient_flags (makeNonBlocking : Bool) (env : AcceptEnv) (sv : Server cfg) :
    Server.acceptClient makeNonBlocking env sv =
      Server.acceptClient true { env with
        getFlagsOk := !makeNonBlocking || env.getFlagsOk
        setFlagsOk := !makeNonBlocking || env.setFlagsOk } sv := by
  cases makeNonBlocking <;> rfl

section Accepting

variable {s : Audit cfg}

theorem Represents.isFull (h : Represents s) :
    s.sv.clients.isFull = decide (cfg.maxClients ≤ s.ledger.members.length) := by
  have hlen := h.members.length_eq
  rw [Server.pairs_eq, List.length_map] at hlen
  rw [Bool.eq_iff_iff, Slots.isFull_iff, decide_eq_true_eq, ← hlen]
  have := s.sv.clients.length_values_le
  omega

-- accept_client lets in whom the ledger lets in, under the next id
inductive Answer (s : Audit cfg) (makeNonBlocking : Bool) (env : AcceptEnv) :
    EStateM.Result Exn (Server cfg) (Int × Int) → Prop
  | admitted {n : Nat} (hfd : s.ledger.obtained env = [(n : Int)])
    (hadmits : s.ledger.admits makeNonBlocking env = true)
    (hfull : s.sv.clients.isFull = false) : Answer s makeNonBlocking env
      (.ok ((n : Int), (s.ledger.given.length : Int)) (s.sv.enrol n env.color))
  | refused {r : EStateM.Result Exn (Server cfg) (Int × Int)}
    (hl : s.ledger.accept makeNonBlocking env = s.ledger.refuse (s.ledger.obtained env))
    (hr : final r = { s.sv with closed := s.sv.closed ++ s.ledger.obtained env })
    (hout : ∀ pair t, r = .ok pair t → pair = (-1, -1)) : Answer s makeNonBlocking env r

theorem acceptClient_answer (h : Represents s) (makeNonBlocking : Bool) (env : AcceptEnv)
    (hmax : (s.ledger.accepts : Int) < Decimal.intMax) :
    Answer s makeNonBlocking env (Server.acceptClient makeNonBlocking env s.sv) := by
  have hle := h.given_le
  have hcount : ¬ Decimal.intMax < (s.ledger.given.length : Int) := by omega
  rw [acceptClient_flags, acceptClient_eq, h.svSocket, h.counter]
  by_cases hs : s.ledger.svSocket < 0
  · have hnone : s.ledger.obtained env = [] := by simp [Ledger.obtained, hs]
    rw [if_pos hs]
    refine .refused ?_ ?_ fun _ _ he => by cases he
    · rw [Ledger.accept, hnone]
    · rw [hnone, List.append_nil]
      rfl
  · rw [if_neg hs]
    cases ha : env.accept4 with
    | wouldBlock | failed =>
      have hnone : s.ledger.obtained env = [] := by simp [Ledger.obtained, hs, ha]
      refine .refused ?_ ?_ fun _ _ he => by cases he <;> rfl
      · rw [Ledger.accept, hnone]
      · rw [hnone, List.append_nil]
        rfl
    | fd n =>
      have hone : s.ledger.obtained env = [(n : Int)] := by simp [Ledger.obtained, hs, ha]
      have refuse (hno : s.ledger.admits makeNonBlocking env = false) :
          s.ledger.accept makeNonBlocking env = s.ledger.refuse (s.ledger.obtained env) := by
        rw [Ledger.accept, hone]
        simp [hno]
      have hroom : s.sv.clients.isFull = decide (cfg.maxClients ≤ s.ledger.members.length) :=
        h.isFull
      simp only
      split_ifs with hg hf hfull
      · have hg : makeNonBlocking = true ∧ env.getFlagsOk = false := by simpa using hg
        refine .refused (refuse ?_) (by rw [hone]; rfl) fun _ _ he => by cases he
        simp [Ledger.admits, hg.1, hg.2]
      · have hf : makeNonBlocking = true ∧ env.setFlagsOk = false := by simpa using hf
        refine .refused (refuse ?_) (by rw [hone]; rfl) fun _ _ he => by cases he
        simp [Ledger.admits, hf.1, hf.2]
      · refine .refused (refuse ?_) (by rw [hone]; rfl) fun _ _ he => by cases he; rfl
        have hno : cfg.maxClients ≤ s.ledger.members.length := by simpa [hroom] using hfull
        simp only [Ledger.admits, Nat.not_lt.mpr hno, decide_false, Bool.false_and]
      · have hfree : s.ledger.members.length < cfg.maxClients := by simpa [hroom] using hfull
        have hflags : (!makeNonBlocking || (env.getFlagsOk && env.setFlagsOk)) = true := by
          cases makeNonBlocking with
          | false => rfl
          | true => simpa using And.intro hg hf
        refine .admitted hone ?_ (by simpa using hfull)
        simp only [Ledger.admits, hfree, hflags, decide_true, Bool.and_self]

end Accepting

theorem disconnectClient_missing {sv : Server cfg} {clId : Int}
    (h : sv.getClientRef clId = none) :
    Server.disconnectClient clId sv = .error (.runtimeError "Client not found\n") sv := by
  simp only [Server.disconnectClient, get_bind_run, h, throw_run]

theorem disconnectClient_found {sv : Server cfg} {clId : Int} {c : ClientData}
    (h : sv.getClientRef clId = some c) :
    Server.disconnectClient clId sv = .ok () (sv.dropClient clId c.fd) := by
  simp only [Server.disconnectClient, get_bind_run, h]
  rfl

section Steps

variable {s : Audit cfg}

theorem Represents.refuse (h : Represents s) (fds : List Int) :
    Represents ⟨{ s.sv with closed := s.sv.closed ++ fds }, s.ledger.refuse fds⟩ := by
  refine ⟨h.svSocket, h.members, h.connections, h.counter, ?_, h.ids_nodup, h.ids_given,
    h.given_nodup, h.given_lt, Nat.le_succ_of_le h.given_le, h.fds_nodup, fun fd => ?_⟩
  · simp only [Ledger.refuse, h.closed]
  · have := h.tally fd
    simp only [Ledger.refuse, List.count_append]
    omega

theorem Represents.enter (h : Represents s) {n : Nat} (color : Int)
    (hfull : s.sv.clients.isFull = false) (hopen : (n : Int) ∉ s.sv.pairs.map Prod.fst) :
    Represents ⟨s.sv.enrol n color, s.ledger.enter n⟩ := by
  have hfresh : (s.ledger.given.length : Int) ∉ s.ledger.given := by
    intro hm
    have := (h.given_lt _ hm).2
    omega
  have hid : (s.ledger.given.length : Int) ∉ s.ledger.members.map Prod.snd := by
    intro hm
    obtain ⟨p, hp, he⟩ := List.mem_map.mp hm
    exact hfresh (he ▸ h.ids_given p hp)
  have hfd : (n : Int) ∉ s.ledger.members.map Prod.fst :=
    fun hm => hopen ((h.members.map Prod.fst).mem_iff.mpr hm)
  have hnew := pairs_enrol hfull n color
  rw [h.counter] at hnew
  refine ⟨h.svSocket, ?_, ?_, ?_, h.closed, ?_, ?_, ?_, ?_, ?_, ?_, fun fd => ?_⟩
  · exact (hnew.trans (h.members.cons _)).trans (List.perm_append_singleton _ _).symm
  · have := h.connections
    simp only [Server.enrol, Ledger.enter, List.length_append, List.length_singleton]
    omega
  · simp only [Server.enrol, Ledger.enter, List.length_append, List.length_singleton, h.counter]
  · simpa [Ledger.enter] using h.ids_nodup.concat hid
  · intro p hp
    rcases List.mem_append.mp hp with hp | hp
    · exact List.mem_append_left _ (h.ids_given p hp)
    · rw [List.mem_singleton.mp hp]
      exact List.mem_append_right _ (List.mem_singleton_self _)
  · simpa [Ledger.enter] using h.given_nodup.concat hfresh
  · intro clId hm
    simp only [Ledger.enter, List.length_append, List.length_singleton]
    rcases List.mem_append.mp hm with hm | hm
    · have := h.given_lt clId hm
      omega
    · rw [List.mem_singleton.mp hm]
      omega
  · simpa [Ledger.enter] using h.given_le
  · simpa [Ledger.enter] using h.fds_nodup.concat hfd
  · have := h.tally fd
    simp only [Ledger.enter, List.count_append, List.map_append, List.map_cons, List.map_nil]
    omega

theorem perm_cons_filter {l : List (Int × Int)} (hn : (l.map Prod.snd).Nodup) {p : Int × Int}
    (hp : p ∈ l) : l.Perm (p :: l.filter (·.2 ≠ p.2)) := by
  have he : l.erase p = l.filter (·.2 ≠ p.2) := by
    rw [hn.of_map.erase_eq_filter]
    refine List.filter_congr fun q hq => ?_
    have : q.2 = p.2 ↔ q = p :=
      ⟨fun e => List.inj_on_of_nodup_map hn hq hp e, fun e => congrArg Prod.snd e⟩
    rw [Bool.eq_iff_iff]
    simp [this]
  rw [← he]
  exact List.perm_cons_erase hp

theorem pairs_perm_dropClient {sv : Server cfg} (hn : sv.ids.Nodup) {clId : Int} {c : ClientData}
    (hc : sv.getClientRef clId = some c) :
    sv.pairs.Perm ((c.fd, clId) :: (sv.dropClient clId c.fd).pairs) := by
  have hcid := getClientRef_id hc
  have hmem := getClientRef_mem hc
  obtain ⟨d, l₁, l₂, -, hd, hl, he⟩ :=
    List.exists_of_eraseP (p := Server.hasId clId) hmem (by simp [Server.hasId, hcid])
  have hdid : d.personalId = clId := by simpa [Server.hasId] using hd
  obtain rfl : d = c := eq_of_id hn (by rw [hl]; simp) hmem (hdid.trans hcid.symm)
  rw [Server.pairs_eq, Server.pairs_eq, values_dropClient, he, hl, ← hdid, List.map_append,
    List.map_cons, List.map_append]
  exact List.perm_middle

theorem Represents.pairs_ids_nodup (h : Represents s) : s.sv.ids.Nodup :=
  (h.members.map Prod.snd).nodup_iff.mpr h.ids_nodup

-- the members that disconnect_client takes out are the one it finds
theorem Represents.leavers (h : Represents s) {clId : Int} {c : ClientData}
    (hc : s.sv.getClientRef clId = some c) :
    s.ledger.members.filter (·.2 = clId) = [(c.fd, clId)] := by
  have hmem : (c.fd, clId) ∈ s.ledger.members := h.members.mem_iff.mp (mem_pairs hc)
  have hperm := (perm_cons_filter h.ids_nodup hmem).filter (·.2 = clId)
  rw [List.filter_cons_of_pos (by simp), List.filter_filter] at hperm
  have hnone : s.ledger.members.filter (fun p => p.2 = clId && p.2 ≠ clId) = [] := by
    refine List.filter_eq_nil_iff.mpr fun p _ => ?_
    simp
  rw [hnone] at hperm
  exact List.perm_singleton.mp hperm

theorem Represents.leave (h : Represents s) {clId : Int} {c : ClientData}
    (hc : s.sv.getClientRef clId = some c) :
    Represents ⟨s.sv.dropClient clId c.fd, s.ledger.disconnect clId⟩ := by
  have hmem : (c.fd, clId) ∈ s.ledger.members := h.members.mem_iff.mp (mem_pairs hc)
  have hsub : (s.ledger.disconnect clId).members.Sublist s.ledger.members := List.filter_sublist
  have hperm : s.ledger.members.Perm ((c.fd, clId) :: s.ledger.members.filter (·.2 ≠ clId)) :=
    perm_cons_filter h.ids_nodup hmem
  have hclosed : (s.ledger.disconnect clId).closed = s.ledger.closed ++ [c.fd] := by
    simp only [Ledger.disconnect, h.leavers hc, List.map_cons, List.map_nil]
  refine ⟨h.svSocket, ?_, ?_, h.counter, ?_, h.ids_nodup.sublist (hsub.map _),
    fun p hp => h.ids_given p (hsub.subset hp), h.given_nodup, h.given_lt, h.given_le,
    h.fds_nodup.sublist (hsub.map _), fun fd => ?_⟩
  · exact ((pairs_perm_dropClient h.pairs_ids_nodup hc).symm.trans
      (h.members.trans hperm)).cons_inv
  · have hl := hperm.length_eq
    have := h.connections
    simp only [Server.dropClient, Ledger.disconnect]
    rw [List.length_cons] at hl
    omega
  · rw [hclosed, ← h.closed]
    rfl
  · have hcount := (hperm.map Prod.fst).count_eq fd
    have := h.tally fd
    rw [hclosed]
    simp only [Ledger.disconnect, List.count_append, List.count_singleton]
    simp only [List.map_cons, List.count_cons] at hcount
    omega

theorem Represents.stay (h : Represents s) {clId : Int} (hc : s.sv.getClientRef clId = none) :
    s.ledger.disconnect clId = s.ledger := by
  have hout : ∀ p ∈ s.ledger.members, p.2 ≠ clId := by
    intro p hp he
    obtain ⟨c, hfound, _⟩ := getClientRef_of_pair h.pairs_ids_nodup (h.members.mem_iff.mpr hp)
    rw [he, hc] at hfound
    cases hfound
  have hkeep : s.ledger.members.filter (·.2 ≠ clId) = s.ledger.members :=
    List.filter_eq_self.mpr fun p hp => by simpa using hout p hp
  have hgone : s.ledger.members.filter (·.2 = clId) = [] :=
    List.filter_eq_nil_iff.mpr fun p hp => by simpa using hout p hp
  rw [Ledger.disconnect, hkeep, hgone, List.map_nil, List.append_nil]

theorem Represents.write (h : Represents s) (clId : Int) {f : ClientData → ClientData}
    (hf : ∀ c, (f c).fd = c.fd ∧ (f c).personalId = c.personalId) :
    Represents { s with sv := s.sv.modifyClient clId f } := by
  refine ⟨h.svSocket, ?_, h.connections, h.counter, h.closed, h.ids_nodup, h.ids_given,
    h.given_nodup, h.given_lt, h.given_le, h.fds_nodup, h.tally⟩
  exact (Server.pairs_modifyClient hf s.sv clId).symm ▸ h.members

theorem Represents.accept (h : Represents s) {makeNonBlocking : Bool} {env : AcceptEnv}
    (hc : Admissible s (.accept makeNonBlocking env)) :
    Represents ⟨final (Server.acceptClient makeNonBlocking env s.sv),
      s.ledger.accept makeNonBlocking env⟩ := by
  obtain ⟨hmax, hopen⟩ := hc
  have hanswer := acceptClient_answer h makeNonBlocking env hmax
  cases hr : Server.acceptClient makeNonBlocking env s.sv with
  | ok pair t =>
    rw [hr] at hanswer
    cases hanswer with
    | admitted hfd hadmits hfull =>
      rw [Ledger.accept, hfd]
      simp only [hadmits, if_true, final_ok]
      exact h.enter env.color hfull (hopen _ (hfd ▸ List.mem_singleton_self _))
    | refused hl hfinal _ =>
      rw [hfinal, hl]
      exact h.refuse _
  | error e t =>
    rw [hr] at hanswer
    cases hanswer with
    | refused hl hfinal _ =>
      rw [hfinal, hl]
      exact h.refuse _

theorem Represents.step (h : Represents s) {call : Call} (hc : Admissible s call) {t : Audit cfg}
    (ht : step s call = some t) : Represents t := by
  cases call with
  | accept makeNonBlocking env =>
    obtain rfl := Option.some.inj ht
    exact h.accept hc
  | disconnect clId =>
    obtain rfl := Option.some.inj ht
    cases hr : s.sv.getClientRef clId with
    | none =>
      rw [disconnectClient_missing hr, h.stay hr]
      exact h
    | some c =>
      rw [disconnectClient_found hr]
      exact h.leave hr
  | write clId name initState sendQueue =>
    obtain rfl := Option.some.inj ht
    exact h.write clId fun c => ⟨rfl, rfl⟩

end Steps

theorem represents_start (cfg : Config) (svSocket : Int) : Represents (start cfg svSocket) := by
  have hp : (start cfg svSocket).sv.pairs = [] := by
    rw [Server.pairs_eq]
    simp [start]
  refine ⟨rfl, hp ▸ .refl _, rfl, rfl, rfl, .nil, ?_, .nil, ?_, Nat.le_refl _, .nil, fun fd => rfl⟩
  · simp [start]
  · simp [start]

theorem acceptClient_table {sv sv' : Server cfg} {makeNonBlocking : Bool} {env : AcceptEnv}
    (h : final (Server.acceptClient makeNonBlocking env sv) = sv')
    (hfull : sv.clients.isFull = true) :
    sv'.clients = sv.clients ∧ sv'.nrOfConnections = sv.nrOfConnections := by
  rw [acceptClient_flags] at h
  cases hr : Server.acceptClient true { env with
      getFlagsOk := !makeNonBlocking || env.getFlagsOk
      setFlagsOk := !makeNonBlocking || env.setFlagsOk } sv with
  | ok pair u =>
    rw [hr] at h
    obtain rfl : u = sv' := h
    rcases acceptClient_ok hr with ⟨-, fds, rfl⟩ | ⟨n, -, hroom, -⟩
    · exact ⟨rfl, rfl⟩
    · rw [hfull] at hroom
      cases hroom
  | error e u =>
    rw [hr] at h
    obtain rfl : u = sv' := h
    obtain ⟨⟨fds, rfl⟩, -⟩ := acceptClient_error hr
    exact ⟨rfl, rfl⟩

-- a slot that is filled starts over
def fresh (fd clId color : Int) : ClientData where
  personalId := clId
  fd := fd
  name := []
  colorId := color
  initState := initialState
  sendQueue := []

theorem acceptClient_fills {sv sv' : Server cfg} {makeNonBlocking : Bool} {env : AcceptEnv}
    {pair : Int × Int} (h : Server.acceptClient makeNonBlocking env sv = .ok pair sv')
    (hid : 0 ≤ pair.2) :
    ∃ i : Nat, sv.clients.entries[i]? = some none ∧
      sv'.clients = sv.clients.set i (some (fresh pair.1 pair.2 env.color)) := by
  rw [acceptClient_flags] at h
  rcases acceptClient_ok h with ⟨rfl, -⟩ | ⟨n, -, hroom, -, rfl, rfl⟩
  · cases hid
  · exact Slots.fill_eq_set hroom _

structure FiniteMap (s : Audit cfg) : Prop where
  entries : s.sv.pairs.Perm s.ledger.members
  ids_nodup : (s.ledger.members.map Prod.snd).Nodup
  given_nodup : s.ledger.given.Nodup
  lookup : ∀ clId, (∃ c, s.sv.getClientRef clId = some c) ↔ clId ∈ s.ledger.members.map Prod.snd
  found : ∀ clId c, s.sv.getClientRef clId = some c →
    c.personalId = clId ∧ (c.fd, clId) ∈ s.ledger.members
  connected : s.sv.getConnectedIDs.Nodup ∧
    ∀ clId, clId ∈ s.sv.getConnectedIDs ↔ clId ∈ s.ledger.members.map Prod.snd
  connections : s.sv.nrOfConnections = s.ledger.members.length
  closed : s.sv.closed = s.ledger.closed
  closed_once : ∀ fd, s.ledger.accepted.count fd =
      s.sv.closed.count fd + (s.sv.pairs.map Prod.fst).count fd ∧
    (s.sv.pairs.map Prod.fst).count fd ≤ 1
  -- accept_client with a free slot and a descriptor
  admits : ∀ makeNonBlocking env, ∀ n : Nat, Admissible s (.accept makeNonBlocking env) →
    0 ≤ s.sv.svSocket → env.accept4 = .fd n → s.ledger.members.length < cfg.maxClients →
    (makeNonBlocking = true → env.getFlagsOk = true ∧ env.setFlagsOk = true) →
    ∃ (i : Nat) (sv' : Server cfg), s.sv.clients.entries[i]? = some none ∧
      Server.acceptClient makeNonBlocking env s.sv =
        .ok ((n : Int), (s.ledger.given.length : Int)) sv' ∧
      sv'.clients = s.sv.clients.set i (some (fresh n s.ledger.given.length env.color)) ∧
      sv'.nrOfConnections = s.sv.nrOfConnections + 1 ∧ sv'.closed = s.sv.closed
  fresh : ∀ makeNonBlocking env pair sv',
    Server.acceptClient makeNonBlocking env s.sv = .ok pair sv' → 0 ≤ pair.2 →
      ∃ i : Nat, s.sv.clients.entries[i]? = some none ∧
        sv'.clients = s.sv.clients.set i (some (fresh pair.1 pair.2 env.color))
  full : s.ledger.members.length = cfg.maxClients → ∀ makeNonBlocking env,
    (final (Server.acceptClient makeNonBlocking env s.sv)).clients = s.sv.clients ∧
      (final (Server.acceptClient makeNonBlocking env s.sv)).nrOfConnections =
        s.sv.nrOfConnections
  -- disconnect_client on an id of the map, and on any other
  known : ∀ fd clId, (fd, clId) ∈ s.ledger.members → ∃ sv' : Server cfg,
    Server.disconnectClient clId s.sv = .ok () sv' ∧
      s.sv.pairs.Perm ((fd, clId) :: sv'.pairs) ∧ sv'.closed = s.sv.closed ++ [fd] ∧
      sv'.nrOfConnections = s.sv.nrOfConnections - 1
  unknown : ∀ clId ∉ s.ledger.members.map Prod.snd,
    Server.disconnectClient clId s.sv = .error (.runtimeError "Client not found\n") s.sv

section Map

variable {s : Audit cfg}

theorem Represents.admits (h : Represents s) {makeNonBlocking : Bool} {env : AcceptEnv} {n : Nat}
    (hmax : (s.ledger.accepts : Int) < Decimal.intMax) (hs : 0 ≤ s.sv.svSocket)
    (hn : env.accept4 = .fd n) (hroom : s.ledger.members.length < cfg.maxClients)
    (hflags : makeNonBlocking = true → env.getFlagsOk = true ∧ env.setFlagsOk = true) :
    s.sv.clients.isFull = false ∧ Server.acceptClient makeNonBlocking env s.sv =
      .ok ((n : Int), (s.ledger.given.length : Int)) (s.sv.enrol n env.color) := by
  have hone : s.ledger.obtained env = [(n : Int)] := by
    rw [h.svSocket] at hs
    simp [Ledger.obtained, Int.not_lt.mpr hs, hn]
  have hadmits : s.ledger.admits makeNonBlocking env = true := by
    cases makeNonBlocking with
    | false => simp [Ledger.admits, hroom]
    | true => simp [Ledger.admits, hroom, hflags rfl]
  have henter : s.ledger.accept makeNonBlocking env = s.ledger.enter n := by
    rw [Ledger.accept, hone]
    simp [hadmits]
  have refused (hl : s.ledger.accept makeNonBlocking env =
      s.ledger.refuse (s.ledger.obtained env)) : False := by
    rw [henter] at hl
    have hlen := congrArg (fun l => l.given.length) hl
    simp [Ledger.enter, Ledger.refuse] at hlen
  have hanswer := acceptClient_answer h makeNonBlocking env hmax
  cases hr : Server.acceptClient makeNonBlocking env s.sv with
  | ok pair t =>
    rw [hr] at hanswer
    cases hanswer with
    | admitted hfd _ hfull =>
      rw [hone] at hfd
      cases hfd
      exact ⟨hfull, rfl⟩
    | refused hl _ _ => exact (refused hl).elim
  | error e t =>
    rw [hr] at hanswer
    cases hanswer with
    | refused hl _ _ => exact (refused hl).elim

theorem Represents.known (h : Represents s) {fd clId : Int} (hp : (fd, clId) ∈ s.ledger.members) :
    ∃ sv' : Server cfg, Server.disconnectClient clId s.sv = .ok () sv' ∧
      s.sv.pairs.Perm ((fd, clId) :: sv'.pairs) ∧ sv'.closed = s.sv.closed ++ [fd] ∧
      sv'.nrOfConnections = s.sv.nrOfConnections - 1 := by
  obtain ⟨c, hc, hfd⟩ := getClientRef_of_pair h.pairs_ids_nodup (h.members.mem_iff.mpr hp)
  have hfd : c.fd = fd := hfd
  subst hfd
  exact ⟨_, disconnectClient_found hc, pairs_perm_dropClient h.pairs_ids_nodup hc, rfl, rfl⟩

theorem Represents.finiteMap (h : Represents s) : FiniteMap s := by
  have hids : ∀ clId, clId ∈ s.sv.ids ↔ clId ∈ s.ledger.members.map Prod.snd :=
    fun clId => (h.members.map Prod.snd).mem_iff
  have hfds := h.members.map Prod.fst
  refine ⟨h.members, h.ids_nodup, h.given_nodup, fun clId => ?_, fun clId c hc => ?_, ⟨?_, ?_⟩,
    h.connections, h.closed, fun fd => ⟨?_, ?_⟩, ?_, fun _ _ _ _ => acceptClient_fills,
    fun hl nb env => ?_, fun _ _ => h.known, fun clId hid => ?_⟩
  · rw [← hids]
    refine ⟨fun ⟨c, hc⟩ => mem_ids hc, fun hm => ?_⟩
    obtain ⟨p, hp, rfl⟩ := List.mem_map.mp hm
    obtain ⟨c, hc, -⟩ := getClientRef_of_pair h.pairs_ids_nodup hp
    exact ⟨c, hc⟩
  · exact ⟨getClientRef_id hc, h.members.mem_iff.mp (mem_pairs hc)⟩
  · exact Server.ids_eq s.sv ▸ h.pairs_ids_nodup
  · exact Server.ids_eq s.sv ▸ hids
  · rw [hfds.count_eq, h.closed]
    exact h.tally fd
  · rw [hfds.count_eq]
    exact List.nodup_iff_count_le_one.mp h.fds_nodup fd
  · intro nb env n hadm hs hn hroom hflags
    obtain ⟨hfull, hr⟩ := h.admits hadm.1 hs hn hroom hflags
    obtain ⟨i, hi, hfill⟩ := Slots.fill_eq_set hfull (ClientArray.fresh n s.sv.clientDataId env.color)
    refine ⟨i, _, hi, hr, ?_, rfl, rfl⟩
    rw [← h.counter]
    exact hfill
  · refine acceptClient_table rfl ((Slots.isFull_iff _).mpr ?_)
    have := h.members.length_eq
    rw [Server.pairs_eq, List.length_map] at this
    exact this.trans hl
  · exact disconnectClient_missing (getClientRef_none fun hm => hid ((hids clId).mp hm))

end Map

theorem clientArray_finiteMap {svSocket : Int} {s : Audit cfg}
    (h : Runs.Reach step Admissible (start cfg svSocket) s) : FiniteMap s :=
  (h.invariant (represents_start cfg svSocket) fun _ _ _ hr hc ht => hr.step hc ht).finiteMap

def connected (fd : Nat) : Call := .accept true { accept4 := .fd fd, eventfd := 9 }

theorem clientArray_finiteMap_reuse : ∃ s : Audit Config.deployed,
    s.ledger.members = [(6, 1), (5, 2)] ∧ s.sv.closed = [5] ∧ FiniteMap s := by
  have hrun : (Runs.run (Runs.guarded step Admissible) (start Config.deployed 3)
      [connected 5, connected 6, .disconnect 0, .disconnect 7, connected 5]).any
        (fun s => s.ledger.members = [(6, 1), (5, 2)] ∧ s.sv.closed = [5]) = true := by
    decide +kernel
  obtain ⟨s, hr, hp⟩ := Runs.exists_of_guarded hrun
  obtain ⟨hmembers, hclosed⟩ := of_decide_eq_true hp
  exact ⟨s, hmembers, hclosed, clientArray_finiteMap hr⟩

end ClientArray

end ChatApp
