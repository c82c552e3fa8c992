import Mathlib.Algebra.Order.BigOperators.Group.List
import Mathlib.Algebra.Order.Group.Nat
import ChatApp.SlotIntegrity
import ChatApp.StuckClients

namespace ChatApp

open Effects

variable {cfg : Config}

def countAt {n : Nat} (arr : Slots WorkerEntry n) (i : Nat) : Nat :=
  match arr.entries[i]? with
  | some (some w) => w.count
  | _ => 0

def load {n : Nat} (arr : Slots WorkerEntry n) : Nat := (arr.values.map WorkerEntry.count).sum

-- the counts of the workers add up to the clients of the table
def CountsAddUp (s : Shared cfg) : Prop :=
  load s.mgr.workerThreads = s.sv.clients.values.length

instance (s : Shared cfg) : Decidable (CountsAddUp s) := inferInstanceAs (Decidable (_ = _))

section Counts

variable {n : Nat} {arr : Slots WorkerEntry n} {i : Nat} {w : WorkerEntry}

theorem countAt_some (h : arr.entries[i]? = some (some w)) : countAt arr i = w.count := by
  simp [countAt, h]

theorem countAt_none (h : arr.entries[i]? = some none) : countAt arr i = 0 := by
  simp [countAt, h]

@[simp] theorem countAt_empty (i : Nat) : countAt (Slots.empty WorkerEntry n) i = 0 := by
  by_cases h : i < n <;> simp [countAt, Slots.empty, h]

theorem entry_of_countAt (h : 0 < countAt arr i) :
    ∃ w, arr.entries[i]? = some (some w) ∧ w.count = countAt arr i := by
  unfold countAt at h ⊢
  split at h
  · rename_i w hw
    exact ⟨w, hw, rfl⟩
  · omega

theorem countAt_set (h : i < n) (x : Option WorkerEntry) (j : Nat) :
    countAt (arr.set i x) j = if j = i then x.elim 0 WorkerEntry.count else countAt arr j := by
  unfold countAt
  rw [Slots.get_set]
  by_cases hij : i = j
  · subst hij
    cases x <;> simp [h]
  · simp [hij, Ne.symm hij]

theorem load_set_none (h : arr.entries[i]? = some (some w)) :
    load (arr.set i none) + w.count = load arr := by
  have := ((Slots.values_perm_of_some h).map WorkerEntry.count).sum_eq
  simp only [List.map_cons, List.sum_cons] at this
  unfold load
  omega

theorem load_set_some (h : arr.entries[i]? = some (some w)) (v : WorkerEntry) :
    load (arr.set i (some v)) + w.count = load arr + v.count := by
  have hset := ((Slots.values_set_some h v).map WorkerEntry.count).sum_eq
  have hnone := load_set_none h
  simp only [List.map_cons, List.sum_cons] at hset
  unfold load at hnone ⊢
  omega

theorem load_fill (h : arr.entries[i]? = some none) (v : WorkerEntry) :
    load (arr.set i (some v)) = load arr + v.count := by
  have := ((Slots.values_set_of_none h v).map WorkerEntry.count).sum_eq
  simp only [List.map_cons, List.sum_cons] at this
  unfold load
  omega

end Counts

-- every worker in the array has a client and an eventfd
def Live (s : Shared cfg) : Prop :=
  ∀ w ∈ s.mgr.workerThreads.values, 1 ≤ w.count ∧ 0 ≤ w.evfd

-- the queue takes one more ACCEPT and the eventfd of the chosen worker one more write
def HasSeat (s : Shared cfg) : Prop :=
  cfg.hasRoom s.mgr.qListenerToWorker = true ∧
    ∀ i w, slotFor s.mgr = some i → s.mgr.workerThreads.entries[i]? = some (some w) →
      s.kernel.evfd w.evfd < evfdMax

section Seat

variable {s t : Shared cfg} {i : Nat} {w : WorkerEntry} {socket clId L eventfd : Int}

theorem choose_ne_overLimit (h : Counted s) (hroom : load s.mgr.workerThreads < cfg.maxClients) :
    choose s.mgr ≠ .overLimit := by
  intro hc
  unfold choose at hc
  by_cases h0 : s.mgr.nrOfLaunchedThreads = 0
  · simp [h0] at hc
  rw [if_neg h0] at hc
  cases hm : getMinAndIdx s.mgr.workerThreads with
  | none => simp [hm] at hc
  | some b =>
    simp only [hm] at hc
    split_ifs at hc with hlt hT hM
    have hleast := (getMinAndIdx_least hm).2
    have hall : ∀ x ∈ s.mgr.workerThreads.values.map WorkerEntry.count,
        cfg.maxClientsPerThread ≤ x := by
      intro x hx
      obtain ⟨w, hw, rfl⟩ := List.mem_map.mp hx
      have := hleast w hw
      omega
    have hsum : _ * cfg.maxClientsPerThread ≤ load s.mgr.workerThreads :=
      List.card_nsmul_le_sum _ _ hall
    have hlen : s.mgr.workerThreads.values.length = cfg.maxNrOfThreads := h.symm.trans hT
    rw [List.length_map, hlen] at hsum
    unfold Config.maxClients at hroom
    omega

theorem assignTo_ok_iff (h : s.mgr.workerThreads.entries[i]? = some (some w)) (he : 0 ≤ w.evfd) :
    (∃ t, assignTo i socket clId s = .ok () t) ↔
      cfg.hasRoom s.mgr.qListenerToWorker = true ∧ s.kernel.evfd w.evfd < evfdMax := by
  constructor
  · rintro ⟨t, ht⟩
    rw [assignTo_eq h, assignClientToWorker_eq] at ht
    split at ht
    · rename_i hr
      simp only at ht
      split_ifs at ht with h0 hc
      exact ⟨hr, hc⟩
    · cases ht
  · rintro ⟨hr, hc⟩
    exact ⟨_, assignTo_of_room h hr he hc⟩

theorem processNewClient_ok_iff (h : Counted s) (hl : Live s)
    (hroom : load s.mgr.workerThreads < cfg.maxClients) :
    (∃ t, processNewClient socket clId L eventfd s = .ok () t) ↔
      (MustLaunch s → 0 ≤ eventfd) ∧ (¬ MustLaunch s → HasSeat s) := by
  rw [processNewClient_eq]
  have hseat {i : Nat} {w : WorkerEntry} (hi : slotFor s.mgr = some i)
      (hw : s.mgr.workerThreads.entries[i]? = some (some w)) :
      HasSeat s ↔ cfg.hasRoom s.mgr.qListenerToWorker = true ∧
        s.kernel.evfd w.evfd < evfdMax := by
    refine and_congr_right fun _ => ⟨fun hall => hall i w hi hw, fun hc j v hj hv => ?_⟩
    obtain rfl := Option.some.inj (hi.symm.trans hj)
    obtain rfl := Option.some.inj (Option.some.inj (hw.symm.trans hv))
    exact hc
  rcases choose_of_counted h with ⟨hc, hm⟩ | ⟨hm, hc | ⟨i, w, hw, hc⟩⟩
  · rw [hc]
    simp only [hm, true_implies, not_true, false_implies, and_true]
    obtain ⟨old, hold⟩ := s.mgr.workerThreads.get_of_lt hm.2
    have hold' : s.mgr.workerThreads.entries[s.mgr.nrOfLaunchedThreads]? = some old := by rwa [h]
    constructor
    · rintro ⟨t, ht⟩
      by_contra he
      rw [emplaceNewWorker_eventfd (by omega)] at ht
      cases ht
    · intro he
      exact ⟨_, emplaceNewWorker_run he hold'⟩
  · exact absurd hc (choose_ne_overLimit h hroom)
  · have he := (hl w (Slots.mem_values_iff.mpr ⟨i, hw⟩)).2
    simp only [hm, false_implies, not_false_iff, true_implies, true_and]
    rcases hc with hc | hc
    · rw [hseat (by simp [slotFor, hc]) hw, hc]
      exact assignTo_ok_iff hw he
    · rw [hseat (by simp [slotFor, hc]) hw, hc]
      exact assignTo_ok_iff (s := s.raiseMax) hw he

-- one more client is counted, at entry i
structure Seated (s t : Shared cfg) (i : Nat) : Prop where
  counts : ∀ j, countAt t.mgr.workerThreads j =
    countAt s.mgr.workerThreads j + if j = i then 1 else 0
  load : load t.mgr.workerThreads = load s.mgr.workerThreads + 1
  live : Live t
  counted : Counted t

theorem seated_fill (h : Counted s) (hl : Live s) (hfree : NextFree s) (he : 0 ≤ eventfd) :
    Seated s (s.launch socket clId s.occupied L eventfd none) s.occupied := by
  have hi := Slots.lt_of_get hfree
  have harr : (s.launch socket clId s.occupied L eventfd none).mgr.workerThreads =
      s.mgr.workerThreads.set s.occupied (some ⟨1, eventfd, s.kernel.spawned.length⟩) := by
    rw [← h]
    rfl
  refine ⟨fun j => ?_, ?_, fun v hv => ?_, ?_⟩
  · have h0 : countAt s.mgr.workerThreads s.occupied = 0 := countAt_none hfree
    rw [harr, countAt_set hi]
    by_cases hj : j = s.occupied
    · simp [hj, h0]
    · simp [hj]
  · rw [harr, load_fill hfree]
  · rw [harr, (Slots.values_set_of_none hfree _).mem_iff] at hv
    rcases List.mem_cons.mp hv with rfl | hv
    · exact ⟨le_refl 1, he⟩
    · exact hl v hv
  · rw [Counted, occupied_launch_free hfree _ _ _ _ _ _ h, ← h]
    rfl

theorem seated_set (h : Counted s) (hl : Live s)
    (hw : s.mgr.workerThreads.entries[i]? = some (some w))
    (harr : t.mgr.workerThreads =
      s.mgr.workerThreads.set i (some { w with count := w.count + 1 }))
    (hn : t.mgr.nrOfLaunchedThreads = s.mgr.nrOfLaunchedThreads) : Seated s t i := by
  have hi := Slots.lt_of_get hw
  refine ⟨fun j => ?_, ?_, fun v hv => ?_, ?_⟩
  · rw [harr, countAt_set hi]
    by_cases hj : j = i
    · simp [hj, countAt_some hw]
    · simp [hj]
  · have := load_set_some hw { w with count := w.count + 1 }
    rw [harr]
    simp only at this
    omega
  · rw [harr, (Slots.values_set_some hw _).mem_iff] at hv
    rcases List.mem_cons.mp hv with rfl | hv
    · exact ⟨by simp, (hl w (Slots.mem_values_iff.mpr ⟨i, hw⟩)).2⟩
    · exact hl v ((Slots.values_perm_of_some hw).mem_iff.mpr (List.mem_cons_of_mem _ hv))
  · rw [Counted, hn, Shared.occupied, harr, occupied_set_some hw]
    exact h

-- a launch into a taken entry loses the clients that were counted there
theorem load_launch_taken (h : Counted s) (hl : Live s)
    (hw : s.mgr.workerThreads.entries[s.occupied]? = some (some w))
    (socket clId L eventfd : Int) :
    load (s.launch socket clId s.occupied L eventfd (some w)).mgr.workerThreads ≤
      load s.mgr.workerThreads := by
  have hset := load_set_some hw ⟨1, eventfd, s.kernel.spawned.length⟩
  have hpos := (hl w (Slots.mem_values_iff.mpr ⟨_, hw⟩)).1
  have harr : (s.launch socket clId s.occupied L eventfd (some w)).mgr.workerThreads =
      s.mgr.workerThreads.set s.occupied (some ⟨1, eventfd, s.kernel.spawned.length⟩) := by
    rw [← h]
    rfl
  rw [harr]
  simp only at hset
  omega

theorem processNewClient_seated (h : Counted s) (hl : Live s)
    (ht : processNewClient socket clId L eventfd s = .ok () t) :
    load t.mgr.workerThreads = load s.mgr.workerThreads + 1 ↔ (MustLaunch s → NextFree s) := by
  rcases processNewClient_ok h ht with ⟨hm, _, he, old, hold, rfl⟩ | ⟨hm, i, w, _, hw, ht⟩
  · simp only [hm, true_implies]
    cases old with
    | none => exact iff_of_true (seated_fill h hl hold he).load hold
    | some w =>
      have := load_launch_taken h hl hold socket clId L eventfd
      refine iff_of_false (by omega) fun hfree => ?_
      rw [NextFree, hold] at hfree
      cases hfree
  · simp only [hm, false_implies, iff_true]
    rcases ht with rfl | rfl
    · exact (seated_set (t := s.assign i w socket clId) h hl hw rfl rfl).load
    · exact (seated_set (t := s.raiseMax.assign i w socket clId) h hl hw rfl rfl).load

theorem seated_of_free (h : Counted s) (hl : Live s)
    (ht : processNewClient socket clId L eventfd s = .ok () t) (hfree : MustLaunch s → NextFree s) :
    ∃ i, slotFor s.mgr = some i ∧ Seated s t i := by
  rcases processNewClient_ok h ht with ⟨hm, hi, he, old, hold, rfl⟩ | ⟨hm, i, w, hi, hw, ht⟩
  · obtain rfl : none = old := Option.some.inj ((hfree hm).symm.trans hold)
    exact ⟨_, hi, seated_fill h hl hold he⟩
  · rcases ht with rfl | rfl
    · exact ⟨i, hi, seated_set h hl hw rfl rfl⟩
    · exact ⟨i, hi, seated_set h hl hw rfl rfl⟩

end Seat

-- the client and the slot that a CL_DISCONNECTED carries
def leaverOf (text : Str) : Option (Int × Nat) :=
  match ({} : ServerMessage).constructFromString text with
  | .ok m =>
    if m.action = getAction .clDisconnected then
      match stoi m.id, stoi m.threadNumber with
      | .ok clId, .ok (.ofNat i) => some (clId, i)
      | _, _ => none
    else none
  | .error _ => none

def accounts (s : Shared cfg) :
    Int × Nat × List Int × Slots WorkerEntry cfg.maxNrOfThreads × Nat × Nat :=
  (s.sv.svSocket, s.sv.clientDataId, s.sv.ids, s.mgr.workerThreads, s.mgr.nrOfLaunchedThreads,
    s.mgr.maxClientsPerThread)

theorem leaverOf_some {text : Str} {p : Int × Nat} (h : leaverOf text = some p) :
    ∃ m : ServerMessage, ({} : ServerMessage).constructFromString text = .ok m ∧
      m.action = getAction .clDisconnected ∧ stoi m.id = .ok p.1 ∧
      stoi m.threadNumber = .ok (p.2 : Int) := by
  unfold leaverOf at h
  split at h
  · rename_i m hm
    split_ifs at h with ha
    split at h
    · rename_i clId i hid hj
      cases h
      exact ⟨m, hm, ha, hid, hj⟩
    · cases h
  · cases h

theorem isLeaveText_of_leaver {text : Str} {p : Int × Nat} (h : leaverOf text = some p) :
    IsLeaveText text := by
  obtain ⟨m, hm, ha, _, _⟩ := leaverOf_some h
  rw [IsLeaveText, actionOf, hm, ← ha]
  rfl

-- the table and the load balancer agree on who is connected and where
structure Tallied (members : List (Int × Nat)) (s : Shared cfg) : Prop where
  socket : 0 ≤ s.sv.svSocket
  nodup : s.sv.ids.Nodup
  fresh : ∀ x ∈ s.sv.ids, x < s.sv.clientDataId
  table : s.sv.ids.Perm (members.map Prod.fst)
  counts : ∀ i, countAt s.mgr.workerThreads i = (members.map Prod.snd).count i
  live : Live s
  counted : Counted s
  balanced : CountsAddUp s

section Tally

variable {members members' : List (Int × Nat)} {s t : Shared cfg} {p : Int × Nat}

theorem length_ids (sv : Server cfg) : sv.ids.length = sv.clients.values.length := by
  rw [Server.ids_eq, Server.getConnectedIDs, List.length_map]

theorem Tallied.perm (h : Tallied members s) (hp : members.Perm members') :
    Tallied members' s where
  socket := h.socket
  nodup := h.nodup
  fresh := h.fresh
  table := h.table.trans (hp.map Prod.fst)
  counts := fun i => (h.counts i).trans ((hp.map Prod.snd).count_eq i)
  live := h.live
  counted := h.counted
  balanced := h.balanced

theorem Tallied.congr (h : Tallied members s) (ht : accounts t = accounts s) :
    Tallied members t := by
  simp only [accounts, Prod.mk.injEq] at ht
  obtain ⟨hsock, hnext, hids, harr, hn, _⟩ := ht
  refine ⟨?_, ?_, ?_, ?_, ?_, ?_, ?_, ?_⟩
  · rw [hsock]
    exact h.socket
  · rw [hids]
    exact h.nodup
  · rw [hids, hnext]
    exact h.fresh
  · rw [hids]
    exact h.table
  · rw [harr]
    exact h.counts
  · rw [Live, harr]
    exact h.live
  · rw [Counted, Shared.occupied, hn, harr]
    exact h.counted
  · rw [CountsAddUp, ← length_ids, harr, hids, length_ids]
    exact h.balanced

theorem ids_enrol {sv : Server cfg} (hfull : sv.clients.isFull = false) (n : Nat) (color : Int) :
    (sv.enrol n color).ids.Perm ((sv.clientDataId : Int) :: sv.ids) :=
  (pairs_enrol hfull n color).map Prod.snd

theorem Tallied.enter {n i : Nat} {color : Int} (h : Tallied members s)
    (hfull : s.sv.clients.isFull = false) (hs : Seated s t i) (hsv : t.sv = s.sv.enrol n color) :
    Tallied (((s.sv.clientDataId : Int), i) :: members) t := by
  have hids := ids_enrol hfull n color
  have hnew : (s.sv.clientDataId : Int) ∉ s.sv.ids := fun hm => lt_irrefl _ (h.fresh _ hm)
  refine ⟨?_, ?_, fun x hx => ?_, ?_, fun j => ?_, hs.live, hs.counted, ?_⟩
  · rw [hsv]
    exact h.socket
  · rw [hsv]
    exact hids.nodup_iff.mpr (List.nodup_cons.mpr ⟨hnew, h.nodup⟩)
  · have hnext : ((t.sv.clientDataId : Nat) : Int) = s.sv.clientDataId + 1 := by rw [hsv]; rfl
    rw [hsv] at hx
    rcases List.mem_cons.mp (hids.mem_iff.mp hx) with rfl | hx
    · omega
    · have := h.fresh x hx
      omega
  · rw [hsv]
    exact hids.trans (h.table.cons _)
  · rw [hs.counts j, h.counts j, List.map_cons, List.count_cons]
    by_cases hj : j = i
    · simp [hj]
    · simp [hj, Ne.symm hj]
  · have hlen := hids.length_eq
    have hbal := h.balanced
    rw [CountsAddUp] at hbal
    rw [List.length_cons, length_ids, length_ids] at hlen
    rw [CountsAddUp, hs.load, hsv, hlen, hbal]

-- the client's worker is in the array and counts it
theorem Tallied.worker (h : Tallied (p :: members) s) :
    ∃ w, s.mgr.workerThreads.entries[p.2]? = some (some w) ∧ 0 < w.count := by
  have hpos : 0 < countAt s.mgr.workerThreads p.2 := by
    rw [h.counts, List.map_cons, List.count_cons_self]
    omega
  obtain ⟨w, hw, hc⟩ := entry_of_countAt hpos
  exact ⟨w, hw, by omega⟩

theorem Tallied.client (h : Tallied (p :: members) s) :
    ∃ c, s.sv.getClientRef p.1 = some c := by
  have hmem : p.1 ∈ s.sv.ids := h.table.mem_iff.mpr (by simp)
  obtain ⟨q, hq, he⟩ := List.mem_map.mp hmem
  obtain ⟨c, hc, _⟩ := getClientRef_of_pair h.nodup hq
  exact ⟨c, he ▸ hc⟩

variable {i : Nat} {w : WorkerEntry}

theorem countAt_release (hw : s.mgr.workerThreads.entries[i]? = some (some w))
    (hpos : 0 < w.count) (j : Nat) : countAt s.mgr.workerThreads j =
      countAt (s.release i w).mgr.workerThreads j + if j = i then 1 else 0 := by
  have hi := Slots.lt_of_get hw
  change _ = countAt (s.mgr.workerThreads.set i _) j + _
  rw [countAt_set hi]
  by_cases hj : j = i
  · rw [if_pos hj, if_pos hj, hj, countAt_some hw]
    split_ifs with h1
    · simp [h1]
    · simp only [Option.elim_some]
      omega
  · simp [hj]

theorem load_release (hw : s.mgr.workerThreads.entries[i]? = some (some w))
    (hpos : 0 < w.count) :
    load (s.release i w).mgr.workerThreads + 1 = load s.mgr.workerThreads := by
  have hnone := load_set_none hw
  have hsome := load_set_some hw { w with count := w.count - 1 }
  simp only [Shared.release] at hsome ⊢
  split_ifs <;> omega

theorem live_release (hl : Live s) (hw : s.mgr.workerThreads.entries[i]? = some (some w))
    (hpos : 0 < w.count) : Live (s.release i w) := by
  have hbelow : ∀ v ∈ (s.mgr.workerThreads.set i none).values, 1 ≤ v.count ∧ 0 ≤ v.evfd :=
    fun v hv => hl v ((Slots.values_perm_of_some hw).mem_iff.mpr (List.mem_cons_of_mem _ hv))
  intro v hv
  simp only [Shared.release] at hv
  split_ifs at hv with h1
  · exact hbelow v hv
  · rcases List.mem_cons.mp ((Slots.values_set_some hw _).mem_iff.mp hv) with rfl | hv
    · exact ⟨by simp only; omega, (hl w (Slots.mem_values_iff.mpr ⟨_, hw⟩)).2⟩
    · exact hbelow v hv

theorem Tallied.leave {m : ServerMessage} {fd : Int} (h : Tallied (p :: members) s)
    (hw : s.mgr.workerThreads.entries[p.2]? = some (some w)) (hpos : 0 < w.count) :
    Tallied members (s.farewell m p.1 fd p.2 w) := by
  have hids := ids_farewell s m p.1 fd p.2 w
  have hmem : p.1 ∈ s.sv.ids := h.table.mem_iff.mpr (by simp)
  have hlen := List.length_erase_of_mem hmem
  have hone := List.length_pos_of_mem hmem
  have hload := load_release hw hpos
  have hbal : load s.mgr.workerThreads = s.sv.ids.length := h.balanced.trans (length_ids _).symm
  refine ⟨?_, ?_, fun x hx => ?_, ?_, fun j => ?_, live_release h.live hw hpos,
    counted_release h.counted hw, ?_⟩
  · change 0 ≤ ((s.sv.dropClient p.1 fd).pushAll _ _ _).svSocket
    rw [(Server.pushAll_frame _ _ _ _).1]
    exact h.socket
  · rw [hids]
    exact h.nodup.erase _
  · have hnext : (s.farewell m p.1 fd p.2 w).sv.clientDataId = s.sv.clientDataId :=
      (Server.pushAll_frame _ _ _ _).2.1
    rw [hids] at hx
    rw [hnext]
    exact h.fresh x (List.mem_of_mem_erase hx)
  · rw [hids]
    simpa using h.table.erase p.1
  · have hc := countAt_release hw hpos j
    have hcount := h.counts j
    rw [List.map_cons, List.count_cons] at hcount
    change countAt (s.release p.2 w).mgr.workerThreads j = _
    by_cases hj : j = p.2
    · simp only [hj, if_true, beq_self_eq_true] at hc hcount ⊢
      omega
    · simp only [hj, Ne.symm hj, if_false, beq_iff_eq, add_zero] at hc hcount
      omega
  · rw [CountsAddUp, ← length_ids, hids, hlen]
    change load (s.release p.2 w).mgr.workerThreads = _
    omega

end Tally

-- those whose leaving is told by a text of the queue, in the order of the texts
def leaving (s : Shared cfg) : List (Int × Nat) := s.mgr.qWorkerToListener.filterMap leaverOf

section Process

variable {members : List (Int × Nat)} {s : Shared cfg} {text : Str} {p : Int × Nat}

theorem unicastRepeated_accounts (exceptedId : Int) (ids : List Int) (msg : Str) :
    Frame accounts (unicastRepeated exceptedId ids msg : Prog cfg Unit) := by
  intro s
  have hcore := unicastRepeated_core exceptedId ids msg s
  have hmgr := unicastRepeated_keeps (I := fun t => t.mgr = s.mgr) msg (fun _ _ h => h)
    (fun _ _ h => h) exceptedId ids s rfl
  simp only [core, Prod.mk.injEq] at hcore
  simp only [accounts, Server.ids, Server.pairs, hcore, hmgr]

-- what is not a CL_DISCONNECTED moves no account
theorem processMessage_quiet (h : ¬ IsLeaveText text) (s : Shared cfg) :
    accounts (final (processMessage text s)) = accounts s := by
  unfold processMessage
  cases hm : ({} : ServerMessage).constructFromString text with
  | error e => rfl
  | ok m =>
    have ha : m.action ≠ getAction .clDisconnected := by
      intro ha
      rw [IsLeaveText, actionOf, hm, ← ha] at h
      exact h rfl
    rw [bind_of_ok (liftExcept_ok m)]
    simp only [get_bind_run, dispatch, ha, if_false]
    split_ifs
    · rfl
    · exact (liftExcept_frame _ _).bind (fun _ => unicastRepeated_accounts _ _ _) s
    · exact unicastRepeated_accounts _ _ _ s
    · exact (liftExcept_frame _ _).bind (fun _ => unicastRepeated_accounts _ _ _) s
    · rfl

theorem processMessage_leaver (h : Tallied (p :: members) s) (ht : leaverOf text = some p) :
    ((∃ t, processMessage text s = .ok () t) ↔ OthersHaveRoom s p.1) ∧
      ∀ t, processMessage text s = .ok () t → Tallied members t ∧
        t.sv.clientDataId = s.sv.clientDataId ∧ t.sv.ids = s.sv.ids.erase p.1 ∧
        ∀ j, countAt s.mgr.workerThreads j =
          countAt t.mgr.workerThreads j + if j = p.2 then 1 else 0 := by
  obtain ⟨m, hm, ha, hid, hj⟩ := leaverOf_some ht
  obtain ⟨w, hw, hpos⟩ := h.worker
  obtain ⟨c, hc⟩ := h.client
  have hne : s.sv.getConnectedIDs ≠ [] :=
    List.ne_nil_of_mem (List.mem_map_of_mem (getClientRef_mem hc))
  have heq : processMessage text s = processClDisconnected m s.sv.getConnectedIDs s := by
    rw [processMessage, hm, bind_of_ok (liftExcept_ok m)]
    simp only [get_bind_run, hne, if_false, dispatch, ha, if_true]
  rw [heq]
  have hends := processClDisconnected_ends h.nodup hc hid hj hw hpos
  refine ⟨hends, fun t ht => ?_⟩
  have hrun := processClDisconnected_run h.nodup hc hid hj hw hpos (hends.mp ⟨t, ht⟩)
  cases hrun.symm.trans ht
  exact ⟨h.leave hw hpos, (Server.pushAll_frame _ _ _ _).2.1, ids_farewell s m p.1 c.fd p.2 w,
    countAt_release hw hpos⟩

end Process

-- the books after a message that is not a CL_DISCONNECTED, if there is one
structure Unmoved (s t : Shared cfg) : Prop where
  accounts : accounts t = accounts s
  leaving : leaving t = leaving s
  queue : ∀ text ∈ t.mgr.qWorkerToListener, IsLeaveText text → text ∈ s.mgr.qWorkerToListener

theorem Unmoved.rfl {s : Shared cfg} : Unmoved s s := ⟨Eq.refl _, Eq.refl _, fun _ h _ => h⟩

theorem listenerProcess_quiet {L : Int} {s : Shared cfg}
    (h : s.kernel.evfd L ≠ 0 → ∀ text rest, s.mgr.qWorkerToListener = text :: rest →
      ¬ IsLeaveText text) : Unmoved s (final (listenerProcessWorkerToListenerQ L s)) := by
  rw [listenerProcess_eq]
  split_ifs with h0
  · exact .rfl
  · cases hq : s.mgr.qWorkerToListener with
    | nil => exact ⟨rfl, rfl, fun _ ht _ => ht⟩
    | cons text rest =>
      have hnot := h h0 text rest hq
      have hrest : (final (processMessage text ((s.setEvfd L 0).setWorkerToListener
          rest))).mgr.qWorkerToListener = rest := processMessage_queue text _
      have hnone : leaverOf text = none :=
        Option.eq_none_iff_forall_ne_some.mpr fun p hp => hnot (isLeaveText_of_leaver hp)
      refine ⟨processMessage_quiet hnot _, ?_, fun x hx _ => ?_⟩
      · rw [leaving, leaving, hrest, hq, List.filterMap_cons_none hnone]
      · rw [hrest] at hx
        rw [hq]
        exact List.mem_cons_of_mem _ hx

-- the kernel hands the connection over, and its client gets a free entry or a seat
structure Admissible (env : AcceptEnv) (s : Shared cfg) : Prop where
  accepted : ∃ n, env.accept4 = .fd n
  flags : env.getFlagsOk = true ∧ env.setFlagsOk = true
  counter : (s.sv.clientDataId : Int) ≤ Decimal.intMax
  launch : MustLaunch s → NextFree s ∧ 0 ≤ env.eventfd
  seat : ¬ MustLaunch s → HasSeat s

section Accept

variable {members : List (Int × Nat)} {s t : Shared cfg} {env : AcceptEnv} {L : Int}

theorem acceptClient_enters_iff (hsock : 0 ≤ s.sv.svSocket) (hfull : s.sv.clients.isFull = false) :
    (∃ n : Nat, acceptClient env s =
      .ok ((n : Int), (s.sv.clientDataId : Int)) (s.enrol n env.color)) ↔
      (∃ n, env.accept4 = .fd n) ∧ (env.getFlagsOk = true ∧ env.setFlagsOk = true) ∧
        (s.sv.clientDataId : Int) ≤ Decimal.intMax := by
  have hs : ¬ s.sv.svSocket < 0 := by omega
  constructor
  · rintro ⟨n, h⟩
    obtain ⟨pair, u, hu, h₁⟩ := bind_ok h
    unfold onServer at hu
    split at hu
    · rename_i pair' sv hr
      cases hu
      rw [acceptClient_eq, if_neg hs] at hr
      split at hr
      · cases hr
        cases h₁
      · cases hr
      · rename_i n' ha
        split_ifs at hr with hg hf hmax
        · simp [hfull] at *
        · exact ⟨⟨n', ha⟩, by simp_all, by omega⟩
    · cases hu
  · rintro ⟨⟨n, ha⟩, ⟨hg, hf⟩, hmax⟩
    have hm : ¬ Decimal.intMax < (s.sv.clientDataId : Int) := by omega
    have h0 : (0 : Int) ≤ s.sv.clientDataId := by omega
    have hrun : Server.acceptClient true env s.sv =
        .ok ((n : Int), (s.sv.clientDataId : Int)) (s.sv.enrol n env.color) := by
      rw [acceptClient_eq, if_neg hs, ha]
      simp [hg, hf, hfull, hm]
    refine ⟨n, ?_⟩
    rw [acceptClient, bind_of_ok (onServer_ok hrun)]
    simp only [h0, if_true]
    rfl

theorem Tallied.room (h : Tallied members s)
    (hroom : s.sv.clients.values.length < cfg.maxClients) :
    s.sv.clients.isFull = false ∧ load s.mgr.workerThreads < cfg.maxClients := by
  refine ⟨?_, ?_⟩
  · have := Slots.isFull_iff s.sv.clients
    cases hf : s.sv.clients.isFull with
    | false => rfl
    | true =>
      have := this.mp hf
      omega
  · rw [h.balanced]
    exact hroom

theorem processNewClient_frame {socket clId eventfd : Int}
    (ht : processNewClient socket clId L eventfd s = .ok () t) :
    t.sv = s.sv ∧ t.mgr.qWorkerToListener = s.mgr.qWorkerToListener := by
  have hfinal : (∃ u, processNewClient socket clId L eventfd s =
    .error .undefinedBehaviour u) ∨ _ := processNewClient_final
  rw [ht] at hfinal
  rcases hfinal with ⟨u, hu⟩ | ⟨hsv, _, hq, _⟩
  · cases hu
  · exact ⟨hsv, hq⟩

theorem acceptBranchBody_admits (h : Tallied members s)
    (hroom : s.sv.clients.values.length < cfg.maxClients) (ha : Admissible env s) :
    ∃ (t : Shared cfg) (i n : Nat), acceptBranchBody L env s = .ok () t ∧
      slotFor s.mgr = some i ∧ Seated s t i ∧ t.sv = s.sv.enrol n env.color ∧
      t.mgr.qWorkerToListener = s.mgr.qWorkerToListener := by
  obtain ⟨hfull, hload⟩ := h.room hroom
  obtain ⟨n, hn⟩ := (acceptClient_enters_iff h.socket hfull).mpr ⟨ha.accepted, ha.flags, ha.counter⟩
  have hc : Counted (s.enrol n env.color) := h.counted
  have hl : Live (s.enrol n env.color) := h.live
  have hok : ∃ t, processNewClient n s.sv.clientDataId L env.eventfd (s.enrol n env.color) =
      .ok () t :=
    (processNewClient_ok_iff hc hl hload).mpr ⟨fun hm => (ha.launch hm).2, fun hm => ha.seat hm⟩
  obtain ⟨t, ht⟩ := hok
  obtain ⟨i, hi, hseat⟩ := seated_of_free hc hl ht fun hm => (ha.launch hm).1
  obtain ⟨hsv, hq⟩ := processNewClient_frame ht
  refine ⟨t, i, n, ?_, hi, ⟨hseat.counts, hseat.load, hseat.live, hseat.counted⟩, hsv, hq⟩
  rw [acceptBranchBody, bind_of_ok hn]
  exact ht

theorem admissible_of_countsAddUp (h : Tallied members s)
    (hroom : s.sv.clients.values.length < cfg.maxClients)
    (ht : acceptBranchBody L env s = .ok () t) (hbal : CountsAddUp t)
    (hids : t.sv.ids.Perm ((s.sv.clientDataId : Int) :: s.sv.ids)) : Admissible env s := by
  obtain ⟨hfull, hload⟩ := h.room hroom
  obtain ⟨pair, u, hu, hnew⟩ := bind_ok ht
  have hlen : t.sv.ids.length = s.sv.ids.length + 1 := hids.length_eq
  have hsv := (processNewClient_frame hnew).1
  cases acceptClient_entered hu with
  | refused fds =>
    have : t.sv.ids = s.sv.ids := by rw [hsv]; rfl
    rw [this] at hlen
    omega
  | @entered n hn _ hmax =>
    have hc : Counted (s.enrol n env.color) := h.counted
    have hl : Live (s.enrol n env.color) := h.live
    obtain ⟨ha, hflags, hcounter⟩ := (acceptClient_enters_iff h.socket hfull).mp ⟨n, hu⟩
    obtain ⟨hevfd, hseat⟩ := (processNewClient_ok_iff hc hl hload).mp ⟨t, hnew⟩
    have hone : load t.mgr.workerThreads = load s.mgr.workerThreads + 1 := by
      have hs := h.balanced
      rw [CountsAddUp, ← length_ids] at hbal hs
      omega
    have hfree := (processNewClient_seated hc hl hnew).mp hone
    exact ⟨ha, hflags, hcounter, fun hm => ⟨hfree hm, hevfd hm⟩, fun hm => hseat hm⟩

end Accept

end ChatApp
