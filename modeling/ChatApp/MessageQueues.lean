import ChatApp.AtomicQueueOrder
import ChatApp.Listener

namespace ChatApp

open AtomicQueue

variable {cfg : Config} {n : Nat} {s : Shared cfg}

section Object

theorem fifo_push (h : cfg.queueSize = some n) (q : List Str) (msg : Str) :
    (fifo Str n).apply q (.push msg) =
      if cfg.hasRoom q then (.pushed, q ++ [msg]) else (.refused, q) := by
  simp only [fifo, Config.hasRoom, h, decide_eq_true_eq]

theorem fifo_pop_nil : (fifo Str n).apply [] .pop = (.refused, []) := rfl

theorem fifo_pop_cons (msg : Str) (q : List Str) :
    (fifo Str n).apply (msg :: q) .pop = (.popped (some msg), q) := rfl

end Object

section Operations

-- the queues of the server are the object that the ring buffers are proved to implement
theorem tryPushWorkerToListener_fifo (h : cfg.queueSize = some n) (msg : Str) :
    tryPushWorkerToListener msg s =
      .ok (decide (((fifo Str n).apply s.mgr.qWorkerToListener (.push msg)).1 = .pushed))
        (s.setWorkerToListener
          ((fifo Str n).apply s.mgr.qWorkerToListener (.push msg)).2) := by
  rw [fifo_push h]
  by_cases hr : cfg.hasRoom s.mgr.qWorkerToListener = true
  · rw [if_pos hr, tryPushWorkerToListener_room hr]
    rfl
  · rw [if_neg hr, tryPushWorkerToListener_full (Bool.eq_false_iff.mpr hr)]
    rfl

theorem tryPushListenerToWorker_fifo (h : cfg.queueSize = some n) (msg : Str) :
    tryPushListenerToWorker msg s =
      .ok (decide (((fifo Str n).apply s.mgr.qListenerToWorker (.push msg)).1 = .pushed))
        (s.setListenerToWorker
          ((fifo Str n).apply s.mgr.qListenerToWorker (.push msg)).2) := by
  rw [fifo_push h]
  by_cases hr : cfg.hasRoom s.mgr.qListenerToWorker = true
  · rw [if_pos hr, tryPushListenerToWorker_room hr]
    rfl
  · rw [if_neg hr, tryPushListenerToWorker_full (Bool.eq_false_iff.mpr hr)]
    rfl

def poppedElement : Result Str → Option Str
  | .popped element => element
  | _ => none

theorem tryPopWorkerToListener_fifo :
    tryPopWorkerToListener s =
      .ok (poppedElement ((fifo Str n).apply s.mgr.qWorkerToListener .pop).1)
        (s.setWorkerToListener ((fifo Str n).apply s.mgr.qWorkerToListener .pop).2) := by
  cases hq : s.mgr.qWorkerToListener with
  | nil =>
    have hself : s.setWorkerToListener [] = s := by rw [← hq]; rfl
    rw [tryPopWorkerToListener_nil hq, fifo_pop_nil, poppedElement, hself]
    rintro element ⟨⟩
  | cons msg rest => rw [tryPopWorkerToListener_cons hq, fifo_pop_cons, poppedElement]

theorem tryPopListenerToWorker_fifo :
    tryPopListenerToWorker s =
      .ok (poppedElement ((fifo Str n).apply s.mgr.qListenerToWorker .pop).1)
        (s.setListenerToWorker ((fifo Str n).apply s.mgr.qListenerToWorker .pop).2) := by
  cases hq : s.mgr.qListenerToWorker with
  | nil =>
    have hself : s.setListenerToWorker [] = s := by rw [← hq]; rfl
    rw [tryPopListenerToWorker_nil hq, fifo_pop_nil, poppedElement, hself]
    rintro element ⟨⟩
  | cons msg rest => rw [tryPopListenerToWorker_cons hq, fifo_pop_cons, poppedElement]

theorem pushToClient_fifo (h : cfg.queueSize = some n) {id : Int} {c : ClientData}
    (hc : s.sv.getClientRef id = some c) (msg : Str) :
    pushToClient id msg s =
      if ((fifo Str n).apply c.sendQueue (.push msg)).1 = .pushed then
        .ok true { s with sv := s.sv.modifyClient id fun c =>
          { c with sendQueue := c.sendQueue ++ [msg] } }
      else .ok false s := by
  rw [fifo_push h]
  by_cases hr : cfg.hasRoom c.sendQueue = true
  · simp only [pushToClient, Effects.get_bind_run, hc, hr, if_true, Effects.set_bind_run,
      Effects.pure_run]
  · simp [pushToClient, hc, hr]

end Operations

end ChatApp
