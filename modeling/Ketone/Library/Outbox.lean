import Mathlib.Logic.Function.Iterate

/-! A device that takes words into a buffer and sends them on in its own time, and a writer that
waits until the buffer is empty. -/

namespace Ketone.Library.Outbox

/-- The words that have been sent, and those that wait for it. -/
structure Sender (α : Type) where
  sent : List α
  waiting : List α

namespace Sender
variable {α : Type}

def stream (sender : Sender α) : List α := sender.sent ++ sender.waiting

def drain (sender : Sender α) : Sender α :=
  match sender.waiting with
  | [] => sender
  | word :: rest => ⟨sender.sent ++ [word], rest⟩

/-- A word for which the buffer has no room is lost. -/
def put (room : Nat) (sender : Sender α) (word : α) : Sender α :=
  if sender.waiting.length < room then { sender with waiting := sender.waiting ++ [word] } else sender

def clear (sender : Sender α) : Sender α := { sender with waiting := [] }

theorem stream_drain (sender : Sender α) : sender.drain.stream = sender.stream := by
  obtain ⟨sent, waiting⟩ := sender
  cases waiting with
  | nil => rfl
  | cons word rest => simp [drain, stream]

theorem waiting_drain {sender : Sender α} (empty : sender.waiting = []) : sender.drain.waiting = [] := by
  obtain ⟨sent, waiting⟩ := sender
  subst empty
  rfl

theorem stream_put {room : Nat} {sender : Sender α} (roomy : 0 < room) (empty : sender.waiting = []) (word : α) :
    (sender.put room word).stream = sender.stream ++ [word] := by
  have fits : sender.waiting.length < room := by
    rw [empty]
    exact roomy
  unfold put
  rw [if_pos fits]
  simp [stream]

theorem drained (sender : Sender α) : drain^[sender.waiting.length] sender = ⟨sender.stream, []⟩ := by
  obtain ⟨sent, waiting⟩ := sender
  induction waiting generalizing sent with
  | nil => simp [stream]
  | cons word rest ih =>
    calc
      _ = drain^[rest.length] ⟨sent ++ [word], rest⟩ := Function.iterate_succ_apply ..
      _ = ⟨(sent ++ [word]) ++ rest, []⟩ := ih (sent ++ [word])
      _ = _ := by simp [stream]

end Sender

end Ketone.Library.Outbox
