import Mathlib

/-! # A channel that keeps order and may lose

Messages arrive in the order in which they are sent, or not at all.

* **`Channel`** — what has arrived and what is on its way; **`Channel.send`**, **`Channel.arrive`**, **`Channel.lose`**;
* **`Ordered`** — a relation that every message has to every later one, and the rules for it;
* **`Latest`** — nothing was sent after a message: once it has arrived, the channel is empty, and it was the last to
  arrive. -/

namespace SentryUsb.Library

/-- The messages that have arrived and those on their way, each in the order in which they were sent. -/
structure Channel (μ : Type*) where
  arrived : List μ
  inFlight : List μ

namespace Channel

variable {μ : Type*} {R : μ → μ → Prop} {c d : Channel μ} {m : μ}

/-- A channel without messages. -/
def empty : Channel μ := ⟨[], []⟩

/-- The messages that are not lost, in the order in which they were sent. -/
def messages (c : Channel μ) : List μ := c.arrived ++ c.inFlight

/-- A message is sent. -/
def send (c : Channel μ) (m : μ) : Channel μ := { c with inFlight := c.inFlight ++ [m] }

/-- The first message on its way arrives. -/
def arrive (c : Channel μ) : Option (Channel μ) :=
  match c.inFlight with
  | [] => none
  | m :: ms => some ⟨c.arrived ++ [m], ms⟩

/-- A message on its way is lost. -/
def lose (c : Channel μ) (i : Nat) : Channel μ := { c with inFlight := c.inFlight.eraseIdx i }

@[simp] theorem messages_send : (c.send m).messages = c.messages ++ [m] := (List.append_assoc _ _ _).symm

/-- Arriving changes nothing about what was sent, and adds to what has arrived. -/
theorem of_arrive (h : c.arrive = some d) : d.messages = c.messages ∧ ∃ m, d.arrived = c.arrived ++ [m] := by
  unfold arrive at h
  split at h
  · exact absurd h (by simp)
  · rename_i m ms hflight
    obtain rfl := Option.some.inj h
    unfold messages
    rw [hflight]
    exact ⟨List.append_assoc _ _ _, m, rfl⟩

theorem messages_lose (i : Nat) : (c.lose i).messages.Sublist c.messages :=
  (List.Sublist.refl _).append (List.eraseIdx_sublist _ _)

theorem mem_messages_of_mem_arrived (h : m ∈ c.arrived) : m ∈ c.messages := List.mem_append_left _ h

/-! ## Relations along the channel -/

/-- Every message has the relation to every later one. -/
def Ordered (R : μ → μ → Prop) (c : Channel μ) : Prop := c.messages.Pairwise R

theorem ordered_empty : Ordered R empty := List.Pairwise.nil

/-- **Sending** keeps an order that all messages have to the new one. -/
theorem Ordered.send (h : Ordered R c) (hm : ∀ a ∈ c.messages, R a m) : Ordered R (c.send m) := by
  unfold Ordered
  rw [messages_send]
  refine List.pairwise_append.mpr ⟨h, List.pairwise_singleton _ _, fun a ha b hb => ?_⟩
  rw [List.mem_singleton.mp hb]
  exact hm a ha

/-- **Arriving** keeps every order, -/
theorem Ordered.arrive (h : Ordered R c) (harrive : c.arrive = some d) : Ordered R d := by
  unfold Ordered
  rw [(of_arrive harrive).1]
  exact h

/-- and so does **losing**. -/
theorem Ordered.lose (h : Ordered R c) (i : Nat) : Ordered R (c.lose i) := List.Pairwise.sublist (messages_lose i) h

/-- What has arrived is in order. -/
theorem Ordered.arrived (h : Ordered R c) : c.arrived.Pairwise R := (List.pairwise_append.mp h).1

/-! ## The latest message -/

/-- Nothing that was sent after the message is left. -/
abbrev Latest (m : μ) (c : Channel μ) : Prop := Ordered (fun a _ => a ≠ m) c

/-- A message is the latest when it is sent, if it was not sent before. -/
theorem latest_send (h : m ∉ c.messages) : Latest m (c.send m) := by
  unfold Latest Ordered
  rw [messages_send]
  refine List.pairwise_append.mpr ⟨?_, List.pairwise_singleton _ _, fun a ha b _ heq => h (heq ▸ ha)⟩
  exact List.Pairwise.imp_of_mem (fun ha _ _ heq => h (heq ▸ ha)) (List.pairwise_of_forall (fun _ _ => trivial))

/-- Once the latest message has arrived, nothing is on its way, -/
theorem Latest.inFlight_eq_nil (h : Latest m c) (hm : m ∈ c.arrived) : c.inFlight = [] :=
  List.eq_nil_iff_forall_not_mem.mpr fun b hb => (List.pairwise_append.mp h).2.2 m hm b hb rfl

/-- and nothing has arrived after it. -/
theorem Latest.eq_nil_of_append (h : Latest m c) {before after : List μ} (harrived : c.arrived = before ++ after)
    (hm : m ∈ before) : after = [] := by
  have hpairs := h.arrived
  rw [harrived] at hpairs
  exact List.eq_nil_iff_forall_not_mem.mpr fun b hb => (List.pairwise_append.mp hpairs).2.2 m hm b hb rfl

end Channel

end SentryUsb.Library
