import SentryUsb.Library.OperationLog

/-! # Conditional writes of sealed documents

A register holds one sealed document. A client writes on the condition that the register is as it has read it, over a
network that loses and repeats messages; other clients write as they like. Every sealing draws a new nonce.

* **`Exchange`** — the register, the decided operations and the messages in flight;
* **`Exchange.Sound`** — the invariant: an accepted write replaced what it expected, once, and what the register shows of
  a client's own was accepted;
* **`Exchange.Extends`** — what never goes again;
* **`Exchange.Sound.prepare`**, **`Exchange.Sound.deliver`**, … — every operation keeps the invariant. -/

namespace SentryUsb.Library

/-- A sealed document. -/
structure Sealed (δ : Type*) where
  nonce : Nat
  doc : δ
  deriving DecidableEq

/-- A write on a condition, with a tag. -/
structure CondWrite (δ τ : Type*) where
  expected : Option (Sealed δ)
  content : Sealed δ
  tag : τ
  deriving DecidableEq

/-- The register and the network. The last two fields are history: every write that was sealed, and every write that took
effect with what it replaced. -/
structure Exchange (δ τ : Type*) where
  current : Option (Sealed δ)
  log : OperationLog (CondWrite δ τ)
  requests : List (CondWrite δ τ)
  responses : List (CondWrite δ τ × Bool)
  nextNonce : Nat
  made : List (CondWrite δ τ)
  writes : List (CondWrite δ τ × Option (Sealed δ))

namespace Exchange

variable {δ τ : Type*}

/-- A register on which nothing was written yet by this client. -/
def start (current : Option (Sealed δ)) (nextNonce : Nat) : Exchange δ τ :=
  ⟨current, .empty, [], [], nextNonce, [], []⟩

/-- The write of a document. -/
def proposal (x : Exchange δ τ) (expected : Option (Sealed δ)) (doc : δ) (tag : τ) : CondWrite δ τ :=
  ⟨expected, ⟨x.nextNonce, doc⟩, tag⟩

/-- Seal a document. -/
def prepare (x : Exchange δ τ) (expected : Option (Sealed δ)) (doc : δ) (tag : τ) : Exchange δ τ :=
  { x with nextNonce := x.nextNonce + 1, made := x.proposal expected doc tag :: x.made }

/-- Send a write. -/
def post (x : Exchange δ τ) (p : CondWrite δ τ) : Exchange δ τ := { x with requests := p :: x.requests }

/-- A request is lost. -/
def lose (x : Exchange δ τ) (i : Nat) : Exchange δ τ := { x with requests := x.requests.eraseIdx i }

/-- Another client writes, or clears the register. -/
def otherWrite (x : Exchange δ τ) (doc : Option δ) : Exchange δ τ :=
  { x with current := doc.map fun d => ⟨x.nextNonce, d⟩, nextNonce := x.nextNonce + 1 }

variable [DecidableEq δ] [DecidableEq τ]

/-- Whether a write takes effect now. -/
def effective (x : Exchange δ τ) (p : CondWrite δ τ) : Bool := x.log.effective p (decide (x.current = p.expected))

/-- The server handles a request, and its answer arrives or is lost. -/
def deliver (x : Exchange δ τ) (i : Nat) (lost : Bool) : Option (Exchange δ τ) :=
  x.requests[i]?.map fun p =>
    let answer := x.log.answer p (decide (x.current = p.expected))
    { x with
      requests := x.requests.eraseIdx i
      log := answer.1
      responses := if lost then x.responses else (p, answer.2) :: x.responses
      current := if x.effective p then some p.content else x.current
      writes := if x.effective p then (p, x.current) :: x.writes else x.writes }

omit [DecidableEq δ] [DecidableEq τ]

/-! ## Invariant -/

/-- A write that took effect. -/
def Applied (x : Exchange δ τ) (p : CondWrite δ τ) : Prop := p ∈ x.writes.map Prod.fst

/-- A write that was turned down. -/
def Refused (x : Exchange δ τ) (p : CondWrite δ τ) : Prop := x.log.Rejected p

/-- What holds of the register, the decisions and the messages. -/
structure Sound (x : Exchange δ τ) : Prop where
  history : WriteHistory x.log (x.writes.map Prod.fst)
  replaced : ∀ w ∈ x.writes, w.2 = w.1.expected
  responses : ∀ r ∈ x.responses, r ∈ x.log.outcomes
  requests : ∀ p ∈ x.requests, p ∈ x.made
  fresh : ∀ p ∈ x.made, p.content.nonce < x.nextNonce
  distinct : ∀ p ∈ x.made, ∀ q ∈ x.made, p.content.nonce = q.content.nonce → p = q
  currentFresh : ∀ c ∈ x.current, c.nonce < x.nextNonce
  published : ∀ p ∈ x.made, x.current = some p.content → x.Applied p

/-- History is kept. -/
structure Extends (x y : Exchange δ τ) : Prop where
  made : x.made ⊆ y.made
  writes : x.writes ⊆ y.writes
  outcomes : x.log.outcomes ⊆ y.log.outcomes

variable {x y : Exchange δ τ} {p : CondWrite δ τ}

theorem Extends.refl (x : Exchange δ τ) : Extends x x :=
  ⟨List.Subset.refl _, List.Subset.refl _, List.Subset.refl _⟩

theorem Applied.mono (h : x.Applied p) (hxy : Extends x y) : y.Applied p := List.map_subset _ hxy.writes h

theorem Sound.applied_iff (h : Sound x) : x.Applied p ↔ x.log.Applied p := h.history.mem_iff p

theorem sound_start {current : Option (Sealed δ)} {nextNonce : Nat} (h : ∀ c ∈ current, c.nonce < nextNonce) :
    Sound (start current nextNonce : Exchange δ τ) := by
  refine ⟨WriteHistory.empty, ?_, ?_, ?_, ?_, ?_, h, ?_⟩
  all_goals
    intro p hp
    exact absurd hp List.not_mem_nil

/-! ## Operations -/

theorem extends_prepare (x : Exchange δ τ) (expected : Option (Sealed δ)) (doc : δ) (tag : τ) :
    Extends x (x.prepare expected doc tag) :=
  ⟨List.subset_cons_of_subset _ (List.Subset.refl _), List.Subset.refl _, List.Subset.refl _⟩

theorem extends_post (x : Exchange δ τ) (p : CondWrite δ τ) : Extends x (x.post p) :=
  ⟨List.Subset.refl _, List.Subset.refl _, List.Subset.refl _⟩

theorem extends_lose (x : Exchange δ τ) (i : Nat) : Extends x (x.lose i) :=
  ⟨List.Subset.refl _, List.Subset.refl _, List.Subset.refl _⟩

theorem extends_otherWrite (x : Exchange δ τ) (doc : Option δ) : Extends x (x.otherWrite doc) :=
  ⟨List.Subset.refl _, List.Subset.refl _, List.Subset.refl _⟩

/-- **A sealing** draws a new nonce, so no other write and no document in the register is sealed alike. -/
theorem Sound.prepare (h : Sound x) (expected : Option (Sealed δ)) (doc : δ) (tag : τ) :
    Sound (x.prepare expected doc tag) := by
  refine ⟨h.history, h.replaced, h.responses, fun p hp => List.mem_cons_of_mem _ (h.requests p hp), fun p hp => ?_,
    fun p hp q hq heq => ?_, fun c hc => Nat.lt_succ_of_lt (h.currentFresh c hc), fun p hp hcurrent => ?_⟩
  · rcases List.mem_cons.mp hp with rfl | hp
    · exact Nat.lt_succ_self _
    · exact Nat.lt_succ_of_lt (h.fresh p hp)
  · rcases List.mem_cons.mp hp with rfl | hp <;> rcases List.mem_cons.mp hq with rfl | hq
    · rfl
    · exact absurd heq (Nat.ne_of_gt (h.fresh q hq))
    · exact absurd heq (Nat.ne_of_lt (h.fresh p hp))
    · exact h.distinct p hp q hq heq
  · rcases List.mem_cons.mp hp with rfl | hp
    · exact absurd (h.currentFresh _ hcurrent) (Nat.lt_irrefl _)
    · exact h.published p hp hcurrent

/-- A write that was made is sent. -/
theorem Sound.post (h : Sound x) (hp : p ∈ x.made) : Sound (x.post p) :=
  { h with requests := List.forall_mem_cons.mpr ⟨hp, h.requests⟩ }

theorem Sound.lose (h : Sound x) (i : Nat) : Sound (x.lose i) :=
  { h with requests := fun p hp => h.requests p (List.mem_of_mem_eraseIdx hp) }

/-- **Another client** seals with a new nonce too, so what it writes is no write of this client. -/
theorem Sound.otherWrite (h : Sound x) (doc : Option δ) : Sound (x.otherWrite doc) := by
  refine { h with
    fresh := fun p hp => Nat.lt_succ_of_lt (h.fresh p hp)
    currentFresh := fun c hc => ?_
    published := fun p hp hcurrent => ?_ }
  · obtain ⟨d, -, rfl⟩ := Option.map_eq_some_iff.mp hc
    exact Nat.lt_succ_self _
  · obtain ⟨d, -, hd⟩ := Option.map_eq_some_iff.mp hcurrent
    have hnonce := h.fresh p hp
    rw [← hd] at hnonce
    exact absurd hnonce (Nat.lt_irrefl _)

variable [DecidableEq δ] [DecidableEq τ]

theorem extends_deliver {i : Nat} {lost : Bool} (hy : x.deliver i lost = some y) : Extends x y := by
  obtain ⟨p, -, rfl⟩ := Option.map_eq_some_iff.mp hy
  refine ⟨List.Subset.refl _, ?_, fun _ hr => OperationLog.mem_outcomes_answer hr⟩
  show x.writes ⊆ if x.effective p then (p, x.current) :: x.writes else x.writes
  split
  · exact List.subset_cons_of_subset _ (List.Subset.refl _)
  · exact List.Subset.refl _

/-- **The server** accepts a write at most once, and only on what it expects. -/
theorem Sound.deliver (h : Sound x) {i : Nat} {lost : Bool} (hy : x.deliver i lost = some y) : Sound y := by
  have hextends := extends_deliver hy
  obtain ⟨p, hp, rfl⟩ := Option.map_eq_some_iff.mp hy
  have hmade : p ∈ x.made := h.requests p (List.mem_of_getElem? hp)
  have hhistory : WriteHistory (x.log.answer p (decide (x.current = p.expected))).1
      ((if x.effective p then (p, x.current) :: x.writes else x.writes).map Prod.fst) := by
    have hanswer := h.history.answer p (decide (x.current = p.expected))
    unfold effective
    split
    · rename_i heffective
      rw [if_pos heffective] at hanswer
      exact hanswer
    · rename_i heffective
      rw [if_neg heffective] at hanswer
      exact hanswer
  refine ⟨hhistory, fun w hw => ?_, fun r hr => ?_, fun q hq => h.requests q (List.mem_of_mem_eraseIdx hq), h.fresh,
    h.distinct, fun c hc => ?_, fun q hq hcurrent => ?_⟩
  · dsimp only at hw
    split at hw
    · rename_i heffective
      rcases List.mem_cons.mp hw with rfl | hw
      · -- a write takes effect only when the register is as expected
        exact of_decide_eq_true (Bool.and_eq_true_iff.mp heffective).1
      · exact h.replaced w hw
    · exact h.replaced w hw
  · dsimp only at hr
    split at hr
    · exact OperationLog.mem_outcomes_answer (h.responses r hr)
    · rcases List.mem_cons.mp hr with rfl | hr
      · exact OperationLog.answer_mem_outcomes x.log p _
      · exact OperationLog.mem_outcomes_answer (h.responses r hr)
  · dsimp only at hc
    split at hc
    · obtain rfl := Option.some.inj hc
      exact h.fresh p hmade
    · exact h.currentFresh c hc
  · dsimp only at hcurrent
    split at hcurrent
    · rename_i heffective
      -- the nonce says which write it is
      obtain rfl := h.distinct p hmade q hq (congrArg Sealed.nonce (Option.some.inj hcurrent))
      exact (hhistory.mem_iff p).mpr (OperationLog.applied_of_effective heffective)
    · exact (h.published q hq hcurrent).mono hextends

end Exchange

end SentryUsb.Library
