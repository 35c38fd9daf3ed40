import Mathlib.Data.Finmap
import Mathlib.Data.List.Perm.Basic

/-!
# `Harjus.Lib.Reorder`: a receiver that puts messages into order

Each message covers the numbers from `num` up to `next`. A receiver delivers the message with the
number that it expects and expects its `next` number then. Messages with higher numbers wait.

* `Chain`: messages that cover a range of numbers without a hole and without an overlap.
* `Buffer.receive`: what the receiver does with a message, and `Buffer.drain` with those that wait.
* `Buffer.receive_perm`: the messages of a chain are delivered in order and each of them once, in
  whichever order they come.
* `Buffer.receive_recovers`: where later messages wait behind a hole, a chain for all the numbers
  from the hole on is delivered up to those that wait, then those, and the rest of it is dropped.

The module names no program.
-/

set_option autoImplicit false

namespace Harjus.Lib

variable {β : Type*} (num next : β → ℕ)

/-- Messages that cover the numbers from one up to another, in order. -/
inductive Chain : ℕ → ℕ → List β → Prop
  | nil (n : ℕ) : Chain n n []
  | cons {x : β} {last : ℕ} {l : List β} (hlt : num x < next x) (h : Chain (next x) last l) :
      Chain (num x) last (x :: l)

/-- A receiver: the number that it expects, the messages that wait for theirs, and what it has
delivered. -/
structure Buffer (β : Type*) where
  expected : ℕ
  waiting : Finmap fun _ : ℕ => β
  delivered : List β

namespace Buffer

/-- Deliver a message. -/
def deliver (b : Buffer β) (x : β) : Buffer β :=
  { b with expected := next x, delivered := b.delivered ++ [x] }

/-- Take the expected message out of those that wait. -/
def take (b : Buffer β) : Buffer β := { b with waiting := b.waiting.erase b.expected }

/-- Deliver the messages that wait, so many at most, while the expected one is there. -/
def drainFor : ℕ → Buffer β → Buffer β
  | 0, b => b
  | count + 1, b =>
    match b.waiting.lookup b.expected with
    | none => b
    | some x => drainFor count (b.take.deliver next x)

/-- Deliver the messages that wait, while the expected one is there. -/
def drain (b : Buffer β) : Buffer β := drainFor next b.waiting.keys.card b

/-- Receive a message. One with a number below the expected one is dropped. -/
def receive (b : Buffer β) (x : β) : Buffer β :=
  if num x = b.expected then (b.deliver next x).drain next
  else if b.expected < num x then { b with waiting := b.waiting.insert (num x) x }
  else b

/-- The expected message is not among those that wait. -/
def Settled (b : Buffer β) : Prop := b.waiting.lookup b.expected = none

end Buffer

variable {num next}

/-! ### Chains -/

/-- A chain goes on behind its first element. -/
theorem Chain.of_cons {first last : ℕ} {x : β} {l : List β}
    (h : Chain num next first last (x :: l)) : num x = first ∧ Chain num next (next x) last l := by
  cases h with
  | cons hlt htail => exact ⟨rfl, htail⟩

/-- An empty chain ends where it starts. -/
theorem Chain.of_nil {first last : ℕ} (h : Chain num next first last []) : first = last := by
  cases h
  rfl

/-- A chain does not end before it starts. -/
theorem Chain.le {first last : ℕ} {l : List β} (h : Chain num next first last l) :
    first ≤ last := by
  induction h with
  | nil n => exact Nat.le_refl n
  | cons hlt _ ih => exact Nat.le_trans (Nat.le_of_lt hlt) ih

/-- Two chains that meet are one. -/
theorem Chain.append {first middle last : ℕ} {l l' : List β}
    (h : Chain num next first middle l) (h' : Chain num next middle last l') :
    Chain num next first last (l ++ l') := by
  induction h with
  | nil n => exact h'
  | cons hlt _ ih => exact .cons hlt (ih h')

/-- One element is a chain. -/
theorem Chain.singleton {x : β} (hlt : num x < next x) :
    Chain num next (num x) (next x) [x] :=
  .cons hlt (.nil _)

/-- The numbers of a chain are not below its first. -/
theorem Chain.le_num {first last : ℕ} {l : List β} (h : Chain num next first last l) :
    ∀ x ∈ l, first ≤ num x := by
  induction h with
  | nil n => intro x hx; cases hx
  | cons hlt _ ih =>
    intro x hx
    cases List.mem_cons.mp hx with
    | inl heq => rw [heq]
    | inr hx => exact Nat.le_trans (Nat.le_of_lt hlt) (ih x hx)

/-- The numbers of a chain are below its last. -/
theorem Chain.num_lt {first last : ℕ} {l : List β} (h : Chain num next first last l) :
    ∀ x ∈ l, num x < last := by
  induction h with
  | nil n => intro x hx; cases hx
  | cons hlt htail ih =>
    intro x hx
    cases List.mem_cons.mp hx with
    | inl heq => exact heq ▸ Nat.lt_of_lt_of_le hlt htail.le
    | inr hx => exact ih x hx

/-- The numbers of a chain ascend. -/
theorem Chain.ascending {first last : ℕ} {l : List β} (h : Chain num next first last l) :
    l.Pairwise fun x y => num x < num y := by
  induction h with
  | nil n => exact .nil
  | cons hlt htail ih =>
    exact List.pairwise_cons.mpr ⟨fun y hy => Nat.lt_of_lt_of_le hlt (htail.le_num y hy), ih⟩

/-- A chain has nothing twice. -/
theorem Chain.nodup {first last : ℕ} {l : List β} (h : Chain num next first last l) : l.Nodup :=
  h.ascending.imp fun {x y} hlt heq => by
    rw [heq] at hlt
    exact Nat.lt_irrefl _ hlt

/-- In a chain the number determines the message. -/
theorem Chain.num_injective {first last : ℕ} {l : List β} (h : Chain num next first last l)
    {x y : β} (hx : x ∈ l) (hy : y ∈ l) (heq : num x = num y) : x = y := by
  have hnodup : (l.map num).Nodup :=
    List.pairwise_map.mpr (h.ascending.imp fun hlt => Nat.ne_of_lt hlt)
  exact List.inj_on_of_nodup_map hnodup hx hy heq

/-- A chain whose messages have one number each can be entered at any of its numbers. -/
theorem Chain.exists_suffix {first last : ℕ} {l : List β} (h : Chain num next first last l)
    (hunit : ∀ x ∈ l, next x = num x + 1) {n : ℕ} (hle : first ≤ n) (hlast : n ≤ last) :
    ∃ rest, rest <:+ l ∧ Chain num next n last rest := by
  induction h with
  | nil m =>
    rw [Nat.le_antisymm hlast hle]
    exact ⟨[], List.suffix_refl _, .nil m⟩
  | @cons x last l hlt htail ih =>
    by_cases heq : num x = n
    · exact ⟨x :: l, List.suffix_refl _, heq ▸ .cons hlt htail⟩
    · have hnext : next x = num x + 1 := hunit x List.mem_cons_self
      obtain ⟨rest, hrest, hchain⟩ :=
        ih (fun y hy => hunit y (List.mem_cons_of_mem _ hy)) (by omega) hlast
      exact ⟨rest, hrest.trans (List.suffix_cons x l), hchain⟩

/-! ### Draining -/

namespace Buffer

/-- Of the messages of a chain up to `last`, the first are delivered after `before`, and of the
others those wait that have been `received`. -/
structure InOrder (num next : β → ℕ) (l : List β) (last : ℕ) (before received : List β)
    (b : Buffer β) (done rest : List β) : Prop where
  split : l = done ++ rest
  chain : Chain num next b.expected last rest
  delivered : b.delivered = before ++ done
  known : ∀ x ∈ done, x ∈ received
  waiting : ∀ n x, b.waiting.lookup n = some x ↔ x ∈ rest ∧ x ∈ received ∧ num x = n

variable {l before received : List β} {last : ℕ} {b : Buffer β}

/-- Nothing has been received. -/
theorem InOrder.start {first : ℕ} (h : Chain num next first last l) (before : List β) :
    InOrder num next l last before [] (⟨first, ∅, before⟩ : Buffer β) [] l := by
  refine ⟨rfl, h, (List.append_nil _).symm, fun x hx => absurd hx List.not_mem_nil,
    fun n x => ⟨fun heq => ?_, fun hx => absurd hx.2.1 List.not_mem_nil⟩⟩
  cases heq

/-- A message that has not been received is not delivered either. -/
theorem InOrder.mem_rest {done rest : List β} {x : β}
    (h : b.InOrder num next l last before received done rest) (hx : x ∈ l)
    (hfresh : x ∉ received) : x ∈ rest := by
  rw [h.split] at hx
  cases List.mem_append.mp hx with
  | inl hdone => exact absurd (h.known x hdone) hfresh
  | inr hrest => exact hrest

/-- What is still to come is not below the expected number. -/
theorem InOrder.expected_le {done rest : List β} {x : β}
    (h : b.InOrder num next l last before received done rest) (hx : x ∈ l)
    (hfresh : x ∉ received) : b.expected ≤ num x :=
  h.chain.le_num x (h.mem_rest hx hfresh)

/-- The message that is expected is the first that is not delivered. -/
theorem InOrder.lookup_expected {done rest : List β}
    (h : b.InOrder num next l last before received done rest) {x : β}
    (hx : b.waiting.lookup b.expected = some x) : ∃ rest', rest = x :: rest' := by
  obtain ⟨hmem, -, hnum⟩ := (h.waiting _ _).mp hx
  cases hrest : rest with
  | nil =>
    rw [hrest] at hmem
    cases hmem
  | cons y rest' =>
    have hchain := h.chain
    rw [hrest] at hchain hmem
    exact ⟨rest', by
      rw [hchain.num_injective hmem List.mem_cons_self (hnum.trans hchain.of_cons.1.symm)]⟩

/-- The buffer after the expected message has been taken and delivered. -/
theorem InOrder.take_deliver {done rest : List β} {x : β}
    (h : b.InOrder num next l last before received done (x :: rest))
    (hx : b.waiting.lookup b.expected = some x) :
    (b.take.deliver next x).InOrder num next l last before received (done ++ [x]) rest := by
  have hreceived : x ∈ received := ((h.waiting _ _).mp hx).2.1
  have hchain := h.chain
  have hnum : num x = b.expected := ((h.waiting _ _).mp hx).2.2
  refine ⟨by simp [h.split], hchain.of_cons.2, ?_, fun y hy => ?_, fun n y => ?_⟩
  · show b.delivered ++ [x] = before ++ (done ++ [x])
    rw [h.delivered, List.append_assoc]
  · cases List.mem_append.mp hy with
    | inl hy => exact h.known y hy
    | inr hy =>
      rw [List.mem_singleton.mp hy]
      exact hreceived
  · show (b.waiting.erase b.expected).lookup n = some y ↔ _
    -- The numbers that wait are above the one that is taken.
    have hne : ∀ y ∈ rest, num y ≠ b.expected := by
      intro y hy heq
      have := (List.pairwise_cons.mp hchain.ascending).1 y hy
      omega
    by_cases hn : n = b.expected
    · subst hn
      rw [Finmap.lookup_erase]
      constructor
      · intro heq
        cases heq
      · rintro ⟨hy, -, heq⟩
        exact absurd heq (hne y hy)
    · rw [Finmap.lookup_erase_ne hn, h.waiting]
      constructor
      · rintro ⟨hy, hr, heq⟩
        cases List.mem_cons.mp hy with
        | inl hyx =>
          rw [hyx, hnum] at heq
          exact absurd heq.symm hn
        | inr hy => exact ⟨hy, hr, heq⟩
      · rintro ⟨hy, hr, heq⟩
        exact ⟨List.mem_cons_of_mem _ hy, hr, heq⟩

/-- Where the expected message is taken, fewer messages wait. -/
theorem card_take {x : β} (hx : b.waiting.lookup b.expected = some x) :
    b.take.waiting.keys.card + 1 = b.waiting.keys.card := by
  have hmem : b.expected ∈ b.waiting.keys :=
    Finmap.mem_keys.mpr (Finmap.mem_of_lookup_eq_some hx)
  show (b.waiting.erase b.expected).keys.card + 1 = _
  rw [Finmap.keys_erase, Finset.card_erase_add_one hmem]

/-- With a bound that is large enough, draining stops only where the expected message does not
wait. -/
theorem drainFor_settled (next : β → ℕ) (count : ℕ) :
    ∀ b : Buffer β, b.waiting.keys.card ≤ count → (drainFor next count b).Settled := by
  induction count with
  | zero =>
    intro b hcard
    show b.waiting.lookup b.expected = none
    cases hx : b.waiting.lookup b.expected with
    | none => rfl
    | some x =>
      have := card_take hx
      omega
  | succ count ih =>
    intro b hcard
    rw [drainFor]
    cases hx : b.waiting.lookup b.expected with
    | none => exact hx
    | some x =>
      have := card_take hx
      exact ih _ (show b.take.waiting.keys.card ≤ count by omega)

/-- A settled buffer has nothing to drain. -/
theorem drainFor_of_settled (h : b.Settled) (count : ℕ) : drainFor next count b = b := by
  cases count with
  | zero => rfl
  | succ count =>
    have h' : b.waiting.lookup b.expected = none := h
    rw [drainFor, h']

/-- A larger bound makes no difference. -/
theorem drainFor_eq_drain (next : β → ℕ) {count : ℕ} (hcard : b.waiting.keys.card ≤ count) :
    drainFor next count b = b.drain next := by
  have hstep : ∀ (count : ℕ) (b : Buffer β), b.waiting.keys.card ≤ count →
      drainFor next (count + 1) b = drainFor next count b := by
    intro count
    induction count with
    | zero =>
      intro b hcard
      exact drainFor_of_settled (drainFor_settled next 0 b hcard) 1
    | succ count ih =>
      intro b hcard
      rw [drainFor, drainFor]
      cases hx : b.waiting.lookup b.expected with
      | none => rfl
      | some x =>
        have := card_take hx
        exact ih _ (show b.take.waiting.keys.card ≤ count by omega)
  induction count, hcard using Nat.le_induction with
  | base => rfl
  | succ count hle ih => rw [hstep count b hle, ih]

/-- Draining a drained buffer changes nothing. -/
theorem drain_drain (next : β → ℕ) (b : Buffer β) : (b.drain next).drain next = b.drain next :=
  drainFor_of_settled (drainFor_settled next _ b (Nat.le_refl _)) _

/-- After it has been drained, a buffer does not have the expected number. -/
theorem drain_settled (next : β → ℕ) (b : Buffer β) : (b.drain next).Settled :=
  drainFor_settled next _ b (Nat.le_refl _)

/-- A buffer that does not have the expected number is drained already. -/
theorem drain_of_settled (h : b.Settled) : b.drain next = b := drainFor_of_settled h _

/-- Draining takes and delivers the expected message first. -/
theorem drain_of_lookup {x : β} (hx : b.waiting.lookup b.expected = some x) :
    b.drain next = (b.take.deliver next x).drain next := by
  have hcard := card_take hx
  rw [← drainFor_eq_drain next (Nat.le_succ b.waiting.keys.card), drainFor, hx]
  exact drainFor_eq_drain next (show b.take.waiting.keys.card ≤ _ by omega)

/-- Draining puts nothing among the messages that wait. -/
theorem lookup_drain {n : ℕ} {x : β} (h : (b.drain next).waiting.lookup n = some x) :
    b.waiting.lookup n = some x := by
  have hfor : ∀ (count : ℕ) (b : Buffer β),
      (drainFor next count b).waiting.lookup n = some x → b.waiting.lookup n = some x := by
    intro count
    induction count with
    | zero => intro b h; exact h
    | succ count ih =>
      intro b h
      rw [drainFor] at h
      cases hx : b.waiting.lookup b.expected with
      | none =>
        rw [hx] at h
        exact h
      | some y =>
        rw [hx] at h
        have h' : (b.waiting.erase b.expected).lookup n = some x := ih _ h
        by_cases hn : n = b.expected
        · rw [hn, Finmap.lookup_erase] at h'
          cases h'
        · rwa [Finmap.lookup_erase_ne hn] at h'
  exact hfor _ b h

/-- Taking some elements keeps the order. Induction on how many may be taken. -/
theorem InOrder.drainFor (count : ℕ) : ∀ {b : Buffer β} {done rest : List β},
    b.InOrder num next l last before received done rest →
    ∃ done' rest', (Buffer.drainFor next count b).InOrder num next l last before received
      done' rest' := by
  induction count with
  | zero => intro b done rest h; exact ⟨done, rest, h⟩
  | succ count ih =>
    intro b done rest h
    rw [Buffer.drainFor]
    cases hx : b.waiting.lookup b.expected with
    | none => exact ⟨done, rest, h⟩
    | some x =>
      obtain ⟨rest', rfl⟩ := h.lookup_expected hx
      exact ih (h.take_deliver hx)

/-! ### Receiving -/

/-- A message with a number below the expected one is dropped. -/
theorem receive_of_lt {x : β} (h : num x < b.expected) : b.receive num next x = b := by
  rw [receive, if_neg (Nat.ne_of_lt h), if_neg (Nat.lt_asymm h)]

/-- A message with a higher number waits. -/
theorem receive_of_gt {x : β} (h : b.expected < num x) :
    b.receive num next x = { b with waiting := b.waiting.insert (num x) x } := by
  rw [receive, if_neg (Nat.ne_of_gt h), if_pos h]

/-- A buffer does not have the expected number after it has received something. -/
theorem Settled.receive (h : b.Settled) (x : β) : (b.receive num next x).Settled := by
  rcases Nat.lt_trichotomy (num x) b.expected with hlt | heq | hgt
  · rw [receive_of_lt hlt]
    exact h
  · rw [Buffer.receive, if_pos heq]
    exact drain_settled next _
  · rw [receive_of_gt hgt]
    show (b.waiting.insert (num x) x).lookup b.expected = none
    rw [Finmap.lookup_insert_of_ne _ (Nat.ne_of_lt hgt)]
    exact h

/-- A step of the receiver: a message of the chain that has not been received before. -/
theorem InOrder.receive {done rest : List β} {x : β} (hl : l.Nodup)
    (h : b.InOrder num next l last before received done rest) (hsettled : b.Settled)
    (hx : x ∈ l) (hfresh : x ∉ received) :
    ∃ done' rest', (b.receive num next x).InOrder num next l last before (x :: received)
      done' rest' ∧ (b.receive num next x).Settled := by
  have hrest : x ∈ rest := h.mem_rest hx hfresh
  by_cases heq : num x = b.expected
  · -- The expected message is the first of the others.
    obtain ⟨rest', rfl⟩ : ∃ rest', rest = x :: rest' := by
      cases hrest' : rest with
      | nil =>
        rw [hrest'] at hrest
        cases hrest
      | cons y rest' =>
        have hchain := h.chain
        rw [hrest'] at hchain hrest
        exact ⟨rest', by
          rw [hchain.num_injective hrest List.mem_cons_self (heq.trans hchain.of_cons.1.symm)]⟩
    have hnodup : x ∉ rest' := by
      have hcons : (x :: rest').Nodup := (List.nodup_append.mp (h.split ▸ hl)).2.1
      exact (List.nodup_cons.mp hcons).1
    have hdelivered : (b.deliver next x).InOrder num next l last before (x :: received)
        (done ++ [x]) rest' := by
      refine ⟨by simp [h.split], h.chain.of_cons.2, ?_, fun y hy => ?_, fun n y => ?_⟩
      · show b.delivered ++ [x] = before ++ (done ++ [x])
        rw [h.delivered, List.append_assoc]
      · cases List.mem_append.mp hy with
        | inl hy => exact List.mem_cons_of_mem _ (h.known y hy)
        | inr hy =>
          rw [List.mem_singleton.mp hy]
          exact List.mem_cons_self
      · show b.waiting.lookup n = some y ↔ _
        rw [h.waiting]
        constructor
        · rintro ⟨hy, hr, hn⟩
          cases List.mem_cons.mp hy with
          | inl hyx =>
            rw [hyx] at hr
            exact absurd hr hfresh
          | inr hy => exact ⟨hy, List.mem_cons_of_mem _ hr, hn⟩
        · rintro ⟨hy, hr, hn⟩
          cases List.mem_cons.mp hr with
          | inl hyx =>
            rw [hyx] at hy
            exact absurd hy hnodup
          | inr hr => exact ⟨List.mem_cons_of_mem _ hy, hr, hn⟩
    rw [Buffer.receive, if_pos heq]
    -- What was waiting behind it follows.
    obtain ⟨done', rest'', h'⟩ := hdelivered.drainFor (b.deliver next x).waiting.keys.card
    exact ⟨done', rest'', h', drain_settled next _⟩
  · -- A later message waits, and what is expected stays absent from what waits.
    have hlt : b.expected < num x := Nat.lt_of_le_of_ne (h.chain.le_num x hrest) (Ne.symm heq)
    rw [Buffer.receive, if_neg heq, if_pos hlt]
    refine ⟨done, rest, ⟨h.split, h.chain, h.delivered,
      fun y hy => List.mem_cons_of_mem _ (h.known y hy), fun n y => ?_⟩, ?_⟩
    · show (b.waiting.insert (num x) x).lookup n = some y ↔ _
      by_cases hn : n = num x
      · subst hn
        rw [Finmap.lookup_insert]
        constructor
        · intro hxy
          cases hxy
          exact ⟨hrest, List.mem_cons_self, rfl⟩
        · rintro ⟨hy, -, hnum⟩
          rw [h.chain.num_injective hrest hy hnum.symm]
      · rw [Finmap.lookup_insert_of_ne _ hn, h.waiting]
        constructor
        · rintro ⟨hy, hr, hnum⟩
          exact ⟨hy, List.mem_cons_of_mem _ hr, hnum⟩
        · rintro ⟨hy, hr, hnum⟩
          cases List.mem_cons.mp hr with
          | inl hyx =>
            rw [hyx] at hnum
            exact absurd hnum.symm hn
          | inr hr => exact ⟨hy, hr, hnum⟩
    · show (b.waiting.insert (num x) x).lookup b.expected = none
      rw [Finmap.lookup_insert_of_ne _ (Nat.ne_of_lt hlt)]
      exact hsettled

/-- A run of the receiver. -/
theorem InOrder.receiveAll (hl : l.Nodup) (arrivals : List β) :
    ∀ {b : Buffer β} {done rest received : List β},
      b.InOrder num next l last before received done rest → b.Settled →
      (∀ x ∈ arrivals, x ∈ l) → arrivals.Nodup → (∀ x ∈ arrivals, x ∉ received) →
      ∃ done' rest', (arrivals.foldl (Buffer.receive num next) b).InOrder num next l last before
        (arrivals.reverse ++ received) done' rest' ∧
        (arrivals.foldl (Buffer.receive num next) b).Settled := by
  induction arrivals with
  | nil => intro b done rest received h hsettled _ _ _; exact ⟨done, rest, h, hsettled⟩
  | cons x arrivals ih =>
    intro b done rest received h hsettled hmem hnodup hfresh
    obtain ⟨hx, hnodup'⟩ := List.nodup_cons.mp hnodup
    obtain ⟨done', rest', h', hsettled'⟩ := h.receive hl hsettled (hmem x List.mem_cons_self)
      (hfresh x List.mem_cons_self)
    have hall := ih h' hsettled' (fun y hy => hmem y (List.mem_cons_of_mem _ hy)) hnodup'
      fun y hy hr => by
        cases List.mem_cons.mp hr with
        | inl hyx => exact hx (hyx ▸ hy)
        | inr hr => exact hfresh y (List.mem_cons_of_mem _ hy) hr
    rwa [List.reverse_cons, List.append_assoc]

/-- Whichever order the messages of a chain come in, they are delivered in order and each of them
once, and none of them waits in the end. -/
theorem receive_perm {first last : ℕ} {l arrivals : List β} (h : Chain num next first last l)
    (hperm : arrivals.Perm l) (before : List β) :
    arrivals.foldl (receive num next) ⟨first, ∅, before⟩ = ⟨last, ∅, before ++ l⟩ := by
  obtain ⟨done, rest, hend, hsettled⟩ := (InOrder.start h before).receiveAll h.nodup arrivals rfl
    (fun x hx => hperm.mem_iff.mp hx) (hperm.nodup_iff.mpr h.nodup) fun x _ => List.not_mem_nil
  generalize arrivals.foldl (receive num next) ⟨first, ∅, before⟩ = b at hend hsettled ⊢
  -- A message that is not delivered would wait, and the first of them is expected.
  have hrest : rest = [] := by
    cases hrest : rest with
    | nil => rfl
    | cons x rest' =>
      have hchain := hend.chain
      rw [hrest] at hchain
      have hx : num x = b.expected := hchain.of_cons.1
      have hmem : x ∈ l := by rw [hend.split, hrest]; simp
      have hlookup := (hend.waiting b.expected x).mpr
        ⟨by rw [hrest]; exact List.mem_cons_self, by simp [hperm.mem_iff.mpr hmem], hx⟩
      rw [hsettled] at hlookup
      cases hlookup
  subst hrest
  obtain ⟨expected, waiting, delivered⟩ := b
  have hexpected : expected = last := hend.chain.of_nil
  have hwaiting : waiting = ∅ := by
    refine Finmap.ext_lookup fun n => ?_
    rw [Finmap.lookup_empty]
    cases hx : waiting.lookup n with
    | none => rfl
    | some x => exact absurd ((hend.waiting n x).mp hx).1 List.not_mem_nil
  have hdelivered : delivered = before ++ l := by
    rw [hend.split, List.append_nil]
    exact hend.delivered
  rw [hexpected, hwaiting, hdelivered]

/-! ### A hole -/

/-- The messages that wait are the `held` ones, under their numbers. -/
def Holds (num : β → ℕ) (b : Buffer β) (held : List β) : Prop :=
  ∀ n x, b.waiting.lookup n = some x ↔ x ∈ held ∧ num x = n

/-- A held element waits under its number. -/
theorem Holds.lookup {held : List β} (h : b.Holds num held) {x : β} (hx : x ∈ held) :
    b.waiting.lookup (num x) = some x :=
  (h _ x).mpr ⟨hx, rfl⟩

/-- Nothing waits under the number of no held element. -/
theorem Holds.lookup_eq_none {held : List β} (h : b.Holds num held) {n : ℕ}
    (hn : ∀ x ∈ held, num x ≠ n) : b.waiting.lookup n = none := by
  cases hx : b.waiting.lookup n with
  | none => rfl
  | some x =>
    obtain ⟨hmem, hnum⟩ := (h n x).mp hx
    exact absurd hnum (hn x hmem)

/-- Another message with a number of its own waits. -/
theorem Holds.insert {held : List β} (h : b.Holds num held) {x : β}
    (hx : ∀ y ∈ held, num y ≠ num x) :
    Holds num { b with waiting := b.waiting.insert (num x) x } (held ++ [x]) := by
  intro n y
  show (b.waiting.insert (num x) x).lookup n = some y ↔ _
  rw [List.mem_append, List.mem_singleton]
  by_cases hn : n = num x
  · subst hn
    rw [Finmap.lookup_insert]
    constructor
    · intro hxy
      cases hxy
      exact ⟨Or.inr rfl, rfl⟩
    · rintro ⟨hy | hy, hnum⟩
      · exact absurd hnum (hx y hy)
      · rw [hy]
  · rw [Finmap.lookup_insert_of_ne _ hn, h]
    constructor
    · rintro ⟨hy, hnum⟩
      exact ⟨Or.inl hy, hnum⟩
    · rintro ⟨hy | hy, hnum⟩
      · exact ⟨hy, hnum⟩
      · exact absurd (hy ▸ hnum).symm hn

/-- Draining delivers a chain of messages that wait. -/
theorem drain_chain {first last : ℕ} {l : List β} (h : Chain num next first last l) :
    ∀ {b : Buffer β}, b.expected = first →
      (∀ x ∈ l, b.waiting.lookup (num x) = some x) → b.waiting.lookup last = none →
      (b.drain next).expected = last ∧ (b.drain next).delivered = b.delivered ++ l := by
  induction h with
  | nil n =>
    intro b hb _ hlast
    have hsettled : b.Settled := by
      rw [Settled, hb]
      exact hlast
    rw [drain_of_settled hsettled, List.append_nil]
    exact ⟨hb, rfl⟩
  | @cons x last l hlt htail ih =>
    intro b hb hwaiting hlast
    have hx : b.waiting.lookup b.expected = some x := by
      rw [hb]
      exact hwaiting x List.mem_cons_self
    have hkeep : ∀ n, num x < n → (b.waiting.erase b.expected).lookup n = b.waiting.lookup n :=
      fun n hn => Finmap.lookup_erase_ne (by omega)
    obtain ⟨hexpected, hdelivered⟩ := ih (b := b.take.deliver next x) rfl
      (fun y hy => (hkeep _ (Nat.lt_of_lt_of_le hlt (htail.le_num y hy))).trans
        (hwaiting y (List.mem_cons_of_mem _ hy)))
      ((hkeep _ (Nat.lt_of_lt_of_le hlt htail.le)).trans hlast)
    rw [drain_of_lookup hx, hdelivered]
    exact ⟨hexpected, List.append_assoc _ _ _⟩

/-- Messages with ascending numbers come when a lower number is expected, and all of them wait. -/
theorem receive_held (next : β → ℕ) (held : List β) :
    ∀ {received : List β} {b : Buffer β}, b.Holds num received →
    (∀ x ∈ held, b.expected < num x) → (received ++ held).Pairwise (num · < num ·) →
    (held.foldl (receive num next) b).expected = b.expected ∧
      (held.foldl (receive num next) b).delivered = b.delivered ∧
      (held.foldl (receive num next) b).Holds num (received ++ held) := by
  induction held with
  | nil =>
    intro received b hb _ _
    rw [List.append_nil]
    exact ⟨rfl, rfl, hb⟩
  | cons x held ih =>
    intro received b hb hlt hascending
    rw [List.foldl_cons, receive_of_gt (hlt x List.mem_cons_self)]
    have hreceived : ∀ y ∈ received, num y ≠ num x := fun y hy =>
      Nat.ne_of_lt ((List.pairwise_append.mp hascending).2.2 y hy x List.mem_cons_self)
    have hconcat : received ++ x :: held = received ++ [x] ++ held := by simp
    rw [hconcat] at hascending ⊢
    exact ih (hb.insert hreceived) (fun y hy => hlt y (List.mem_cons_of_mem _ hy)) hascending

/-- Nothing waits. -/
theorem holds_nil (h : b.waiting = ∅) : b.Holds num [] := by
  intro n x
  rw [h, Finmap.lookup_empty]
  constructor
  · intro hx
    cases hx
  · rintro ⟨hx, -⟩
    cases hx

/-- The messages of a chain that covers what is missing and what waits come in order. -/
theorem receive_recovers {first middle last : ℕ} {l held : List β}
    (h : Chain num next first last l) (hheld : Chain num next middle last held)
    (hunit : ∀ x ∈ held, next x = num x + 1) :
    ∀ {b : Buffer β}, b.expected = first → first < middle → b.Holds num held →
      ∃ done rest, done <+: l ∧ rest <:+ held ∧ Chain num next first last (done ++ rest) ∧
        (l.foldl (receive num next) b).expected = last ∧
        (l.foldl (receive num next) b).delivered = b.delivered ++ (done ++ rest) ∧
        ∀ n x, (l.foldl (receive num next) b).waiting.lookup n = some x → x ∈ held ∧ num x = n := by
  induction h with
  | nil n =>
    intro b _ hlt _
    exact absurd hheld.le (Nat.not_le.mpr hlt)
  | @cons x last l hlt htail ih =>
    intro b hb hmiddle hholds
    have hreceive : b.receive num next x = (b.deliver next x).drain next := by
      rw [receive, if_pos hb.symm]
    rw [List.foldl_cons, hreceive]
    by_cases hnext : next x < middle
    · -- Nothing waits for the next number yet.
      have hsettled : (b.deliver next x).Settled := by
        refine hholds.lookup_eq_none fun y hy heq => ?_
        have hnum : num y = next x := heq
        exact Nat.not_le.mpr hnext (hnum ▸ hheld.le_num y hy)
      rw [drain_of_settled hsettled]
      obtain ⟨done, rest, hdone, hrest, hchain, hexpected, hdelivered, hwaiting⟩ :=
        ih hheld (b := b.deliver next x) rfl hnext hholds
      refine ⟨x :: done, rest, List.cons_prefix_cons.mpr ⟨rfl, hdone⟩, hrest, .cons hlt hchain,
        hexpected, ?_, hwaiting⟩
      rw [hdelivered]
      exact List.append_assoc b.delivered [x] (done ++ rest)
    · -- What waits is delivered from the next number on, and the other messages are too late.
      obtain ⟨rest, hrest, hchain⟩ :=
        hheld.exists_suffix hunit (Nat.not_lt.mp hnext) htail.le
      have hlast : ∀ y ∈ held, num y ≠ last :=
        fun y hy => Nat.ne_of_lt (hheld.num_lt y hy)
      obtain ⟨hexpected, hdelivered⟩ := drain_chain hchain (b := b.deliver next x) rfl
        (fun y hy => hholds.lookup (hrest.subset hy)) (hholds.lookup_eq_none hlast)
      have hdropped : ∀ (late : List β) (c : Buffer β), (∀ y ∈ late, num y < c.expected) →
          late.foldl (receive num next) c = c := by
        intro late
        induction late with
        | nil => intro c _; rfl
        | cons y late ih =>
          intro c hlate
          rw [List.foldl_cons, receive_of_lt (hlate y List.mem_cons_self)]
          exact ih c fun z hz => hlate z (List.mem_cons_of_mem _ hz)
      rw [hdropped l _ fun y hy => hexpected.symm ▸ htail.num_lt y hy]
      refine ⟨[x], rest, by simp, hrest, .cons hlt hchain, hexpected, ?_, fun n y hy => ?_⟩
      · rw [hdelivered]
        exact List.append_assoc b.delivered [x] rest
      · have hlookup : (b.deliver next x).waiting.lookup n = some y := lookup_drain hy
        exact (hholds n y).mp hlookup

end Buffer

end Harjus.Lib
