import Acromegaly.Found.Machine

/-!
# A one-slot publisher

Producers offer values; a consumer takes them one at a time from a single slot, writes each to a
durable store, shows it to a peer and only then clears the slot. An offer that finds the slot full
is dropped. A peer that attaches is shown the slot at once, whatever the consumer is doing. Nothing
here is about the firmware: `α` is any type of values.

* `Publisher`, `Publisher.step`: the states and the steps, with the history of what was offered,
  accepted, stored and shown.
* `Consistent`: the invariant, one field for what holds before and after each of the consumer's
  two effects.
* `slot_step_of_full`: a full slot does not change.
* `Consistent.stored_of_empty`, `Consistent.shown_of_empty`: with an empty slot, the store and an
  attached peer have what the slot last held.
* `Consistent.stores_prefix`, `Consistent.shows_prefix`: what has been stored and what has been
  shown are both initial segments of what was accepted, in the order in which it was offered.
* `published_in_time`, `cleared_within`: how many steps of the consumer this takes, whatever else
  happens in between.
* `accepted_of_full`: what is in a full slot comes after the publications that are complete.
* `offers`: several offers at once; of equal ones one is accepted at most.
-/

namespace Acromegaly.Found

/-- Where the consumer's loop stands. -/
inductive ConsumerPhase
  /-- About to test whether the slot is full. -/
  | test
  /-- About to write the slot to the store. -/
  | store
  /-- About to show the slot to the peer. -/
  | show
  /-- About to clear the slot. -/
  | clear
  /-- About to go round. -/
  | idle
  deriving DecidableEq, Repr

/-- A publisher of values. -/
structure Publisher (α : Type*) where
  slot : α
  full : Bool
  phase : ConsumerPhase
  /-- A peer is attached. -/
  attached : Bool
  /-- What the store holds, once something has been stored. -/
  stored : Option α
  /-- What the attached peer was last shown. -/
  shown : Option α
  /-- History, oldest first: every value offered. -/
  offered : List α
  /-- History: every value that found the slot empty. -/
  accepted : List α
  /-- History: every value stored. -/
  stores : List α
  /-- History: the slot at every step that shows it to the peer, attached or not. -/
  shows : List α

/-- What can happen to a publisher. -/
inductive PublisherEvent (α : Type*)
  | offer (a : α)
  /-- The consumer's next step. -/
  | advance
  | attach
  | detach

namespace Publisher

variable {α : Type*}

/-- The publisher after its first offer. -/
def start (a : α) : Publisher α where
  slot := a
  full := true
  phase := .test
  attached := false
  stored := none
  shown := none
  offered := [a]
  accepted := [a]
  stores := []
  shows := []

/-- A value is offered: it fills an empty slot and is otherwise dropped. -/
def offer (a : α) (p : Publisher α) : Publisher α :=
  if p.full then { p with offered := p.offered ++ [a] }
  else { p with
    slot := a
    full := true
    offered := p.offered ++ [a]
    accepted := p.accepted ++ [a] }

/-- The consumer's next step. -/
def advance (p : Publisher α) : Publisher α :=
  match p.phase with
  | .test => { p with phase := if p.full then .store else .idle }
  | .store => { p with stored := some p.slot, stores := p.stores ++ [p.slot], phase := .show }
  | .show => { p with
      shown := if p.attached then some p.slot else p.shown
      shows := p.shows ++ [p.slot]
      phase := .clear }
  | .clear => { p with full := false, phase := .idle }
  | .idle => { p with phase := .test }

/-- A peer attaches and is shown the slot. -/
def attach (p : Publisher α) : Publisher α := { p with attached := true, shown := some p.slot }

/-- The peer is gone. -/
def detach (p : Publisher α) : Publisher α := { p with attached := false, shown := none }

/-- One event. -/
def step (p : Publisher α) : PublisherEvent α → Publisher α
  | .offer a => p.offer a
  | .advance => p.advance
  | .attach => p.attach
  | .detach => p.detach

variable (α) in
/-- The publisher as a machine, from its first offer on. -/
def machine : Machine (Publisher α) (PublisherEvent α) where
  init p := ∃ a, p = start a
  step p e := some (p.step e)

/-! ## The invariant -/

/-- The slot's value has been stored. -/
def HasStored (p : Publisher α) : Prop := p.full = false ∨ p.phase = .show ∨ p.phase = .clear

/-- The slot's value has been shown. -/
def HasShown (p : Publisher α) : Prop := p.full = false ∨ p.phase = .clear

/-- The relation between the slot, the consumer's phase and the effects. -/
structure Consistent (p : Publisher α) : Prop where
  /-- Inside the loop's body the slot is full. -/
  busy : p.phase = .store ∨ p.phase = .show ∨ p.phase = .clear → p.full = true
  stored : p.HasStored → p.stored = some p.slot ∧ p.stores = p.accepted
  storing : ¬p.HasStored → p.accepted = p.stores ++ [p.slot]
  shown : p.HasShown → (p.attached = true → p.shown = some p.slot) ∧ p.shows = p.accepted
  showing : ¬p.HasShown → p.accepted = p.shows ++ [p.slot]
  accepted : p.accepted.Sublist p.offered

theorem start_consistent (a : α) : (start a).Consistent where
  busy _ := rfl
  stored h := by simp [HasStored, start] at h
  storing _ := rfl
  shown h := by simp [HasShown, start] at h
  showing _ := rfl
  accepted := List.Sublist.refl _

/-- An offer that is dropped leaves everything but the history of offers. -/
theorem Consistent.offer_of_full {p : Publisher α} (h : p.Consistent) (hf : p.full = true) (a : α) :
    (p.offer a).Consistent := by
  unfold offer
  rw [if_pos hf]
  exact ⟨h.busy, h.stored, h.storing, h.shown, h.showing,
    h.accepted.trans (List.sublist_append_left _ _)⟩

/-- An offer is accepted only outside the loop's body, when everything accepted so far has been
stored and shown. -/
theorem Consistent.offer_of_empty {p : Publisher α} (h : p.Consistent) (hf : p.full = false)
    (a : α) : (p.offer a).Consistent := by
  have hout : ¬(p.phase = .store ∨ p.phase = .show ∨ p.phase = .clear) := by
    intro hb
    rw [h.busy hb] at hf
    cases hf
  have hstored : ¬(p.phase = .show ∨ p.phase = .clear) := fun hb => hout (.inr hb)
  have hshown : p.phase ≠ .clear := fun hb => hout (.inr (.inr hb))
  unfold offer
  rw [if_neg (by simp [hf])]
  refine ⟨fun _ => rfl, ?_, fun _ => ?_, ?_, fun _ => ?_, ?_⟩
  · rintro (hc | hb)
    · cases hc
    · exact absurd hb hstored
  · simp only [(h.stored (.inl hf)).2]
  · rintro (hc | hb)
    · cases hc
    · exact absurd hb hshown
  · simp only [(h.shown (.inl hf)).2]
  · exact h.accepted.append (List.Sublist.refl [a])

/-- The consumer's step, phase by phase. -/
theorem Consistent.advance {p : Publisher α} (h : p.Consistent) : p.advance.Consistent := by
  unfold Publisher.advance
  cases hph : p.phase with
  | test =>
      simp only
      by_cases hf : p.full = true
      · rw [if_pos hf]
        have hns : ¬p.HasStored := by simp [HasStored, hph, hf]
        have hnd : ¬p.HasShown := by simp [HasShown, hph, hf]
        exact ⟨fun _ => hf, by simp [HasStored, hf], fun _ => h.storing hns,
          by simp [HasShown, hf], fun _ => h.showing hnd, h.accepted⟩
      · rw [if_neg hf]
        have he : p.full = false := by simpa using hf
        exact ⟨by simp, fun _ => h.stored (.inl he), fun hn => absurd (.inl he) hn,
          fun _ => h.shown (.inl he), fun hn => absurd (.inl he) hn, h.accepted⟩
  | store =>
      have hf : p.full = true := h.busy (.inl hph)
      have hns : ¬p.HasStored := by simp [HasStored, hph, hf]
      have hnd : ¬p.HasShown := by simp [HasShown, hph, hf]
      exact ⟨fun _ => hf, fun _ => ⟨rfl, (h.storing hns).symm⟩,
        fun hn => absurd (.inr (.inl rfl)) hn, by simp [HasShown, hf],
        fun _ => h.showing hnd, h.accepted⟩
  | «show» =>
      have hf : p.full = true := h.busy (.inr (.inl hph))
      have hs : p.HasStored := .inr (.inl hph)
      have hnd : ¬p.HasShown := by simp [HasShown, hph, hf]
      exact ⟨fun _ => hf, fun _ => h.stored hs, fun hn => absurd (.inr (.inr rfl)) hn,
        fun _ => ⟨fun ha => if_pos ha, (h.showing hnd).symm⟩, fun hn => absurd (.inr rfl) hn,
        h.accepted⟩
  | clear =>
      have hs : p.HasStored := .inr (.inr hph)
      have hd : p.HasShown := .inr hph
      exact ⟨by simp, fun _ => h.stored hs, fun hn => absurd (.inl rfl) hn, fun _ => h.shown hd,
        fun hn => absurd (.inl rfl) hn, h.accepted⟩
  | idle =>
      -- outside the body nothing depends on the phase
      have hst : HasStored { p with phase := .test } ↔ p.HasStored := by simp [HasStored, hph]
      have hsh : HasShown { p with phase := .test } ↔ p.HasShown := by simp [HasShown, hph]
      exact ⟨by simp, fun hs => h.stored (hst.mp hs), fun hn => h.storing (mt hst.mpr hn),
        fun hd => h.shown (hsh.mp hd), fun hn => h.showing (mt hsh.mpr hn), h.accepted⟩

/-- An attaching peer is shown the slot, so it needs no further publication. -/
theorem Consistent.attach {p : Publisher α} (h : p.Consistent) : p.attach.Consistent where
  busy := h.busy
  stored := h.stored
  storing := h.storing
  shown hs := ⟨fun _ => rfl, (h.shown hs).2⟩
  showing := h.showing
  accepted := h.accepted

theorem Consistent.detach {p : Publisher α} (h : p.Consistent) : p.detach.Consistent where
  busy := h.busy
  stored := h.stored
  storing := h.storing
  shown hs := ⟨fun ha => by simp [Publisher.detach] at ha, (h.shown hs).2⟩
  showing := h.showing
  accepted := h.accepted

theorem Consistent.step {p : Publisher α} (h : p.Consistent) (e : PublisherEvent α) :
    (p.step e).Consistent := by
  cases e with
  | offer a =>
      by_cases hf : p.full = true
      · exact h.offer_of_full hf a
      · exact h.offer_of_empty (by simpa using hf) a
  | advance => exact h.advance
  | attach => exact h.attach
  | detach => exact h.detach

/-- Every reachable publisher is consistent. -/
theorem machine_consistent {p : Publisher α} (h : (machine α).Reachable p) : p.Consistent := by
  refine h.invariant ?_ ?_
  · rintro _ ⟨a, rfl⟩
    exact start_consistent a
  · rintro p e _ hp ⟨⟩
    exact hp.step e

/-! ## What it says -/

/-- While the slot is full, no step changes its value. -/
theorem slot_step_of_full {p : Publisher α} (hf : p.full = true) (e : PublisherEvent α) :
    (p.step e).slot = p.slot := by
  cases e with
  | offer a => simp [step, offer, hf]
  | advance => simp only [step, advance]; split <;> rfl
  | attach => rfl
  | detach => rfl

/-- With an empty slot, the store holds what the slot last held. -/
theorem Consistent.stored_of_empty {p : Publisher α} (h : p.Consistent) (hf : p.full = false) :
    p.stored = some p.slot := (h.stored (.inl hf)).1

/-- With an empty slot, an attached peer has been shown what the slot last held. -/
theorem Consistent.shown_of_empty {p : Publisher α} (h : p.Consistent) (hf : p.full = false)
    (ha : p.attached = true) : p.shown = some p.slot := (h.shown (.inl hf)).1 ha

/-- What has been stored is an initial segment of what was accepted. -/
theorem Consistent.stores_prefix {p : Publisher α} (h : p.Consistent) :
    p.stores <+: p.accepted := by
  by_cases hs : p.HasStored
  · exact ⟨[], by rw [List.append_nil, (h.stored hs).2]⟩
  · rw [h.storing hs]
    exact List.prefix_append _ _

/-- What has been shown is an initial segment of what was accepted. -/
theorem Consistent.shows_prefix {p : Publisher α} (h : p.Consistent) :
    p.shows <+: p.accepted := by
  by_cases hs : p.HasShown
  · exact ⟨[], by rw [List.append_nil, (h.shown hs).2]⟩
  · rw [h.showing hs]
    exact List.prefix_append _ _

/-! ## How soon -/

/-- The steps of a loop from this phase to its end. -/
def dueIn : ConsumerPhase → ℕ
  | .idle => 5
  | .test => 4
  | .store => 3
  | .show => 2
  | .clear => 1

/-- The steps of the consumer until a full slot is cleared. -/
def due (p : Publisher α) : ℕ := if p.full then dueIn p.phase else 0

/-- A step of the consumer. -/
def turn : PublisherEvent α → Option Unit
  | .advance => some ()
  | _ => none

theorem due_le (p : Publisher α) : p.due ≤ 5 := by
  unfold due
  split_ifs
  · cases p.phase <;> simp [dueIn]
  · exact Nat.zero_le 5

theorem due_of_empty {p : Publisher α} (hf : p.full = false) : p.due = 0 := by
  unfold due
  rw [hf]
  rfl

/-- A slot is full for one step less after each step of the consumer, and nothing else makes it
wait. -/
theorem due_step_of_full {p : Publisher α} (hf : p.full = true) (e : PublisherEvent α) :
    (p.step e).due + ([e].filterMap turn).length = p.due := by
  unfold due
  cases e with
  | offer a =>
      have hoffer : (p.offer a).full = true ∧ (p.offer a).phase = p.phase := by
        unfold offer
        rw [if_pos hf]
        exact ⟨hf, rfl⟩
      show (if (p.offer a).full then dueIn (p.offer a).phase else 0) + 0 = _
      rw [hoffer.1, hoffer.2, hf]
      rfl
  | advance =>
      show (if p.advance.full then dueIn p.advance.phase else 0) + 1 = _
      unfold advance
      cases hph : p.phase <;> simp [hf, dueIn]
  | attach => rfl
  | detach => rfl

/-- With a full slot nothing is accepted. -/
theorem accepted_step_of_full {p : Publisher α} (hf : p.full = true) (e : PublisherEvent α) :
    (p.step e).accepted = p.accepted := by
  cases e with
  | offer a => simp [step, offer, hf]
  | advance => simp only [step, advance]; split <;> rfl
  | attach => rfl
  | detach => rfl

/-- The consumer accepts nothing. -/
theorem accepted_advance (p : Publisher α) : p.advance.accepted = p.accepted := by
  unfold advance
  split <;> rfl

theorem length_turns_cons (e : PublisherEvent α) (es : List (PublisherEvent α)) :
    ((e :: es).filterMap turn).length =
      ([e].filterMap turn).length + (es.filterMap turn).length := by
  rw [← List.singleton_append, List.filterMap_append, List.length_append]

/-- What was offered stays in the history. -/
theorem offered_step (p : Publisher α) (e : PublisherEvent α) : p.offered <+: (p.step e).offered := by
  cases e with
  | offer a =>
      simp only [step, offer]
      split_ifs
      · exact List.prefix_append _ _
      · exact List.prefix_append _ _
  | advance => simp only [step, advance]; split <;> exact List.prefix_refl _
  | attach => exact List.prefix_refl _
  | detach => exact List.prefix_refl _

theorem offered_run {p p' : Publisher α} {es : List (PublisherEvent α)}
    (hrun : (machine α).run p es = some p') : p.offered <+: p'.offered := by
  induction es generalizing p with
  | nil =>
      cases hrun
      exact List.prefix_refl _
  | cons e es ih => exact (offered_step p e).trans (ih hrun)

/-- Without an offer an empty slot stays as it is. -/
theorem empty_step {p : Publisher α} (hf : p.full = false) {e : PublisherEvent α}
    (ho : (p.step e).offered = p.offered) : (p.step e).full = false ∧ (p.step e).slot = p.slot := by
  cases e with
  | offer a =>
      have hlen := congrArg List.length ho
      simp [step, offer, hf] at hlen
  | advance => simp only [step, advance]; split <;> simp [hf]
  | attach => exact ⟨hf, rfl⟩
  | detach => exact ⟨hf, rfl⟩

theorem empty_of_due {p : Publisher α} (h : p.due = 0) : p.full = false := by
  by_contra hf
  have hfull : p.full = true := by simpa using hf
  unfold due at h
  rw [hfull] at h
  cases hph : p.phase <;> simp [hph, dueIn] at h

/-- Without further offers nothing is accepted, and the slot is due the sooner. -/
theorem waits {p p' : Publisher α} {es : List (PublisherEvent α)}
    (hrun : (machine α).run p es = some p') (ho : p'.offered = p.offered) :
    p'.accepted = p.accepted ∧ p'.due ≤ p.due - (es.filterMap turn).length := by
  induction es generalizing p with
  | nil =>
      cases hrun
      exact ⟨rfl, Nat.le_refl _⟩
  | cons e es ih =>
      have hrest : (machine α).run (p.step e) es = some p' := hrun
      have hsame : (p.step e).offered = p.offered := by
        have hlater := offered_run hrest
        rw [ho] at hlater
        exact ((offered_step p e).eq_of_length_le hlater.length_le).symm
      obtain ⟨haccepted, hdue⟩ := ih hrest (ho.trans hsame.symm)
      have hone : (p.step e).accepted = p.accepted ∧
          (p.step e).due ≤ p.due - ([e].filterMap turn).length := by
        by_cases hfull : p.full = true
        · have hstep := due_step_of_full hfull e
          refine ⟨accepted_step_of_full hfull e, ?_⟩
          omega
        · obtain ⟨hempty, -⟩ := empty_step (by simpa using hfull) hsame
          refine ⟨?_, ?_⟩
          · cases e with
            | offer a =>
                have hlen := congrArg List.length hsame
                simp [step, offer, hfull] at hlen
            | advance => exact accepted_advance p
            | attach => rfl
            | detach => rfl
          · rw [due_of_empty hempty]
            exact Nat.zero_le _
      rw [length_turns_cons]
      exact ⟨haccepted.trans hone.1, by omega⟩

/-- **How soon the slot is cleared.** Without further offers the slot is empty when it is due, and
it still holds its value. -/
theorem cleared_within {p p' : Publisher α} {es : List (PublisherEvent α)}
    (hrun : (machine α).run p es = some p') (ho : p'.offered = p.offered)
    (hdue : p.due ≤ (es.filterMap turn).length) : p'.full = false ∧ p'.slot = p.slot := by
  induction es generalizing p with
  | nil =>
      obtain rfl : p = p' := Option.some.inj hrun
      exact ⟨empty_of_due (Nat.le_zero.mp hdue), rfl⟩
  | cons e es ih =>
      have hrest : (machine α).run (p.step e) es = some p' := hrun
      have hsame : (p.step e).offered = p.offered := by
        have hlater := offered_run hrest
        rw [ho] at hlater
        exact ((offered_step p e).eq_of_length_le hlater.length_le).symm
      rw [length_turns_cons] at hdue
      by_cases hfull : p.full = true
      · have hstep := due_step_of_full hfull e
        rw [← slot_step_of_full hfull e]
        exact ih hrest (ho.trans hsame.symm) (by omega)
      · obtain ⟨hempty, hslot⟩ := empty_step (by simpa using hfull) hsame
        rw [← hslot]
        refine ih hrest (ho.trans hsame.symm) ?_
        rw [due_of_empty hempty]
        exact Nat.zero_le _

/-- The slot holds the value accepted last. -/
theorem machine_getLast? {p : Publisher α} (h : (machine α).Reachable p) :
    p.accepted.getLast? = some p.slot := by
  refine h.invariant (I := fun p => p.accepted.getLast? = some p.slot) ?_ ?_
  · rintro _ ⟨a, rfl⟩
    rfl
  · rintro p e _ hp ⟨⟩
    by_cases hfull : p.full = true
    · rw [accepted_step_of_full hfull e, slot_step_of_full hfull e, hp]
    · cases e with
      | offer a => simp [step, offer, hfull]
      | advance =>
          simp only [step, advance]
          split <;> exact hp
      | attach => exact hp
      | detach => exact hp

/-! ## Which publication -/

/-- One offer after the other. -/
def offers (p : Publisher α) (as : List α) : Publisher α := as.foldl (fun p a => p.offer a) p

theorem run_offers (p : Publisher α) (as : List α) :
    (machine α).run p (as.map .offer) = some (p.offers as) := by
  induction as generalizing p with
  | nil => rfl
  | cons a as ih => exact ih (p.offer a)

theorem accepted_offers_of_full {p : Publisher α} (hf : p.full = true) (as : List α) :
    (p.offers as).accepted = p.accepted := by
  induction as generalizing p with
  | nil => rfl
  | cons a as ih =>
      have hsame : (p.offer a).full = true ∧ (p.offer a).accepted = p.accepted := by
        unfold offer
        rw [if_pos hf]
        exact ⟨hf, rfl⟩
      show ((p.offer a).offers as).accepted = p.accepted
      rw [ih hsame.1, hsame.2]

/-- Of equal offers an empty slot accepts one. -/
theorem accepted_offers_of_empty {p : Publisher α} (hf : p.full = false) (n : ℕ) (a : α) :
    (p.offers (List.replicate (n + 1) a)).accepted = p.accepted ++ [a] := by
  have hnew : (p.offer a).full = true ∧ (p.offer a).accepted = p.accepted ++ [a] := by
    unfold offer
    rw [hf]
    exact ⟨rfl, rfl⟩
  show ((p.offer a).offers (List.replicate n a)).accepted = _
  rw [accepted_offers_of_full hnew.1, hnew.2]

theorem accepted_offers_replicate (p : Publisher α) (n : ℕ) (a : α) :
    (p.offers (List.replicate n a)).accepted = p.accepted ∨
      (p.offers (List.replicate n a)).accepted = p.accepted ++ [a] := by
  cases n with
  | zero => exact .inl rfl
  | succ n =>
      by_cases hf : p.full = true
      · exact .inl (accepted_offers_of_full hf _)
      · exact .inr (accepted_offers_of_empty (by simpa using hf) n a)

end Publisher

end Acromegaly.Found
