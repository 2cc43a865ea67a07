/-
# Sequence numbers count the broadcasts

One counter is drawn from by both channels.  `Inner::next_sequence` is called in four methods
and one helper, `clear` rebuilds the locked value around it, and nothing in the code says that
a number is drawn exactly when an event goes out.  It is: every write is its commit and then
its messages (`Commit.lean`), the commit leaves the counter alone, and each message draws one
number.  So

* the numbers of a run's broadcasts, both channels merged, are 1, 2, 3, … (`Counted.number`);
* the counter is how many there have been (`Counted.counter`);
* a snapshot's number cuts the broadcasts into those before it and those after it, on either
  channel (`Counted.until_snapshot`).

The subscribers' proofs use the same facts about a write that is still sending
(`Subscription.lean`).
-/
import MinervaServer.Broadcasts

namespace MinervaServer

open Lib

variable {Fl : Floats}

/-! ## 1. Channels -/

/-- Every broadcast is on one of the two channels. -/
theorem length_channels (sent : List (Event (Message Fl))) :
    (StateCache.groupUpdates sent).length + (StateCache.simulationUpdates sent).length =
      sent.length := by
  induction sent with
  | nil => rfl
  | cons e rest ih =>
    obtain ⟨sequence, response⟩ := e
    cases response with
    | group response =>
      have hgroup : StateCache.groupUpdates (⟨sequence, .group response⟩ :: rest) =
          ⟨sequence, response⟩ :: StateCache.groupUpdates rest := rfl
      have hother : StateCache.simulationUpdates (⟨sequence, .group response⟩ :: rest) =
          StateCache.simulationUpdates rest := rfl
      rw [hgroup, hother, List.length_cons, List.length_cons]
      omega
    | simulation response =>
      have hsimulation : StateCache.simulationUpdates (⟨sequence, .simulation response⟩ :: rest) =
          ⟨sequence, response⟩ :: StateCache.simulationUpdates rest := rfl
      have hother : StateCache.groupUpdates (⟨sequence, .simulation response⟩ :: rest) =
          StateCache.groupUpdates rest := rfl
      rw [hsimulation, hother, List.length_cons, List.length_cons]
      omega

/-- Choosing events by their number and choosing a channel commute. -/
theorem channel_filter {M : Type} (part : Message Fl → Option M) (p : UInt64 → Bool)
    (sent : List (Event (Message Fl))) :
    channel part (sent.filter fun e => p e.sequence) =
      (channel part sent).filter fun e => p e.sequence := by
  induction sent with
  | nil => rfl
  | cons e rest ih =>
    have hrest : (rest.filter fun e => p e.sequence).filterMap
        (fun e => (part e.response).map fun response => (⟨e.sequence, response⟩ : Event M)) =
        (rest.filterMap fun e => (part e.response).map fun response => ⟨e.sequence, response⟩).filter
          fun e => p e.sequence := ih
    cases hpart : part e.response with
    | none => cases hp : p e.sequence <;> simp [channel, hpart, hp, hrest]
    | some response => cases hp : p e.sequence <;> simp [channel, hpart, hp, hrest]

namespace StateCache

/-! ## 2. The invariant -/

/-- The broadcasts carry consecutive numbers from one on, and the counter stands at the last. -/
structure Counted (c : StateCache Fl) : Prop where
  sent : c.sent = stamp 0 (c.sent.map Event.response)
  sequence : c.inner.sequence = UInt64.ofNat c.sent.length

theorem counted_new : (new : StateCache Fl).Counted := ⟨rfl, rfl⟩

theorem Counted.write {c : StateCache Fl} (h : c.Counted) (w : Write Fl) : (c.write w).Counted := by
  have hsent := h.sent
  have hsequence := h.sequence
  refine ⟨?_, ?_⟩
  · rw [write_sent, List.map_append, stamp_response, stamp_append, List.length_map, UInt64.zero_add,
      ← hsent, hsequence]
  · rw [write_sent, write_inner, List.length_append, length_stamp, UInt64.ofNat_add, hsequence]

theorem counted_after (writes : List (Write Fl)) : (after writes).Counted := by
  induction writes using List.reverseRecOn with
  | nil => exact counted_new
  | append_singleton writes w ih =>
    rw [after_concat]
    exact ih.write w

/-- The counter is the number of broadcasts so far. -/
theorem Counted.counter {c : StateCache Fl} (h : c.Counted) (hrange : c.sent.length < 2 ^ 64) :
    c.inner.sequence.toNat = c.sent.length := by
  rw [h.sequence, UInt64.toNat_ofNat']
  exact Nat.mod_eq_of_lt hrange

/-- The number of a broadcast is its position, counted from one. -/
theorem Counted.number {c : StateCache Fl} (h : c.Counted) (hrange : c.sent.length < 2 ^ 64) {i : Nat}
    {e : Event (Message Fl)} (he : c.sent[i]? = some e) : e.sequence.toNat = i + 1 := by
  rw [h.sent] at he
  refine sequence_of_stamp ?_ he
  rw [List.length_map]
  exact hrange

theorem Counted.numbers {c : StateCache Fl} (h : c.Counted) (hrange : c.sent.length < 2 ^ 64) :
    (c.sent.map fun e => e.sequence.toNat) = List.range' 1 c.sent.length := by
  refine List.ext_getElem (by simp) fun i hi _ => ?_
  rw [List.getElem_map, List.getElem_range', Nat.one_mul, Nat.add_comm 1]
  exact h.number hrange (List.getElem?_eq_getElem (by simpa using hi))

/-! ## 3. A snapshot between two writes -/

/-- What has been broadcast stays broadcast. -/
theorem sent_prefix (first rest : List (Write Fl)) :
    (after first).sent <+: (after (first ++ rest)).sent := by
  induction rest using List.reverseRecOn with
  | nil => rw [List.append_nil]
  | append_singleton rest w ih =>
    rw [← List.append_assoc, after_concat, write_sent]
    exact ih.trans (List.prefix_append _ _)

/-- **A snapshot's number cuts the broadcasts in two**: those numbered up to it are exactly the
ones the writes before it made. -/
theorem Counted.until_snapshot {c c' : StateCache Fl} (h : c.Counted) (h' : c'.Counted)
    (hrange : c'.sent.length < 2 ^ 64) (hstart : c.sent <+: c'.sent) :
    c'.sent.filter (fun e => e.sequence ≤ c.inner.sequence) = c.sent := by
  obtain ⟨later, hlater⟩ := hstart
  have hlength : c.sent.length + later.length = c'.sent.length := by
    rw [← hlater, List.length_append]
  have hcounter := h.counter (by omega)
  have hold : ∀ e ∈ c.sent, decide (e.sequence ≤ c.inner.sequence) = true := by
    intro e he
    obtain ⟨i, hi⟩ := List.getElem?_of_mem he
    have hnumber := h.number (by omega) hi
    have hlt : i < c.sent.length := (List.getElem?_eq_some_iff.mp hi).1
    rw [decide_eq_true_eq, UInt64.le_iff_toNat_le]
    omega
  have hnew : ∀ e ∈ later, ¬ decide (e.sequence ≤ c.inner.sequence) = true := by
    intro e he
    obtain ⟨i, hi⟩ := List.getElem?_of_mem he
    have hat : c'.sent[c.sent.length + i]? = some e := by
      rw [← hlater, List.getElem?_append_right (by omega), Nat.add_sub_cancel_left]
      exact hi
    have hnumber := h'.number hrange hat
    rw [decide_eq_true_eq, UInt64.le_iff_toNat_le]
    omega
  rw [← hlater, List.filter_append, List.filter_eq_self.mpr hold, List.filter_eq_nil_iff.mpr hnew,
    List.append_nil]

/-! ## 4. Every run -/

/-- **Sequence numbers count events exactly.**  In every run that broadcasts fewer than 2^64
events, the broadcasts of the two channels, merged in the order they went out, are numbered
1, 2, 3, …; after every write of the run the counter is how many have gone out; the number of a
snapshot read between two writes tells the events of either channel before it from those after
it; and a write that broadcasts nothing leaves the counter alone. -/
theorem sequence_counts_events (writes : List (Write Fl))
    (hrange : (after writes).sent.length < 2 ^ 64) :
    let c := after writes
    ((c.sent.map fun e => e.sequence.toNat) = List.range' 1 c.sent.length ∧
      (groupUpdates c.sent).length + (simulationUpdates c.sent).length = c.sent.length) ∧
    (∀ first rest, writes = first ++ rest →
      (after first).inner.sequence.toNat = (after first).sent.length) ∧
    (∀ first rest, writes = first ++ rest → ∀ (snapshotSequence : UInt64) order side,
      snapshotSequence = (subscribeGroupUpdates order (after first).inner side).2 ∨
        snapshotSequence = (subscribeSimulationUpdates (after first).inner).2 →
      groupUpdates (after first).sent =
          (groupUpdates c.sent).filter (fun e => e.sequence ≤ snapshotSequence) ∧
        simulationUpdates (after first).sent =
          (simulationUpdates c.sent).filter (fun e => e.sequence ≤ snapshotSequence)) ∧
    (∀ w, (c.write w).sent = c.sent → (c.write w).inner.sequence = c.inner.sequence) := by
  intro c
  have hc : c.Counted := counted_after writes
  have hbefore : ∀ first rest, writes = first ++ rest → (after first).sent <+: c.sent := by
    rintro first rest hwrites
    rw [show c = after (first ++ rest) by rw [← hwrites]]
    exact sent_prefix first rest
  refine ⟨⟨hc.numbers hrange, length_channels c.sent⟩, ?_, ?_, ?_⟩
  · intro first rest hwrites
    exact (counted_after first).counter (lt_of_le_of_lt (hbefore first rest hwrites).length_le hrange)
  · intro first rest hwrites snapshotSequence order side hsnapshot
    -- both snapshots read the counter
    have hcounter : snapshotSequence = (after first).inner.sequence := hsnapshot.elim id id
    have hcut := (counted_after first).until_snapshot hc hrange (hbefore first rest hwrites)
    rw [hcounter, groupUpdates, groupUpdates, simulationUpdates, simulationUpdates]
    refine ⟨?_, ?_⟩
    · rw [← channel_filter _ fun n => decide (n ≤ (after first).inner.sequence), hcut]
    · rw [← channel_filter _ fun n => decide (n ≤ (after first).inner.sequence), hcut]
  · intro w hsilent
    rw [(hc.write w).sequence, hc.sequence, hsilent]

/-- A run with a reset in it, whose last write moves the group to another side (two events), and
a snapshot read just after the reset. -/
theorem sequence_counts_events_sample :
    let before : List (Write Floats.bits) :=
      [.setSimulationState (.sample 0), .upsertGroup (.sample "A" .blufor), .clear .ascending]
    let writes : List (Write Floats.bits) :=
      before ++ [.upsertGroup (.sample "A" .blufor), .upsertGroup (.sample "A" .opfor)]
    ((after writes).sent.map fun e => e.sequence.toNat) = List.range' 1 7 ∧
      groupUpdates (after before).sent = (groupUpdates (after writes).sent).filter fun e =>
        e.sequence ≤ (subscribeGroupUpdates .ascending (after before).inner none).2 :=
  ⟨(sequence_counts_events _ (by decide)).1.1,
    ((sequence_counts_events _ (by decide)).2.2.1 _ _ rfl _ .ascending none (Or.inl rfl)).1⟩

end StateCache

end MinervaServer
