/-
# A derived index over a table

A table `m` stores values under keys, and `proj` sends each value to the class it belongs to.
The INDEX is a second map, from a class to the set of keys of its values.  It holds nothing
the table does not, so it can only ever be right or wrong about the table, and `Indexes` says
it is right.

Whoever maintains such an index by hand owes two things, and this file supplies both:

* after every write the index is still right: `linked_link`, `linked_unlink`, `linked_insert`
  and `linked_erase` say exactly which links each operation leaves, and nothing else about the
  index is ever needed;
* a JOIN through the index returns what a SCAN of the table would (`join_eq_scan`), in key
  order, each value once.
-/
import MinervaServer.Lib.HashMap

namespace Lib

/-! ## 1. Scanning the table -/

section Scan

variable {I K V : Type} [DecidableEq I] [Ord K] [Std.TransOrd K]

/-- The values of the class `i`, found by walking the whole table in key order. -/
def scan (proj : V → I) (m : HashMap K V) (i : I) : List V :=
  (m.toList.filter fun e => proj e.2 = i).map Prod.snd

theorem mem_scan [Std.LawfulEqOrd K] {proj : V → I} {m : HashMap K V} {i : I} {v : V} :
    v ∈ scan proj m i ↔ ∃ k : K, m[k]? = some v ∧ proj v = i := by
  simp [scan, Std.ExtTreeMap.mem_toList_iff_getElem?_eq_some]

/-- A scan of a table keyed by its own values lists them in ascending key order, each once. -/
theorem ordered_scan [Std.LawfulEqOrd K] {key : V → K} {proj : V → I}
    {m : HashMap K V} (h : Keyed key m) (i : I) :
    (scan proj m i).Pairwise fun v w => compare (key v) (key w) = .lt := by
  rw [scan, List.pairwise_map]
  refine (m.ordered_keys_toList.filter _).imp_of_mem ?_
  intro e f he hf hlt
  have hkey : ∀ e ∈ m.toList.filter (fun e => proj e.2 = i), key e.2 = e.1 := fun e he =>
    h e.1 e.2 (Std.ExtTreeMap.mem_toList_iff_getElem?_eq_some.mp (List.mem_of_mem_filter he))
  rw [hkey e he, hkey f hf]
  exact hlt

/-- **A scan is local.**  It reads the entries of its class and no others: where a second table
has kept those of them that `p` holds of, its scan is the first one, filtered. -/
theorem scan_filter [Std.LawfulEqOrd K] {proj : V → I} {m m' : HashMap K V} {i : I} {p : V → Bool}
    (h : ∀ (k : K) (v : V), proj v = i → (m'[k]? = some v ↔ m[k]? = some v ∧ p v)) :
    scan proj m' i = (scan proj m i).filter p := by
  have hnodup : ∀ m : HashMap K V, (m.toList.filter fun e => proj e.2 = i).Nodup := by
    intro m
    refine (m.ordered_keys_toList.filter _).imp ?_
    rintro e _ hlt rfl
    simp at hlt
  have hperm : (m'.toList.filter fun e => proj e.2 = i).Perm
      ((m.toList.filter fun e => proj e.2 = i).filter fun e => p e.2) := by
    refine (List.perm_ext_iff_of_nodup (hnodup m') ((hnodup m).filter _)).mpr ?_
    rintro ⟨k, v⟩
    simp only [List.mem_filter, Std.ExtTreeMap.mem_toList_iff_getElem?_eq_some,
      decide_eq_true_eq]
    constructor
    · rintro ⟨hv, hi⟩
      obtain ⟨hold, hp⟩ := (h k v hi).mp hv
      exact ⟨⟨hold, hi⟩, hp⟩
    · rintro ⟨⟨hold, hi⟩, hp⟩
      exact ⟨(h k v hi).mpr ⟨hold, hp⟩, hi⟩
  rw [scan, scan, List.filter_map]
  refine congrArg (List.map Prod.snd) (hperm.eq_of_pairwise ?_
    (m'.ordered_keys_toList.filter _) ((m.ordered_keys_toList.filter _).filter _))
  intro e f _ _ hef hfe
  rw [Std.OrientedOrd.eq_swap, hfe] at hef
  simp at hef

/-- Tables with the same entries of a class have the same scan of it. -/
theorem scan_congr [Std.LawfulEqOrd K] {proj : V → I} {m m' : HashMap K V} {i : I}
    (h : ∀ (k : K) (v : V), proj v = i → (m[k]? = some v ↔ m'[k]? = some v)) :
    scan proj m i = scan proj m' i := by
  have hsame : scan proj m i = (scan proj m' i).filter fun _ => true :=
    scan_filter fun k v hv => by simp [h k v hv]
  rw [hsame, List.filter_eq_self.mpr fun _ _ => rfl]

end Scan

/-! ## 2. Links -/

variable {I K V : Type} [Ord I] [Std.TransOrd I] [Ord K] [Std.TransOrd K]

/-- The index files the key `k` under the class `i`. -/
def Linked (idx : HashMap I (BTreeSet K)) (i : I) (k : K) : Prop :=
  ∃ s, idx[i]? = some s ∧ k ∈ s

/-- File `k` under `i`. -/
def link (idx : HashMap I (BTreeSet K)) (i : I) (k : K) : HashMap I (BTreeSet K) :=
  idx.insert i ((idx[i]?.getD ∅).insert k)

/-- Take `k` out of the class `i`, dropping the class once nothing is left in it. -/
def unlink (idx : HashMap I (BTreeSet K)) (i : I) (k : K) : HashMap I (BTreeSet K) :=
  match idx[i]? with
  | some s => if (s.erase k).isEmpty then idx.erase i else idx.insert i (s.erase k)
  | none => idx

theorem not_linked_empty (i : I) (k : K) : ¬ Linked (∅ : HashMap I (BTreeSet K)) i k := by
  rintro ⟨s, hs, _⟩
  simp at hs

/-- An absent class and an empty one file the same keys. -/
theorem mem_getD_iff_linked {idx : HashMap I (BTreeSet K)} {i : I} {k : K} :
    k ∈ idx[i]?.getD ∅ ↔ Linked idx i k := by
  cases h : idx[i]? <;> simp [Linked, h]

theorem linked_insert [Std.LawfulEqOrd I] [DecidableEq I] {idx : HashMap I (BTreeSet K)}
    {i j : I} {s : BTreeSet K} {k : K} :
    Linked (idx.insert i s) j k ↔ if i = j then k ∈ s else Linked idx j k := by
  simp only [Linked, Std.ExtTreeMap.getElem?_insert, Std.LawfulEqOrd.compare_eq_iff_eq]
  split <;> simp

theorem linked_erase [Std.LawfulEqOrd I] {idx : HashMap I (BTreeSet K)} {i j : I} {k : K} :
    Linked (idx.erase i) j k ↔ i ≠ j ∧ Linked idx j k := by
  simp only [Linked, Std.ExtTreeMap.getElem?_erase, Std.LawfulEqOrd.compare_eq_iff_eq]
  by_cases h : i = j <;> simp [h]

theorem linked_link [Std.LawfulEqOrd I] [Std.LawfulEqOrd K] {idx : HashMap I (BTreeSet K)}
    {i j : I} {k l : K} :
    Linked (link idx i k) j l ↔ (i = j ∧ k = l) ∨ Linked idx j l := by
  classical
  rw [link, linked_insert]
  by_cases h : i = j
  · subst h
    cases hs : idx[i]? with
    | none => simp [Linked, hs]
    | some s => simp [Linked, hs]
  · simp [h]

theorem linked_unlink [Std.LawfulEqOrd I] [Std.LawfulEqOrd K] {idx : HashMap I (BTreeSet K)}
    {i j : I} {k l : K} :
    Linked (unlink idx i k) j l ↔ Linked idx j l ∧ ¬ (i = j ∧ k = l) := by
  classical
  unfold unlink
  cases hs : idx[i]? with
  | none =>
    refine ⟨fun h => ⟨h, ?_⟩, fun h => h.1⟩
    rintro ⟨rfl, rfl⟩
    obtain ⟨s, hs', _⟩ := h
    simp [hs] at hs'
  | some s =>
    have hi : Linked idx i l ↔ l ∈ s := by simp [Linked, hs]
    dsimp only
    split
    · rename_i hempty
      have hnone : l ∉ s.erase k := by
        rw [Std.ExtTreeSet.isEmpty_iff.mp hempty]
        exact Std.ExtTreeSet.not_mem_empty
      rw [linked_erase]
      by_cases h : i = j
      · subst h
        simp only [ne_eq, not_true_eq_false, false_and, true_and, false_iff, hi]
        simp only [Std.ExtTreeSet.mem_erase, ne_eq, Std.LawfulEqOrd.compare_eq_iff_eq] at hnone
        tauto
      · simp [h]
    · rw [linked_insert]
      by_cases h : i = j
      · subst h
        simp only [if_true, true_and, hi, Std.ExtTreeSet.mem_erase, ne_eq,
          Std.LawfulEqOrd.compare_eq_iff_eq]
        tauto
      · simp [h]

/-! ## 3. The index is right about the table -/

/-- The index says of every class and every key exactly what the table says. -/
def Indexes (proj : V → I) (m : HashMap K V) (idx : HashMap I (BTreeSet K)) : Prop :=
  ∀ i k, Linked idx i k ↔ ∃ v, m[k]? = some v ∧ proj v = i

theorem indexes_empty (proj : V → I) : Indexes proj (∅ : HashMap K V) ∅ := by
  intro i k
  simp [not_linked_empty]

/-- A key is filed under one class at most. -/
theorem Indexes.unique {proj : V → I} {m : HashMap K V} {idx : HashMap I (BTreeSet K)}
    (h : Indexes proj m idx) {i j : I} {k : K} (hi : Linked idx i k) (hj : Linked idx j k) :
    i = j := by
  obtain ⟨v, hv, rfl⟩ := (h i k).mp hi
  obtain ⟨w, hw, rfl⟩ := (h j k).mp hj
  rw [Option.some.inj (hv.symm.trans hw)]

/-- **One value stored.**  The links the new index needs: the stored key under its new class
only, every other key where it was. -/
theorem Indexes.insert [Std.LawfulEqOrd K] {proj : V → I} {m : HashMap K V}
    {idx idx' : HashMap I (BTreeSet K)} (h : Indexes proj m idx) {k : K} {v : V}
    (hidx : ∀ i l, Linked idx' i l ↔ (l = k ∧ i = proj v) ∨ (l ≠ k ∧ Linked idx i l)) :
    Indexes proj (m.insert k v) idx' := by
  intro i l
  rw [hidx, h i l]
  simp only [Std.ExtTreeMap.getElem?_insert, Std.LawfulEqOrd.compare_eq_iff_eq]
  by_cases hl : k = l
  · subst hl
    simp [eq_comm]
  · simp [hl, Ne.symm hl]

/-- **One value dropped.** -/
theorem Indexes.erase [Std.LawfulEqOrd K] {proj : V → I} {m : HashMap K V}
    {idx idx' : HashMap I (BTreeSet K)} (h : Indexes proj m idx) {k : K}
    (hidx : ∀ i l, Linked idx' i l ↔ l ≠ k ∧ Linked idx i l) :
    Indexes proj (m.erase k) idx' := by
  intro i l
  rw [hidx, h i l]
  simp only [Std.ExtTreeMap.getElem?_erase, Std.LawfulEqOrd.compare_eq_iff_eq]
  by_cases hl : k = l
  · simp [hl]
  · simp [hl, Ne.symm hl]

/-! ## 4. Joining through the index -/

/-- The keys filed under `i`, in ascending order. -/
def keysOf (idx : HashMap I (BTreeSet K)) (i : I) : List K :=
  idx[i]?.toList.flatMap (·.toList)

/-- The values of the class `i`, looked up through the index. -/
def join (idx : HashMap I (BTreeSet K)) (m : HashMap K V) (i : I) : List V :=
  (keysOf idx i).filterMap fun k => m[k]?

theorem mem_keysOf [Std.LawfulEqOrd K] {idx : HashMap I (BTreeSet K)} {i : I} {k : K} :
    k ∈ keysOf idx i ↔ Linked idx i k := by
  simp [keysOf, Linked]

theorem ordered_keysOf (idx : HashMap I (BTreeSet K)) (i : I) :
    (keysOf idx i).Pairwise fun a b => compare a b = .lt := by
  cases h : idx[i]? with
  | none => simp [keysOf, h]
  | some s => simpa [keysOf, h] using s.ordered_toList

/-- Two strictly ascending lists with the same members are one list. -/
theorem eq_of_ordered [Std.LawfulEqOrd K] {l l' : List K} (h : l.Pairwise fun a b => compare a b = .lt)
    (h' : l'.Pairwise fun a b => compare a b = .lt) (hmem : ∀ k, k ∈ l ↔ k ∈ l') : l = l' := by
  have hne : ∀ a b : K, compare a b = .lt → a ≠ b := by
    rintro a _ hlt rfl
    simp at hlt
  have hperm : l.Perm l' :=
    (List.perm_ext_iff_of_nodup (h.imp (hne _ _)) (h'.imp (hne _ _))).mpr hmem
  refine hperm.eq_of_pairwise ?_ h h'
  intro a b _ _ hab hba
  rw [Std.OrientedOrd.eq_swap, hba] at hab
  simp at hab

/-- **The join is the scan.**  An index that is right about the table returns what walking the
table returns, in the same order. -/
theorem join_eq_scan [DecidableEq I] [Std.LawfulEqOrd K] {proj : V → I} {m : HashMap K V}
    {idx : HashMap I (BTreeSet K)} (h : Indexes proj m idx) (i : I) : join idx m i = scan proj m i := by
  set found := m.toList.filter fun e => proj e.2 = i with hfound
  have hget : ∀ e : K × V, e ∈ found → m[e.1]? = some e.2 := by
    intro e he
    exact Std.ExtTreeMap.mem_toList_iff_getElem?_eq_some.mp (List.mem_of_mem_filter he)
  have hkeys : keysOf idx i = found.map Prod.fst := by
    refine eq_of_ordered (ordered_keysOf idx i) ?_ ?_
    · rw [List.pairwise_map]
      exact m.ordered_keys_toList.filter _
    · intro k
      rw [mem_keysOf, h i k]
      simp [hfound, Std.ExtTreeMap.mem_toList_iff_getElem?_eq_some]
  rw [join, hkeys, List.filterMap_map, scan, ← hfound, ← List.filterMap_eq_map]
  exact List.filterMap_congr hget

/-! ## 5. Classes without keys -/

/-- The index keeps no class that has no keys left.  No join can tell (`mem_getD_iff_linked`),
so this is about what the index costs, not about what it says. -/
def Pruned (idx : HashMap I (BTreeSet K)) : Prop :=
  ∀ (i : I) (s : BTreeSet K), idx[i]? = some s → s ≠ ∅

omit [Std.TransOrd K] in
theorem pruned_empty : Pruned (∅ : HashMap I (BTreeSet K)) := by
  intro i s hs
  simp at hs

omit [Std.TransOrd K] in
theorem Pruned.insert [Std.LawfulEqOrd I] {idx : HashMap I (BTreeSet K)} (h : Pruned idx) (i : I)
    {s : BTreeSet K} (hs : s ≠ ∅) : Pruned (idx.insert i s) := by
  intro j t ht
  rw [Std.ExtTreeMap.getElem?_insert] at ht
  split at ht
  · rw [← Option.some.inj ht]
    exact hs
  · exact h j t ht

omit [Std.TransOrd K] in
theorem Pruned.erase {idx : HashMap I (BTreeSet K)} (h : Pruned idx) (i : I) :
    Pruned (idx.erase i) := by
  intro j t ht
  rw [Std.ExtTreeMap.getElem?_erase] at ht
  split at ht
  · cases ht
  · exact h j t ht

theorem Pruned.link [Std.LawfulEqOrd I] {idx : HashMap I (BTreeSet K)} (h : Pruned idx) (i : I)
    (k : K) : Pruned (link idx i k) :=
  h.insert i (by simp)

theorem Pruned.unlink [Std.LawfulEqOrd I] {idx : HashMap I (BTreeSet K)} (h : Pruned idx) (i : I)
    (k : K) : Pruned (unlink idx i k) := by
  unfold Lib.unlink
  split
  · split
    · exact h.erase i
    · rename_i hleft
      exact h.insert i (by rwa [ne_eq, ← Std.ExtTreeSet.isEmpty_iff])
  · exact h

end Lib
