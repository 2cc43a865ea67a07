/-
# Finite maps whose iteration order is unspecified

A hash map answers lookups by its entries alone, and iterates over them in an order nobody may
rely on.  So a map here is the EXTENSIONAL finite map of the standard library (two maps with
the same lookups are equal), and every iteration is handed an `IterOrder`: an arbitrary
rearrangement of the keys.  A statement about code that iterates quantifies over the order,
and a statement about code that only looks up never mentions one.

A sorted set (`BTreeSet`) does have an iteration order, the order of its keys.
-/
import Mathlib

namespace Lib

/-- A hash map, up to the order it is iterated in. -/
abbrev HashMap (K V : Type) [Ord K] := Std.ExtTreeMap K V compare

/-- A sorted set; `toList` lists it in ascending order. -/
abbrev BTreeSet (K : Type) [Ord K] := Std.ExtTreeSet K compare

/-! ## 1. The last value of each key -/

section LastKeyed

variable {K V : Type} [DecidableEq K]

/-- The LAST value of the list that `key` files under `k`: the one that survives when the
values are inserted one after another. -/
def lastKeyed (key : V → K) (l : List V) (k : K) : Option V :=
  l.reverse.find? fun v => key v = k

theorem lastKeyed_append_singleton (key : V → K) (l : List V) (v : V) (k : K) :
    lastKeyed key (l ++ [v]) k = if key v = k then some v else lastKeyed key l k := by
  simp only [lastKeyed, List.reverse_append, List.reverse_singleton, List.singleton_append,
    List.find?_cons]
  by_cases h : key v = k <;> simp [h]

theorem lastKeyed_eq_none {key : V → K} {l : List V} {k : K} :
    lastKeyed key l k = none ↔ ∀ v ∈ l, key v ≠ k := by
  simp [lastKeyed]

theorem mem_of_lastKeyed {key : V → K} {l : List V} {k : K} {v : V}
    (h : lastKeyed key l k = some v) : v ∈ l ∧ key v = k := by
  refine ⟨by simpa using List.mem_of_find?_eq_some h, ?_⟩
  simpa using List.find?_some h

theorem isSome_lastKeyed {key : V → K} {l : List V} {k : K} :
    (lastKeyed key l k).isSome ↔ ∃ v ∈ l, key v = k := by
  simp [lastKeyed]

/-- In a list without repeated keys the last value of a key is its only one. -/
theorem lastKeyed_of_nodup {key : V → K} {l : List V} (h : (l.map key).Nodup) {k : K} {v : V} :
    lastKeyed key l k = some v ↔ v ∈ l ∧ key v = k := by
  refine ⟨mem_of_lastKeyed, ?_⟩
  rintro ⟨hv, hkey⟩
  obtain ⟨w, hw⟩ := Option.isSome_iff_exists.mp (isSome_lastKeyed.mpr ⟨v, hv, hkey⟩)
  obtain ⟨hwl, hwkey⟩ := mem_of_lastKeyed hw
  rw [hw, List.inj_on_of_nodup_map h hwl hv (hwkey.trans hkey.symm)]

/-- Rewriting the values without touching their keys. -/
theorem lastKeyed_map {key : V → K} {f : V → V} (hf : ∀ v, key (f v) = key v) (l : List V)
    (k : K) : lastKeyed key (l.map f) k = (lastKeyed key l k).map f := by
  induction l using List.reverseRecOn with
  | nil => rfl
  | append_singleton l v ih =>
    rw [List.map_append, List.map_singleton, lastKeyed_append_singleton, hf, ih,
      lastKeyed_append_singleton]
    split <;> rfl

end LastKeyed

/-! ## 2. Iteration -/

variable {K V : Type} [Ord K] [Std.TransOrd K]

/-- The order one iteration happens to take: any rearrangement of the keys.  It may depend on
the map it is asked about, so one `IterOrder` says nothing about the next map. -/
structure IterOrder (K : Type) where
  arrange : List K → List K
  arrange_perm : ∀ keys, (arrange keys).Perm keys

/-- The order of the keys, for runs that are evaluated. -/
def IterOrder.ascending {K : Type} : IterOrder K := ⟨id, fun keys => List.Perm.refl keys⟩

/-- The opposite order, to see that a result depends on the order. -/
def IterOrder.descending {K : Type} : IterOrder K := ⟨List.reverse, List.reverse_perm⟩

/-- The entries of `m`, in the order the iteration takes. -/
def entries (order : IterOrder K) (m : HashMap K V) : List (K × V) :=
  (order.arrange m.keys).filterMap fun k => m[k]?.map (k, ·)

theorem mem_entries [Std.LawfulEqOrd K] {order : IterOrder K} {m : HashMap K V} {k : K} {v : V} :
    (k, v) ∈ entries order m ↔ m[k]? = some v := by
  simp only [entries, List.mem_filterMap, (order.arrange_perm m.keys).mem_iff,
    Option.map_eq_some_iff, Prod.mk.injEq]
  constructor
  · rintro ⟨k', _, v', hv', rfl, rfl⟩
    exact hv'
  · intro h
    exact ⟨k, by simp [Std.ExtTreeMap.mem_iff_isSome_getElem?, h], v, h, rfl, rfl⟩

/-- An iteration visits every key exactly once. -/
theorem map_fst_entries [Std.LawfulEqOrd K] (order : IterOrder K) (m : HashMap K V) :
    (entries order m).map Prod.fst = order.arrange m.keys := by
  rw [entries, List.map_filterMap]
  have hkey : ∀ k ∈ order.arrange m.keys,
      Option.map Prod.fst (m[k]?.map (k, ·)) = some k := by
    intro k hk
    have hmem : k ∈ m := by simpa using (order.arrange_perm m.keys).mem_iff.mp hk
    obtain ⟨v, hv⟩ := Option.isSome_iff_exists.mp (Std.ExtTreeMap.mem_iff_isSome_getElem?.mp hmem)
    simp [hv]
  rw [List.filterMap_congr hkey, List.filterMap_some]

theorem nodup_entries [Std.LawfulEqOrd K] (order : IterOrder K) (m : HashMap K V) :
    ((entries order m).map Prod.fst).Nodup := by
  rw [map_fst_entries]
  exact (order.arrange_perm m.keys).nodup_iff.mpr Std.ExtTreeMap.nodup_keys

/-- Two iterations over one map differ in order only. -/
theorem entries_perm (order order' : IterOrder K) (m : HashMap K V) :
    (entries order m).Perm (entries order' m) :=
  ((order.arrange_perm m.keys).trans (order'.arrange_perm m.keys).symm).filterMap _

/-! ## 3. A map as a function of its keys -/

theorem getElem?_insert_eq_update [Std.LawfulEqOrd K] [DecidableEq K] (m : HashMap K V) (k : K)
    (v : V) : (fun l => (m.insert k v)[l]?) = Function.update (fun l => m[l]?) k (some v) := by
  funext l
  rw [Std.ExtTreeMap.getElem?_insert, Function.update_apply]
  by_cases h : k = l
  · simp [h]
  · simp [h, Ne.symm h]

theorem getElem?_erase_eq_update [Std.LawfulEqOrd K] [DecidableEq K] (m : HashMap K V) (k : K) :
    (fun l => (m.erase k)[l]?) = Function.update (fun l => m[l]?) k none := by
  funext l
  rw [Std.ExtTreeMap.getElem?_erase, Function.update_apply]
  by_cases h : k = l
  · simp [h]
  · simp [h, Ne.symm h]

/-- Erasing a key that has no entry changes nothing. -/
theorem erase_eq_self [Std.LawfulEqOrd K] {m : HashMap K V} {k : K} (h : m[k]? = none) :
    m.erase k = m := by
  refine Std.ExtTreeMap.ext_getElem? fun l => ?_
  rw [Std.ExtTreeMap.getElem?_erase]
  split
  · rename_i hl
    rw [← Std.LawfulEqOrd.eq_of_compare hl, h]
  · rfl

/-! ## 4. Maps keyed by a field of their values -/

/-- Every entry is stored under the key its value names. -/
def Keyed (key : V → K) (m : HashMap K V) : Prop := ∀ k v, m[k]? = some v → key v = k

theorem keyed_empty (key : V → K) : Keyed key (∅ : HashMap K V) := by
  intro k v h
  simp at h

theorem Keyed.insert [Std.LawfulEqOrd K] {key : V → K} {m : HashMap K V} (h : Keyed key m) (v : V) :
    Keyed key (m.insert (key v) v) := by
  intro k w hw
  rw [Std.ExtTreeMap.getElem?_insert] at hw
  split at hw
  · rename_i hk
    rw [← Option.some.inj hw]
    exact Std.LawfulEqOrd.eq_of_compare hk
  · exact h k w hw

theorem Keyed.erase {key : V → K} {m : HashMap K V} (h : Keyed key m) (k : K) :
    Keyed key (m.erase k) := by
  intro k' v hv
  rw [Std.ExtTreeMap.getElem?_erase] at hv
  split at hv
  · simp at hv
  · exact h k' v hv

/-! ## 5. Inserting and erasing a whole list -/

/-- Inserting a list of values one after another: the last of each key wins, and a key the
list does not mention keeps its entry. -/
theorem getElem?_foldl_insert [Std.LawfulEqOrd K] [DecidableEq K] (key : V → K) (l : List V)
    (m : HashMap K V) (k : K) :
    (l.foldl (fun m v => m.insert (key v) v) m)[k]? = (lastKeyed key l k).or m[k]? := by
  induction l using List.reverseRecOn with
  | nil => simp [lastKeyed]
  | append_singleton l v ih =>
    rw [List.foldl_append, lastKeyed_append_singleton]
    simp only [List.foldl_cons, List.foldl_nil, Std.ExtTreeMap.getElem?_insert,
      Std.LawfulEqOrd.compare_eq_iff_eq, ih]
    split <;> simp

/-- Erasing a list of keys one after another. -/
theorem getElem?_foldl_erase [Std.LawfulEqOrd K] [DecidableEq K] (ks : List K)
    (m : HashMap K V) (k : K) :
    (ks.foldl (fun m k => m.erase k) m)[k]? = if k ∈ ks then none else m[k]? := by
  induction ks generalizing m with
  | nil => simp
  | cons k' ks ih =>
    rw [List.foldl_cons, ih]
    simp only [List.mem_cons, Std.ExtTreeMap.getElem?_erase,
      Std.LawfulEqOrd.compare_eq_iff_eq]
    by_cases h : k ∈ ks
    · simp [h]
    · by_cases hk : k' = k
      · simp [hk]
      · simp [h, hk, Ne.symm hk]

end Lib
