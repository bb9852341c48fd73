import Mathlib.Data.List.Induction
import Mathlib.Data.List.Sort

/-!
# Ordered maps as sorted lists

An ordered map is the list of its entries in the order of their keys. Assigning
to a key replaces its entry or inserts one, so a map built by assignments holds
the last value assigned to each key, and a map is determined by its lookups.
-/

namespace SortedMaps

section
variable {K V : Type*} [DecidableEq K]

theorem lookup_cons_ite (k : K) (e : K × V) (entries : List (K × V)) :
    (e :: entries).lookup k = if k = e.1 then some e.2 else entries.lookup k := by
  obtain ⟨a, v⟩ := e
  rw [List.lookup_cons]
  by_cases h : k = a
  · simp [h]
  · have hne : (k == a) = false := by simpa using h
    simp [h, hne]

end

variable {K V : Type*} [LinearOrder K]

/-- The entries after `m[key] = v`. -/
def assign (key : K) (v : V) : List (K × V) → List (K × V)
  | [] => [(key, v)]
  | (k, w) :: entries =>
      if key < k then (key, v) :: (k, w) :: entries
      else if key = k then (key, v) :: entries
      else (k, w) :: assign key v entries

/-- The map after assigning every entry in turn, starting with the empty one. -/
def ofAssignments (entries : List (K × V)) : List (K × V) :=
  entries.foldl (fun m e => assign e.1 e.2 m) []

def Sorted (entries : List (K × V)) : Prop := (entries.map Prod.fst).Pairwise (· < ·)

theorem lookup_assign (key k : K) (v : V) (entries : List (K × V)) :
    (assign key v entries).lookup k = if k = key then some v else entries.lookup k := by
  induction entries with
  | nil => rw [assign, lookup_cons_ite]
  | cons e entries ih =>
      obtain ⟨a, w⟩ := e
      by_cases hlt : key < a
      · rw [assign, if_pos hlt, lookup_cons_ite]
      · by_cases heq : key = a
        · rw [assign, if_neg hlt, if_pos heq, lookup_cons_ite, lookup_cons_ite]
          by_cases h : k = key
          · simp [h]
          · simp [h, heq ▸ h]
        · rw [assign, if_neg hlt, if_neg heq, lookup_cons_ite, lookup_cons_ite, ih]
          by_cases h : k = a
          · have hkey : a ≠ key := fun ha => heq ha.symm
            simp [h, hkey]
          · simp [h]

theorem mem_keys_assign {key k : K} {v : V} {entries : List (K × V)}
    (h : k ∈ (assign key v entries).map Prod.fst) : k = key ∨ k ∈ entries.map Prod.fst := by
  induction entries with
  | nil => exact Or.inl (by simpa [assign] using h)
  | cons e entries ih =>
      rw [assign] at h
      split_ifs at h with hlt heq
      · simpa using h
      · rw [List.map_cons, List.mem_cons] at h
        exact h.elim Or.inl (fun h => Or.inr (List.mem_cons_of_mem _ h))
      · rw [List.map_cons, List.mem_cons] at h
        rcases h with h | h
        · exact Or.inr (by simp [h])
        · exact (ih h).elim Or.inl (fun h => Or.inr (List.mem_cons_of_mem _ h))

theorem sorted_nil : Sorted ([] : List (K × V)) := List.Pairwise.nil

theorem sorted_cons {e : K × V} {entries : List (K × V)} :
    Sorted (e :: entries) ↔ (∀ k ∈ entries.map Prod.fst, e.1 < k) ∧ Sorted entries := by
  rw [Sorted, List.map_cons, List.pairwise_cons, Sorted]

theorem sorted_assign (key : K) (v : V) {entries : List (K × V)} (h : Sorted entries) :
    Sorted (assign key v entries) := by
  induction entries with
  | nil => simp [assign, Sorted]
  | cons e entries ih =>
      obtain ⟨hhead, htail⟩ := sorted_cons.mp h
      rw [assign]
      split_ifs with hlt heq
      · refine sorted_cons.mpr ⟨fun k hk => ?_, h⟩
        rcases List.mem_cons.mp hk with rfl | hk
        · exact hlt
        · exact lt_trans hlt (hhead k hk)
      · exact sorted_cons.mpr ⟨fun k hk => heq ▸ hhead k hk, htail⟩
      · refine sorted_cons.mpr ⟨fun k hk => ?_, ih htail⟩
        rcases mem_keys_assign hk with rfl | hk
        · exact lt_of_le_of_ne (le_of_not_gt hlt) (Ne.symm heq)
        · exact hhead k hk

theorem ofAssignments_concat (entries : List (K × V)) (e : K × V) :
    ofAssignments (entries ++ [e]) = assign e.1 e.2 (ofAssignments entries) := by
  simp [ofAssignments]

theorem sorted_ofAssignments (entries : List (K × V)) : Sorted (ofAssignments entries) := by
  induction entries using List.reverseRecOn with
  | nil => exact sorted_nil
  | append_singleton entries e ih =>
      rw [ofAssignments_concat]
      exact sorted_assign e.1 e.2 ih

/-- The last assignment to a key is the one that counts. -/
theorem lookup_ofAssignments (entries : List (K × V)) (k : K) :
    (ofAssignments entries).lookup k = entries.reverse.lookup k := by
  induction entries using List.reverseRecOn with
  | nil => rfl
  | append_singleton entries e ih =>
      rw [ofAssignments_concat, lookup_assign, List.reverse_append, List.reverse_singleton,
        List.singleton_append, lookup_cons_ite, ih]

theorem mem_of_mem_assign {key : K} {v : V} {entries : List (K × V)} {e : K × V}
    (h : e ∈ assign key v entries) : e = (key, v) ∨ e ∈ entries := by
  induction entries with
  | nil => exact Or.inl (List.mem_singleton.mp h)
  | cons d entries ih =>
      rw [assign] at h
      split_ifs at h with hlt heq
      · exact List.mem_cons.mp h
      · exact (List.mem_cons.mp h).imp_right (List.mem_cons_of_mem _)
      · rcases List.mem_cons.mp h with rfl | h
        · exact Or.inr List.mem_cons_self
        · exact (ih h).imp_right (List.mem_cons_of_mem _)

/-- A map holds nothing that was not assigned. -/
theorem mem_of_mem_ofAssignments {entries : List (K × V)} {e : K × V}
    (h : e ∈ ofAssignments entries) : e ∈ entries := by
  induction entries using List.reverseRecOn with
  | nil => exact h
  | append_singleton entries d ih =>
      rw [ofAssignments_concat] at h
      rcases mem_of_mem_assign h with rfl | h
      · exact List.mem_append_right _ List.mem_cons_self
      · exact List.mem_append_left _ (ih h)

theorem forall_mem_ofAssignments {entries : List (K × V)} {P : K × V → Prop}
    (h : ∀ e ∈ entries, P e) : ∀ e ∈ ofAssignments entries, P e :=
  fun e he => h e (mem_of_mem_ofAssignments he)

/-- Assigning beyond the last key appends. -/
theorem assign_of_forall_lt {key : K} {v : V} {entries : List (K × V)}
    (h : ∀ k ∈ entries.map Prod.fst, k < key) : assign key v entries = entries ++ [(key, v)] := by
  induction entries with
  | nil => rfl
  | cons e entries ih =>
      have he : e.1 < key := h e.1 (by simp)
      have htail := ih fun k hk => h k (List.mem_cons_of_mem _ hk)
      rw [assign, if_neg (not_lt_of_gt he), if_neg (ne_of_gt he), htail, List.cons_append]

/-- Replaying a sorted map's entries rebuilds it. -/
theorem ofAssignments_of_sorted {entries : List (K × V)} (h : Sorted entries) :
    ofAssignments entries = entries := by
  induction entries using List.reverseRecOn with
  | nil => rfl
  | append_singleton entries e ih =>
      rw [Sorted, List.map_append, List.pairwise_append] at h
      obtain ⟨hinit, -, hlast⟩ := h
      rw [ofAssignments_concat, ih hinit]
      exact assign_of_forall_lt fun k hk => hlast k hk e.1 (by simp)

end SortedMaps
