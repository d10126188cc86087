import Mathlib.Data.List.Nodup

/-!
# Slices

`slice::chunks`, and what `sort_by_key` and `truncate` leave of a list in which no two elements
share a key.
-/

namespace Pwatch

/-- `slice::chunks`: the pieces of a list of `n` elements each, the last of them perhaps
shorter. -/
def chunks {α : Type} (n : Nat) (data : List α) : List (List α) :=
  (List.range ((data.length + n - 1) / n)).map fun i ↦ (data.drop (i * n)).take n

/-- Every piece begins inside the list. -/
theorem mul_lt_of_lt_length_chunks {α : Type} {n : Nat} (hn : 0 < n) {data : List α} {i : Nat}
    (h : i < (chunks n data).length) : i * n < data.length := by
  rw [chunks, List.length_map, List.length_range, ← Nat.succ_le_iff, Nat.le_div_iff_mul_le hn,
    Nat.succ_mul] at h
  omega

section

variable {α : Type} {n : Nat}

@[simp] theorem length_chunks (data : List α) :
    (chunks n data).length = (data.length + n - 1) / n := by
  rw [chunks, List.length_map, List.length_range]

theorem getElem_chunks {data : List α} {i : Nat} (h : i < (chunks n data).length) :
    (chunks n data)[i] = (data.drop (i * n)).take n := by
  simp only [chunks, List.getElem_map, List.getElem_range]

theorem chunks_nil (hn : 0 < n) : chunks n ([] : List α) = [] := by
  rw [← List.length_eq_zero_iff, length_chunks, List.length_nil, Nat.zero_add]
  exact Nat.div_eq_of_lt (Nat.sub_lt hn Nat.one_pos)

/-- A full piece in front. -/
theorem chunks_append (hn : 0 < n) {piece : List α} (h : piece.length = n) (data : List α) :
    chunks n (piece ++ data) = piece :: chunks n data := by
  have hcount : ((piece ++ data).length + n - 1) / n = (data.length + n - 1) / n + 1 := by
    rw [List.length_append, h, ← Nat.add_div_right _ hn]
    congr 1
    omega
  rw [chunks, hcount, List.range_succ_eq_map, List.map_cons, List.map_map, chunks]
  congr 1
  · simp [← h]
  · refine List.map_congr_left fun i _ ↦ ?_
    have hdrop : (i + 1) * n = piece.length + i * n := by rw [h, Nat.succ_mul, Nat.add_comm]
    simp only [Function.comp_apply, Nat.succ_eq_add_one, hdrop, List.drop_append,
      List.drop_of_length_le (Nat.le_add_right _ _), List.nil_append, Nat.add_sub_cancel_left]

/-- The last piece, when it is not full. -/
theorem chunks_of_length_le (hn : 0 < n) {piece : List α} (hne : piece ≠ [])
    (h : piece.length ≤ n) : chunks n piece = [piece] := by
  have hpos := List.length_pos_of_ne_nil hne
  have hcount : (piece.length + n - 1) / n = 1 := by
    rw [Nat.div_eq_iff hn]
    omega
  rw [chunks, hcount]
  simp [List.take_of_length_le h]

/-- Equal pieces, put together. -/
theorem length_flatten_of_forall {pieces : List (List α)} (h : ∀ piece ∈ pieces, piece.length = n) :
    pieces.flatten.length = n * pieces.length := by
  induction pieces with
  | nil => rfl
  | cons piece pieces ih =>
      rw [List.flatten_cons, List.length_append, h piece (.head _),
        ih fun other hmem ↦ h other (.tail _ hmem), List.length_cons, Nat.mul_succ, Nat.add_comm]

/-- Where an element of a piece is found when equal pieces are put together. -/
theorem getElem?_flatten_of_forall {pieces : List (List α)}
    (h : ∀ piece ∈ pieces, piece.length = n) {k : Nat} {piece : List α}
    (hk : pieces[k]? = some piece) {j : Nat} (hj : j < n) :
    pieces.flatten[n * k + j]? = piece[j]? := by
  induction pieces generalizing k with
  | nil => cases hk
  | cons first pieces ih =>
      have hfirst := h first (.head _)
      rw [List.flatten_cons]
      cases k with
      | zero =>
          obtain rfl : first = piece := Option.some.inj hk
          rw [Nat.mul_zero, Nat.zero_add, List.getElem?_append_left (hfirst ▸ hj)]
      | succ k =>
          rw [List.getElem?_append_right (by rw [hfirst, Nat.mul_succ]; omega), hfirst,
            Nat.mul_succ, Nat.add_right_comm, Nat.add_sub_cancel]
          exact ih (fun other hmem ↦ h other (.tail _ hmem)) hk

/-- The pieces make up the list. -/
theorem flatten_chunks (hn : 0 < n) (data : List α) : (chunks n data).flatten = data := by
  induction hlen : data.length using Nat.strongRecOn generalizing data with
  | ind k ih =>
      by_cases hle : data.length ≤ n
      · rcases eq_or_ne data [] with rfl | hne
        · rw [chunks_nil hn, List.flatten_nil]
        · rw [chunks_of_length_le hn hne hle, List.flatten_singleton]
      · have hpiece : (data.take n).length = n := List.length_take_of_le (by omega)
        have hrest : (data.drop n).length < k := by
          rw [List.length_drop, ← hlen]
          omega
        rw [← List.take_append_drop n data, chunks_append hn hpiece, List.flatten_cons,
          ih _ hrest _ rfl]

end

section

variable {α β : Type} [LE β] [LT β] [Std.IsLinearOrder β] [Std.LawfulOrderLT β] {key : α → β}
  {data : List α}

/-- Sorting by a key leaves the elements in ascending order of it. -/
theorem pairwise_mergeSort_lt [DecidableLE β] (h : (data.map key).Nodup) :
    (data.mergeSort fun a b ↦ key a ≤ key b).Pairwise fun a b ↦ key a < key b := by
  have hle : (data.mergeSort fun a b ↦ key a ≤ key b).Pairwise
      fun a b ↦ decide (key a ≤ key b) = true :=
    List.pairwise_mergeSort (by simpa using fun a b c : α ↦ Std.le_trans)
      (by simpa using fun a b : α ↦ Std.le_total) data
  have hne : (data.mergeSort fun a b ↦ key a ≤ key b).Pairwise fun a b ↦ key a ≠ key b :=
    List.pairwise_map.mp (((List.mergeSort_perm data _).map key).nodup_iff.mpr h)
  refine (hle.and hne).imp fun {a b} hab ↦ ?_
  exact Std.lt_of_le_of_ne (of_decide_eq_true hab.1) hab.2

/-- In ascending order the first of a list are those with few before them. -/
theorem mem_take_iff_countP [DecidableLT β] (h : data.Pairwise fun a b ↦ key a < key b) {a : α}
    {limit : Nat} :
    a ∈ data.take limit ↔ a ∈ data ∧ data.countP (fun b ↦ key b < key a) < limit := by
  induction data generalizing limit with
  | nil => simp
  | cons first data ih =>
      obtain ⟨hfirst, hdata⟩ := List.pairwise_cons.mp h
      cases limit with
      | zero => simp
      | succ limit =>
          rw [List.take_succ_cons, List.mem_cons, List.mem_cons, List.countP_cons, ih hdata]
          by_cases heq : a = first
          · have hnone : data.countP (fun b ↦ key b < key first) = 0 :=
              List.countP_eq_zero.mpr fun b hb hlt ↦
                Std.lt_irrefl (Std.lt_trans (hfirst b hb) (of_decide_eq_true hlt))
            simp [heq, hnone, Std.lt_irrefl]
          · by_cases hmem : a ∈ data
            · simp [heq, hmem, hfirst a hmem]
            · simp [heq, hmem]

end

end Pwatch
