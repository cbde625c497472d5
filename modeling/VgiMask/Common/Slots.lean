import VgiMask.Common.Outcome
import Mathlib.Data.List.Forall2
import Mathlib.Data.List.Induction

/-!
# Slots of a text

A predicate marks some symbols of a text as slots; the other symbols are structure. Reading
the slots in order and writing new slot symbols back is a lens: what is written is read
back, the last rewrite wins, and rewriting the slots keeps the skeleton. A transform of slot
sequences therefore acts on every class of texts with one skeleton.
-/

namespace Common

variable {σ : Type} (p : σ → Bool)

/-- The text with its slots blanked out. -/
def skeleton (xs : List σ) : List (Option σ) :=
  xs.map fun x => if p x then none else some x

/-- Write new symbols over the slots in order, stopping when none are left. -/
def fill : List σ → List σ → List σ
  | [], _ => []
  | x :: xs, [] => x :: xs
  | x :: xs, y :: ys => if p x then y :: fill xs ys else x :: fill xs (y :: ys)

/-- The positions of the slots, counted from `start`. -/
def slotIndices : ℕ → List σ → List ℕ
  | _, [] => []
  | start, x :: xs => if p x then start :: slotIndices (start + 1) xs else slotIndices (start + 1) xs

variable {p} {xs ys zs : List σ}

/-- Writing nothing changes nothing. -/
@[simp] theorem fill_nil_right (xs : List σ) : fill p xs [] = xs := by
  cases xs <;> rfl

/-- A structural symbol stays in front of the rewritten rest. -/
theorem fill_cons_structure {x : σ} (hx : p x = false) (xs ys : List σ) :
    fill p (x :: xs) ys = x :: fill p xs ys := by
  cases ys with
  | nil => simp
  | cons y ys => simp [fill, hx]

/-- A slot takes the next new symbol. -/
theorem fill_cons_slot {x : σ} (hx : p x = true) (y : σ) (xs ys : List σ) :
    fill p (x :: xs) (y :: ys) = y :: fill p xs ys := by
  simp [fill, hx]

/-- Rewriting keeps the length. -/
@[simp] theorem fill_length (xs ys : List σ) : (fill p xs ys).length = xs.length := by
  induction xs generalizing ys with
  | nil => rfl
  | cons x xs ih =>
    cases ys with
    | nil => simp
    | cons y ys => by_cases hx : p x <;> simp [fill, hx, ih]

/-- Writing back the symbols that were read changes nothing. -/
@[simp] theorem fill_filter_self (xs : List σ) : fill p xs (xs.filter p) = xs := by
  induction xs with
  | nil => rfl
  | cons x xs ih =>
    by_cases hx : p x = true
    · rw [List.filter_cons_of_pos hx, fill_cons_slot hx, ih]
    · rw [List.filter_cons_of_neg hx, fill_cons_structure (by simpa using hx), ih]

/-- A complete rewrite is read back exactly. -/
theorem filter_fill (hslots : ∀ y ∈ ys, p y) (hlen : ys.length = (xs.filter p).length) :
    (fill p xs ys).filter p = ys := by
  induction xs generalizing ys with
  | nil => simpa [fill, eq_comm] using hlen
  | cons x xs ih =>
    by_cases hx : p x = true
    · rw [List.filter_cons_of_pos hx] at hlen
      cases ys with
      | nil => simp at hlen
      | cons y ys =>
        rw [fill_cons_slot hx, List.filter_cons_of_pos (hslots y List.mem_cons_self),
          ih (fun z hz => hslots z (List.mem_cons_of_mem _ hz)) (by simpa using hlen)]
    · rw [List.filter_cons_of_neg hx] at hlen
      rw [fill_cons_structure (by simpa using hx), List.filter_cons_of_neg hx, ih hslots hlen]

/-- Rewriting slots by slot symbols keeps the skeleton. -/
theorem skeleton_fill (hslots : ∀ y ∈ ys, p y) (xs : List σ) :
    skeleton p (fill p xs ys) = skeleton p xs := by
  induction xs generalizing ys with
  | nil => rfl
  | cons x xs ih =>
    by_cases hx : p x = true
    · cases ys with
      | nil => simp
      | cons y ys =>
        have hy : p y = true := hslots y List.mem_cons_self
        have htail := ih fun z hz => hslots z (List.mem_cons_of_mem _ hz)
        rw [fill_cons_slot hx]
        simpa [skeleton, hx, hy] using htail
    · rw [fill_cons_structure (by simpa using hx)]
      simpa [skeleton, hx] using ih hslots

/-- With more symbols blanked out, equal skeletons stay equal. -/
theorem skeleton_eq_of_imp {q : σ → Bool} {zs : List σ} (himp : ∀ x, p x = true → q x = true)
    (h : skeleton p xs = skeleton p zs) : skeleton q xs = skeleton q zs := by
  have hcoarser (us : List σ) :
      skeleton q us = (skeleton p us).map fun o => o.bind fun x => if q x then none else some x := by
    rw [skeleton, skeleton, List.map_map]
    apply List.map_congr_left
    intro x _
    by_cases hx : p x = true
    · simp [hx, himp x hx]
    · simp [hx]
  rw [hcoarser, hcoarser, h]

/-- Texts with one skeleton have equally many slots. -/
theorem length_filter_of_skeleton_eq (h : skeleton p xs = skeleton p ys) :
    (xs.filter p).length = (ys.filter p).length := by
  have hcount (zs : List σ) : (zs.filter p).length = (skeleton p zs).countP (·.isNone) := by
    rw [skeleton, List.countP_map, ← List.countP_eq_length_filter]
    congr 1
    funext z
    by_cases hz : p z <;> simp [hz]
  rw [hcount, hcount, h]

/-- A complete rewrite sees only the skeleton of the text. -/
theorem fill_congr_skeleton (h : skeleton p xs = skeleton p ys)
    (hlen : zs.length = (xs.filter p).length) : fill p xs zs = fill p ys zs := by
  induction xs generalizing ys zs with
  | nil =>
    cases ys with
    | nil => rfl
    | cons y ys => simp [skeleton] at h
  | cons x xs ih =>
    cases ys with
    | nil => simp [skeleton] at h
    | cons y ys =>
      obtain ⟨hhead, htail⟩ := List.cons.inj h
      by_cases hx : p x = true
      · have hy : p y = true := by
          by_contra hy
          simp [hx, hy] at hhead
        rw [List.filter_cons_of_pos hx] at hlen
        cases zs with
        | nil => simp at hlen
        | cons z zs =>
          rw [fill_cons_slot hx, fill_cons_slot hy, ih htail (by simpa using hlen)]
      · have hy : p y = false := by
          by_contra hy
          simp [hx, hy] at hhead
        have hxy : x = y := by simpa [hx, hy] using hhead
        rw [List.filter_cons_of_neg hx] at hlen
        rw [fill_cons_structure (by simpa using hx), fill_cons_structure hy, ih htail hlen, hxy]

/-- The last complete rewrite wins. -/
theorem fill_fill (hslots : ∀ y ∈ ys, p y) (hlen : zs.length = (xs.filter p).length) :
    fill p (fill p xs ys) zs = fill p xs zs := by
  have hskeleton := skeleton_fill hslots xs
  exact fill_congr_skeleton hskeleton (hlen.trans (length_filter_of_skeleton_eq hskeleton).symm)

/-- Rewriting a text that is all slots returns the new symbols. -/
theorem fill_of_forall_slot (hxs : ∀ x ∈ xs, p x) (hlen : ys.length = xs.length) :
    fill p xs ys = ys := by
  induction xs generalizing ys with
  | nil => simpa [fill, eq_comm] using hlen
  | cons x xs ih =>
    cases ys with
    | nil => simp at hlen
    | cons y ys =>
      rw [fill_cons_slot (hxs x List.mem_cons_self),
        ih (fun z hz => hxs z (List.mem_cons_of_mem _ hz)) (by simpa using hlen)]

/-- Consecutive parts of a text are rewritten one after the other. -/
theorem fill_append (hlen : ys.length = (xs.filter p).length) (xs' ys' : List σ) :
    fill p (xs ++ xs') (ys ++ ys') = fill p xs ys ++ fill p xs' ys' := by
  induction xs generalizing ys with
  | nil =>
    have hys : ys = [] := List.eq_nil_of_length_eq_zero (by simpa using hlen)
    subst hys
    rfl
  | cons x xs ih =>
    by_cases hx : p x = true
    · rw [List.filter_cons_of_pos hx] at hlen
      cases ys with
      | nil => simp at hlen
      | cons y ys =>
        simp only [List.cons_append]
        rw [fill_cons_slot hx, fill_cons_slot hx, ih (by simpa using hlen), List.cons_append]
    · rw [List.filter_cons_of_neg hx] at hlen
      have hx' : p x = false := by simpa using hx
      rw [List.cons_append, fill_cons_structure hx', fill_cons_structure hx', ih hlen,
        List.cons_append]

/-- A structural symbol occurs in a text exactly when its skeleton shows it. -/
theorem mem_iff_of_skeleton_eq {c : σ} (hc : p c = false) (h : skeleton p xs = skeleton p ys) :
    c ∈ xs ↔ c ∈ ys := by
  have hmem (zs : List σ) : c ∈ zs ↔ some c ∈ skeleton p zs := by
    constructor
    · intro hz
      exact List.mem_map.mpr ⟨c, hz, by simp [hc]⟩
    · intro hz
      obtain ⟨z, hz, heq⟩ := List.mem_map.mp hz
      by_cases hpz : p z
      · simp [hpz] at heq
      · have hzc : z = c := by simpa [hpz] using heq
        exact hzc ▸ hz
  rw [hmem, hmem, h]

/-- Texts with one skeleton agree on structure and have slots at the same positions. -/
theorem getElem?_of_skeleton_eq (h : skeleton p xs = skeleton p ys) {i : ℕ} {x : σ}
    (hx : xs[i]? = some x) :
    (p x = false → ys[i]? = some x) ∧ (p x = true → ∃ y, ys[i]? = some y ∧ p y = true) := by
  have hat : (skeleton p xs)[i]? = (skeleton p ys)[i]? := by rw [h]
  simp only [skeleton, List.getElem?_map, hx, Option.map_some] at hat
  obtain ⟨y, hy, heq⟩ := Option.map_eq_some_iff.mp hat.symm
  constructor
  · intro hpx
    by_cases hpy : p y
    · simp [hpx, hpy] at heq
    · have hyx : y = x := by simpa [hpx, hpy] using heq
      exact hyx ▸ hy
  · intro hpx
    refine ⟨y, hy, ?_⟩
    by_contra hpy
    simp [hpx, hpy] at heq

/-- A size that is the same for all slots is determined by the skeleton. -/
theorem sum_map_of_skeleton_eq (size : σ → ℕ) (k : ℕ) (hsize : ∀ x, p x = true → size x = k)
    (h : skeleton p xs = skeleton p ys) : (xs.map size).sum = (ys.map size).sum := by
  have hsum (zs : List σ) : zs.map size = (skeleton p zs).map fun o => o.elim k size := by
    rw [skeleton, List.map_map]
    apply List.map_congr_left
    intro z _
    by_cases hz : p z = true
    · simp [hz, hsize z hz]
    · simp [hz]
  rw [hsum, hsum, h]

/-- There is one position for each slot. -/
theorem slotIndices_length (start : ℕ) (xs : List σ) :
    (slotIndices p start xs).length = (xs.filter p).length := by
  induction xs generalizing start with
  | nil => rfl
  | cons x xs ih => by_cases hx : p x <;> simp [slotIndices, hx, ih]

/-- Positions are counted from the start. -/
theorem le_of_mem_slotIndices {start j : ℕ} (h : j ∈ slotIndices p start xs) : start ≤ j := by
  induction xs generalizing start with
  | nil => cases h
  | cons x xs ih =>
    by_cases hx : p x = true
    · simp only [slotIndices, hx, if_true] at h
      rcases List.mem_cons.mp h with rfl | h
      · exact Nat.le_refl _
      · exact Nat.le_of_succ_le (ih h)
    · simp only [slotIndices, hx, Bool.false_eq_true, if_false] at h
      exact Nat.le_of_succ_le (ih h)

/-- The positions are those of the slots. -/
theorem mem_slotIndices_iff {start i : ℕ} :
    start + i ∈ slotIndices p start xs ↔ ∃ x, xs[i]? = some x ∧ p x = true := by
  induction xs generalizing start i with
  | nil => simp [slotIndices]
  | cons x xs ih =>
    cases i with
    | zero =>
      have hlater : start ∉ slotIndices p (start + 1) xs := fun h =>
        Nat.not_succ_le_self start (le_of_mem_slotIndices h)
      by_cases hx : p x = true <;> simp [slotIndices, hx, hlater]
    | succ i =>
      have hshift : start + (i + 1) = start + 1 + i := by omega
      rw [List.getElem?_cons_succ, ← ih, hshift]
      by_cases hx : p x = true
      · simp only [slotIndices, hx, if_true, List.mem_cons]
        exact or_iff_right (by omega)
      · simp only [slotIndices, hx, Bool.false_eq_true, if_false]

/-- Texts with one skeleton have their slots at the same positions. -/
theorem slotIndices_of_skeleton_eq (start : ℕ) (h : skeleton p xs = skeleton p ys) :
    slotIndices p start xs = slotIndices p start ys := by
  induction xs generalizing start ys with
  | nil =>
    cases ys with
    | nil => rfl
    | cons y ys => simp [skeleton] at h
  | cons x xs ih =>
    cases ys with
    | nil => simp [skeleton] at h
    | cons y ys =>
      obtain ⟨hhead, htail⟩ := List.cons.inj h
      have hpxy : p x = p y := by
        by_cases hx : p x <;> by_cases hy : p y <;> simp_all
      simp only [slotIndices, hpxy, ih (start + 1) htail]

/-- Assigning a slot symbol to a slot keeps the skeleton. -/
theorem skeleton_set {i : ℕ} {x y : σ} (hi : xs[i]? = some x) (hx : p x = true) (hy : p y = true) :
    skeleton p (xs.set i y) = skeleton p xs := by
  obtain ⟨hlt, hget⟩ := List.getElem?_eq_some_iff.mp hi
  have hlt' : i < (skeleton p xs).length := by rwa [skeleton, List.length_map]
  have hself : (if p y then none else some y) = (skeleton p xs)[i] := by
    simp [skeleton, hget, hx, hy]
  rw [skeleton, List.map_set, hself]
  exact List.set_getElem_self _

/-- Texts that differ at one slot at most, and have equally many slots, have one skeleton. -/
theorem skeleton_eq_of_set_eq {i : ℕ} {x y : σ} (hi : xs[i]? = some x) (hx : p x = true)
    (hy : p y = true) (hset : xs.set i y = ys.set i y)
    (hlen : (xs.filter p).length = (ys.filter p).length) : skeleton p xs = skeleton p ys := by
  have hsize : xs.length = ys.length := by simpa using congrArg List.length hset
  obtain ⟨hlt, -⟩ := List.getElem?_eq_some_iff.mp hi
  have hxs := skeleton_set hi hx hy
  have hyi : ys[i]? = some ys[i] := List.getElem?_eq_getElem (hsize ▸ hlt)
  by_cases hslot : p ys[i] = true
  · rw [← hxs, hset, skeleton_set hyi hslot hy]
  · have hcount := length_filter_of_skeleton_eq hxs
    rw [hset, hlen, ← List.countP_eq_length_filter, ← List.countP_eq_length_filter,
      List.countP_set (hsize ▸ hlt), if_neg hslot, if_pos hy] at hcount
    omega

/-- Rewriting one slot assigns at its position. -/
theorem fill_set (xs : List σ) (k start i : ℕ) (y : σ)
    (hi : (slotIndices p start xs)[k]? = some (start + i)) :
    fill p xs ((xs.filter p).set k y) = xs.set i y := by
  induction xs generalizing start k i with
  | nil => rfl
  | cons x xs ih =>
    by_cases hx : p x = true
    · rw [List.filter_cons_of_pos hx]
      simp only [slotIndices, hx, if_true] at hi
      cases k with
      | zero =>
        have h0 : i = 0 := by simpa using hi
        subst h0
        rw [List.set_cons_zero, fill_cons_slot hx, fill_filter_self, List.set_cons_zero]
      | succ k =>
        rw [List.getElem?_cons_succ] at hi
        have hle := le_of_mem_slotIndices (List.mem_of_getElem? hi)
        obtain ⟨j, rfl⟩ : ∃ j, i = j + 1 := ⟨i - 1, by omega⟩
        rw [List.set_cons_succ, fill_cons_slot hx, List.set_cons_succ,
          ih k (start + 1) j (by rw [hi]; congr 1; omega)]
    · have hx' : p x = false := by simpa using hx
      rw [List.filter_cons_of_neg hx]
      simp only [slotIndices, hx', Bool.false_eq_true, if_false] at hi
      have hle := le_of_mem_slotIndices (List.mem_of_getElem? hi)
      obtain ⟨j, rfl⟩ : ∃ j, i = j + 1 := ⟨i - 1, by omega⟩
      rw [fill_cons_structure hx', List.set_cons_succ,
        ih k (start + 1) j (by rw [hi]; congr 1; omega)]

/-- Fill the gaps of a blanked text in order. -/
def fillGaps : List (Option σ) → List σ → List σ
  | [], _ => []
  | some x :: gaps, ys => x :: fillGaps gaps ys
  | none :: gaps, [] => fillGaps gaps []
  | none :: gaps, y :: ys => y :: fillGaps gaps ys

/-- A text behind its skeleton is given back by its slots, and what follows is kept. -/
theorem fillGaps_skeleton_append (xs rest : List σ) :
    fillGaps (skeleton p xs ++ rest.map some) (xs.filter p) = xs ++ rest := by
  induction xs with
  | nil =>
    induction rest with
    | nil => rfl
    | cons x rest ih => exact congrArg (x :: ·) ih
  | cons x xs ih =>
    by_cases hx : p x = true
    · simpa [skeleton, hx, fillGaps] using ih
    · simpa [skeleton, hx, fillGaps] using ih

end Common
