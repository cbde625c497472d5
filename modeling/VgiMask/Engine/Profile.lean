import VgiMask.Engine.Card

/-!
# Profiles as lenses on text

A profile splits a value into the body it encrypts and the tail it keeps, and the slots of a
value are the encryptable characters of its body. Rewriting them is a lens: the rewritten
value is split at the same place, its slots are the new ones, its shape is the old one, and
a value is determined by its shape and slots. Each profile is then one transform of slot
strings, and the code's dispatch is that transform carried through the lens.
-/

namespace VgiMask

open Common

/-- The ASCII digits and letters are the symbols of the alphanumeric alphabet. -/
theorem isAlphanum_eq_contains (c : Char) : c.isAlphanum = ALNUM.contains c := by
  rw [Bool.eq_iff_iff, Alphabet.contains_iff]
  constructor
  · intro h
    have hrange : c.toNat < 123 := by
      change ((decide ('A'.val ≤ c.val ∧ c.val ≤ 'Z'.val) ||
        (decide ('a'.val ≤ c.val) && decide (c.val ≤ 'z'.val))) ||
        (decide ('0'.val ≤ c.val) && decide (c.val ≤ '9'.val))) = true at h
      simp only [Bool.or_eq_true, decide_eq_true_eq, UInt32.le_iff_toNat_le, Bool.and_eq_true] at h
      change c.val.toNat < 123
      have hZ : 'Z'.val.toNat = 90 := rfl
      have hz : 'z'.val.toNat = 122 := rfl
      have h9 : '9'.val.toNat = 57 := rfl
      omega
    have hall : ∀ n : Fin 123, (Char.ofNat n).isAlphanum = true → Char.ofNat n ∈ ALNUM.symbols := by
      decide
    have hc := hall ⟨c.toNat, hrange⟩
    rw [Char.ofNat_toNat] at hc
    exact hc h
  · intro h
    have hall : ∀ d ∈ ALNUM.symbols, d.isAlphanum = true :=
      List.all_iff_forall_prop.mp (by decide)
    exact hall c h

namespace Format

/-- The alphabet of the encryptable characters. -/
def alphabet : Format → Alphabet
  | .digits | .card | .ssn => DIGITS
  | .alnum | .email => ALNUM

/-- The characters a profile may replace: ASCII digits, or ASCII digits and letters. -/
def encryptable : Format → Char → Bool
  | .digits | .card | .ssn => Char.isDigit
  | .alnum | .email => Char.isAlphanum

/-- The encrypted body and the kept tail of a value. -/
def split (f : Format) (v : Text) : Text × Text :=
  match f with
  | .email =>
    match rsplitOnce '@' v with
    | some (localPart, domain) => if domain.isEmpty then (v, []) else (localPart, '@' :: domain)
    | none => (v, [])
  | _ => (v, [])

/-- The part of a value whose encryptable characters are transformed. -/
def body (f : Format) (v : Text) : Text := (f.split v).1

/-- The part of a value that is kept as it is. -/
def tail (f : Format) (v : Text) : Text := (f.split v).2

/-- The encryptable characters of a value, in order. -/
def slots (f : Format) (v : Text) : Text := (f.body v).filter f.alphabet.contains

/-- The value with its encryptable characters blanked out. -/
def shape (f : Format) (v : Text) : List (Option Char) :=
  skeleton f.alphabet.contains (f.body v) ++ (f.tail v).map some

/-- The value with its encryptable characters replaced. -/
def rebuild (f : Format) (v new : Text) : Text := fill f.alphabet.contains (f.body v) new ++ f.tail v

/-- A complete replacement of the encryptable characters. -/
structure Fits (f : Format) (v new : Text) : Prop where
  length_eq : new.length = (f.slots v).length
  contains : ∀ c ∈ new, f.alphabet.contains c = true

variable {f : Format} {v w new new' : Text}

/-- Body and tail are the value. -/
theorem body_append_tail (f : Format) (v : Text) : f.body v ++ f.tail v = v := by
  cases f with
  | email =>
    unfold body tail split
    dsimp only
    split
    · rename_i localPart domain hsplit
      split
      · exact List.append_nil v
      · exact ((rsplitOnce_eq_some_iff '@' v localPart domain).mp hsplit).1.symm
    · exact List.append_nil v
  | _ => exact List.append_nil v

/-- The slots of a value are encryptable. -/
theorem contains_of_mem_slots : ∀ c ∈ f.slots v, f.alphabet.contains c = true :=
  fun _ hc => (List.mem_filter.mp hc).2

/-- The symbols of a profile's alphabet are its encryptable characters. -/
theorem contains_eq_encryptable (f : Format) : f.alphabet.contains = f.encryptable := by
  funext c
  cases f with
  | digits | card | ssn => exact (isDigit_eq_contains c).symm
  | alnum | email => exact (isAlphanum_eq_contains c).symm

/-- The at sign is structural in every alphabet. -/
theorem contains_at (f : Format) : f.alphabet.contains '@' = false := by
  cases f <;> decide

/-- A rewritten value is split where the value was. -/
theorem split_rebuild (h : f.Fits v new) :
    f.split (f.rebuild v new) = (fill f.alphabet.contains (f.body v) new, f.tail v) := by
  obtain ⟨hlen, hcontains⟩ := h
  cases f with
  | email =>
    have hat : ALNUM.contains '@' = false := contains_at .email
    cases hv : rsplitOnce '@' v with
    | none =>
      have hsplit : Format.split .email v = (v, []) := by simp [split, hv]
      have hnot := (rsplitOnce_eq_none_iff '@' v).mp hv
      have hnot' : '@' ∉ fill ALNUM.contains v new := fun hmem =>
        hnot ((mem_iff_of_skeleton_eq hat (skeleton_fill hcontains v)).mp hmem)
      have hnone := (rsplitOnce_eq_none_iff '@' _).mpr hnot'
      simp only [rebuild, body, tail, hsplit, alphabet, List.append_nil]
      simp only [split, hnone]
    | some parts =>
      obtain ⟨localPart, domain⟩ := parts
      obtain ⟨hvalue, hdomain⟩ := (rsplitOnce_eq_some_iff '@' v localPart domain).mp hv
      cases domain with
      | nil =>
        have hsplit : Format.split .email v = (v, []) := by simp [split, hv]
        have hslots : (Format.slots .email v).length = (localPart.filter ALNUM.contains).length := by
          simp only [slots, body, hsplit, alphabet]
          rw [hvalue, List.filter_append, List.filter_cons_of_neg (by simp [hat])]
          simp
        have hfill : fill ALNUM.contains v new = fill ALNUM.contains localPart new ++ ['@'] := by
          have happend := fill_append (hlen.trans hslots) ['@'] []
          rwa [List.append_nil, fill_nil_right, ← hvalue] at happend
        have hnil : '@' ∉ ([] : Text) := List.not_mem_nil
        have hagain := rsplitOnce_append hnil (fill ALNUM.contains localPart new)
        simp only [rebuild, body, tail, hsplit, alphabet, List.append_nil]
        simp [split, hfill, hagain]
      | cons d domain =>
        have hsplit : Format.split .email v = (localPart, '@' :: d :: domain) := by simp [split, hv]
        have hagain := rsplitOnce_append hdomain (fill ALNUM.contains localPart new)
        simp only [rebuild, body, tail, hsplit, alphabet]
        simp [split, hagain]
  | _ => simp [rebuild, split, body, tail, alphabet]

/-- The new body is the rewritten body. -/
theorem body_rebuild (h : f.Fits v new) :
    f.body (f.rebuild v new) = fill f.alphabet.contains (f.body v) new := by
  rw [body, split_rebuild h]

/-- The tail is kept. -/
theorem tail_rebuild (h : f.Fits v new) : f.tail (f.rebuild v new) = f.tail v := by
  rw [tail, split_rebuild h]

/-- The slots of a rewritten value are the new ones. -/
theorem slots_rebuild (h : f.Fits v new) : f.slots (f.rebuild v new) = new := by
  rw [slots, body_rebuild h]
  exact filter_fill h.contains h.length_eq

/-- Rewriting keeps the shape. -/
theorem shape_rebuild (h : f.Fits v new) : f.shape (f.rebuild v new) = f.shape v := by
  rw [shape, body_rebuild h, tail_rebuild h, skeleton_fill h.contains, shape]

/-- The last rewrite wins. -/
theorem rebuild_rebuild (h : f.Fits v new) (h' : new'.length = (f.slots v).length) :
    f.rebuild (f.rebuild v new) new' = f.rebuild v new' := by
  rw [rebuild, body_rebuild h, tail_rebuild h, fill_fill h.contains h', rebuild]

/-- Rewriting a value by its own slots changes nothing. -/
theorem rebuild_slots (f : Format) (v : Text) : f.rebuild v (f.slots v) = v := by
  rw [rebuild, slots, fill_filter_self, body_append_tail]

/-- Equal rewritten values have equal new slots, and the values differ only in their slots. -/
theorem rebuild_eq_rebuild (h : f.Fits v new) (h' : f.Fits w new')
    (heq : f.rebuild v new = f.rebuild w new') :
    new = new' ∧ ∀ ys, ys.length = (f.slots v).length → f.rebuild v ys = f.rebuild w ys := by
  have hnew : new = new' := by rw [← slots_rebuild h, heq, slots_rebuild h']
  refine ⟨hnew, fun ys hys => ?_⟩
  have hys' : ys.length = (f.slots w).length := by
    rw [hys, ← h.length_eq, hnew, h'.length_eq]
  rw [← rebuild_rebuild h hys, heq, rebuild_rebuild h' hys']

end Format

end VgiMask
