import VgiMask.Engine.RoundTrip
import VgiMask.Engine.FormatPreservation
import VgiMask.Engine.SmallDomain
import VgiMask.Common.Runs

/-!
# Layers of encryption

The functions can be applied to each other's results, under different profiles and keys and in
both directions. However many layers there are, only letters and digits change and none of
them moves. Layers without cards permute the values of one alphanumeric shape, and the
opposite directions in reverse order are the inverse permutation. A card layer forgets the
sixteenth digit, so layers with cards are undone when each card layer meets a valid number.
Decrypting under one key and encrypting under another moves a ciphertext between keys.
-/

namespace VgiMask

open Common

/-- One application of the engine. -/
structure Layer where
  forward : Bool
  format : Format
  key : Text

/-- Apply a layer to a value. -/
def Layer.apply (C : Crypto) (l : Layer) (v : Text) : Outcome MaskError Text :=
  fpe C l.forward v l.format l.key

/-- The opposite direction under the same profile and key. -/
def Layer.opposite (l : Layer) : Layer := { l with forward := !l.forward }

/-- Apply layers one after the other. -/
def runLayers (C : Crypto) (layers : List Layer) (v : Text) : Outcome MaskError Text :=
  runSteps (Layer.apply C) layers v

/-- The opposite layers in reverse order. -/
def undoLayers (layers : List Layer) : List Layer := (layers.map Layer.opposite).reverse

/-- Every layer meets a settled value. -/
def SettledAlong (C : Crypto) : List Layer → Text → Prop
  | [], _ => True
  | l :: layers, v =>
    l.format.settled v = v ∧ ∀ w, l.apply C v = .ok w → SettledAlong C layers w

/-- A value in reach of FF1, with the alphanumeric shape of another. -/
structure InShape (v w : Text) : Prop where
  shape_eq : Format.alnum.shape w = Format.alnum.shape v
  length_le : (Format.alnum.slots w).length ≤ u32Max

section Shapes

variable {C : Crypto} {f : Format} {v w new : Text}

/-- Every encryptable character is a letter or a digit. -/
theorem alnum_contains_of_contains {c : Char} (h : f.alphabet.contains c = true) :
    ALNUM.contains c = true := by
  cases f with
  | alnum | email => exact h
  | digits | card | ssn =>
    have hdigit : ∀ d ∈ DIGITS.symbols, ALNUM.contains d = true :=
      List.all_iff_forall_prop.mp (by decide)
    exact hdigit c (Alphabet.contains_iff.mp h)

/-- The letters and digits of a value are the slots of the alphanumeric profile. -/
theorem alnum_shape (v : Text) : Format.alnum.shape v = skeleton ALNUM.contains v := List.append_nil _

/-- A profile has no more slots than the alphanumeric one. -/
theorem slots_length_le_alnum (f : Format) (v : Text) :
    (f.slots v).length ≤ (Format.alnum.slots v).length := by
  have hbody : ((f.body v).filter f.alphabet.contains).length ≤
      ((f.body v).filter ALNUM.contains).length :=
    (List.monotone_filter_right _ fun _ => alnum_contains_of_contains).length_le
  have hwhole : v.filter ALNUM.contains =
      (f.body v).filter ALNUM.contains ++ (f.tail v).filter ALNUM.contains := by
    rw [← List.filter_append, Format.body_append_tail]
  change ((f.body v).filter f.alphabet.contains).length ≤ (v.filter ALNUM.contains).length
  rw [hwhole, List.length_append]
  omega

/-- Rewriting under any profile keeps the alphanumeric shape. -/
theorem alnum_shape_rebuild (h : f.Fits v new) :
    Format.alnum.shape (f.rebuild v new) = Format.alnum.shape v := by
  have hbody : skeleton ALNUM.contains (fill f.alphabet.contains (f.body v) new) =
      skeleton ALNUM.contains (f.body v) :=
    skeleton_eq_of_imp (fun _ => alnum_contains_of_contains) (skeleton_fill h.contains (f.body v))
  have happend (xs ys : Text) :
      skeleton ALNUM.contains (xs ++ ys) = skeleton ALNUM.contains xs ++ skeleton ALNUM.contains ys :=
    List.map_append
  rw [alnum_shape, alnum_shape, Format.rebuild, happend, hbody, ← happend, Format.body_append_tail]

end Shapes

section Layers

variable {C : Crypto} {l : Layer} {layers : List Layer} {v w out : Text}

/-- The opposite of the opposite layers in reverse order are the layers. -/
theorem undoLayers_undoLayers (layers : List Layer) : undoLayers (undoLayers layers) = layers := by
  have hopposite : Layer.opposite ∘ Layer.opposite = id := by
    funext ⟨forward, format, key⟩
    simp [Layer.opposite]
  simp [undoLayers, List.map_reverse, hopposite]

/-- Undoing runs the opposite layers in reverse order. -/
theorem runLayers_undoLayers (C : Crypto) (layers : List Layer) (v : Text) :
    runLayers C (undoLayers layers) v =
      runSteps (fun l => Layer.apply C l.opposite) layers.reverse v := by
  rw [undoLayers, ← List.map_reverse, runLayers]
  induction layers.reverse generalizing v with
  | nil => rfl
  | cons l rest ih =>
    rw [List.map_cons, runSteps, runSteps]
    exact congrArg (l.opposite.apply C v >>= ·) (funext ih)

/-- A layer returns a value of the shape. -/
theorem apply_returns (hacc : Ff1Accepts C Ff1Domain) (hpres : Ff1Preserves C Ff1Domain)
    (hkey : l.key ≠ []) (hw : InShape v w) : ∃ out, l.apply C w = .ok out ∧ InShape v out := by
  have hslots : (l.format.slots w).length ≤ u32Max :=
    (slots_length_le_alnum l.format w).trans hw.length_le
  have hcov : l.format.Covers Ff1Domain (l.format.slots w).length := covers_ff1Domain hslots
  obtain ⟨out, hout⟩ : ∃ out, fpe C l.forward w l.format l.key = .ok out :=
    fpe_returns hkey hacc hpres hcov
  obtain ⟨new, -, hfits, rfl⟩ := fpe_eq_ok hkey hpres hcov hout
  have hshape := alnum_shape_rebuild hfits
  refine ⟨_, hout, hshape.trans hw.shape_eq, ?_⟩
  rw [slots_length_of_shape_eq hshape]
  exact hw.length_le

/-- The opposite layer gives the settled value back. -/
theorem apply_opposite (hpres : Ff1Preserves C Ff1Domain) (hinv : Ff1Inverse C Ff1Domain)
    (hkey : l.key ≠ []) (hw : InShape v w) (hout : l.apply C w = .ok out) :
    l.opposite.apply C out = .ok (l.format.settled w) := by
  have hslots : (l.format.slots w).length ≤ u32Max :=
    (slots_length_le_alnum l.format w).trans hw.length_le
  exact fpe_inverse hkey hpres hinv (covers_ff1Domain hslots) hout

/-- Layers that meet settled values are undone one by one. -/
theorem undoneAlong_of_settledAlong (hacc : Ff1Accepts C Ff1Domain)
    (hpres : Ff1Preserves C Ff1Domain) (hinv : Ff1Inverse C Ff1Domain)
    (hkeys : ∀ l ∈ layers, l.key ≠ []) (hw : InShape v w) (hsettled : SettledAlong C layers w) :
    UndoneAlong (Layer.apply C) (fun l => Layer.apply C l.opposite) layers w := by
  induction layers generalizing w with
  | nil => exact trivial
  | cons l layers ih =>
    obtain ⟨hkey, hkeys⟩ := List.forall_mem_cons.mp hkeys
    intro out hout
    obtain ⟨out', hout', hshape⟩ := apply_returns hacc hpres hkey hw
    obtain rfl := Outcome.ok.inj (hout.symm.trans hout')
    have hback := apply_opposite hpres hinv hkey hw hout
    rw [hsettled.1] at hback
    exact ⟨hback, ih hkeys hshape (hsettled.2 out hout)⟩

/-- Without a card layer every value met is settled. -/
theorem settledAlong_of_ne_card (hcards : ∀ l ∈ layers, l.format ≠ .card) :
    SettledAlong C layers w := by
  induction layers generalizing w with
  | nil => exact trivial
  | cons l layers ih =>
    obtain ⟨hcard, hcards⟩ := List.forall_mem_cons.mp hcards
    refine ⟨?_, fun out _ => ih hcards⟩
    apply settled_of_not_isCard
    rw [Bool.eq_false_iff]
    exact fun h => hcard (isCard_eq_true_iff.mp h).1

/-- Card layers meet settled values behind a settled value. -/
theorem settledAlong_of_card (hpres : Ff1Preserves C Ff1Domain) (hkeys : ∀ l ∈ layers, l.key ≠ [])
    (hcards : ∀ l ∈ layers, l.format = .card) (hacc : Ff1Accepts C Ff1Domain) (hw : InShape v w)
    (hsettled : Format.card.settled w = w) : SettledAlong C layers w := by
  induction layers generalizing w with
  | nil => exact trivial
  | cons l layers ih =>
    obtain ⟨hkey, hkeys⟩ := List.forall_mem_cons.mp hkeys
    obtain ⟨hcard, hcards⟩ := List.forall_mem_cons.mp hcards
    refine ⟨hcard ▸ hsettled, fun out hout => ?_⟩
    obtain ⟨out', hout', hshape⟩ := apply_returns hacc hpres hkey hw
    obtain rfl := Outcome.ok.inj (hout.symm.trans hout')
    have hslots : (l.format.slots w).length ≤ u32Max :=
      (slots_length_le_alnum l.format w).trans hw.length_le
    have hout_settled := settled_of_fpe hkey hpres (covers_ff1Domain hslots) hout
    exact ih hkeys hcards hshape (hcard ▸ hout_settled)

/-- Layers return a value of the shape, and it is undone where they meet settled values. -/
theorem runLayers_returns (hacc : Ff1Accepts C Ff1Domain) (hpres : Ff1Preserves C Ff1Domain)
    (hinv : Ff1Inverse C Ff1Domain) (hkeys : ∀ l ∈ layers, l.key ≠ []) (hw : InShape v w) :
    ∃ out, runLayers C layers w = .ok out ∧ InShape v out ∧
      (SettledAlong C layers w → runLayers C (undoLayers layers) out = .ok w) := by
  have hreturn : ∀ l ∈ layers, ∀ a, InShape v a → ∃ out, l.apply C a = .ok out ∧ InShape v out :=
    fun l hl _ ha => apply_returns hacc hpres (hkeys l hl) ha
  obtain ⟨out, hout, hshape⟩ := runSteps_returns hreturn hw
  refine ⟨out, hout, hshape, fun hsettled => ?_⟩
  rw [runLayers_undoLayers]
  exact runSteps_undo (undoneAlong_of_settledAlong hacc hpres hinv hkeys hw hsettled) hout

end Layers

/-- Layers without cards permute the values of one alphanumeric shape, and the opposite layers
in reverse order are the inverse permutation. -/
theorem layers_permute (C : Crypto) (hacc : Ff1Accepts C Ff1Domain)
    (hpres : Ff1Preserves C Ff1Domain) (hinv : Ff1Inverse C Ff1Domain) (layers : List Layer)
    (hkeys : ∀ l ∈ layers, l.key ≠ []) (hcards : ∀ l ∈ layers, l.format ≠ .card) (v : Text)
    (hlen : (Format.alnum.slots v).length ≤ u32Max) :
    ∃ π : Equiv.Perm {w : Text | Format.alnum.shape w = Format.alnum.shape v},
      ∀ w : {w : Text | Format.alnum.shape w = Format.alnum.shape v},
        runLayers C layers w = .ok (π w).val ∧
          runLayers C (undoLayers layers) w = .ok (π.symm w).val := by
  have hstep (layers : List Layer) (hkeys : ∀ l ∈ layers, l.key ≠ [])
      (hcards : ∀ l ∈ layers, l.format ≠ .card) :
      ∀ w ∈ {w : Text | Format.alnum.shape w = Format.alnum.shape v},
        ∃ out ∈ {w : Text | Format.alnum.shape w = Format.alnum.shape v},
          runLayers C layers w = .ok out ∧ runLayers C (undoLayers layers) out = .ok w := by
    intro w hw
    have hshape : InShape v w := ⟨hw, by rwa [slots_length_of_shape_eq hw]⟩
    obtain ⟨out, hout, houtShape, hundo⟩ := runLayers_returns hacc hpres hinv hkeys hshape
    exact ⟨out, houtShape.shape_eq, hout, hundo (settledAlong_of_ne_card hcards)⟩
  have hopposite : ∀ l ∈ undoLayers layers, ∃ l' ∈ layers, l = l'.opposite := by
    intro l hl
    obtain ⟨l', hl', hsame⟩ := List.mem_map.mp (List.mem_reverse.mp hl)
    exact ⟨l', hl', hsame.symm⟩
  have hback := hstep (undoLayers layers)
    (fun l hl => by
      obtain ⟨l', hl', rfl⟩ := hopposite l hl
      exact hkeys l' hl')
    (fun l hl => by
      obtain ⟨l', hl', rfl⟩ := hopposite l hl
      exact hcards l' hl')
  rw [undoLayers_undoLayers] at hback
  exact exists_perm_of_inverse _ _ (hstep layers hkeys hcards) hback

/-- An address is encrypted under one key and decrypted under another, domain and all, and the
opposite layers in reverse order bring it back. -/
theorem layers_permute_recorded :
    runLayers recordedCrypto [⟨true, .email, "k".toList⟩, ⟨false, .alnum, "old".toList⟩]
        "alice@x.com".toList = .ok "OBg7n@E.buX".toList ∧
      runLayers recordedCrypto [⟨true, .alnum, "old".toList⟩, ⟨false, .email, "k".toList⟩]
        "OBg7n@E.buX".toList = .ok "alice@x.com".toList := by
  have hout : runLayers recordedCrypto [⟨true, .email, "k".toList⟩, ⟨false, .alnum, "old".toList⟩]
      "alice@x.com".toList = .ok "OBg7n@E.buX".toList := by decide +kernel
  obtain ⟨π, hπ⟩ := layers_permute recordedCrypto recordedCrypto_accepts
    (recordedCrypto_preserves Ff1Domain) (recordedCrypto_inverse Ff1Domain)
    [⟨true, .email, "k".toList⟩, ⟨false, .alnum, "old".toList⟩] (by decide) (by decide)
    "alice@x.com".toList (by decide)
  have hmoved := (hπ ⟨"alice@x.com".toList, rfl⟩).1
  have hback := (hπ (π ⟨"alice@x.com".toList, rfl⟩)).2
  rw [Equiv.symm_apply_apply, ← Outcome.ok.inj (hout.symm.trans hmoved)] at hback
  exact ⟨hout, hback⟩

section Undo

variable {C : Crypto} {v w : Text}

/-- Values of one alphanumeric shape differ in letters and digits alone. -/
theorem InShape.frame (h : InShape v w) :
    w.length = v.length ∧ utf8Len w = utf8Len v ∧ ∀ (i : ℕ) (c : Char), v[i]? = some c →
      (c.isAlphanum = false → w[i]? = some c) ∧
        (c.isAlphanum = true → ∃ d, w[i]? = some d ∧ d.isAlphanum = true) := by
  have hskeleton : skeleton ALNUM.contains w = skeleton ALNUM.contains v := by
    rw [← alnum_shape, ← alnum_shape, h.shape_eq]
  refine ⟨by simpa [skeleton] using congrArg List.length hskeleton,
    sum_map_of_skeleton_eq Char.utf8Size 1 (fun c hc => ALNUM.one_byte c (Alphabet.contains_iff.mp hc))
      hskeleton, fun i c hc => ?_⟩
  simp only [isAlphanum_eq_contains]
  exact getElem?_of_skeleton_eq hskeleton.symm hc

/-- Settling keeps the alphanumeric shape. -/
theorem inShape_settled (f : Format) (h : InShape v w) : InShape v (f.settled w) := by
  have hshape : Format.alnum.shape (f.settled w) = Format.alnum.shape w :=
    alnum_shape_rebuild (fits_settle f w)
  refine ⟨hshape.trans h.shape_eq, ?_⟩
  rw [slots_length_of_shape_eq hshape]
  exact h.length_le

/-- Card layers treat a value as its settled form, which is settled. -/
theorem runLayers_settled_card {layers : List Layer} (hacc : Ff1Accepts C Ff1Domain)
    (hpres : Ff1Preserves C Ff1Domain) (hinv : Ff1Inverse C Ff1Domain) (hne : layers ≠ [])
    (hkeys : ∀ l ∈ layers, l.key ≠ []) (hcards : ∀ l ∈ layers, l.format = .card)
    (hlen : (Format.alnum.slots v).length ≤ u32Max) :
    runLayers C layers (Format.card.settled v) = runLayers C layers v ∧
      Format.card.settled (Format.card.settled v) = Format.card.settled v := by
  obtain ⟨l, rest, rfl⟩ := List.exists_cons_of_ne_nil hne
  obtain ⟨forward, format, key⟩ := l
  obtain rfl : format = .card := hcards _ List.mem_cons_self
  have hkey : key ≠ [] := hkeys _ List.mem_cons_self
  have hslots : (Format.card.slots v).length ≤ u32Max := (slots_length_le_alnum .card v).trans hlen
  have hcov : Format.card.Covers Ff1Domain (Format.card.slots v).length := covers_ff1Domain hslots
  constructor
  · have hstep : fpe C forward (Format.card.settled v) .card key = fpe C forward v .card key :=
      fpe_settled hkey hpres hcov
    change (fpe C forward (Format.card.settled v) .card key >>= _) =
      (fpe C forward v .card key >>= _)
    rw [hstep]
  · obtain ⟨out, hout⟩ : ∃ out, fpe C forward v .card key = .ok out :=
      fpe_returns hkey hacc hpres hcov
    have hcov' : Format.card.Covers Ff1Domain (Format.card.slots out).length := by
      rwa [slots_length_of_fpe hkey hpres hcov hout]
    exact settled_of_fpe hkey hpres hcov' (fpe_inverse hkey hpres hinv hcov hout)

end Undo

/-- However many layers are applied, a value keeps its lengths and everything but its letters
and digits; the opposite layers in reverse order give it back where the layers meet settled
values; and layers of card encryption lose the check digit alone. -/
theorem layers_undo (C : Crypto) (hacc : Ff1Accepts C Ff1Domain)
    (hpres : Ff1Preserves C Ff1Domain) (hinv : Ff1Inverse C Ff1Domain) (layers : List Layer)
    (hkeys : ∀ l ∈ layers, l.key ≠ []) (v : Text) (hlen : (Format.alnum.slots v).length ≤ u32Max) :
    ∃ out, runLayers C layers v = .ok out ∧
      (out.length = v.length ∧ utf8Len out = utf8Len v ∧ ∀ (i : ℕ) (c : Char), v[i]? = some c →
        (c.isAlphanum = false → out[i]? = some c) ∧
          (c.isAlphanum = true → ∃ d, out[i]? = some d ∧ d.isAlphanum = true)) ∧
      (SettledAlong C layers v → runLayers C (undoLayers layers) out = .ok v) ∧
      (layers ≠ [] → (∀ l ∈ layers, l.format = .card) →
        runLayers C (undoLayers layers) out = .ok (Format.card.settled v)) := by
  obtain ⟨out, hout, hshape, hundo⟩ := runLayers_returns hacc hpres hinv hkeys ⟨rfl, hlen⟩
  refine ⟨out, hout, hshape.frame, hundo, fun hne hcards => ?_⟩
  -- the run from the settled value is the same run, and it meets settled values only
  obtain ⟨hsame, hsettled⟩ := runLayers_settled_card hacc hpres hinv hne hkeys hcards hlen
  have hshape' := inShape_settled .card ⟨rfl, hlen⟩
  obtain ⟨out', hout', -, hundo'⟩ := runLayers_returns hacc hpres hinv hkeys hshape'
  obtain rfl := Outcome.ok.inj (hout'.symm.trans (hsame.trans hout))
  exact hundo' (settledAlong_of_card hpres hkeys hcards hacc hshape' hsettled)

/-- Three layers of card encryption under three keys lose the wrong check digit alone. -/
theorem layers_undo_recorded :
    runLayers recordedCrypto
        [⟨true, .card, "k".toList⟩, ⟨false, .card, "old".toList⟩, ⟨true, .card, "new".toList⟩]
        "4012-8888-8888-1880".toList = .ok "8957-5167-1853-3046".toList ∧
      runLayers recordedCrypto
        [⟨false, .card, "new".toList⟩, ⟨true, .card, "old".toList⟩, ⟨false, .card, "k".toList⟩]
        "8957-5167-1853-3046".toList = .ok "4012-8888-8888-1881".toList := by
  have hmoved : runLayers recordedCrypto
      [⟨true, .card, "k".toList⟩, ⟨false, .card, "old".toList⟩, ⟨true, .card, "new".toList⟩]
      "4012-8888-8888-1880".toList = .ok "8957-5167-1853-3046".toList := by decide +kernel
  obtain ⟨out, hout, -, -, hcards⟩ := layers_undo recordedCrypto recordedCrypto_accepts
    (recordedCrypto_preserves Ff1Domain) (recordedCrypto_inverse Ff1Domain)
    [⟨true, .card, "k".toList⟩, ⟨false, .card, "old".toList⟩, ⟨true, .card, "new".toList⟩]
    (by decide) "4012-8888-8888-1880".toList (by decide)
  obtain rfl := Outcome.ok.inj (hmoved.symm.trans hout)
  have hsettled : Format.card.settled "4012-8888-8888-1880".toList = "4012-8888-8888-1881".toList := by
    decide
  have hback := hcards (by decide) (by decide)
  rw [hsettled] at hback
  exact ⟨hmoved, hback⟩

/-- Move a ciphertext from one key to the next, key by key. -/
def rotation (f : Format) : Text → List Text → List Layer
  | _, [] => []
  | key, next :: keys => ⟨false, f, key⟩ :: ⟨true, f, next⟩ :: rotation f next keys

/-- A ciphertext that is moved from key to key is the ciphertext under the last key, whatever
the value, check digit included. -/
theorem rotation_of_encrypt (C : Crypto) (hacc : Ff1Accepts C Ff1Domain)
    (hpres : Ff1Preserves C Ff1Domain) (hinv : Ff1Inverse C Ff1Domain) (f : Format) (v key : Text)
    (keys : List Text) (hkey : key ≠ []) (hkeys : ∀ k ∈ keys, k ≠ [])
    (hlen : (f.slots v).length ≤ u32Max) :
    (fpeEncrypt C v f key >>= runLayers C (rotation f key keys)) =
      fpeEncrypt C v f ((key :: keys).getLast (List.cons_ne_nil _ _)) := by
  have hcov : f.Covers Ff1Domain (f.slots v).length := covers_ff1Domain hlen
  induction keys generalizing key with
  | nil =>
    change (fpeEncrypt C v f key >>= pure) = _
    rw [bind_pure]
    rfl
  | cons next keys ih =>
    obtain ⟨hnext, hkeys⟩ := List.forall_mem_cons.mp hkeys
    obtain ⟨c, hc⟩ : ∃ c, fpe C true v f key = .ok c := fpe_returns hkey hacc hpres hcov
    have hback : fpe C false c f key = .ok (f.settled v) := fpe_inverse hkey hpres hinv hcov hc
    have hmove : runLayers C (rotation f key (next :: keys)) c =
        fpeEncrypt C v f next >>= runLayers C (rotation f next keys) := by
      change (fpe C false c f key >>= fun w => fpe C true w f next >>= _) = _
      rw [hback, Outcome.ok_bind, fpe_settled hnext hpres hcov]
      rfl
    have hfirst : fpeEncrypt C v f key = .ok c := hc
    rw [hfirst, Outcome.ok_bind, hmove, ih next hnext hkeys]
    rfl

/-- A ciphertext is moved from its key over a second to a third. -/
theorem rotation_of_encrypt_recorded :
    fpeEncrypt recordedCrypto "4012-8888-8888-1880".toList .card "old".toList =
        .ok "3916-3745-4052-1156".toList ∧
      runLayers recordedCrypto (rotation .card "old".toList ["retired".toList])
        "3916-3745-4052-1156".toList = .ok "8726-8857-1896-1741".toList ∧
      (fpeEncrypt recordedCrypto "4012-8888-8888-1880".toList .card "old".toList >>=
          runLayers recordedCrypto (rotation .card "old".toList ["retired".toList, "k".toList])) =
        .ok "5476-7914-6539-6370".toList := by
  refine ⟨by decide +kernel, by decide +kernel, ?_⟩
  rw [rotation_of_encrypt recordedCrypto recordedCrypto_accepts (recordedCrypto_preserves Ff1Domain)
    (recordedCrypto_inverse Ff1Domain) .card "4012-8888-8888-1880".toList "old".toList
    ["retired".toList, "k".toList] (by decide) (by decide) (by decide)]
  decide +kernel

end VgiMask
