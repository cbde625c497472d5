import VgiMask.Engine.SmallDomain
import VgiMask.Engine.TextLaws

/-!
# Character classes under the alphanumeric profile

One radix-62 alphabet mixes digits, lower-case and upper-case letters, and FF1 may send any
of its blocks to any other of the same length. So the class of a character survives, whatever
FF1 does, in exactly the values that are too short to be encrypted.
-/

namespace VgiMask

open Common

/-- The class of a character; a character outside the alphanumeric ones is its own class. -/
inductive CharClass where
  | digit
  | lower
  | upper
  | other (c : Char)
  deriving DecidableEq

/-- The class of a character. -/
def charClass (c : Char) : CharClass :=
  if c.isDigit then .digit else if c.isLower then .lower else if c.isUpper then .upper else .other c

/-- Whether the characters of a class are encrypted by the alphanumeric profile. -/
def CharClass.encryptable : CharClass → Bool
  | .other _ => false
  | _ => true

/-- The keyed permutation that exchanges two numeral strings of one radix. -/
def exchangePerm (radix : ℕ) (left right : List ℕ) (hleft : Numerals radix left)
    (hright : Numerals radix right) (hlen : left.length = right.length) : KeyedPerm :=
  .ofChains (fun _ r => if r = radix then [[left, right]] else []) <| by
    intro _ r chain hchain
    split at hchain
    · rename_i hr
      subst hr
      obtain rfl := List.mem_singleton.mp hchain
      simp [hleft, hright, hlen]
    · cases hchain

/-- The crates with a hash and the cipher of a keyed permutation that takes every string. -/
def openCrypto (hash : List UInt8 → Vector UInt8 32) (F : KeyedPerm) : Crypto where
  sha256 := hash
  ff1New := fun key radix => .ok
    { encrypt := fun _ nums => .ok (F.apply key radix true nums)
      decrypt := fun _ nums => .ok (F.apply key radix false nums) }

/-- The numeral string with another class at its head: a letter for a digit, a digit for a letter. -/
def otherHead : List ℕ → List ℕ
  | [] => []
  | d :: ds => (if d < 10 then 10 else 0) :: ds

section Cipher

variable (hash : List UInt8 → Vector UInt8 32) (F : KeyedPerm)

/-- The exchanged string is the other one, in both directions. -/
theorem exchangePerm_apply {radix : ℕ} {left right : List ℕ} (hleft : Numerals radix left)
    (hright : Numerals radix right) (hlen : left.length = right.length) (key : AesKey)
    (forward : Bool) :
    (exchangePerm radix left right hleft hright hlen).apply key radix forward left = right := by
  have hswap : (exchangePerm radix left right hleft hright hlen).perm key radix =
      Equiv.swap left right := by
    change alongCycles (if radix = radix then [[left, right]] else []) = _
    rw [if_pos rfl, alongCycles, List.map_singleton, List.prod_singleton, List.formPerm_pair]
  rw [KeyedPerm.apply, hswap, Equiv.symm_swap, Equiv.swap_apply_left]
  cases forward <;> rfl

/-- The open cipher permutes. -/
theorem openCrypto_ff1 (key : AesKey) (radix : ℕ) (forward : Bool) (nums : List ℕ) :
    (openCrypto hash F).ff1 key radix forward nums = .ok (F.apply key radix forward nums) := by
  cases forward <;> rfl

/-- The open cipher accepts every numeral string. -/
theorem openCrypto_accepts (D : ℕ → List ℕ → Prop) : Ff1Accepts (openCrypto hash F) D :=
  fun key radix forward nums _ => ⟨_, openCrypto_ff1 hash F key radix forward nums⟩

/-- The open cipher keeps length and range. -/
theorem openCrypto_preserves : Ff1Preserves (openCrypto hash F) Numerals := by
  intro key radix forward nums out hnums hout
  rw [openCrypto_ff1] at hout
  obtain rfl := Outcome.ok.inj hout
  exact ⟨F.length_apply key radix forward nums, (F.numerals_apply_iff key radix forward nums).mpr hnums⟩

/-- The two directions of the open cipher are inverse. -/
theorem openCrypto_inverse : Ff1Inverse (openCrypto hash F) Numerals := by
  intro key radix forward nums out _ hout
  rw [openCrypto_ff1] at hout
  rw [openCrypto_ff1, ← Outcome.ok.inj hout, F.apply_not_apply]

end Cipher

/-- The encrypted classes are those of the alphanumeric characters. -/
theorem charClass_encryptable (c : Char) : (charClass c).encryptable = ALNUM.contains c := by
  rw [← isAlphanum_eq_contains]
  change _ = ((c.isUpper || c.isLower) || c.isDigit)
  unfold charClass
  cases c.isDigit <;> cases c.isLower <;> cases c.isUpper <;> rfl

/-- The classes of a text show the classes of its alphanumeric characters. -/
theorem filter_classes (v : Text) :
    (v.map charClass).filter CharClass.encryptable = (v.filter ALNUM.contains).map charClass := by
  rw [List.filter_map]
  congr 2
  funext c
  exact charClass_encryptable c

/-- The other head is another numeral string of the same length. -/
theorem otherHead_shape {nums : List ℕ} (h : Numerals 62 nums) :
    Numerals 62 (otherHead nums) ∧ nums.length = (otherHead nums).length := by
  cases nums with
  | nil => exact ⟨h, rfl⟩
  | cons d ds =>
    refine ⟨fun x hx => ?_, rfl⟩
    rcases List.mem_cons.mp hx with rfl | hx
    · split <;> decide
    · exact h x (List.mem_cons_of_mem _ hx)

/-- A digit and the other head of it are of different classes, and so are letters. -/
theorem charClass_otherHead : ∀ d < 62,
    charClass (ALNUM.symbol (if d < 10 then 10 else 0)) ≠ charClass (ALNUM.symbol d) := by
  decide

/-- The classes of a non-empty block are not those of the block with another head. -/
theorem classes_otherHead_ne {nums : List ℕ} (h : Numerals 62 nums) (hne : nums ≠ []) :
    (ALNUM.render (otherHead nums)).map charClass ≠ (ALNUM.render nums).map charClass := by
  cases nums with
  | nil => exact absurd rfl hne
  | cons d ds =>
    intro hsame
    exact charClass_otherHead d (h d List.mem_cons_self) (List.cons.inj hsame).1

/-- Four alphanumeric characters reach the minimum domain, three do not. -/
theorem pow_lt_minDomain_iff (n : ℕ) : ALNUM.radix ^ n < minDomain ↔ n < 4 := by
  constructor
  · intro h
    by_contra hle
    have hpow : ALNUM.radix ^ 4 ≤ ALNUM.radix ^ n :=
      Nat.pow_le_pow_right (by decide) (Nat.not_lt.mp hle)
    exact absurd (hpow.trans_lt h) (by decide)
  · intro h
    calc
      ALNUM.radix ^ n ≤ ALNUM.radix ^ 3 := Nat.pow_le_pow_right (by decide) (Nat.le_of_lt_succ h)
      _ < minDomain := by decide

/-- Some permutation with all that is assumed of FF1 changes the class of a character in every
value that is encrypted. -/
theorem exists_classes_changed {key v : Text} (hkey : key ≠ []) (forward : Bool)
    (hlong : 4 ≤ (v.filter ALNUM.contains).length) :
    ∃ C : Crypto, Ff1Accepts C Ff1Domain ∧ Ff1Preserves C Numerals ∧ Ff1Inverse C Numerals ∧
      ∃ out, fpe C forward v .alnum key = .ok out ∧ out.map charClass ≠ v.map charClass := by
  have hnums : Numerals 62 (ALNUM.numerals v) := ALNUM.numerals_lt v
  obtain ⟨hother, hlen⟩ := otherHead_shape hnums
  have hexchange := exchangePerm_apply hnums hother hlen
  generalize exchangePerm 62 _ _ hnums hother hlen = F at hexchange
  have hpres := openCrypto_preserves sha256 F
  have hgate : minDomain ≤ ALNUM.radix ^ (v.filter ALNUM.contains).length := by
    rw [← Nat.not_lt, pow_lt_minDomain_iff]
    exact Nat.not_lt.mpr hlong
  have hff1 : ff1Apply (openCrypto sha256 F) key 62 (ALNUM.numerals v) forward =
      .ok (otherHead (ALNUM.numerals v)) := by
    rw [ff1Apply_eq_ok_iff, openCrypto_ff1, hexchange]
  refine ⟨openCrypto sha256 F, openCrypto_accepts sha256 F Ff1Domain, hpres,
    openCrypto_inverse sha256 F,
    fill ALNUM.contains v (ALNUM.render (otherHead (ALNUM.numerals v))), ?_, ?_⟩
  · rw [fpe_eq_dispatch hkey]
    change fpeOverAlphabet _ key v ALNUM forward = _
    rw [fpeOverAlphabet_long hpres hnums hgate]
    change _ <$> ff1Apply _ key 62 (ALNUM.numerals v) forward = _
    rw [hff1, Outcome.map_ok]
  · intro hsame
    have hclasses := congrArg (List.filter CharClass.encryptable) hsame
    have hslots : ∀ c ∈ ALNUM.render (otherHead (ALNUM.numerals v)), ALNUM.contains c = true :=
      Alphabet.contains_of_mem_render (A := ALNUM) hother
    have hcount : (ALNUM.render (otherHead (ALNUM.numerals v))).length =
        (v.filter ALNUM.contains).length := by
      rw [Alphabet.render_length, ← hlen, Alphabet.numerals_length]
    rw [filter_classes, filter_classes, filter_fill hslots hcount, ← Alphabet.render_numerals]
      at hclasses
    have hne : ALNUM.numerals v ≠ [] := by
      intro hnil
      have hzero := Alphabet.numerals_length ALNUM v
      rw [hnil] at hzero
      exact absurd (hzero ▸ hlong) (by decide)
    exact classes_otherHead_ne hnums hne hclasses

/-- Whatever permutation FF1 realises, the classes of all characters are kept, exactly when the
value has fewer than four alphanumeric characters. -/
theorem alnum_keeps_classes_iff (key : Text) (hkey : key ≠ []) (v : Text) (forward : Bool) :
    (∀ C : Crypto, Ff1Accepts C Ff1Domain → Ff1Preserves C Numerals → Ff1Inverse C Numerals →
        ∃ out, fpe C forward v .alnum key = .ok out ∧ out.map charClass = v.map charClass) ↔
      (v.filter Char.isAlphanum).length < 4 := by
  rw [funext isAlphanum_eq_contains]
  constructor
  · intro h
    by_contra hlong
    obtain ⟨C, hacc, hpres, hinv, out, hout, hne⟩ :=
      exists_classes_changed hkey forward (Nat.not_lt.mp hlong)
    obtain ⟨out', hout', hsame⟩ := h C hacc hpres hinv
    rw [hout] at hout'
    exact hne (Outcome.ok.inj hout' ▸ hsame)
  · intro hshort C _ _ _
    refine ⟨v, ?_, rfl⟩
    rw [fpe_eq_dispatch hkey]
    exact fpeOverAlphabet_short C key forward ((pow_lt_minDomain_iff _).mpr hshort)

/-- Three letters keep their classes under every permutation. -/
theorem alnum_keeps_classes_iff_recorded :
    ("a-b.C".toList.filter Char.isAlphanum).length < 4 ∧
      ∃ out, fpe recordedCrypto true "a-b.C".toList .alnum "k".toList = .ok out ∧
        out.map charClass = "a-b.C".toList.map charClass :=
  ⟨by decide, (alnum_keeps_classes_iff "k".toList (by decide) "a-b.C".toList true).mpr (by decide)
    recordedCrypto recordedCrypto_accepts (recordedCrypto_preserves Numerals)
    (recordedCrypto_inverse Numerals)⟩

/-- FF1 under the key `k` turns lower-case letters of a name into upper-case ones. -/
theorem alnum_changes_classes :
    Ff1Accepts recordedCrypto Ff1Domain ∧ Ff1Preserves recordedCrypto Numerals ∧
      Ff1Inverse recordedCrypto Numerals ∧ "k".toList ≠ [] ∧
      fpe recordedCrypto true "alice".toList .alnum "k".toList = .ok "rvDwa".toList ∧
      ¬ ∃ out, fpe recordedCrypto true "alice".toList .alnum "k".toList = .ok out ∧
        out.map charClass = "alice".toList.map charClass := by
  have hout : fpe recordedCrypto true "alice".toList .alnum "k".toList = .ok "rvDwa".toList := by
    decide +kernel
  refine ⟨recordedCrypto_accepts, recordedCrypto_preserves Numerals,
    recordedCrypto_inverse Numerals, by decide, hout, ?_⟩
  intro ⟨out, hout', hsame⟩
  rw [← Outcome.ok.inj (hout.symm.trans hout')] at hsame
  exact absurd hsame (by decide)

end VgiMask
