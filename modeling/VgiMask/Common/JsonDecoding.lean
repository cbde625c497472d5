import VgiMask.Common.Json
import Mathlib.Data.List.TakeWhile

/-!
# What the decoder reads

Every reader splits its input into a text of what it returns and the rest. For the decoder
this makes every decoded text a JSON text of the decoded value. In the other direction a list
is read back item by item when each item is, whatever follows it.
-/

namespace Common

namespace Json

/-- What a reader returns is written in front of what it leaves. -/
def Reads {β : Type} (reader : Reader β) (Item : β → List Char → Prop) : Prop :=
  ∀ input v rest, reader input = some (v, rest) → ∃ t, input = t ++ rest ∧ Item v t

/-- Leading whitespace is whitespace. -/
theorem exists_skipWs (input : List Char) : ∃ w, Ws w ∧ input = w ++ skipWs input :=
  ⟨input.takeWhile isWs, fun _ hc => List.mem_takeWhile_imp hc, List.takeWhile_append_dropWhile.symm⟩

/-- A reader that only wraps what another returns leaves the same rest. -/
theorem map_wrap_eq_some {β γ : Type} (g : β → γ) {r : Option (β × List Char)} {v : γ}
    {rest : List Char} (h : r.map (fun p => (g p.1, p.2)) = some (v, rest)) :
    ∃ b, r = some (b, rest) ∧ g b = v := by
  obtain ⟨⟨b, rest'⟩, hb, hpair⟩ := Option.map_eq_some_iff.mp h
  obtain ⟨hv, rfl⟩ := Prod.mk.inj hpair
  exact ⟨b, hb, hv⟩

section Strings

variable {input rest : List Char}

/-- A code unit or a pair of them writes the character that is read. -/
theorem readUnit_eq_some {c : Char} (h : readUnit input = some (c, rest)) :
    ∃ t, input = t ++ rest ∧ CharText c ('\\' :: 'u' :: t) := by
  obtain ⟨u, hu, h⟩ := Option.bind_eq_some_iff.mp h
  have hsplit : input = input.take 4 ++ input.drop 4 := (List.take_append_drop 4 input).symm
  split at h
  · rename_i hhigh
    split at h
    · rename_i rest' hrest
      obtain ⟨low, hlow, h⟩ := Option.bind_eq_some_iff.mp h
      split at h
      · rename_i hislow
        obtain ⟨rfl, rfl⟩ := Prod.mk.inj (Option.some.inj h)
        refine ⟨input.take 4 ++ '\\' :: 'u' :: rest'.take 4, ?_, CharText.pair hu hlow hhigh hislow⟩
        rw [List.append_assoc, List.cons_append, List.cons_append, List.take_append_drop, ← hrest]
        exact hsplit
      · cases h
    · cases h
  split at h
  · cases h
  · rename_i hhigh hlow
    obtain ⟨rfl, rfl⟩ := Prod.mk.inj (Option.some.inj h)
    exact ⟨input.take 4, hsplit,
      CharText.unit hu (Bool.not_eq_true _ ▸ hhigh) (Bool.not_eq_true _ ▸ hlow)⟩

/-- The text of a character is read as it. -/
theorem readChar_reads : Reads readChar CharText := by
  intro input c rest h
  cases input with
  | nil => cases h
  | cons d input =>
    unfold readChar at h
    dsimp only at h
    split at h
    · rename_i hd
      cases input with
      | nil => cases h
      | cons e input =>
        dsimp only at h
        split at h
        · rename_i he
          obtain ⟨t, rfl, ht⟩ := readUnit_eq_some h
          exact ⟨'\\' :: 'u' :: t, by rw [hd, he]; rfl, ht⟩
        · obtain ⟨c', hc', hpair⟩ := Option.map_eq_some_iff.mp h
          obtain ⟨rfl, rfl⟩ := Prod.mk.inj hpair
          exact ⟨['\\', e], by rw [hd]; rfl, CharText.short hc'⟩
    split at h
    · rename_i hd
      obtain ⟨rfl, rfl⟩ := Prod.mk.inj (Option.some.inj h)
      exact ⟨[d], rfl, CharText.unescaped hd⟩
    · cases h

/-- The texts of the characters are read up to the quote. -/
theorem readChars_eq_some {fuel : ℕ} {cs : List Char} (h : readChars fuel input = some (cs, rest)) :
    ∃ t, input = t ++ '"' :: rest ∧ Chars cs t := by
  induction fuel generalizing input cs with
  | zero => cases h
  | succ fuel ih =>
    cases input with
    | nil => cases h
    | cons c input =>
      rw [readChars] at h
      split at h
      · rename_i hc
        obtain ⟨rfl, rfl⟩ := Prod.mk.inj (Option.some.inj h)
        exact ⟨[], by rw [hc]; rfl, Chars.nil⟩
      · obtain ⟨⟨d, rest'⟩, hd, h⟩ := Option.bind_eq_some_iff.mp h
        obtain ⟨⟨ds, rest''⟩, hds, h⟩ := Option.bind_eq_some_iff.mp h
        obtain ⟨rfl, rfl⟩ := Prod.mk.inj (Option.some.inj h)
        obtain ⟨t, ht, hchar⟩ := readChar_reads _ _ _ hd
        obtain ⟨ts, rfl, hchars⟩ := ih hds
        exact ⟨t ++ ts, by rw [ht, List.append_assoc], Chars.cons hchar hchars⟩

end Strings

section Numbers

/-- The digits are read as they stand. -/
theorem readDigits_reads : Reads readDigits fun ds t => ds = t ∧ Digits t := by
  intro input ds rest h
  rw [readDigits] at h
  split at h
  · cases h
  · rename_i hne
    obtain ⟨rfl, rfl⟩ := Prod.mk.inj (Option.some.inj h)
    exact ⟨_, List.takeWhile_append_dropWhile.symm, rfl, hne, fun _ hc => List.mem_takeWhile_imp hc⟩

/-- A minus sign or nothing is read. -/
theorem readMinus_eq (input : List Char) :
    input = (readMinus input).1 ++ (readMinus input).2 ∧
      ((readMinus input).1 = [] ∨ (readMinus input).1 = ['-']) := by
  unfold readMinus
  split
  · exact ⟨rfl, .inr rfl⟩
  · exact ⟨rfl, .inl rfl⟩

/-- A sign or nothing is read. -/
theorem readSign_eq (input : List Char) :
    input = (readSign input).1 ++ (readSign input).2 ∧
      ((readSign input).1 = [] ∨ (readSign input).1 = ['+'] ∨ (readSign input).1 = ['-']) := by
  unfold readSign
  split
  · exact ⟨rfl, .inr (.inl rfl)⟩
  · obtain ⟨hsplit, hminus⟩ := readMinus_eq input
    exact ⟨hsplit, hminus.imp_right .inr⟩

/-- The integer part is read as it stands. -/
theorem readInt_reads : Reads readInt fun int t => int = t ∧ IntPart t := by
  intro input int rest h
  unfold readInt at h
  split at h
  · obtain ⟨rfl, rfl⟩ := Prod.mk.inj (Option.some.inj h)
    exact ⟨['0'], rfl, rfl, .inl rfl⟩
  · rename_i hzero
    obtain ⟨t, rfl, rfl, hne, hdigits⟩ := readDigits_reads _ _ _ h
    refine ⟨int, rfl, rfl, .inr ?_⟩
    cases int with
    | nil => exact absurd rfl hne
    | cons d ds =>
      obtain ⟨hd, hds⟩ := List.forall_mem_cons.mp hdigits
      exact ⟨d, ds, rfl, hd, fun hd0 => hzero (ds ++ rest) (by rw [hd0]; rfl), hds⟩

/-- The fraction is read as it stands. -/
theorem readFrac_reads : Reads readFrac fun frac t => frac = t ∧ FracPart t := by
  intro input frac rest h
  unfold readFrac at h
  split at h
  · obtain ⟨ds, hds, rfl⟩ := map_wrap_eq_some ('.' :: ·) h
    obtain ⟨t, rfl, rfl, hdigits⟩ := readDigits_reads _ _ _ hds
    exact ⟨'.' :: ds, rfl, rfl, .inr ⟨ds, rfl, hdigits⟩⟩
  · obtain ⟨rfl, rfl⟩ := Prod.mk.inj (Option.some.inj h)
    exact ⟨[], rfl, rfl, .inl rfl⟩

/-- The exponent is read as it stands. -/
theorem readExp_reads : Reads readExp fun exp t => exp = t ∧ ExpPart t := by
  intro input exp rest h
  unfold readExp at h
  split at h
  · obtain ⟨rfl, rfl⟩ := Prod.mk.inj (Option.some.inj h)
    exact ⟨[], rfl, rfl, .inl rfl⟩
  · rename_i e input
    split at h
    · rename_i he
      obtain ⟨ds, hds, rfl⟩ := map_wrap_eq_some (fun ds => e :: ((readSign input).1 ++ ds)) h
      obtain ⟨t, ht, rfl, hdigits⟩ := readDigits_reads _ _ _ hds
      obtain ⟨hsplit, hsign⟩ := readSign_eq input
      refine ⟨e :: ((readSign input).1 ++ ds), ?_, rfl, .inr ⟨e, _, ds, rfl, he, hsign, hdigits⟩⟩
      rw [List.cons_append, List.append_assoc, ← ht, ← hsplit]
    · obtain ⟨rfl, rfl⟩ := Prod.mk.inj (Option.some.inj h)
      exact ⟨[], rfl, rfl, .inl rfl⟩

/-- A number is read as its text. -/
theorem readNumber_reads : Reads readNumber Value := by
  intro input v rest h
  obtain ⟨⟨int, rest₁⟩, hint, h⟩ := Option.bind_eq_some_iff.mp h
  obtain ⟨⟨frac, rest₂⟩, hfrac, h⟩ := Option.bind_eq_some_iff.mp h
  obtain ⟨⟨exp, rest₃⟩, hexp, h⟩ := Option.bind_eq_some_iff.mp h
  obtain ⟨rfl, rfl⟩ := Prod.mk.inj (Option.some.inj h)
  obtain ⟨hsplit, hminus⟩ := readMinus_eq input
  obtain ⟨_, hrest, rfl, hintPart⟩ := readInt_reads _ _ _ hint
  obtain ⟨_, rfl, rfl, hfracPart⟩ := readFrac_reads _ _ _ hfrac
  obtain ⟨_, rfl, rfl, hexpPart⟩ := readExp_reads _ _ _ hexp
  refine ⟨(readMinus input).1 ++ (int ++ (frac ++ exp)), ?_,
    Value.number ⟨_, int, frac, exp, rfl, hminus, hintPart, hfracPart, hexpPart⟩⟩
  rw [List.append_assoc, List.append_assoc, List.append_assoc, ← hrest, ← hsplit]

end Numbers

section Lists

variable {β : Type} {item : Reader β} {Item : β → List Char → Prop} {close : Char}

/-- The items are read up to the closing bracket. -/
theorem readItems_eq_some (hitem : Reads item Item) {fuel : ℕ} {input rest : List Char} {vs : List β}
    (h : readItems item close fuel input = some (vs, rest)) :
    ∃ t, input = t ++ close :: rest ∧ CommaList Item vs t := by
  induction fuel generalizing input vs with
  | zero => cases h
  | succ fuel ih =>
    obtain ⟨⟨v, rest'⟩, hv, h⟩ := Option.bind_eq_some_iff.mp h
    obtain ⟨w, hw, hinput⟩ := exists_skipWs input
    obtain ⟨w', hw', hrest⟩ := exists_skipWs rest'
    obtain ⟨t, ht, hItem⟩ := hitem _ _ _ hv
    dsimp only at h
    cases hskip : skipWs rest' with
    | nil =>
      rw [hskip] at h
      cases h
    | cons c after =>
      rw [hskip] at h hrest
      dsimp only at h
      split at h
      · rename_i hc
        obtain ⟨rfl, rfl⟩ := Prod.mk.inj (Option.some.inj h)
        refine ⟨w ++ (t ++ w'), ?_, CommaList.single hw hItem hw'⟩
        rw [hinput, ht, hrest, hc, List.append_assoc, List.append_assoc]
      split at h
      · rename_i hc
        obtain ⟨⟨vs', rest''⟩, hvs, h⟩ := Option.bind_eq_some_iff.mp h
        obtain ⟨rfl, rfl⟩ := Prod.mk.inj (Option.some.inj h)
        obtain ⟨ts, hts, hlist⟩ := ih hvs
        refine ⟨w ++ (t ++ (w' ++ ',' :: ts)), ?_, CommaList.cons hw hItem hw' hlist⟩
        rw [hinput, ht, hrest, hc, hts]
        simp only [List.append_assoc, List.cons_append]
      · cases h

/-- A list is empty or its items are read up to the closing bracket. -/
theorem readList_eq_some (hitem : Reads item Item) {input rest : List Char} {vs : List β}
    (h : readList item close input = some (vs, rest)) :
    (vs = [] ∧ ∃ w, input = w ++ close :: rest ∧ Ws w) ∨
      ∃ t, input = t ++ close :: rest ∧ CommaList Item vs t := by
  unfold readList at h
  obtain ⟨w, hw, hinput⟩ := exists_skipWs input
  cases hskip : skipWs input with
  | nil =>
    rw [hskip] at h
    cases h
  | cons c after =>
    rw [hskip] at h hinput
    dsimp only at h
    split at h
    · rename_i hc
      obtain ⟨rfl, rfl⟩ := Prod.mk.inj (Option.some.inj h)
      exact .inl ⟨rfl, w, by rw [hinput, hc], hw⟩
    · exact .inr (readItems_eq_some hitem h)

end Lists

/-- A word is read as its value. -/
theorem readWord_reads {word : List Char} {v : Json} (hv : Value v word) :
    Reads (readWord word v) Value := by
  intro input v' rest h
  rw [readWord] at h
  split at h
  · rename_i hprefix
    obtain ⟨rfl, rfl⟩ := Prod.mk.inj (Option.some.inj h)
    obtain ⟨after, rfl⟩ := hprefix
    exact ⟨word, by rw [List.drop_left], hv⟩
  · cases h

/-- A member is read as its name and value. -/
theorem readMember_reads {value : Reader Json} (hvalue : Reads value Value) :
    Reads (readMember value) (Member Value) := by
  intro input m rest h
  cases input with
  | nil => cases h
  | cons c input =>
    rw [readMember] at h
    split at h
    · rename_i hc
      obtain ⟨⟨name, rest₁⟩, hname, h⟩ := Option.bind_eq_some_iff.mp h
      obtain ⟨t, ht, hchars⟩ := readChars_eq_some hname
      obtain ⟨w, hw, hrest₁⟩ := exists_skipWs rest₁
      dsimp only at h
      split at h
      · rename_i rest₂ hcolon
        obtain ⟨⟨v, rest₃⟩, hv, h⟩ := Option.bind_eq_some_iff.mp h
        obtain ⟨rfl, rfl⟩ := Prod.mk.inj (Option.some.inj h)
        obtain ⟨w', hw', hrest₂⟩ := exists_skipWs rest₂
        obtain ⟨t', ht', hvalueText⟩ := hvalue _ _ _ hv
        refine ⟨_, ?_, Member.mk hchars hw hw' hvalueText⟩
        rw [hc, ht, hrest₁, hcolon, hrest₂, ht']
        simp only [List.append_assoc, List.cons_append]
      · cases h
    · cases h

/-- The text of a value is read as it. -/
theorem readValue_reads (depth : ℕ) : Reads (readValue depth) Value := by
  induction depth with
  | zero =>
    intro input v rest h
    cases h
  | succ depth ih =>
    intro input v rest h
    cases input with
    | nil => cases h
    | cons c input =>
      rw [readValue] at h
      split at h
      · rename_i hc
        obtain ⟨s, hs, rfl⟩ := map_wrap_eq_some Json.string h
        obtain ⟨t, rfl, hchars⟩ := readChars_eq_some hs
        exact ⟨'"' :: (t ++ ['"']), by simp [hc], Value.string hchars⟩
      split at h
      · rename_i hc
        obtain ⟨vs, hvs, rfl⟩ := map_wrap_eq_some Json.array h
        rcases readList_eq_some ih hvs with ⟨rfl, w, rfl, hw⟩ | ⟨t, rfl, hlist⟩
        · exact ⟨'[' :: (w ++ [']']), by simp [hc], Value.emptyArray hw⟩
        · exact ⟨'[' :: (t ++ [']']), by simp [hc], Value.array hlist⟩
      split at h
      · rename_i hc
        obtain ⟨ms, hms, rfl⟩ := map_wrap_eq_some Json.object h
        rcases readList_eq_some (readMember_reads ih) hms with ⟨rfl, w, rfl, hw⟩ | ⟨t, rfl, hlist⟩
        · exact ⟨'{' :: (w ++ ['}']), by simp [hc], Value.emptyObject hw⟩
        · exact ⟨'{' :: (t ++ ['}']), by simp [hc], Value.object hlist⟩
      rcases Option.or_eq_some_iff.mp h with h | ⟨-, h⟩
      · exact readWord_reads Value.null _ _ _ h
      rcases Option.or_eq_some_iff.mp h with h | ⟨-, h⟩
      · exact readWord_reads Value.true _ _ _ h
      rcases Option.or_eq_some_iff.mp h with h | ⟨-, h⟩
      · exact readWord_reads Value.false _ _ _ h
      · exact readNumber_reads _ _ _ h

/-- A decoded text is a JSON text of the decoded value. -/
theorem textOf_of_decode {text : List Char} {v : Json} (h : decode text = some v) : TextOf v text := by
  obtain ⟨⟨v', rest⟩, hv, h⟩ := Option.bind_eq_some_iff.mp h
  dsimp only at h
  split at h
  · rename_i hrest
    obtain rfl := Option.some.inj h
    obtain ⟨w, hw, htext⟩ := exists_skipWs text
    obtain ⟨w', hw', hend⟩ := exists_skipWs rest
    rw [hrest, List.append_nil] at hend
    obtain ⟨body, hbody, hvalue⟩ := readValue_reads _ _ _ _ hv
    exact ⟨w, body, w', by rw [htext, hbody, hend], hw, hvalue, hw'⟩
  · cases h

end Json

end Common
