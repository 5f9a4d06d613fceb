import Argand.Answer
import Argand.Proofs.Grammar.Likeness
import Argand.Proofs.Grammar.Tiling
import Mathlib.Data.List.TakeWhile
import Mathlib.Logic.Relation

/-!
# Blanks and letter case carry no meaning

A text is respelled by edits: a blank is put in or taken out, or the case of a letter is changed.
A number must stay in one piece, and two numbers must stay apart. Then the tokens stay the same,
up to the case of letters and their positions, and so does the formula.

The scanner knows nothing of the characters before a position unless a block of digits and points
reaches over it. So a text can be cut in two wherever none does, and each side has its own tokens:
an edit takes place at such a cut.

## Main definitions

* `Argand.BlankOrCaseEdit`: an edit of some characters with tokens.
* `Argand.Respelled`: a text that edits lead to.
* `Argand.AreApart`: characters that no block of digits and points connects.

## Main results

* `Argand.ofChars_append`: the tokens of characters that are apart.
* `Argand.alike_of_edit`: an edit keeps the tokens.
* `Argand.read_respelled`: a respelled text has the same tokens and the same formula.
-/

namespace Argand

variable {α : Type}

/-! ### Edits -/

/-- An **edit** of some characters that are cut into tokens. -/
inductive BlankOrCaseEdit (tokens : List Token) (cs : List Char) : List Char → Prop
  /-- A blank is put in anywhere but inside a number. -/
  | insert (before after : List Char) (blank : Char) (hcs : cs = before ++ after)
      (hblank : Text.isBlank blank = true)
      (houtside : ∀ t ∈ tokens, t.kind = .number →
        ¬ (t.position < before.length ∧ before.length < t.stop)) :
      BlankOrCaseEdit tokens cs (before ++ blank :: after)
  /-- A blank is taken out that is not all that stands between two numbers. -/
  | delete (before after : List Char) (blank : Char) (hcs : cs = before ++ blank :: after)
      (hblank : Text.isBlank blank = true)
      (hbetween : ∀ t ∈ tokens, ∀ u ∈ tokens, t.kind = .number → u.kind = .number →
        ¬ (t.stop = before.length ∧ u.position = before.length + 1)) :
      BlankOrCaseEdit tokens cs (before ++ after)
  /-- The case of a letter that is neither `e` nor `i` in either case is changed. -/
  | recase (before after : List Char) (c d : Char) (hcs : cs = before ++ c :: after)
      (hletter : isLetter c = true) (hreserved : c.toLower ≠ 'e' ∧ c.toLower ≠ 'i')
      (hcase : d = c.toLower ∨ d = c.toUpper) :
      BlankOrCaseEdit tokens cs (before ++ d :: after)

/-- A text **respelled** by one edit. -/
def RespelledOnce (source source' : String) : Prop :=
  ∃ tokens, tokenize source = .ok tokens ∧ BlankOrCaseEdit tokens source.toList source'.toList

/-- A text **respelled** by any number of edits, each of what the one before it led to. -/
def Respelled : String → String → Prop :=
  Relation.ReflTransGen RespelledOnce

/-! ### Characters that are apart -/

/-- Two runs of characters are **apart** if no block of digits and points reaches from one into
the other. -/
def AreApart (before after : List Char) : Prop :=
  ∀ c ∈ before.getLast?, ∀ d ∈ after.head?, isNumeralChar c = true → isNumeralChar d = false

namespace AreApart

variable {before after : List Char} {c : Char}

/-- What does not begin with a digit or a point is apart from everything before it. -/
theorem of_head (hc : isNumeralChar c = false) : AreApart before (c :: after) := by
  intro _ _ d hd _
  obtain rfl := Option.some.inj hd
  exact hc

/-- The end of a run is apart from what the run is apart from. -/
theorem of_suffix {rest : List Char} (h : AreApart before after) (hrest : rest <:+ before) :
    AreApart rest after := by
  intro d hd
  obtain ⟨start, rfl⟩ := hrest
  refine h d ?_
  rw [List.getLast?_append, Option.mem_def.mp hd]
  rfl

/-- The digits and points at the front of two runs that are apart are those of the first one. -/
theorem takeWhile_append (h : AreApart before after) (hne : before ≠ []) :
    (before ++ after).takeWhile isNumeralChar = before.takeWhile isNumeralChar := by
  rw [List.takeWhile_append]
  split
  · rename_i hlength
    have hall : before.takeWhile isNumeralChar = before :=
      (List.takeWhile_prefix _).eq_of_length hlength
    have hlast : isNumeralChar (before.getLast hne) = true :=
      List.takeWhile_eq_self_iff.mp hall _ (List.getLast_mem hne)
    have hafter : after.takeWhile isNumeralChar = [] := by
      cases after with
      | nil => rfl
      | cons d after =>
          have hd := h _ (List.getLast?_eq_some_getLast hne) d rfl hlast
          exact List.takeWhile_cons_of_neg (by rw [hd]; decide)
    rw [hafter, List.append_nil, hall]
  · rfl

/-- What follows them is the rest of the first run and the second one. -/
theorem dropWhile_append (h : AreApart before after) (hne : before ≠ []) :
    (before ++ after).dropWhile isNumeralChar = before.dropWhile isNumeralChar ++ after := by
  have hsplit : before.takeWhile isNumeralChar ++ (before ++ after).dropWhile isNumeralChar =
      before.takeWhile isNumeralChar ++ (before.dropWhile isNumeralChar ++ after) := by
    rw [← h.takeWhile_append hne, List.takeWhile_append_dropWhile, h.takeWhile_append hne,
      ← List.append_assoc, List.takeWhile_append_dropWhile]
  exact List.append_cancel_left hsplit

end AreApart

/-! ### The steps of the scanner -/

section Steps

variable {c : Char} {rest : List Char} {position : Nat}

/-- A blank is no token and no digit. -/
theorem singleKind?_of_isBlank (h : Text.isBlank c = true) :
    singleKind? c = none ∧ isNumeralChar c = false := by
  have hcode : c.toNat ∈ [9, 10, 11, 12, 13, 28, 29, 30, 31, 32, 0x85, 0xA0, 0x1680, 0x2000, 0x2001,
      0x2002, 0x2003, 0x2004, 0x2005, 0x2006, 0x2007, 0x2008, 0x2009, 0x200A, 0x2028, 0x2029,
      0x202F, 0x205F, 0x3000] := by
    simp only [Text.isBlank, Bool.or_eq_true, Bool.and_eq_true, decide_eq_true_eq] at h
    simp only [List.mem_cons, List.not_mem_nil, or_false]
    omega
  rw [← Char.ofNat_toNat c]
  revert hcode
  generalize c.toNat = n
  revert n
  decide +kernel

/-- Nor is a token of one character a digit or a point. -/
theorem isNumeralChar_of_singleKind? {kind : TokenKind} (h : singleKind? c = some kind) :
    isNumeralChar c = false := by
  by_contra hnumeral
  rw [(singleKind?_of_isNumeralChar (by simpa using hnumeral)).1] at h
  cases h

/-- A blank is passed over. -/
theorem ofChars_blank (h : Text.isBlank c = true) :
    Token.ofChars position (c :: rest) = Token.ofChars (position + 1) rest := by
  obtain ⟨hkind, hnumeral⟩ := singleKind?_of_isBlank h
  have hdigit : Text.isAsciiDigit c = false := (Bool.or_eq_false_iff.mp hnumeral).1
  rw [Token.ofChars]
  simp [hkind, hdigit, h]

/-- A single character is a token. -/
theorem ofChars_single {kind : TokenKind} (h : singleKind? c = some kind) :
    Token.ofChars position (c :: rest) = (do
      return ⟨kind, c.toString, position⟩ :: (← Token.ofChars (position + 1) rest)) := by
  rw [Token.ofChars]
  simp only [h]

/-- A digit begins a number. -/
theorem ofChars_digit (h : Text.isAsciiDigit c = true) :
    Token.ofChars position (c :: rest) = (do
      let numeral ← scanNumeral position (c :: rest)
      return ⟨.number, String.ofList numeral, position⟩ ::
        (← Token.ofChars (position + numeral.length) (rest.dropWhile isNumeralChar))) := by
  have hnumeral : isNumeralChar c = true := by rw [isNumeralChar, h, Bool.true_or]
  rw [Token.ofChars]
  simp only [(singleKind?_of_isNumeralChar hnumeral).1, h, if_true]

/-- Any other character ends the scan. -/
theorem ofChars_unknown (hkind : singleKind? c = none) (hdigit : Text.isAsciiDigit c = false)
    (hblank : Text.isBlank c = false) :
    Token.ofChars position (c :: rest) = .error (.unknownCharacter c position) := by
  rw [Token.ofChars]
  simp [hkind, hdigit, hblank]

/-- A scan that succeeds gives the block at the front, and so it does at any other position. -/
theorem scanNumeral_eq_ok {cs numeral : List Char} (h : scanNumeral position cs = .ok numeral) :
    numeral = cs.takeWhile isNumeralChar ∧ ∀ p, scanNumeral p cs = .ok numeral := by
  simp only [scanNumeral] at h ⊢
  split at h
  · cases h
  · exact ⟨(Except.ok.inj h).symm, fun _ => h⟩

end Steps

/-! ### The tokens of characters that are apart -/

/-- The numeral at the front of two runs that are apart is that of the first one. -/
theorem scanNumeral_append {before after : List Char} (h : AreApart before after)
    (hne : before ≠ []) (position : Nat) :
    scanNumeral position (before ++ after) = scanNumeral position before := by
  rw [scanNumeral, scanNumeral, h.takeWhile_append hne]

/-- **Runs of characters that are apart have their own tokens.** -/
theorem ofChars_append_eq_ok {before after : List Char} {start : Nat} (h : AreApart before after)
    {tokens : List Token} :
    Token.ofChars start (before ++ after) = .ok tokens ↔
      ∃ ts us, Token.ofChars start before = .ok ts ∧
        Token.ofChars (start + before.length) after = .ok us ∧ ts ++ us = tokens := by
  induction start, before using Token.ofChars.induct generalizing tokens with
  | case1 start => simp [Token.ofChars]
  | case2 start c rest kind hkind ih =>
      have hposition : start + (c :: rest).length = start + 1 + rest.length := by
        rw [List.length_cons]
        omega
      rw [List.cons_append, ofChars_single hkind, ofChars_single hkind, hposition]
      simp only [bind_eq_ok, pure_eq_ok, ih (h.of_suffix (List.suffix_cons c rest))]
      constructor
      · rintro ⟨_, ⟨ts, us, hts, hus, rfl⟩, rfl⟩
        exact ⟨_, us, ⟨ts, hts, rfl⟩, hus, rfl⟩
      · rintro ⟨_, us, ⟨ts, hts, rfl⟩, hus, rfl⟩
        exact ⟨_, ⟨ts, us, hts, hus, rfl⟩, rfl⟩
  | case3 start c rest _ hdigit ih =>
      have hne : c :: rest ≠ [] := List.cons_ne_nil c rest
      have hnumeral : isNumeralChar c = true := by rw [isNumeralChar, hdigit, Bool.true_or]
      have hdrop : (c :: rest).dropWhile isNumeralChar = rest.dropWhile isNumeralChar :=
        List.dropWhile_cons_of_pos hnumeral
      have hsuffix : AreApart (rest.dropWhile isNumeralChar) after :=
        h.of_suffix ((List.dropWhile_suffix _).trans (List.suffix_cons c rest))
      have hposition {numeral : List Char} (hscan : scanNumeral start (c :: rest) = .ok numeral) :
          start + (c :: rest).length =
            start + numeral.length + (rest.dropWhile isNumeralChar).length := by
        rw [(scanNumeral_eq_ok hscan).1, Nat.add_assoc, ← hdrop, ← List.length_append,
          List.takeWhile_append_dropWhile]
      have ih {numeral : List Char} {tokens : List Token} := @ih numeral hsuffix tokens
      have happend := h.dropWhile_append hne
      rw [List.cons_append, List.dropWhile_cons_of_pos hnumeral, hdrop] at happend
      rw [List.cons_append, ofChars_digit hdigit, ofChars_digit hdigit, ← List.cons_append,
        scanNumeral_append h hne, happend]
      simp only [bind_eq_ok, pure_eq_ok]
      constructor
      · rintro ⟨numeral, hscan, _, hrest, rfl⟩
        obtain ⟨ts, us, hts, hus, rfl⟩ := ih.mp hrest
        exact ⟨_, us, ⟨numeral, hscan, ts, hts, rfl⟩, hposition hscan ▸ hus, rfl⟩
      · rintro ⟨_, us, ⟨numeral, hscan, ts, hts, rfl⟩, hus, rfl⟩
        exact ⟨numeral, hscan, _, ih.mpr ⟨ts, us, hts, hposition hscan ▸ hus, rfl⟩, rfl⟩
  | case4 start c rest _ _ hblank ih =>
      have hposition : start + (c :: rest).length = start + 1 + rest.length := by
        rw [List.length_cons]
        omega
      rw [List.cons_append, ofChars_blank hblank, ofChars_blank hblank, hposition]
      exact ih (h.of_suffix (List.suffix_cons c rest))
  | case5 start c rest hkind hdigit hblank =>
      rw [List.cons_append, ofChars_unknown hkind (Bool.eq_false_iff.mpr hdigit)
        (Bool.eq_false_iff.mpr hblank), ofChars_unknown hkind (Bool.eq_false_iff.mpr hdigit)
        (Bool.eq_false_iff.mpr hblank)]
      simp

/-- At another position characters have **the same tokens**, but for their positions. -/
theorem ofChars_move {start : Nat} {cs : List Char} {ts : List Token}
    (h : Token.ofChars start cs = .ok ts) (start' : Nat) :
    ∃ us, Token.ofChars start' cs = .ok us ∧ List.Forall₂ Token.Alike ts us := by
  induction start, cs using Token.ofChars.induct generalizing start' ts with
  | case1 start =>
      rw [Token.ofChars] at h
      obtain rfl := Except.ok.inj h
      exact ⟨[], by rw [Token.ofChars], .nil⟩
  | case2 start c rest kind hkind ih =>
      rw [ofChars_single hkind] at h
      simp only [bind_eq_ok, pure_eq_ok] at h
      obtain ⟨ts, hts, rfl⟩ := h
      obtain ⟨us, hus, halike⟩ := ih hts (start' + 1)
      refine ⟨⟨kind, c.toString, start'⟩ :: us, ?_, .cons ⟨rfl, rfl, fun _ => rfl⟩ halike⟩
      rw [ofChars_single hkind, hus]
      rfl
  | case3 start c rest _ hdigit ih =>
      rw [ofChars_digit hdigit] at h
      simp only [bind_eq_ok, pure_eq_ok] at h
      obtain ⟨numeral, hscan, ts, hts, rfl⟩ := h
      obtain ⟨us, hus, halike⟩ := ih numeral hts (start' + numeral.length)
      have hscan' := (scanNumeral_eq_ok hscan).2 start'
      refine ⟨⟨.number, String.ofList numeral, start'⟩ :: us, ?_,
        .cons ⟨rfl, rfl, fun _ => rfl⟩ halike⟩
      simp only [ofChars_digit hdigit, bind_eq_ok, pure_eq_ok]
      exact ⟨numeral, hscan', us, hus, rfl⟩
  | case4 start c rest _ _ hblank ih =>
      rw [ofChars_blank hblank] at h ⊢
      exact ih h _
  | case5 start c rest hkind hdigit hblank =>
      rw [ofChars_unknown hkind (Bool.eq_false_iff.mpr hdigit)
        (Bool.eq_false_iff.mpr hblank)] at h
      cases h

/-! ### Cuts of a text -/

section Cuts

variable {before after : List Char} {tokens : List Token}

/-- In a tiled text **a digit or a point belongs to a number**. -/
theorem Tiles.exists_number {cs : List Char} {k : Nat} (h : Tiles cs 0 tokens)
    (hk : NumeralAt cs k) :
    ∃ t ∈ tokens, t.kind = .number ∧ IsBlock cs t.position t.stop ∧ t.position ≤ k ∧
      k < t.stop := by
  obtain ⟨c, hc, hnumeral⟩ := hk
  obtain ⟨hkind, hblank⟩ := singleKind?_of_isNumeralChar hnumeral
  obtain ⟨t, ht, hlo, hhi⟩ : ∃ t ∈ tokens, t.position ≤ k ∧ k < t.stop := by
    by_contra hout
    have hc' := h.blanks k (Nat.zero_le k) (fun t ht hin => hout ⟨t, ht, hin⟩) c hc
    rw [hblank] at hc'
    cases hc'
  have htile := h.tile t ht
  have hnumber : t.kind = .number := by
    by_contra hne
    obtain ⟨d, htext, hd⟩ := htile.single hne
    have hstop : t.stop = t.position + 1 := by rw [Token.stop, htext, List.length_singleton]
    obtain rfl : k = t.position := by omega
    obtain ⟨rest, hrest⟩ := htext ▸ htile.slice
    rw [Option.mem_def, ← Nat.add_zero t.position, getElem?_of_drop_eq hrest.symm] at hc
    obtain rfl := Option.some.inj hc
    rw [hkind] at hd
    cases hd
  exact ⟨t, ht, hnumber, htile.block hnumber, hlo, hhi⟩

/-- The digit or point that ends a run. -/
theorem numeralAt_last (after : List Char) {c : Char} (hc : c ∈ before.getLast?)
    (h : isNumeralChar c = true) : ∃ k, k + 1 = before.length ∧ NumeralAt (before ++ after) k := by
  obtain ⟨init, rfl⟩ := List.getLast?_eq_some_iff.mp hc
  refine ⟨init.length, by simp, c, ?_, h⟩
  rw [List.append_assoc, List.getElem?_append_right le_rfl, Nat.sub_self]
  rfl

/-- A place outside all numbers **cuts a text** in two. -/
theorem areApart_of_outside (h : Tiles (before ++ after) 0 tokens)
    (houtside : ∀ t ∈ tokens, t.kind = .number →
      ¬ (t.position < before.length ∧ before.length < t.stop)) : AreApart before after := by
  intro c hc d hd hnumeral
  by_contra hd'
  obtain ⟨k, hk, hat⟩ := numeralAt_last after hc hnumeral
  have hat' : NumeralAt (before ++ after) before.length := by
    refine ⟨d, ?_, by simpa using hd'⟩
    rw [List.getElem?_append_right le_rfl, Nat.sub_self, ← List.head?_eq_getElem?]
    exact hd
  obtain ⟨t, ht, hkind, hblock, hlo, hhi⟩ := h.exists_number hat
  refine houtside t ht hkind ⟨by omega, ?_⟩
  -- the number cannot end before a digit or a point
  have hne : t.stop ≠ before.length := fun heq => hblock.after (heq ▸ hat')
  omega

/-- If a blank is not all that stands between two numbers, **it cuts a text in two** and may be
left out. -/
theorem areApart_of_between {blank : Char} (hblank : Text.isBlank blank = true)
    (h : Tiles (before ++ blank :: after) 0 tokens)
    (hbetween : ∀ t ∈ tokens, ∀ u ∈ tokens, t.kind = .number → u.kind = .number →
      ¬ (t.stop = before.length ∧ u.position = before.length + 1)) : AreApart before after := by
  intro c hc d hd hnumeral
  by_contra hd'
  obtain ⟨k, hk, hat⟩ := numeralAt_last (blank :: after) hc hnumeral
  have hat' : NumeralAt (before ++ blank :: after) (before.length + 1) := by
    refine ⟨d, ?_, by simpa using hd'⟩
    rw [List.getElem?_append_right (Nat.le_succ _), Nat.succ_sub le_rfl, Nat.sub_self,
      List.getElem?_cons_succ, ← List.head?_eq_getElem?]
    exact hd
  have hgap : ¬ NumeralAt (before ++ blank :: after) before.length := by
    rintro ⟨c', hc', hnumeral'⟩
    rw [List.getElem?_append_right le_rfl, Nat.sub_self] at hc'
    obtain rfl := Option.some.inj hc'
    rw [(singleKind?_of_isBlank hblank).2] at hnumeral'
    cases hnumeral'
  obtain ⟨t, ht, hkind, hblock, hlo, hhi⟩ := h.exists_number hat
  obtain ⟨u, hu, hkind', hblock', hlo', hhi'⟩ := h.exists_number hat'
  refine hbetween t ht u hu hkind hkind' ⟨?_, ?_⟩
  · have hstop : ¬ before.length < t.stop := fun hlt => hgap (hblock.numeral _ (by omega) hlt)
    omega
  · have hstart : ¬ u.position ≤ before.length :=
      fun hle => hgap (hblock'.numeral _ hle (by omega))
    omega

end Cuts

/-! ### Edits keep the tokens -/

/-- The lower case of a single character. -/
theorem toLower_toString (c : Char) : c.toString.toLower = c.toLower.toString := by
  have hmap : (c.toString.map Char.toLower).toList = c.toLower.toString.toList := by
    simp [Char.toString]
  exact String.toList_inj.mp hmap

/-- A letter that is neither `e` nor `i` in either case is no constant. -/
theorem singleKind?_of_isLetter {c : Char} (hletter : isLetter c = true)
    (hreserved : c.toLower ≠ 'e' ∧ c.toLower ≠ 'i') : singleKind? c = some .letter := by
  revert hreserved
  refine forall_isLetter (P := fun c => c.toLower ≠ 'e' ∧ c.toLower ≠ 'i' →
    singleKind? c = some .letter) ?_ hletter
  decide +kernel

/-- A letter in either case is a letter with the same small letter. -/
theorem toLower_of_recase {c d : Char} (hletter : isLetter c = true)
    (hcase : d = c.toLower ∨ d = c.toUpper) : isLetter d = true ∧ d.toLower = c.toLower := by
  have hlower : isLetter c.toLower = true ∧ c.toLower.toLower = c.toLower :=
    forall_isLetter (P := fun c => isLetter c.toLower = true ∧ c.toLower.toLower = c.toLower)
      (by decide +kernel) hletter
  have hupper : isLetter c.toUpper = true ∧ c.toUpper.toLower = c.toLower :=
    forall_isLetter (P := fun c => isLetter c.toUpper = true ∧ c.toUpper.toLower = c.toLower)
      (by decide +kernel) hletter
  obtain rfl | rfl := hcase
  · exact hlower
  · exact hupper

/-- **An edit keeps the tokens**, but for the case of letters. -/
theorem alike_of_edit {cs cs' : List Char} {tokens : List Token}
    (htokens : Token.ofChars 0 cs = .ok tokens) (htiles : Tiles cs 0 tokens)
    (h : BlankOrCaseEdit tokens cs cs') :
    ∃ tokens', Token.ofChars 0 cs' = .ok tokens' ∧ List.Forall₂ Token.Alike tokens tokens' := by
  cases h with
  | insert before after blank hcs hblank houtside =>
      subst hcs
      have hnumeral := (singleKind?_of_isBlank hblank).2
      obtain ⟨ts, us, hts, hus, rfl⟩ :=
        (ofChars_append_eq_ok (areApart_of_outside htiles houtside)).mp htokens
      obtain ⟨vs, hvs, halike⟩ := ofChars_move hus (0 + before.length + 1)
      refine ⟨ts ++ vs, (ofChars_append_eq_ok (.of_head hnumeral)).mpr ⟨ts, vs, hts, ?_, rfl⟩, ?_⟩
      · rw [ofChars_blank hblank, hvs]
      · exact List.rel_append (forall₂_alike_refl _) halike
  | delete before after blank hcs hblank hbetween =>
      subst hcs
      have hnumeral := (singleKind?_of_isBlank hblank).2
      obtain ⟨ts, us, hts, hus, rfl⟩ := (ofChars_append_eq_ok (.of_head hnumeral)).mp htokens
      rw [ofChars_blank hblank] at hus
      obtain ⟨vs, hvs, halike⟩ := ofChars_move hus (0 + before.length)
      refine ⟨ts ++ vs, (ofChars_append_eq_ok (areApart_of_between hblank htiles hbetween)).mpr
        ⟨ts, vs, hts, hvs, rfl⟩, ?_⟩
      exact List.rel_append (forall₂_alike_refl _) halike
  | recase before after c d hcs hletter hreserved hcase =>
      subst hcs
      have hc := singleKind?_of_isLetter hletter hreserved
      obtain ⟨hletter', hlower⟩ := toLower_of_recase hletter hcase
      have hd := singleKind?_of_isLetter hletter' (by rwa [hlower])
      obtain ⟨ts, us, hts, hus, rfl⟩ :=
        (ofChars_append_eq_ok (.of_head (isNumeralChar_of_singleKind? hc))).mp htokens
      simp only [ofChars_single hc, bind_eq_ok, pure_eq_ok] at hus
      obtain ⟨us, hus, rfl⟩ := hus
      have hafter : Token.ofChars (0 + before.length) (d :: after) =
          .ok (⟨.letter, d.toString, 0 + before.length⟩ :: us) := by
        simp only [ofChars_single hd, hus]
        rfl
      refine ⟨_, (ofChars_append_eq_ok (.of_head (isNumeralChar_of_singleKind? hd))).mpr
        ⟨ts, _, hts, hafter, rfl⟩, ?_⟩
      refine List.rel_append (forall₂_alike_refl _) (.cons ?_
        (forall₂_alike_refl _))
      exact ⟨rfl, by simp only [toLower_toString, hlower], fun hne => absurd rfl hne⟩

/-! ### Respelled texts -/

/-- **A respelled text has the same tokens**, but for the case of letters. -/
theorem tokenize_respelled {source source' : String} {tokens : List Token}
    (h : Respelled source source') (htokens : tokenize source = .ok tokens) :
    ∃ tokens', tokenize source' = .ok tokens' ∧ List.Forall₂ Token.Alike tokens tokens' := by
  induction h with
  | refl => exact ⟨tokens, htokens, forall₂_alike_refl _⟩
  | @tail middle source' _ hstep ih =>
      obtain ⟨us, hus, halike⟩ := ih
      obtain ⟨us', hus', hedit⟩ := hstep
      obtain rfl := Except.ok.inj (hus.symm.trans hus')
      obtain ⟨-, htiles⟩ := (scans_tokenize middle).of_ok hus
      obtain ⟨vs, hvs, halike'⟩ := alike_of_edit hus htiles hedit
      exact ⟨vs, hvs, forall₂_alike_trans halike halike'⟩

/-- What a text with tokens is read as: its formula, once the depth limit is known. -/
theorem outcome_read_of_tokenize (A : Arithmetic α) (limit : Except Fault DepthLimit)
    {source : String} {tokens : List Token} (h : tokenize source = .ok tokens) :
    (Formula.read A limit source).outcome =
      limit >>= fun l => (Grammar.formula A l (!tokens.isEmpty) (Cursor.start tokens)).toExcept := by
  simp only [Formula.read, Traced.outcome_bind, h]
  cases limit with
  | error f => rfl
  | ok l =>
      show ((Grammar.formula A l (!tokens.isEmpty) (Cursor.start tokens)).toExcept >>= _) =
        (Grammar.formula A l (!tokens.isEmpty) (Cursor.start tokens)).toExcept
      cases (Grammar.formula A l (!tokens.isEmpty) (Cursor.start tokens)).toExcept <;> rfl

/-- **Blanks and letter case carry no meaning.** A text that edits lead to has the same tokens as
the text that they begin with, up to the case of letters, and under the same depth limit it is the
same formula, or both fail with the same class of fault and the same code. -/
theorem read_respelled (A : Arithmetic α) (limit : Except Fault DepthLimit)
    {source source' : String} {tokens : List Token} (h : Respelled source source')
    (htokens : tokenize source = .ok tokens) :
    ∃ tokens', tokenize source' = .ok tokens' ∧ List.Forall₂ Token.Alike tokens tokens' ∧
      SameResult (Formula.read A limit source).outcome (Formula.read A limit source').outcome := by
  obtain ⟨tokens', htokens', halike⟩ := tokenize_respelled h htokens
  refine ⟨tokens', htokens', halike, ?_⟩
  rw [outcome_read_of_tokenize A limit htokens, outcome_read_of_tokenize A limit htokens']
  cases limit with
  | error f => exact SameResult.refl _
  | ok l => exact Grammar.alike_formula A l halike

/-- A blank is taken out before a bracket, one is put in after it, and the letter becomes a capital:
`x (1 2)` has the tokens and the formula of `X( 1 2)`. -/
theorem read_respelled_product :
    Respelled "x (1 2)" "X( 1 2)" ∧
      ∃ tokens', tokenize "X( 1 2)" = .ok tokens' ∧
        List.Forall₂ Token.Alike [⟨.letter, "x", 0⟩, ⟨.opening .paren, "(", 2⟩,
          ⟨.number, "1", 3⟩, ⟨.number, "2", 5⟩, ⟨.closing .paren, ")", 6⟩] tokens' ∧
        SameResult (Formula.read calculator (.ok (.ofInt 10)) "x (1 2)").outcome
          (Formula.read calculator (.ok (.ofInt 10)) "X( 1 2)").outcome := by
  have hdelete : RespelledOnce "x (1 2)" "x(1 2)" :=
    ⟨_, (by decide +kernel : tokenize "x (1 2)" = .ok [⟨.letter, "x", 0⟩, ⟨.opening .paren, "(", 2⟩,
      ⟨.number, "1", 3⟩, ⟨.number, "2", 5⟩, ⟨.closing .paren, ")", 6⟩]),
      .delete ['x'] "(1 2)".toList ' ' (by decide) (by decide)
        (by decide +kernel)⟩
  have hinsert : RespelledOnce "x(1 2)" "x( 1 2)" :=
    ⟨_, (by decide +kernel : tokenize "x(1 2)" = .ok [⟨.letter, "x", 0⟩, ⟨.opening .paren, "(", 1⟩,
      ⟨.number, "1", 2⟩, ⟨.number, "2", 4⟩, ⟨.closing .paren, ")", 5⟩]),
      .insert "x(".toList "1 2)".toList ' ' (by decide)
        (by decide) (by decide +kernel)⟩
  have hrecase : RespelledOnce "x( 1 2)" "X( 1 2)" :=
    ⟨_, (by decide +kernel : tokenize "x( 1 2)" = .ok [⟨.letter, "x", 0⟩,
      ⟨.opening .paren, "(", 1⟩, ⟨.number, "1", 3⟩, ⟨.number, "2", 5⟩, ⟨.closing .paren, ")", 6⟩]),
      .recase [] "( 1 2)".toList 'x' 'X' (by decide)
        (by decide) (by decide) (by decide)⟩
  have hrespelled : Respelled "x (1 2)" "X( 1 2)" :=
    ((Relation.ReflTransGen.single hdelete).tail hinsert).tail hrecase
  exact ⟨hrespelled, read_respelled calculator _ hrespelled (by decide +kernel)⟩

end Argand
