import Argand.Json.Reader
import Argand.Proofs.Digits
import Argand.Proofs.Json.Quoted
import Argand.Proofs.Settings

/-!
# Written values read back

A value of null, truth values, texts, whole numbers of a length that can be written, lists and
records is read back from the text that it is written as, however deep it nests and whatever breaks
and blanks the layout has.

The reader is a machine that has read some text and waits for a value, so what is proved of a value
is what its written text does to any machine that waits for one: it takes it to where the value is
delivered. The induction is on the value. Only a run of a number or a word has to be ended by what
follows it; what follows a value in a written text does that.

## Main definitions

* `Argand.Json.IsStorable`: the values that are read back.
* `Argand.Json.Spells`: pieces without a fault, and the characters of all of them.
* `Argand.Json.ReadsAs`: characters that bring a value to any reader that waits for one.

## Main results

* `Argand.Json.exists_readsAs`: a written value is read as that value wherever it stands.
* `Argand.Json.read_draft`: a value is read back from its own text.
-/

namespace Argand.Json

/-- A value that can be **stored**: null, a truth value, a text, a whole number that is not too
long, or a list or a record of such values. -/
inductive IsStorable : Json → Prop
  | null : IsStorable .null
  | truth (b : Bool) : IsStorable (.truth b)
  | text (s : String) : IsStorable (.text s)
  | whole {n : Int} (h : (toString n.natAbs).length ≤ Text.mostWholeDigits) : IsStorable (.whole n)
  | list {items : List Json} (h : ∀ v ∈ items, v.IsStorable) : IsStorable (.list items)
  | record {entries : Entries Json} (hkeys : (entries.map Prod.fst).Nodup)
      (h : ∀ e ∈ entries, e.2.IsStorable) : IsStorable (.record entries)

/-! ### Pieces -/

/-- Pieces without a fault **spell** the characters of all of them. -/
def Spells (ps : List (Except Fault String)) (cs : List Char) : Prop :=
  ∃ ss : List String, ps = ss.map .ok ∧ cs = ss.flatMap String.toList

namespace Spells

variable {ps qs : List (Except Fault String)} {cs ds : List Char}

theorem single (s : String) : Spells [.ok s] s.toList :=
  ⟨[s], rfl, by simp⟩

theorem append (h : Spells ps cs) (h' : Spells qs ds) : Spells (ps ++ qs) (cs ++ ds) := by
  obtain ⟨ss, rfl, rfl⟩ := h
  obtain ⟨ts, rfl, rfl⟩ := h'
  exact ⟨ss ++ ts, by simp, by simp⟩

theorem cons (s : String) (h : Spells ps cs) : Spells (.ok s :: ps) (s.toList ++ cs) :=
  (single s).append h

/-- A draft of such pieces is complete. -/
theorem written (h : Spells ps cs) :
    String.join (writtenPieces ps) = String.ofList cs ∧ firstFault? ps = none := by
  obtain ⟨ss, rfl, rfl⟩ := h
  induction ss with
  | nil => exact ⟨rfl, rfl⟩
  | cons s ss ih =>
      obtain ⟨htext, hfault⟩ := ih
      refine ⟨?_, hfault⟩
      rw [List.map_cons, writtenPieces, String.join_cons, htext]
      simp [String.ofList_append]

end Spells

/-! ### Layouts -/

/-- A layout that puts only **gaps** between the parts of a list or record. -/
structure Layout.IsPlain (l : Layout) : Prop where
  lineBreak : ∀ depth, ∀ c ∈ (l.lineBreak depth).toList, isGap c = true
  afterKey : ∃ gap, l.afterKey.toList = ':' :: gap ∧ ∀ c ∈ gap, isGap c = true

/-- The layout of settings files is plain. -/
theorem Layout.isPlain_indented : Layout.indented.IsPlain where
  lineBreak depth c hc := by
    simp only [Layout.indented, String.toList_append, String.toList_ofList, List.mem_append] at hc
    obtain hc | hc := hc
    · obtain rfl := List.mem_singleton.mp hc
      rfl
    · rw [List.eq_of_mem_replicate hc]
      rfl
  afterKey := ⟨[' '], rfl, List.forall_mem_singleton.mpr rfl⟩

/-! ### Tokens -/

/-- Characters that **end a run**: there are none, or the first one does. -/
def EndsRun (rest : List Char) : Prop :=
  ∀ c ∈ rest.head?, endsRun c = true

/-- Gaps are passed over. -/
theorem tokensFrom_gap {gap : List Char} (h : ∀ c ∈ gap, isGap c = true) (rest : List Char) :
    tokensFrom .between (gap ++ rest) = tokensFrom .between rest := by
  induction gap with
  | nil => rfl
  | cons c gap ih =>
      have hc : isGap c = true := h c List.mem_cons_self
      rw [List.cons_append, tokensFrom]
      simp only [step, stepBetween, hc, if_true, List.nil_append]
      exact ih fun c hc => h c (List.mem_cons_of_mem _ hc)

/-- Gaps do not keep from ending a run. -/
theorem EndsRun.gap_append {gap rest : List Char} (h : ∀ c ∈ gap, isGap c = true)
    (hrest : EndsRun rest) : EndsRun (gap ++ rest) := by
  cases gap with
  | nil => exact hrest
  | cons c gap =>
      intro d hd
      obtain rfl := Option.some.inj hd
      rw [endsRun, h c List.mem_cons_self]
      rfl

/-- The tokens of what is left when a run ends. -/
theorem tokensFrom_run {rest : List Char} (hrest : EndsRun rest) (cs run : List Char)
    (h : ∀ c ∈ cs, endsRun c = false) :
    tokensFrom (.run run) (cs ++ rest) =
      Token.ofScalar (run.reverse ++ cs) ++ tokensFrom .between rest := by
  induction cs generalizing run with
  | nil =>
      rw [List.nil_append, List.append_nil]
      cases rest with
      | nil => simp [tokensFrom, finish]
      | cons c rest => simp [tokensFrom, step, hrest c rfl]
  | cons c cs ih =>
      have hc : endsRun c = false := h c List.mem_cons_self
      rw [List.cons_append, tokensFrom]
      simp only [step, hc, Bool.false_eq_true, if_false, List.nil_append]
      rw [ih (c :: run) fun d hd => h d (List.mem_cons_of_mem _ hd), List.reverse_cons,
        List.append_assoc]
      rfl

/-- **A run of characters** has its own tokens if what follows ends it. -/
theorem tokensFrom_scalar {cs rest : List Char} (hrest : EndsRun rest) (hne : cs ≠ [])
    (h : ∀ c ∈ cs, endsRun c = false) :
    tokensFrom .between (cs ++ rest) = Token.ofScalar cs ++ tokensFrom .between rest := by
  obtain ⟨c, cs, rfl⟩ := List.exists_cons_of_ne_nil hne
  have hc : endsRun c = false := h c List.mem_cons_self
  have hstep : stepBetween c = (.run [c], []) := by
    simp only [endsRun, Bool.or_eq_false_iff, decide_eq_false_iff_not, Option.isSome_eq_false_iff,
      Option.isNone_iff_eq_none] at hc
    obtain ⟨⟨hgap, hquote⟩, hmark⟩ := hc
    simp [stepBetween, hgap, hquote, hmark]
  rw [List.cons_append, tokensFrom, step, hstep]
  exact tokensFrom_run hrest cs [c] fun d hd => h d (List.mem_cons_of_mem _ hd)

/-! ### Whole numbers -/

/-- The whole part of the digits of a number is all of them. -/
theorem splitWhole_toDigits (n : Nat) :
    splitWhole (Nat.toDigits 10 n) = (Nat.toDigits 10 n, []) := by
  obtain rfl | hpos := Nat.eq_zero_or_pos n
  · rfl
  · have hhead := Text.head?_toDigits hpos
    unfold splitWhole
    split
    · rename_i rest heq
      rw [heq] at hhead
      exact absurd rfl hhead
    · exact span_isAsciiDigit_all Text.isAsciiDigit_of_mem_toDigits

/-- The digits of a number that is not too long, after a sign. -/
theorem ofNumber_toDigits (negative : Bool) {n : Nat}
    (h : (Nat.toDigits 10 n).length ≤ Text.mostWholeDigits) :
    Token.ofNumber negative (Nat.toDigits 10 n) =
      [.scalar (.whole (if negative then -(n : Int) else n))] := by
  have hne : (Nat.toDigits 10 n).isEmpty = false := by simp
  have hdigits : Text.boundedDigits (Nat.toDigits 10 n) = .ok n := by
    rw [Text.boundedDigits, if_neg (Nat.not_lt.mpr h), Text.digitsToNat_toDigits]
  simp [Token.ofNumber, splitWhole_toDigits, splitFraction, readFraction, splitExponent, hne,
    Token.ofWhole, hdigits]

/-- A run of digits and signs is no word. -/
theorem ofScalar_of_digits {cs : List Char} (h : ∀ c ∈ cs, c = '-' ∨ Text.isAsciiDigit c = true) :
    Token.ofScalar cs =
      if cs.head? = some '-' then Token.ofNumber true cs.tail else Token.ofNumber false cs := by
  have hword : ∀ word : String, String.ofList cs = word →
      (word.toList.all fun c => c = '-' ∨ Text.isAsciiDigit c = true) = true := by
    rintro word rfl
    rw [String.toList_ofList]
    exact List.all_eq_true.mpr fun c hc => decide_eq_true (h c hc)
  unfold Token.ofScalar
  split
  case h_7 =>
    split
    · rfl
    · rename_i hsign
      rw [if_neg]
      intro hhead
      obtain ⟨rest, rfl⟩ := List.head?_eq_some_iff.mp hhead
      exact hsign rest rfl
  all_goals
    rename_i heq
    exact absurd (hword _ heq) (by decide)

/-- **The text of a whole number** is its own token. -/
theorem ofScalar_toString {n : Int} (h : (toString n.natAbs).length ≤ Text.mostWholeDigits) :
    Token.ofScalar (toString n).toList = [.scalar (.whole n)] := by
  have hlength : (Nat.toDigits 10 n.natAbs).length ≤ Text.mostWholeDigits := by
    rwa [← Nat.toList_repr]
  have hdigits := @Text.isAsciiDigit_of_mem_toDigits n.natAbs
  rw [Text.toList_toString_int]
  by_cases hn : n < 0
  · rw [if_pos hn, ofScalar_of_digits]
    · show Token.ofNumber true (Nat.toDigits 10 n.natAbs) = _
      rw [ofNumber_toDigits true hlength, if_pos rfl]
      congr
      omega
    · intro c hc
      obtain rfl | hc := List.mem_cons.mp hc
      · exact .inl rfl
      · exact .inr (hdigits c hc)
  · have hhead : (Nat.toDigits 10 n.natAbs).head? ≠ some '-' := fun hhead =>
      absurd (hdigits '-' (List.mem_of_mem_head? hhead)) (by decide)
    rw [if_neg hn, List.nil_append, ofScalar_of_digits fun c hc => .inr (hdigits c hc),
      if_neg hhead, ofNumber_toDigits false hlength, if_neg Bool.false_ne_true]
    congr
    omega

/-! ### Readers that wait -/

/-- A reader **awaits** a value over a stack: it takes any token but the end of a list as one that
begins the value. -/
def Reading.Awaits (r : Reading) (stack : List Frame) : Prop :=
  ∀ t, t ≠ .closeList → r.next t = readValue stack t

/-- A reader **awaits a key** after some entries of a record. -/
def Reading.AwaitsKey (r : Reading) (done : List (String × Json)) (stack : List Frame) : Prop :=
  ∀ key, r.next (.text key) = .ok (.colon key done stack)

/-- After a colon, a comma in a list or at the start of a text a value is awaited. -/
theorem Reading.awaits_value (stack : List Frame) : (Reading.value stack).Awaits stack :=
  fun _ _ => rfl

/-- At the start of a list its first item is awaited. -/
theorem Reading.awaits_firstItem (stack : List Frame) :
    (Reading.firstItem stack).Awaits (.items [] :: stack) := by
  intro t ht
  cases t <;> first | rfl | exact absurd rfl ht

/-- At the start of a record its first key is awaited. -/
theorem Reading.awaitsKey_firstKey (stack : List Frame) :
    (Reading.firstKey stack).AwaitsKey [] stack :=
  fun _ => rfl

/-- After a comma in a record the next key is awaited. -/
theorem Reading.awaitsKey_nextKey (done : List (String × Json)) (stack : List Frame) :
    (Reading.nextKey done stack).AwaitsKey done stack :=
  fun _ => rfl

/-- A token that is taken. -/
theorem Reading.run_cons {r r' : Reading} {t : Token} (h : r.next t = .ok r') (ts : List Token) :
    r.run (t :: ts) = r'.run ts := by
  rw [Reading.run]
  simp only [h]

/-! ### Characters that are read as a value -/

/-- Characters **are read as** a value: they take any reader that awaits a value to where this one
is delivered, if what follows them ends a run. -/
def ReadsAs (cs : List Char) (v : Json) : Prop :=
  ∀ r stack rest, Reading.Awaits r stack → EndsRun rest →
    r.run (tokensFrom .between (cs ++ rest)) =
      (deliver v stack).run (tokensFrom .between rest)

/-- Characters are read as **further items** of a list. -/
def ItemsReadAs (cs : List Char) (items : List Json) : Prop :=
  ∀ r done stack rest, Reading.Awaits r (.items done :: stack) → EndsRun rest →
    r.run (tokensFrom .between (cs ++ rest)) =
      (Reading.afterItem (items.reverse ++ done) stack).run (tokensFrom .between rest)

/-- Characters are read as **further entries** of a record. -/
def EntriesReadAs (cs : List Char) (entries : List (String × Json)) : Prop :=
  ∀ r done stack rest, Reading.AwaitsKey r done stack → EndsRun rest →
    r.run (tokensFrom .between (cs ++ rest)) =
      (Reading.afterEntry (entries.reverse ++ done) stack).run (tokensFrom .between rest)

/-- A value of one token. -/
theorem readsAs_token {cs : List Char} {v : Json} {t : Token} (ht : t ≠ .closeList)
    (htokens : ∀ rest, EndsRun rest →
      tokensFrom .between (cs ++ rest) = t :: tokensFrom .between rest)
    (hv : ∀ stack, readValue stack t = .ok (deliver v stack)) : ReadsAs cs v := by
  intro r stack rest hr hrest
  rw [htokens rest hrest]
  exact Reading.run_cons ((hr t ht).trans (hv stack)) _

/-- A number or a word. -/
theorem readsAs_scalar {cs : List Char} {v : Json} (hne : cs ≠ [])
    (hcs : (cs.all fun c => !endsRun c) = true) (htoken : Token.ofScalar cs = [.scalar v]) :
    ReadsAs cs v := by
  have hcs' : ∀ c ∈ cs, endsRun c = false := by simpa using hcs
  refine readsAs_token (t := .scalar v) (by exact nofun) (fun rest hrest => ?_) fun _ => rfl
  rw [tokensFrom_scalar hrest hne hcs', htoken]
  rfl

/-- A text. -/
theorem readsAs_textPiece (s : String) : ReadsAs (textPiece s).toList (.text s) :=
  readsAs_token (by exact nofun) (fun rest _ => tokensFrom_textPiece s rest) fun _ => rfl

/-- A digit does not end a run. -/
theorem endsRun_of_isAsciiDigit {c : Char} (h : Text.isAsciiDigit c = true) :
    endsRun c = false := by
  have hdigits : (['0', '1', '2', '3', '4', '5', '6', '7', '8', '9'].all fun c => !endsRun c) =
      true := by
    decide
  simpa using List.all_eq_true.mp hdigits c (mem_digits h)

/-- The text of a whole number is one run. -/
theorem endsRun_toString (n : Int) :
    (toString n).toList ≠ [] ∧ ∀ c ∈ (toString n).toList, endsRun c = false := by
  rw [Text.toList_toString_int]
  refine ⟨fun hnil => Nat.toDigits_ne_nil (List.append_eq_nil_iff.mp hnil).2, fun c hc => ?_⟩
  obtain hc | hc := List.mem_append.mp hc
  · obtain rfl : c = '-' := by
      split at hc
      · exact List.mem_singleton.mp hc
      · cases hc
    rfl
  · exact endsRun_of_isAsciiDigit (Text.isAsciiDigit_of_mem_toDigits c hc)

/-- A whole number that is not too long. -/
theorem readsAs_whole {n : Int} (h : (toString n.natAbs).length ≤ Text.mostWholeDigits) :
    ReadsAs (toString n).toList (.whole n) := by
  obtain ⟨hne, hrun⟩ := endsRun_toString n
  exact readsAs_scalar hne (by simpa using hrun) (ofScalar_toString h)

/-- A mark is a token. -/
theorem tokensFrom_mark {c : Char} {t : Token} (hgap : isGap c = false) (hquote : c ≠ '"')
    (h : markToken? c = some t) (rest : List Char) :
    tokensFrom .between (c :: rest) = t :: tokensFrom .between rest := by
  simp [tokensFrom, step, stepBetween, hgap, hquote, h]

/-- An empty list. -/
theorem readsAs_nil : ReadsAs "[]".toList (.list []) := by
  intro r stack rest hr _
  have hopen : r.next .openList = .ok (.firstItem stack) := hr _ nofun
  show r.run (tokensFrom .between ('[' :: ']' :: rest)) = _
  rw [tokensFrom_mark rfl (by decide) rfl, Reading.run_cons hopen,
    tokensFrom_mark rfl (by decide) rfl, Reading.run_cons rfl]

/-- An empty record. -/
theorem readsAs_empty : ReadsAs "\x7b\x7d".toList (.record []) := by
  intro r stack rest hr _
  have hopen : r.next .openRecord = .ok (.firstKey stack) := hr _ nofun
  show r.run (tokensFrom .between ('\x7b' :: '\x7d' :: rest)) = _
  rw [tokensFrom_mark rfl (by decide) rfl, Reading.run_cons hopen,
    tokensFrom_mark rfl (by decide) rfl, Reading.run_cons rfl]

/-- A mark ends a run. -/
theorem EndsRun.of_head {c : Char} (h : endsRun c = true) (rest : List Char) :
    EndsRun (c :: rest) := by
  intro d hd
  obtain rfl := Option.some.inj hd
  exact h

section Parts

variable {cs ds gap gap' : List Char} (hgap : ∀ c ∈ gap, isGap c = true)

/-- One item. -/
theorem ReadsAs.item {v : Json} (h : ReadsAs cs v) : ItemsReadAs cs [v] :=
  fun r done stack rest hr hrest => h r (.items done :: stack) rest hr hrest

include hgap

/-- One entry: a key, a colon and a value. -/
theorem ReadsAs.entry {v : Json} (h : ReadsAs cs v) (key : String) :
    EntriesReadAs ((textPiece key).toList ++ (':' :: gap ++ cs)) [(key, v)] := by
  intro r done stack rest hr hrest
  rw [List.append_assoc, tokensFrom_textPiece, Reading.run_cons (hr key), List.append_assoc,
    List.cons_append, tokensFrom_mark rfl (by decide) rfl, Reading.run_cons rfl,
    tokensFrom_gap hgap]
  exact h _ (.entries done key :: stack) rest (Reading.awaits_value _) hrest

/-- Items, a comma, and further items. -/
theorem ItemsReadAs.append {items items' : List Json} (h : ItemsReadAs cs items)
    (h' : ItemsReadAs ds items') : ItemsReadAs (cs ++ (',' :: gap ++ ds)) (items ++ items') := by
  intro r done stack rest hr hrest
  rw [List.append_assoc, List.cons_append, List.cons_append, h r done stack _ hr (.of_head rfl _),
    tokensFrom_mark rfl (by decide) rfl, Reading.run_cons rfl, List.append_assoc,
    tokensFrom_gap hgap, h' _ _ stack rest (Reading.awaits_value _) hrest, List.reverse_append,
    List.append_assoc]

/-- Entries, a comma, and further entries. -/
theorem EntriesReadAs.append {entries entries' : List (String × Json)}
    (h : EntriesReadAs cs entries) (h' : EntriesReadAs ds entries') :
    EntriesReadAs (cs ++ (',' :: gap ++ ds)) (entries ++ entries') := by
  intro r done stack rest hr hrest
  rw [List.append_assoc, List.cons_append, List.cons_append, h r done stack _ hr (.of_head rfl _),
    tokensFrom_mark rfl (by decide) rfl, Reading.run_cons rfl, List.append_assoc,
    tokensFrom_gap hgap, h' _ _ stack rest (Reading.awaitsKey_nextKey _ _) hrest,
    List.reverse_append, List.append_assoc]

variable (hgap' : ∀ c ∈ gap', isGap c = true)

include hgap'

/-- A list of items in brackets. -/
theorem ItemsReadAs.list {items : List Json} (h : ItemsReadAs cs items) :
    ReadsAs ('[' :: gap ++ (cs ++ (gap' ++ [']']))) (.list items) := by
  intro r stack rest hr hrest
  have hopen : r.next .openList = .ok (.firstItem stack) := hr _ nofun
  have hend : EndsRun (gap' ++ (']' :: rest)) := (EndsRun.of_head rfl rest).gap_append hgap'
  simp only [List.append_assoc, List.cons_append, List.nil_append]
  rw [tokensFrom_mark rfl (by decide) rfl, Reading.run_cons hopen, tokensFrom_gap hgap,
    h _ [] stack _ (Reading.awaits_firstItem stack) hend, tokensFrom_gap hgap',
    tokensFrom_mark rfl (by decide) rfl, Reading.run_cons rfl, List.append_nil,
    List.reverse_reverse]

/-- A record of entries in braces. -/
theorem EntriesReadAs.record {entries : Entries Json} (h : EntriesReadAs cs entries)
    (hkeys : (entries.map Prod.fst).Nodup) :
    ReadsAs ('\x7b' :: gap ++ (cs ++ (gap' ++ ['\x7d']))) (.record entries) := by
  intro r stack rest hr hrest
  have hopen : r.next .openRecord = .ok (.firstKey stack) := hr _ nofun
  have hend : EndsRun (gap' ++ ('\x7d' :: rest)) := (EndsRun.of_head rfl rest).gap_append hgap'
  simp only [List.append_assoc, List.cons_append, List.nil_append]
  rw [tokensFrom_mark rfl (by decide) rfl, Reading.run_cons hopen, tokensFrom_gap hgap,
    h _ [] stack _ (Reading.awaitsKey_firstKey stack) hend, tokensFrom_gap hgap',
    tokensFrom_mark rfl (by decide) rfl, Reading.run_cons rfl, List.append_nil,
    List.reverse_reverse, Entries.ofPairs_eq (Entries.areDistinct_iff_nodup.mpr hkeys)]

end Parts

/-! ### Written values -/

section Written

variable {l : Layout} (hl : l.IsPlain)

include hl

/-- The pieces of items that are read back are read as the items. -/
theorem exists_itemsReadAs {depth : Nat} {items : List Json} (hne : items ≠ [])
    (h : ∀ v ∈ items, ∃ cs, Spells (pieces l depth v) cs ∧ ReadsAs cs v) :
    ∃ cs, Spells (itemPieces l depth items) cs ∧ ItemsReadAs cs items := by
  induction items with
  | nil => exact absurd rfl hne
  | cons v rest ih =>
      obtain ⟨cs, hcs, hv⟩ := h v List.mem_cons_self
      cases rest with
      | nil => exact ⟨cs, by rwa [itemPieces], hv.item⟩
      | cons w rest =>
          obtain ⟨ds, hds, hrest⟩ := ih (List.cons_ne_nil w rest) fun v hv =>
            h v (List.mem_cons_of_mem _ hv)
          refine ⟨cs ++ (',' :: (l.lineBreak depth).toList ++ ds), ?_,
            hv.item.append (hl.lineBreak depth) hrest⟩
          have hcomma := hds.cons ("," ++ l.lineBreak depth)
          rw [String.toList_append] at hcomma
          exact hcs.append hcomma

/-- The pieces of entries whose values are read back are read as the entries. -/
theorem exists_entriesReadAs {depth : Nat} {entries : List (String × Json)} (hne : entries ≠ [])
    (h : ∀ e ∈ entries, ∃ cs, Spells (pieces l depth e.2) cs ∧ ReadsAs cs e.2) :
    ∃ cs, Spells (entryPieces l depth entries) cs ∧ EntriesReadAs cs entries := by
  obtain ⟨gap, hafter, hgap⟩ := hl.afterKey
  induction entries with
  | nil => exact absurd rfl hne
  | cons e rest ih =>
      obtain ⟨k, v⟩ := e
      obtain ⟨cs, hcs, hv⟩ := h (k, v) List.mem_cons_self
      have hkey := hcs.cons (textPiece k ++ l.afterKey)
      rw [String.toList_append, hafter, List.append_assoc] at hkey
      cases rest with
      | nil => exact ⟨_, by rwa [entryPieces], hv.entry hgap k⟩
      | cons e rest =>
          obtain ⟨ds, hds, hrest⟩ := ih (List.cons_ne_nil e rest) fun e he =>
            h e (List.mem_cons_of_mem _ he)
          refine ⟨_, ?_, (hv.entry hgap k).append (hl.lineBreak depth) hrest⟩
          have hcomma := hds.cons ("," ++ l.lineBreak depth)
          rw [String.toList_append] at hcomma
          exact hkey.append hcomma

/-- **A written value is read as that value**, at any depth and wherever it stands. The induction is
on the value. -/
theorem exists_readsAs {v : Json} (h : v.IsStorable) (depth : Nat) :
    ∃ cs, Spells (pieces l depth v) cs ∧ ReadsAs cs v := by
  induction h generalizing depth with
  | null => exact ⟨_, .single "null", readsAs_scalar (by decide) (by decide) rfl⟩
  | truth b =>
      refine ⟨_, .single (if b then "true" else "false"), ?_⟩
      cases b
      · exact readsAs_scalar (by decide) (by decide) rfl
      · exact readsAs_scalar (by decide) (by decide) rfl
  | text s => exact ⟨_, .single (textPiece s), readsAs_textPiece s⟩
  | @whole n hn =>
      refine ⟨(toString n).toList, ?_, readsAs_whole hn⟩
      rw [pieces, wholePiece, if_neg (Nat.not_lt.mpr hn)]
      exact .single (toString n)
  | @list items _ ih =>
      by_cases hne : items = []
      · subst hne
        exact ⟨_, .single "[]", readsAs_nil⟩
      · obtain ⟨cs, hcs, hitems⟩ := exists_itemsReadAs hl hne fun v hv => ih v hv (depth + 1)
        refine ⟨_, ?_, hitems.list (hl.lineBreak (depth + 1)) (hl.lineBreak depth)⟩
        have hpieces := (hcs.append (.single (l.lineBreak depth ++ "]"))).cons
          ("[" ++ l.lineBreak (depth + 1))
        rw [String.toList_append, String.toList_append] at hpieces
        obtain ⟨x, rest, rfl⟩ := List.exists_cons_of_ne_nil hne
        exact hpieces
  | @record entries hkeys _ ih =>
      by_cases hne : entries = []
      · subst hne
        exact ⟨_, .single "\x7b\x7d", readsAs_empty⟩
      · obtain ⟨cs, hcs, hentries⟩ := exists_entriesReadAs hl hne fun e he => ih e he (depth + 1)
        refine ⟨_, ?_, hentries.record (hl.lineBreak (depth + 1)) (hl.lineBreak depth) hkeys⟩
        have hpieces := (hcs.append (.single (l.lineBreak depth ++ "\x7d"))).cons
          ("\x7b" ++ l.lineBreak (depth + 1))
        rw [String.toList_append, String.toList_append] at hpieces
        obtain ⟨e, rest, rfl⟩ := List.exists_cons_of_ne_nil hne
        exact hpieces

/-- **A value is read back from its own text**, and all of it is written. -/
theorem read_draft {v : Json} (h : v.IsStorable) :
    (draft l v).2 = none ∧ read (draft l v).1 = .ok (some v) := by
  obtain ⟨cs, hcs, hv⟩ := exists_readsAs hl h 0
  obtain ⟨htext, hfault⟩ := hcs.written
  refine ⟨hfault, ?_⟩
  have hrun := hv _ [] [] (Reading.awaits_value []) (by exact nofun)
  rw [List.append_nil] at hrun
  rw [read, draft, htext, tokens, String.toList_ofList, hrun]
  rfl

end Written

end Argand.Json
