import Argand.Proofs.Json.Numerals

/-!
# Unfinished values

Writing stops at a value without written form, wherever it stands, and what was written before it
stays. What stays is never a structured value: the lists and records around the place are open, so
reading ends inside them, and without any around it nothing was written.

A token takes a reader one level deeper if it opens a list or a record, and one level up if it
closes one, so a reader that has found a value has closed all that was opened. It is enough to count
the levels of the tokens in a text; how they are put together plays no part. A number that is too
long would stop the reader in a way of its own, but none is written: a whole number of that length
has no written form, and a float has a point or an exponent.

## Main definitions

* `Argand.Json.nesting`: how many more lists and records some tokens open than they close.
* `Argand.Json.Reading.depth`: how many unfinished values a reader is in.
* `Argand.Json.Nests`: characters with the nesting of their tokens.
* `Argand.Json.IsBalanced`: pieces that leave nothing open, unless they have a fault.

## Main results

* `Argand.Json.Reading.depth_next`, `depth_run`: what a step and a run do to the depth.
* `Argand.Json.nests_realPiece`: a written float is no number that is too long.
* `Argand.Json.isBalanced_pieces`: written values are balanced.
* `Argand.Json.read_draft_of_fault`: a draft with a fault is no structured value.
-/

namespace Argand.Json

/-! ### Depth -/

/-- The **nesting** of a token: one for an opening mark, minus one for a closing mark. -/
def Token.nesting : Token → Int
  | openList | openRecord => 1
  | closeList | closeRecord => -1
  | _ => 0

/-- How many more lists and records some tokens **open** than they close. -/
def nesting (ts : List Token) : Int :=
  (ts.map Token.nesting).sum

@[simp] theorem nesting_nil : nesting [] = 0 := rfl

@[simp] theorem nesting_cons (t : Token) (ts : List Token) :
    nesting (t :: ts) = t.nesting + nesting ts :=
  List.sum_cons

@[simp] theorem nesting_append (ts us : List Token) :
    nesting (ts ++ us) = nesting ts + nesting us := by
  rw [nesting, List.map_append, List.sum_append]
  rfl

/-- How many **unfinished** lists and records a reader is in. -/
def Reading.depth : Reading → Nat
  | value stack => stack.length
  | firstItem stack | firstKey stack | afterItem _ stack | nextKey _ stack | colon _ _ stack |
    afterEntry _ stack => stack.length + 1
  | finished _ => 0

@[simp] theorem depth_deliver (v : Json) (stack : List Frame) :
    (deliver v stack).depth = stack.length := by
  cases stack with
  | nil => rfl
  | cons frame stack => cases frame <;> rfl

/-- A token that begins a value in some unfinished ones. -/
theorem depth_readValue {stack : List Frame} {r : Reading} {t : Token}
    (h : readValue stack t = .ok r) : (r.depth : Int) = stack.length + t.nesting := by
  cases t with
  | scalar v => cases h; rw [depth_deliver]; rfl
  | text s => cases h; rw [depth_deliver]; rfl
  | openList => cases h; rfl
  | openRecord => cases h; rfl
  | _ => cases h

/-- **One token** changes the depth by its nesting. -/
theorem Reading.depth_next {r r' : Reading} {t : Token} (h : r.next t = .ok r') :
    (r'.depth : Int) = r.depth + t.nesting := by
  unfold Reading.next at h
  split at h
  case h_1 => exact depth_readValue h
  case h_3 => exact depth_readValue h
  -- a closing mark finishes the innermost value
  case h_2 | h_5 | h_6 | h_11 =>
    cases h
    rw [depth_deliver]
    simp [depth, Token.nesting]
  all_goals cases h <;> simp [depth, Token.nesting]

/-- **A run** that ends with a value ends outside of all lists and records. -/
theorem Reading.depth_run {r : Reading} {ts : List Token} {v : Json} (h : r.run ts = .ok v) :
    (r.depth : Int) + Json.nesting ts = 0 := by
  induction ts generalizing r with
  | nil => cases r <;> cases h; rfl
  | cons t ts ih =>
      cases hnext : r.next t with
      | error stop => cases r <;> simp [Reading.run, hnext] at h
      | ok r' =>
          rw [Reading.run_cons hnext] at h
          have hstep := depth_next hnext
          have hrest := ih h
          rw [nesting_cons]
          omega

/-- A single token is too long only if it is a number that is too long. -/
theorem Reading.next_eq_tooLong {r : Reading} {t : Token} {n : Nat}
    (h : r.next t = .error (.tooLong n)) : t = .tooLong n := by
  cases r <;> cases t <;> cases h <;> rfl

/-- A run stops at a number that is too long only if there is one. -/
theorem Reading.run_eq_tooLong {r : Reading} {ts : List Token} {n : Nat}
    (h : r.run ts = .error (.tooLong n)) : .tooLong n ∈ ts := by
  induction ts generalizing r with
  | nil => cases r <;> cases h
  | cons t ts ih =>
      cases hnext : r.next t with
      | error stop =>
          obtain rfl : stop = .tooLong n := by cases r <;> simpa [Reading.run, hnext] using h
          rw [next_eq_tooLong hnext]
          exact List.mem_cons_self
      | ok r' =>
          rw [Reading.run_cons hnext] at h
          exact List.mem_cons_of_mem t (ih h)

/-! ### The nesting of characters -/

/-- Characters with a **nesting**: if what follows them ends a run, they have tokens of their own,
of this nesting, and there is no number that is too long among them. -/
def Nests (cs : List Char) (n : Int) : Prop :=
  ∃ ts, (∀ rest, EndsRun rest →
      tokensFrom .between (cs ++ rest) = ts ++ tokensFrom .between rest) ∧
    nesting ts = n ∧ ∀ k, .tooLong k ∉ ts

/-- A text is the **mark** of a token. -/
def IsMark (s : String) (t : Token) : Prop :=
  ∃ c, s.toList = [c] ∧ markToken? c = some t

/-- A mark is no gap and no quote, and it ends a run. -/
theorem plain_of_markToken? {c : Char} {t : Token} (h : markToken? c = some t) :
    isGap c = false ∧ c ≠ '"' ∧ endsRun c = true ∧ ∀ k, t ≠ .tooLong k := by
  unfold markToken? at h
  split at h <;> cases h <;> exact ⟨rfl, by decide, rfl, nofun⟩

namespace Nests

variable {cs ds gap : List Char} {m n : Int}

theorem nil : Nests [] 0 :=
  ⟨[], fun _ _ => rfl, rfl, fun _ => List.not_mem_nil⟩

/-- A token before some characters. -/
theorem token {t : Token} (htoken : ∀ rest,
      tokensFrom .between (cs ++ rest) = t :: tokensFrom .between rest)
    (ht : ∀ k, t ≠ .tooLong k) (h : Nests ds n) : Nests (cs ++ ds) (t.nesting + n) := by
  obtain ⟨ts, htokens, rfl, hshort⟩ := h
  refine ⟨t :: ts, fun rest hrest => ?_, nesting_cons t ts, fun k hk => ?_⟩
  · rw [List.append_assoc, htoken, htokens rest hrest, List.cons_append]
  · obtain heq | hk := List.mem_cons.mp hk
    · exact ht k heq.symm
    · exact hshort k hk

/-- A mark before some characters. -/
theorem mark {c : Char} {t : Token} (hmark : markToken? c = some t) (h : Nests ds n) :
    Nests (c :: ds) (t.nesting + n) := by
  obtain ⟨hgap, hquote, -, hshort⟩ := plain_of_markToken? hmark
  have htoken (rest : List Char) :
      tokensFrom .between ([c] ++ rest) = t :: tokensFrom .between rest :=
    tokensFrom_mark hgap hquote hmark rest
  exact h.token htoken hshort

/-- Characters that end a run after some others. -/
theorem append (h : Nests cs m) (h' : Nests ds n)
    (hends : ∀ rest, EndsRun rest → EndsRun (ds ++ rest)) : Nests (cs ++ ds) (m + n) := by
  obtain ⟨ts, htokens, rfl, hshort⟩ := h
  obtain ⟨us, htokens', rfl, hshort'⟩ := h'
  refine ⟨ts ++ us, fun rest hrest => ?_, nesting_append ts us, fun k hk => ?_⟩
  · rw [List.append_assoc, htokens _ (hends rest hrest), htokens' rest hrest, List.append_assoc]
  · exact (List.mem_append.mp hk).elim (hshort k) (hshort' k)

/-- A gap before some characters. -/
theorem gap_append (hgap : ∀ c ∈ gap, isGap c = true) (h : Nests cs n) : Nests (gap ++ cs) n := by
  obtain ⟨ts, htokens, hn, hshort⟩ := h
  refine ⟨ts, fun rest hrest => ?_, hn, hshort⟩
  rw [List.append_assoc, tokensFrom_gap hgap, htokens rest hrest]

/-- **An open nesting** is never that of a value. -/
theorem run_eq (h : Nests cs n) (hopen : 0 < n) :
    (Reading.value []).run (tokensFrom .between cs) = .error .malformed := by
  obtain ⟨ts, htokens, rfl, hshort⟩ := h
  have hts : tokensFrom .between cs = ts := by
    have := htokens [] (by exact nofun)
    rwa [List.append_nil, show tokensFrom .between [] = [] from rfl, List.append_nil] at this
  rw [hts]
  cases hrun : (Reading.value []).run ts with
  | ok v =>
      have hdepth := Reading.depth_run hrun
      simp only [Reading.depth, List.length_nil] at hdepth
      omega
  | error stop =>
      cases stop with
      | malformed => rfl
      | tooLong k => exact absurd (Reading.run_eq_tooLong hrun) (hshort k)

end Nests

/-- A number opens nothing and closes nothing. -/
theorem nesting_ofNumber (negative : Bool) (cs : List Char) :
    nesting (Token.ofNumber negative cs) = 0 := by
  have hwhole (digits : List Char) : (Token.ofWhole negative digits).nesting = 0 := by
    unfold Token.ofWhole
    split <;> rfl
  have hreal (numeral : List Char) : (Token.ofReal negative numeral).nesting = 0 := by
    unfold Token.ofReal
    split <;> rfl
  simp only [Token.ofNumber]
  split_ifs <;> simp only [nesting_cons, nesting_nil, hwhole, hreal] <;> rfl

/-- A run opens nothing and closes nothing. -/
theorem nesting_ofScalar (cs : List Char) : nesting (Token.ofScalar cs) = 0 := by
  unfold Token.ofScalar
  split
  case h_7 => split <;> exact nesting_ofNumber _ _
  all_goals rfl

/-- A run that is no number that is too long. -/
theorem nests_scalar {cs : List Char} (hne : cs ≠ []) (hcs : (cs.all fun c => !endsRun c) = true)
    (hshort : ∀ k, .tooLong k ∉ Token.ofScalar cs) : Nests cs 0 :=
  ⟨_, fun _ hrest => tokensFrom_scalar hrest hne (by simpa using hcs), nesting_ofScalar cs, hshort⟩

/-- A word opens nothing and closes nothing. -/
theorem nests_word {s : String}
    (h : s ∈ ["null", "true", "false", "NaN", "Infinity", "-Infinity"]) : Nests s.toList 0 := by
  simp only [List.mem_cons, List.not_mem_nil, or_false] at h
  rcases h with rfl | rfl | rfl | rfl | rfl | rfl <;>
    exact nests_scalar (by decide) (by decide) (by simp [Token.ofScalar])

/-- A written float opens nothing and closes nothing. -/
theorem nests_realPiece (x : Float) : Nests (realPiece x).toList 0 := by
  unfold realPiece
  split_ifs with hnan hinf hnegative
  · exact nests_word (by decide)
  · exact nests_word (by decide)
  · exact nests_word (by decide)
  · obtain ⟨cs, hcs, htext⟩ := exists_floatText (by simpa using hnan) (by simpa using hinf)
    have hsign : ((if isNegative x then ['-'] else []).all fun c => !endsRun c) = true := by
      split <;> rfl
    rw [htext]
    refine nests_scalar ?_ ?_ (hcs.tooLong_notMem_ofScalar _)
    · obtain ⟨whole, rest, d, ds, rfl, -, -, rfl | ⟨sign, -, rfl⟩⟩ := hcs.parts <;> simp
    · rw [List.all_append, hsign, Bool.true_and]
      simpa using hcs.endsRun

/-- A written whole number opens nothing and closes nothing. -/
theorem nests_toString {n : Int} (h : (toString n.natAbs).length ≤ Text.mostWholeDigits) :
    Nests (toString n).toList 0 := by
  obtain ⟨hne, hrun⟩ := endsRun_toString n
  refine nests_scalar hne (by simpa using hrun) fun k => ?_
  rw [ofScalar_toString h]
  simp

/-- A written text opens nothing and closes nothing. -/
theorem nests_textPiece (s : String) : Nests (textPiece s).toList 0 := by
  have h := Nests.nil.token (tokensFrom_textPiece s) nofun
  rwa [List.append_nil] at h

/-- An empty list and an empty record are closed where they are opened. -/
theorem nests_brackets : Nests "[]".toList 0 ∧ Nests "\x7b\x7d".toList 0 :=
  ⟨⟨[.openList, .closeList], fun _ _ => rfl, rfl, by simp⟩,
    ⟨[.openRecord, .closeRecord], fun _ _ => rfl, rfl, by simp⟩⟩

/-! ### Written pieces -/

/-- The characters of the pieces before the first fault. -/
def writtenChars (ps : List (Except Fault String)) : List Char :=
  (writtenPieces ps).flatMap String.toList

section Pieces

variable {ps qs : List (Except Fault String)}

theorem writtenChars_cons (s : String) (ps : List (Except Fault String)) :
    writtenChars (.ok s :: ps) = s.toList ++ writtenChars ps := by
  rw [writtenChars, writtenPieces, List.flatMap_cons]
  rfl

/-- What follows pieces without a fault is written after them. -/
theorem written_append_of_none (h : firstFault? ps = none) (qs : List (Except Fault String)) :
    writtenChars (ps ++ qs) = writtenChars ps ++ writtenChars qs ∧
      firstFault? (ps ++ qs) = firstFault? qs := by
  induction ps with
  | nil => exact ⟨rfl, rfl⟩
  | cons p ps ih =>
      cases p with
      | error fault => cases h
      | ok s =>
          obtain ⟨hchars, hfault⟩ := ih h
          refine ⟨?_, hfault⟩
          rw [List.cons_append, writtenChars_cons, hchars, writtenChars_cons, List.append_assoc]

/-- What follows pieces with a fault is not written. -/
theorem written_append_of_some {fault : Fault} (h : firstFault? ps = some fault)
    (qs : List (Except Fault String)) :
    writtenChars (ps ++ qs) = writtenChars ps ∧ firstFault? (ps ++ qs) = some fault := by
  induction ps with
  | nil => cases h
  | cons p ps ih =>
      cases p with
      | error fault' => exact ⟨rfl, h⟩
      | ok s =>
          obtain ⟨hchars, hfault⟩ := ih h
          refine ⟨?_, hfault⟩
          rw [List.cons_append, writtenChars_cons, hchars, writtenChars_cons]

/-- Pieces have no fault if neither the first of them nor the rest have one. -/
theorem firstFault?_append_eq_none :
    firstFault? (ps ++ qs) = none ↔ firstFault? ps = none ∧ firstFault? qs = none := by
  cases hfault : firstFault? ps with
  | none => simp [(written_append_of_none hfault qs).2]
  | some fault => simp [(written_append_of_some hfault qs).2]

/-- The characters of a draft. -/
theorem join_writtenPieces (ps : List (Except Fault String)) :
    String.join (writtenPieces ps) = String.ofList (writtenChars ps) := by
  rw [writtenChars]
  induction writtenPieces ps with
  | nil => rfl
  | cons s ss ih =>
      rw [String.join_cons, ih, List.flatMap_cons, String.ofList_append, String.ofList_toList]

/-! ### Balanced pieces -/

/-- **Balanced** pieces: they leave nothing open, unless they have a fault, and close nothing that
they have not opened. -/
def IsBalanced (ps : List (Except Fault String)) : Prop :=
  ∃ n : Nat, Nests (writtenChars ps) n ∧ (firstFault? ps = none → n = 0)

/-- One piece that leaves nothing open. -/
theorem IsBalanced.single {s : String} (h : Nests s.toList 0) : IsBalanced [.ok s] := by
  refine ⟨0, ?_, fun _ => rfl⟩
  rwa [writtenChars_cons, show writtenChars [] = [] from rfl, List.append_nil]

/-- Nothing is written at a fault. -/
theorem IsBalanced.error (fault : Fault) : IsBalanced [.error fault] :=
  ⟨0, .nil, fun _ => rfl⟩

/-- No pieces. -/
theorem IsBalanced.nil : IsBalanced [] :=
  ⟨0, .nil, fun _ => rfl⟩

/-- **Enclosed** pieces leave nothing open just if they have no fault. -/
def IsEnclosed (ps : List (Except Fault String)) : Prop :=
  ∃ n : Nat, Nests (writtenChars ps) n ∧ (firstFault? ps = none ↔ n = 0)

theorem IsEnclosed.isBalanced (h : IsEnclosed ps) : IsBalanced ps := by
  obtain ⟨n, hn, hclosed⟩ := h
  exact ⟨n, hn, hclosed.mp⟩

/-- What stays of enclosed pieces with a fault is not structured. -/
theorem IsEnclosed.read_eq {ps : List (Except Fault String)} (h : IsEnclosed ps)
    (hfault : firstFault? ps ≠ none) : read (String.join (writtenPieces ps)) = .ok none := by
  obtain ⟨n, hn, hclosed⟩ := h
  have hopen : n ≠ 0 := fun h => hfault (hclosed.mpr h)
  rw [read, tokens, join_writtenPieces, String.toList_ofList, hn.run_eq (by omega)]

variable {l : Layout} (hl : l.IsPlain)

include hl

/-- A mark and a break before some characters. -/
theorem Nests.afterMark {s : String} {t : Token} (hs : IsMark s t) {cs : List Char} {n : Int}
    (h : Nests cs n) (depth : Nat) :
    Nests ((s ++ l.lineBreak depth).toList ++ cs) (t.nesting + n) := by
  obtain ⟨c, hs, hc⟩ := hs
  rw [String.toList_append, hs, List.append_assoc, List.singleton_append]
  exact .mark hc (h.gap_append (hl.lineBreak depth))

/-- A break and a mark after some characters. -/
theorem Nests.beforeMark {s : String} {t : Token} (hs : IsMark s t) {cs : List Char} {n : Int}
    (h : Nests cs n) (depth : Nat) :
    Nests (cs ++ (l.lineBreak depth ++ s).toList) (n + t.nesting) := by
  obtain ⟨c, hs, hc⟩ := hs
  have hmark : Nests [c] (t.nesting + 0) := .mark hc .nil
  rw [Int.add_zero] at hmark
  rw [String.toList_append, hs]
  refine h.append (hmark.gap_append (hl.lineBreak depth)) fun rest _ => ?_
  rw [List.append_assoc]
  exact (EndsRun.of_head (plain_of_markToken? hc).2.2.1 rest).gap_append (hl.lineBreak depth)

/-- **Parts separated** by a comma. -/
theorem IsBalanced.separated (h : IsBalanced ps) (h' : IsBalanced qs) (depth : Nat) :
    IsBalanced (ps ++ .ok ("," ++ l.lineBreak depth) :: qs) := by
  obtain ⟨n, hn, hclosed⟩ := h
  cases hfault : firstFault? ps with
  | some fault =>
      obtain ⟨hchars, hfault'⟩ :=
        written_append_of_some hfault (.ok ("," ++ l.lineBreak depth) :: qs)
      exact ⟨n, by rwa [hchars], by rw [hfault']; nofun⟩
  | none =>
      obtain rfl := hclosed hfault
      obtain ⟨m, hm, hclosed'⟩ := h'
      obtain ⟨hchars, hfault'⟩ :=
        written_append_of_none hfault (.ok ("," ++ l.lineBreak depth) :: qs)
      have hmark : IsMark "," .comma := ⟨',', rfl, rfl⟩
      have hcomma := hm.afterMark hl hmark depth
      refine ⟨m, ?_, by rwa [hfault']⟩
      rw [hchars, writtenChars_cons]
      have hall := hn.append hcomma fun rest _ => by
        rw [String.toList_append]
        exact .of_head rfl _
      simpa [Token.nesting] using hall

/-- **An entry**: a key before a value. -/
theorem IsBalanced.entry (h : IsBalanced ps) (key : String) :
    IsBalanced (.ok (textPiece key ++ l.afterKey) :: ps) := by
  obtain ⟨gap, hafter, hgap⟩ := hl.afterKey
  obtain ⟨n, hn, hclosed⟩ := h
  refine ⟨n, ?_, hclosed⟩
  have hcolon : Nests (':' :: (gap ++ writtenChars ps)) (Token.colon.nesting + n) :=
    .mark rfl (hn.gap_append hgap)
  rw [writtenChars_cons, String.toList_append, hafter, List.append_assoc]
  have hall := hcolon.token (tokensFrom_textPiece key) nofun
  simpa [Token.nesting] using hall

/-- **Parts enclosed** by the marks of a list or a record. -/
theorem IsBalanced.enclosed (h : IsBalanced ps) {s s' : String} {t t' : Token} (hs : IsMark s t)
    (ht : t.nesting = 1) (hs' : IsMark s' t') (ht' : t'.nesting = -1) (depth : Nat) :
    IsEnclosed (.ok (s ++ l.lineBreak (depth + 1)) :: ps ++ [.ok (l.lineBreak depth ++ s')]) := by
  obtain ⟨n, hn, hclosed⟩ := h
  cases hfault : firstFault? ps with
  | some fault =>
      -- the closing mark is not written, so the opening one stays open
      obtain ⟨hchars, hfault'⟩ := written_append_of_some hfault [.ok (l.lineBreak depth ++ s')]
      refine ⟨n + 1, ?_, ?_⟩
      · have hopen := hn.afterMark hl hs (depth + 1)
        rw [ht, Int.add_comm] at hopen
        rwa [List.cons_append, writtenChars_cons, hchars]
      · rw [List.cons_append, firstFault?, hfault']
        simp
  | none =>
      obtain rfl := hclosed hfault
      obtain ⟨hchars, hfault'⟩ := written_append_of_none hfault [.ok (l.lineBreak depth ++ s')]
      refine ⟨0, ?_, ?_⟩
      · have hall := (hn.beforeMark hl hs' depth).afterMark hl hs (depth + 1)
        rw [ht, ht'] at hall
        rw [List.cons_append, writtenChars_cons, hchars]
        simpa [writtenChars, writtenPieces] using hall
      · rw [List.cons_append, firstFault?, hfault']
        exact ⟨fun _ => rfl, fun _ => rfl⟩

/-- The items of a list in brackets. -/
theorem IsBalanced.list (h : IsBalanced ps) (depth : Nat) :
    IsEnclosed (.ok ("[" ++ l.lineBreak (depth + 1)) :: ps ++
      [.ok (l.lineBreak depth ++ "]")]) :=
  h.enclosed hl ⟨'[', rfl, rfl⟩ rfl ⟨']', rfl, rfl⟩ rfl depth

/-- The entries of a record in braces. -/
theorem IsBalanced.record (h : IsBalanced ps) (depth : Nat) :
    IsEnclosed (.ok ("\x7b" ++ l.lineBreak (depth + 1)) :: ps ++
      [.ok (l.lineBreak depth ++ "\x7d")]) :=
  h.enclosed hl ⟨'\x7b', rfl, rfl⟩ rfl ⟨'\x7d', rfl, rfl⟩ rfl depth

end Pieces

/-! ### Written values -/

section Written

variable {l : Layout} (hl : l.IsPlain)

include hl

mutual

/-- **Written values** are balanced. The induction is on the value. -/
theorem isBalanced_pieces (depth : Nat) : ∀ v : Json, IsBalanced (pieces l depth v)
  | .null => .single (nests_word (by decide))
  | .truth true => .single (nests_word (by decide))
  | .truth false => .single (nests_word (by decide))
  | .whole n => by
      rw [pieces, wholePiece]
      split
      · exact .error _
      · exact .single (nests_toString (Nat.not_lt.mp ‹_›))
  | .real x => .single (nests_realPiece x)
  | .text s => .single (nests_textPiece s)
  | .list [] => .single nests_brackets.1
  | .list (x :: rest) =>
      ((isBalanced_itemPieces (depth + 1) (x :: rest)).list hl depth).isBalanced
  | .record [] => .single nests_brackets.2
  | .record (e :: rest) =>
      ((isBalanced_entryPieces (depth + 1) (e :: rest)).record hl depth).isBalanced
  | .foreign => .error _

/-- Written items are balanced. -/
theorem isBalanced_itemPieces (depth : Nat) : ∀ items : List Json,
    IsBalanced (itemPieces l depth items)
  | [] => .nil
  | [x] => isBalanced_pieces depth x
  | x :: y :: rest =>
      (isBalanced_pieces depth x).separated hl (isBalanced_itemPieces depth (y :: rest)) depth

/-- Written entries are balanced. -/
theorem isBalanced_entryPieces (depth : Nat) : ∀ entries : List (String × Json),
    IsBalanced (entryPieces l depth entries)
  | [] => .nil
  | [(k, v)] => (isBalanced_pieces depth v).entry hl k
  | (k, v) :: e :: rest =>
      ((isBalanced_pieces depth v).entry hl k).separated hl
        (isBalanced_entryPieces depth (e :: rest)) depth

end

/-- **A draft with a fault is no structured value**, wherever the fault is. -/
theorem read_draft_of_fault {v : Json} (h : (draft l v).2 ≠ none) :
    read (draft l v).1 = .ok none := by
  cases v with
  | null | truth b | real x | text s => exact absurd rfl h
  | whole n =>
      rw [draft, pieces, wholePiece] at h ⊢
      split at h
      · rw [if_pos ‹_›]
        rfl
      · exact absurd rfl h
  | foreign => rfl
  | list items =>
      cases items with
      | nil => exact absurd rfl h
      | cons x rest =>
          have hitems := isBalanced_itemPieces hl 1 (x :: rest)
          exact (hitems.list hl 0).read_eq h
  | record entries =>
      cases entries with
      | nil => exact absurd rfl h
      | cons e rest =>
          have hentries := isBalanced_entryPieces hl 1 (e :: rest)
          exact (hentries.record hl 0).read_eq h

end Written

end Argand.Json
