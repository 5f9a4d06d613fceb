import Argand.Settings
import Argand.Proofs.Computation

/-!
# One setting and all settings

A single setting is looked up in the record of the settings file, all settings together are the
defaults overlaid with it. The two agree, since a record that was read has distinct keys.

## Main definitions

* `Argand.Entries.AreDistinct`: entries whose keys are distinct.
* `Argand.Json.HasDistinctKeys`: if a value is a record, its keys are distinct.
* `Argand.SettingsFile.HoldsSettings`: what is in a file is a record, if it can be read.

## Main results

* `Argand.Json.hasDistinctKeys_of_read`: a value that is read has distinct keys.
* `Argand.Entries.get?_overlay`: what is above counts, then what is below.
* `Argand.Entries.overlay_eq`: an overlay, entry by entry.
* `Argand.Json.isRecord_of_read`: a text that opens a record is the text of one.
* `Argand.SettingsFile.get?_of_get`: a single setting is the one among all of them.
* `Argand.SettingsFile.holdsSettings_save`: a file that was saved holds settings.
-/

namespace Argand

/-! ### Entries under distinct keys -/

namespace Entries

variable {κ β : Type} [BEq κ]

/-- The keys after an insertion. -/
theorem keys_insert (entries : List (κ × β)) (key : κ) (value : β) :
    (insert entries key value).map Prod.fst =
      if (entries.map Prod.fst).any (· == key) then entries.map Prod.fst
      else entries.map Prod.fst ++ [key] := by
  induction entries with
  | nil => rfl
  | cons e rest ih =>
      obtain ⟨k, v⟩ := e
      rw [insert]
      by_cases hk : (k == key) = true
      · simp [hk]
      · rw [if_neg hk, List.map_cons, List.map_cons, List.any_cons, ih]
        simp only [hk, Bool.false_or]
        split <;> rfl

/-- Setting the value of a key that is there keeps the keys. -/
theorem keys_insert_of_mem [ReflBEq κ] {entries : List (κ × β)} {key : κ}
    (h : key ∈ entries.map Prod.fst) (value : β) :
    (insert entries key value).map Prod.fst = entries.map Prod.fst := by
  have hany : (entries.map Prod.fst).any (· == key) = true :=
    List.any_eq_true.mpr ⟨key, h, BEq.rfl⟩
  rw [keys_insert, if_pos hany]

/-- Entries whose **keys are distinct**. -/
def AreDistinct (entries : List (κ × β)) : Prop :=
  (entries.map Prod.fst).Pairwise fun k l => (k == l) = false

theorem areDistinct_cons {k : κ} {v : β} {rest : List (κ × β)} :
    AreDistinct ((k, v) :: rest) ↔ (∀ e ∈ rest, (k == e.1) = false) ∧ AreDistinct rest := by
  simp [AreDistinct]

/-- Where equal keys are the same, that is to say that the keys have no duplicates. -/
theorem areDistinct_iff_nodup [LawfulBEq κ] {entries : List (κ × β)} :
    AreDistinct entries ↔ (entries.map Prod.fst).Nodup := by
  simp [AreDistinct, List.Nodup]

/-- An insertion keeps keys distinct. -/
theorem areDistinct_insert {entries : List (κ × β)} (h : AreDistinct entries) (key : κ)
    (value : β) : AreDistinct (insert entries key value) := by
  rw [AreDistinct, keys_insert]
  by_cases hany : (entries.map Prod.fst).any (· == key) = true
  · rwa [if_pos hany]
  · rw [if_neg hany]
    refine List.pairwise_append.mpr ⟨h, List.pairwise_singleton _ _, fun k hk k' hk' => ?_⟩
    obtain rfl := List.mem_singleton.mp hk'
    exact Bool.eq_false_iff.mpr fun heq => hany (List.any_eq_true.mpr ⟨k, hk, heq⟩)

/-- Entries over distinct ones are distinct. -/
theorem areDistinct_overlay {below : List (κ × β)} (h : AreDistinct below) (above : List (κ × β)) :
    AreDistinct (overlay below above) := by
  induction above generalizing below with
  | nil => exact h
  | cons e rest ih => exact ih (areDistinct_insert h _ _)

/-- The entries of a list of pairs have distinct keys. -/
theorem nodup_ofPairs [LawfulBEq κ] (pairs : List (κ × β)) :
    ((ofPairs pairs).map Prod.fst).Nodup := by
  have hnil : AreDistinct ([] : List (κ × β)) := List.Pairwise.nil
  exact areDistinct_iff_nodup.mp (areDistinct_overlay hnil pairs)

/-- No other entry has the key of the first one. -/
theorem get?_rest_eq_none [EquivBEq κ] {k key : κ} {v : β} {rest : List (κ × β)}
    (h : AreDistinct ((k, v) :: rest)) (hk : (k == key) = true) : get? rest key = none := by
  rw [get?, Option.map_eq_none_iff, List.find?_eq_none]
  intro e he hkey
  have hne := (areDistinct_cons.mp h).1 e he
  rw [BEq.trans hk (BEq.symm hkey)] at hne
  cases hne

/-- **What is above counts**, then what is below, if the keys above are distinct. -/
theorem get?_overlay [EquivBEq κ] {below above : List (κ × β)} (h : AreDistinct above) (key : κ) :
    get? (overlay below above) key = (get? above key).or (get? below key) := by
  induction above generalizing below with
  | nil => rfl
  | cons e rest ih =>
      obtain ⟨k, v⟩ := e
      show get? (overlay (insert below k v) rest) key = _
      rw [ih (areDistinct_cons.mp h).2, get?_insert, get?_cons]
      by_cases hkey : (k == key) = true
      · simp [hkey, get?_rest_eq_none h hkey]
      · simp [hkey]

/-- A value that is found stands under an equal key. -/
theorem exists_of_get? {entries : List (κ × β)} {key : κ} {v : β} (h : get? entries key = some v) :
    ∃ k, (k, v) ∈ entries ∧ (k == key) = true := by
  obtain ⟨e, he, rfl⟩ := Option.map_eq_some_iff.mp h
  have hkey : (e.1 == key) = true := by simpa using List.find?_some he
  exact ⟨e.1, List.mem_of_find?_eq_some he, hkey⟩

/-- No value is found just if no key is equal. -/
theorem get?_eq_none_iff {entries : List (κ × β)} {key : κ} :
    get? entries key = none ↔ ∀ k ∈ entries.map Prod.fst, (k == key) = false := by
  simp [get?]

/-- Under distinct keys the value of an entry is found under its key. -/
theorem get?_of_mem [EquivBEq κ] {entries : List (κ × β)} (hentries : AreDistinct entries)
    {k : κ} {v : β} (h : (k, v) ∈ entries) : get? entries k = some v := by
  induction entries with
  | nil => cases h
  | cons e rest ih =>
      obtain ⟨k', v'⟩ := e
      obtain ⟨hhead, hrest⟩ := areDistinct_cons.mp hentries
      rw [get?_cons]
      obtain heq | h := List.mem_cons.mp h
      · obtain ⟨rfl, rfl⟩ := Prod.mk.inj heq
        rw [if_pos BEq.rfl]
      · rw [hhead _ h, if_neg Bool.false_ne_true, ih hrest h]

/-- A new key goes to the end. -/
theorem insert_of_get?_eq_none {entries : List (κ × β)} {key : κ} (h : get? entries key = none)
    (value : β) : insert entries key value = entries ++ [(key, value)] := by
  induction entries with
  | nil => rfl
  | cons e rest ih =>
      obtain ⟨k, v⟩ := e
      rw [get?_cons] at h
      split at h
      · cases h
      · rename_i hk
        rw [insert, if_neg hk, ih h]
        rfl

/-- A key that is there takes the new value in place. -/
theorem insert_of_isSome [EquivBEq κ] {entries : List (κ × β)} (hentries : AreDistinct entries)
    {key : κ} (h : (get? entries key).isSome) (value : β) :
    insert entries key value =
      entries.map fun e => (e.1, if key == e.1 then value else e.2) := by
  induction entries with
  | nil => cases h
  | cons e rest ih =>
      obtain ⟨k, v⟩ := e
      obtain ⟨hhead, hrest⟩ := areDistinct_cons.mp hentries
      rw [insert, List.map_cons, BEq.comm (a := key)]
      by_cases hk : (k == key) = true
      · have hothers : rest.map (fun e => (e.1, if key == e.1 then value else e.2)) = rest := by
          refine (List.map_congr_left fun e he => ?_).trans (List.map_id rest)
          have hne : (key == e.1) = false := by rw [← BEq.congr_left hk, hhead e he]
          rw [hne]
          rfl
        rw [if_pos hk, hothers, if_pos hk]
      · rw [get?_cons, if_neg hk] at h
        rw [if_neg hk, ih hrest h, if_neg hk]

/-- **An overlay, entry by entry**: the keys below keep their places and take the values above if
there are any; the other entries above follow in their order. -/
theorem overlay_eq [EquivBEq κ] {below above : List (κ × β)} (hbelow : AreDistinct below)
    (habove : AreDistinct above) :
    overlay below above =
      below.map (fun e => (e.1, (get? above e.1).getD e.2)) ++
        above.filter fun e => (get? below e.1).isNone := by
  induction above generalizing below with
  | nil => simp [overlay]
  | cons e rest ih =>
      obtain ⟨k, v⟩ := e
      obtain ⟨hhead, hrest⟩ := areDistinct_cons.mp habove
      have hfilter : (rest.filter fun e => (get? (insert below k v) e.1).isNone) =
          rest.filter fun e => (get? below e.1).isNone := by
        refine List.filter_congr fun e he => ?_
        rw [get?_insert, hhead e he]
        rfl
      show overlay (insert below k v) rest = _
      rw [ih (areDistinct_insert hbelow k v) hrest, hfilter]
      have hk : get? rest k = none := get?_rest_eq_none habove BEq.rfl
      cases hold : get? below k with
      | none =>
          have hmap : (below.map fun e => (e.1, (get? ((k, v) :: rest) e.1).getD e.2)) =
              below.map fun e => (e.1, (get? rest e.1).getD e.2) := by
            refine List.map_congr_left fun e he => ?_
            rw [get?_cons, BEq.comm, get?_eq_none_iff.mp hold e.1 (List.mem_map_of_mem he)]
            rfl
          rw [insert_of_get?_eq_none hold, hmap]
          simp [hk, hold]
      | some w =>
          have hmap : (insert below k v).map (fun e => (e.1, (get? rest e.1).getD e.2)) =
              below.map fun e => (e.1, (get? ((k, v) :: rest) e.1).getD e.2) := by
            rw [insert_of_isSome hbelow (by rw [hold]; rfl), List.map_map]
            refine List.map_congr_left fun e he => ?_
            rw [get?_cons]
            by_cases he : (k == e.1) = true
            · have hnone : get? rest e.1 = none := get?_rest_eq_none habove he
              simp [he, hnone]
            · simp [he]
          rw [hmap]
          simp [hold]

/-- Pairs with distinct keys are the entries that they give. -/
theorem ofPairs_eq [EquivBEq κ] {pairs : List (κ × β)} (h : AreDistinct pairs) :
    ofPairs pairs = pairs := by
  have hnil : AreDistinct ([] : List (κ × β)) := List.Pairwise.nil
  rw [ofPairs, overlay_eq hnil h]
  simp

end Entries

/-! ### What is read -/

namespace Json

/-- If a value is a record, its **keys are distinct**. -/
def HasDistinctKeys : Json → Prop
  | .record entries => (entries.map Prod.fst).Nodup
  | _ => True

/-- The scalars among some tokens are no records. -/
def HasPlainScalars (ts : List Token) : Prop :=
  ∀ v, Token.scalar v ∈ ts → v.HasDistinctKeys

theorem hasPlainScalars_append {ts us : List Token} (ht : HasPlainScalars ts)
    (hu : HasPlainScalars us) : HasPlainScalars (ts ++ us) :=
  fun v hv => (List.mem_append.mp hv).elim (ht v) (hu v)

/-- A number is no record. -/
theorem hasPlainScalars_ofNumber (negative : Bool) (cs : List Char) :
    HasPlainScalars (Token.ofNumber negative cs) := by
  intro v hv
  unfold Token.ofNumber at hv
  dsimp only at hv
  split at hv
  · simp at hv
  · obtain hv | hv := List.mem_cons.mp hv
    · split at hv
      · unfold Token.ofWhole at hv
        split at hv <;> cases hv
        trivial
      · unfold Token.ofReal at hv
        split at hv <;> cases hv
        trivial
    · split at hv <;> simp at hv

/-- A run of characters is a word or a number. -/
theorem hasPlainScalars_ofScalar (cs : List Char) : HasPlainScalars (Token.ofScalar cs) := by
  unfold Token.ofScalar
  split
  iterate 6
    intro v hv
    cases List.mem_singleton.mp hv
    trivial
  split <;> exact hasPlainScalars_ofNumber _ _

/-- A mark is no scalar. -/
theorem hasPlainScalars_stepBetween (c : Char) : HasPlainScalars (stepBetween c).2 := by
  intro v hv
  unfold stepBetween at hv
  split at hv
  · cases hv
  · split at hv
    · cases hv
    · split at hv
      · rename_i t ht
        obtain rfl := List.mem_singleton.mp hv
        unfold markToken? at ht
        split at ht <;> cases ht
      · cases hv

/-- One character completes no record. -/
theorem hasPlainScalars_step (place : Place) (c : Char) : HasPlainScalars (step place c).2 := by
  have none {out : List Token} (h : out = [] ∨ ∃ t, out = [t] ∧ ∀ v, t ≠ .scalar v) :
      HasPlainScalars out := by
    obtain rfl | ⟨t, rfl, ht⟩ := h
    · exact fun v hv => absurd hv List.not_mem_nil
    · exact fun v hv => absurd (List.mem_singleton.mp hv).symm (ht v)
  cases place with
  | between => exact hasPlainScalars_stepBetween c
  | inText units =>
      refine none ?_
      simp only [step]
      split_ifs <;> simp
  | escape units =>
      refine none ?_
      simp only [step]
      split_ifs
      · simp
      · split <;> simp
  | code units missing value =>
      refine none ?_
      simp only [step]
      split
      · simp
      · split_ifs <;> simp
  | run characters =>
      simp only [step]
      split
      · exact hasPlainScalars_append (hasPlainScalars_ofScalar _) (hasPlainScalars_stepBetween c)
      · exact none (.inl rfl)
  | lost => exact none (.inl rfl)

/-- **The scalars of a text** are no records. -/
theorem hasPlainScalars_tokensFrom (place : Place) (cs : List Char) :
    HasPlainScalars (tokensFrom place cs) := by
  induction cs generalizing place with
  | nil =>
      cases place with
      | run characters => exact hasPlainScalars_ofScalar _
      | between => exact fun v hv => absurd hv List.not_mem_nil
      | lost => exact fun v hv => absurd hv List.not_mem_nil
      | _ => exact fun v hv => absurd (List.mem_singleton.mp hv) nofun
  | cons c rest ih => exact hasPlainScalars_append (hasPlainScalars_step place c) (ih _)

/-- Only a value without repeated keys is finished. -/
def Reading.HasDistinctKeys : Reading → Prop
  | .finished v => v.HasDistinctKeys
  | _ => True

/-- A value goes into a list or a record, or is the value of the text. -/
theorem hasDistinctKeys_deliver {v : Json} (hv : v.HasDistinctKeys) (stack : List Frame) :
    (deliver v stack).HasDistinctKeys := by
  cases stack with
  | nil => exact hv
  | cons frame stack => cases frame <;> trivial

/-- A token where a value is wanted. -/
theorem hasDistinctKeys_readValue {stack : List Frame} {t : Token} {r : Reading}
    (ht : ∀ v, t = .scalar v → v.HasDistinctKeys) (h : readValue stack t = .ok r) :
    r.HasDistinctKeys := by
  cases t with
  | scalar v =>
      obtain rfl := Except.ok.inj h
      exact hasDistinctKeys_deliver (ht v rfl) stack
  | text s =>
      obtain rfl := Except.ok.inj h
      exact hasDistinctKeys_deliver (by trivial) stack
  | openList =>
      obtain rfl := Except.ok.inj h
      trivial
  | openRecord =>
      obtain rfl := Except.ok.inj h
      trivial
  | _ => cases h

/-- One token. -/
theorem hasDistinctKeys_next {r r' : Reading} {t : Token}
    (ht : ∀ v, t = .scalar v → v.HasDistinctKeys) (h : r.next t = .ok r') :
    r'.HasDistinctKeys := by
  unfold Reading.next at h
  split at h
  · exact hasDistinctKeys_readValue ht h
  · obtain rfl := Except.ok.inj h
    exact hasDistinctKeys_deliver (by trivial) _
  · exact hasDistinctKeys_readValue ht h
  · obtain rfl := Except.ok.inj h
    trivial
  · obtain rfl := Except.ok.inj h
    exact hasDistinctKeys_deliver (by trivial) _
  · obtain rfl := Except.ok.inj h
    exact hasDistinctKeys_deliver (by exact List.nodup_nil) _
  · obtain rfl := Except.ok.inj h
    trivial
  · obtain rfl := Except.ok.inj h
    trivial
  · obtain rfl := Except.ok.inj h
    trivial
  · obtain rfl := Except.ok.inj h
    trivial
  · obtain rfl := Except.ok.inj h
    exact hasDistinctKeys_deliver (by exact Entries.nodup_ofPairs _) _
  · cases h

/-- All tokens. -/
theorem hasDistinctKeys_run {r : Reading} {ts : List Token} {v : Json} (hr : r.HasDistinctKeys)
    (ht : HasPlainScalars ts) (h : r.run ts = .ok v) : v.HasDistinctKeys := by
  induction ts generalizing r with
  | nil =>
      cases r with
      | finished w =>
          obtain rfl := Except.ok.inj h
          exact hr
      | _ => cases h
  | cons t ts ih =>
      simp only [Reading.run] at h
      split at h
      · rename_i r' hnext
        refine ih (hasDistinctKeys_next (fun v hv => ?_) hnext) ?_ h
        · exact ht v (hv ▸ List.mem_cons_self)
        · exact fun v hv => ht v (List.mem_cons_of_mem _ hv)
      · cases h

/-- **A value that is read** has distinct keys. -/
theorem hasDistinctKeys_of_read {s : String} {v : Json} (h : Json.read s = .ok (some v)) :
    v.HasDistinctKeys := by
  unfold Json.read at h
  split at h
  · obtain rfl := Option.some.inj (Except.ok.inj h)
    exact hasDistinctKeys_run (r := .value []) trivial (hasPlainScalars_tokensFrom _ _) ‹_›
  · cases h
  · cases h

end Json

/-! ### Records -/

namespace Json

/-- Whether a value **is a record**. -/
def IsRecord (v : Json) : Prop :=
  ∃ entries, v = .record entries

/-- The outermost of some unfinished values is a record. -/
def EndsInRecord (stack : List Frame) : Prop :=
  ∃ done key, stack.getLast? = some (.entries done key)

/-- What is read becomes a record: the outermost value is one, or an unfinished one. -/
def Reading.IsOfRecord : Reading → Prop
  | .value stack | .firstItem stack | .afterItem _ stack => EndsInRecord stack
  | .firstKey stack | .nextKey _ stack | .colon _ _ stack | .afterEntry _ stack =>
    stack = [] ∨ EndsInRecord stack
  | .finished v => v.IsRecord

theorem not_endsInRecord_nil : ¬ EndsInRecord [] := by
  rintro ⟨done, key, h⟩
  cases h

/-- One more unfinished value around the others. -/
theorem endsInRecord_cons {frame : Frame} {stack : List Frame} (h : EndsInRecord stack) :
    EndsInRecord (frame :: stack) := by
  obtain ⟨done, key, h⟩ := h
  refine ⟨done, key, ?_⟩
  rw [List.getLast?_cons, h]
  rfl

theorem endsInRecord_entries {done : List (String × Json)} {key : String} {stack : List Frame}
    (h : stack = [] ∨ EndsInRecord stack) : EndsInRecord (.entries done key :: stack) := by
  obtain rfl | h := h
  · exact ⟨done, key, rfl⟩
  · exact endsInRecord_cons h

/-- The unfinished values around the innermost one. -/
theorem eq_nil_or_endsInRecord {frame : Frame} {stack : List Frame}
    (h : EndsInRecord (frame :: stack)) : stack = [] ∨ EndsInRecord stack := by
  obtain ⟨done, key, h⟩ := h
  cases stack with
  | nil => exact .inl rfl
  | cons frame' stack => exact .inr ⟨done, key, by rwa [List.getLast?_cons_cons] at h⟩

/-- No list is outermost. -/
theorem endsInRecord_of_items {done : List Json} {stack : List Frame}
    (h : EndsInRecord (.items done :: stack)) : EndsInRecord stack := by
  obtain rfl | hstack := eq_nil_or_endsInRecord h
  · obtain ⟨done', key, h⟩ := h
    cases h
  · exact hstack

/-- A value inside a record. -/
theorem isOfRecord_deliver {stack : List Frame} (h : EndsInRecord stack) (v : Json) :
    (deliver v stack).IsOfRecord := by
  cases stack with
  | nil => exact absurd h not_endsInRecord_nil
  | cons frame stack =>
      cases frame with
      | items done => exact endsInRecord_of_items h
      | entries done key => exact eq_nil_or_endsInRecord h

/-- A record, inside of another one or by itself. -/
theorem isOfRecord_deliver_record {stack : List Frame} (h : stack = [] ∨ EndsInRecord stack)
    (entries : List (String × Json)) : (deliver (.record entries) stack).IsOfRecord := by
  obtain rfl | h := h
  · exact ⟨entries, rfl⟩
  · exact isOfRecord_deliver h _

/-- A token where a value is wanted inside a record. -/
theorem isOfRecord_readValue {stack : List Frame} (hstack : EndsInRecord stack) {t : Token}
    {r : Reading} (h : readValue stack t = .ok r) : r.IsOfRecord := by
  cases t with
  | scalar v =>
      obtain rfl := Except.ok.inj h
      exact isOfRecord_deliver hstack v
  | text s =>
      obtain rfl := Except.ok.inj h
      exact isOfRecord_deliver hstack _
  | openList =>
      obtain rfl := Except.ok.inj h
      exact hstack
  | openRecord =>
      obtain rfl := Except.ok.inj h
      exact .inr hstack
  | _ => cases h

/-- One token inside a record. -/
theorem isOfRecord_next {r r' : Reading} (hr : r.IsOfRecord) {t : Token}
    (h : r.next t = .ok r') : r'.IsOfRecord := by
  unfold Reading.next at h
  split at h
  · exact isOfRecord_readValue hr h
  · obtain rfl := Except.ok.inj h
    exact isOfRecord_deliver hr _
  · exact isOfRecord_readValue (endsInRecord_cons hr) h
  · obtain rfl := Except.ok.inj h
    exact endsInRecord_cons hr
  · obtain rfl := Except.ok.inj h
    exact isOfRecord_deliver hr _
  · obtain rfl := Except.ok.inj h
    exact isOfRecord_deliver_record hr _
  · obtain rfl := Except.ok.inj h
    exact hr
  · obtain rfl := Except.ok.inj h
    exact hr
  · obtain rfl := Except.ok.inj h
    exact endsInRecord_entries hr
  · obtain rfl := Except.ok.inj h
    exact hr
  · obtain rfl := Except.ok.inj h
    exact isOfRecord_deliver_record hr _
  · cases h

/-- All tokens inside a record. -/
theorem isRecord_run {r : Reading} (hr : r.IsOfRecord) {ts : List Token} {v : Json}
    (h : r.run ts = .ok v) : v.IsRecord := by
  induction ts generalizing r with
  | nil =>
      cases r with
      | finished w =>
          obtain rfl := Except.ok.inj h
          exact hr
      | _ => cases h
  | cons t ts ih =>
      simp only [Reading.run] at h
      split at h
      · exact ih (isOfRecord_next hr ‹_›) h
      · cases h

/-- **A text that opens a record** is the text of a record, if it is one of a value. -/
theorem isRecord_of_read {s : String} {cs : List Char} (hs : s.toList = '\x7b' :: cs) {v : Json}
    (h : Json.read s = .ok (some v)) : v.IsRecord := by
  have htokens : tokens s = .openRecord :: tokensFrom .between cs := by
    rw [tokens, hs]
    rfl
  unfold Json.read at h
  rw [htokens] at h
  split at h
  · obtain rfl := Option.some.inj (Except.ok.inj h)
    exact isRecord_run (r := .firstKey []) (.inl rfl) ‹_›
  · cases h
  · cases h

/-- A written record opens one. -/
theorem toList_draft_record (l : Layout) (entries : List (String × Json)) :
    ∃ cs, (draft l (.record entries)).1.toList = '\x7b' :: cs := by
  cases entries with
  | nil =>
      refine ⟨['\x7d'], ?_⟩
      rw [draft, pieces]
      rfl
  | cons e rest =>
      simp [draft, pieces, writtenPieces]

end Json

/-! ### Settings files -/

/-- The keys of a record as keys of settings. -/
theorem areDistinct_ofEntries {entries : Entries Json} (h : (entries.map Prod.fst).Nodup) :
    Entries.AreDistinct (Settings.ofEntries entries) := by
  rw [Entries.AreDistinct, Settings.ofEntries, List.map_map, List.pairwise_map]
  rw [List.Nodup, List.pairwise_map] at h
  refine h.imp fun hne => ?_
  exact Bool.eq_false_iff.mpr fun heq => hne (Key.text_beq_text.mp heq)

namespace SettingsFile

/-- What a settings file holds has distinct keys. -/
theorem hasDistinctKeys_value {file : SettingsFile} {v : Json} (h : file.value = .ok v) :
    v.HasDistinctKeys := by
  obtain ⟨held, hheld, h⟩ := bind_eq_ok.mp h
  obtain rfl := pure_eq_ok.mp h
  cases held with
  | none => exact List.nodup_nil
  | some v =>
      unfold valueOf at hheld
      split at hheld
      · exact Json.hasDistinctKeys_of_read hheld
      · cases hheld

/-- Whether a file **holds settings**: what is in it, if it can be read, is a record. -/
def HoldsSettings (file : SettingsFile) : Prop :=
  ∀ v, file.value = .ok v → v.IsRecord

/-- A file of which one setting can be read **holds a record**. -/
theorem exists_record_of_get {file : SettingsFile} {key : Key} {v : Json}
    (h : file.get key = .ok v) : ∃ entries, file.value = .ok (.record entries) := by
  obtain ⟨held, hheld, h⟩ := bind_eq_ok.mp h
  cases held with
  | record entries => exact ⟨entries, hheld⟩
  | _ => cases h

theorem holdsSettings_of_get {file : SettingsFile} {key : Key} {v : Json}
    (h : file.get key = .ok v) : file.HoldsSettings := by
  obtain ⟨entries, hvalue⟩ := exists_record_of_get h
  intro w hw
  exact ⟨entries, Except.ok.inj (hw.symm.trans hvalue)⟩

/-- If all settings of such a file can be read, so can a single one. -/
theorem exists_get_of_all {file : SettingsFile} (h : file.HoldsSettings) {settings : Settings}
    (hall : file.all = .ok settings) (key : Key) : ∃ v, file.get key = .ok v := by
  obtain ⟨v, hvalue, -⟩ := bind_eq_ok.mp hall
  obtain ⟨entries, rfl⟩ := h v hvalue
  exact ⟨_, by rw [get, hvalue]; rfl⟩

/-- A text that opens a record holds settings, if it can be read. -/
theorem holdsSettings_of_opening {text : String} {cs : List Char} (inDirectory : Bool)
    (h : text.toList = '\x7b' :: cs) : HoldsSettings ⟨some text, inDirectory⟩ := by
  intro v hv
  obtain ⟨held, hheld, hv⟩ := bind_eq_ok.mp hv
  obtain rfl := pure_eq_ok.mp hv
  cases held with
  | none => exact ⟨[], rfl⟩
  | some v => exact Json.isRecord_of_read h hheld

/-- **Saving** keeps a file holding settings. -/
theorem holdsSettings_save {file : SettingsFile} (h : file.HoldsSettings) (settings : Settings) :
    (file.save settings).1.HoldsSettings := by
  obtain ⟨cs, hcs⟩ : ∃ cs, (Json.draft Json.Layout.indented settings.toJson).1.toList =
      '\x7b' :: cs := Json.toList_draft_record _ _
  have hsaved := holdsSettings_of_opening file.inDirectory hcs
  unfold save
  split
  · exact h
  · dsimp only
    split <;> exact hsaved

/-- **A single setting is the one among all of them.** -/
theorem get?_of_get {file : SettingsFile} {key : Key} {v : Json} (h : file.get key = .ok v)
    (hkey : (Entries.get? defaultSettings key).isSome) :
    ∃ settings, file.all = .ok settings ∧ Entries.get? settings key = some v := by
  obtain ⟨entries, hvalue⟩ := exists_record_of_get h
  refine ⟨_, by rw [all, hvalue]; rfl, ?_⟩
  rw [Entries.get?_overlay (areDistinct_ofEntries (hasDistinctKeys_value hvalue))]
  obtain ⟨default, hdefault⟩ := Option.isSome_iff_exists.mp hkey
  rw [get, hvalue] at h
  obtain rfl := Except.ok.inj h
  rw [hdefault]
  cases Entries.get? (Settings.ofEntries entries) key <;> rfl

end SettingsFile

end Argand
