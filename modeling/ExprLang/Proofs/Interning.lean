import Mathlib
import ExprLang.Value.StringTable

/-! Interning. A table holds the texts that were interned, each where it first occurred, and a text that is added moves no
other. So the place of a text and the text at a place determine each other, and a value once given stays good. A table that
looks its texts up in a map gives the same values, and its map stays the inverse of its texts. -/

namespace ExprLang.StringTable

theorem ext {t u : StringTable} (same : t.entries.toList = u.entries.toList) : t = u := by
  cases t
  cases u
  simpa using same

theorem intern_known {t : StringTable} {s : Text} (known : s ∈ t.entries.toList) :
    (t.intern s).1 < t.size ∧ (t.intern s).2 = t := by
  unfold intern
  split
  next i found =>
    rw [← t.entries.toArray_toList, List.idxOf?_toArray] at found
    exact ⟨(List.idxOf?_eq_some_iff.mp found).1, rfl⟩
  next missing =>
    have absent : s ∉ t.entries := by simpa using missing
    exact absurd (Array.mem_def.mpr known) absent

theorem intern_fresh {t : StringTable} {s : Text} (fresh : s ∉ t.entries.toList) :
    (t.intern s).1 = t.size ∧ (t.intern s).2.entries.toList = t.entries.toList ++ [s] := by
  unfold intern
  split
  next i found =>
    rw [← t.entries.toArray_toList, List.idxOf?_toArray] at found
    obtain ⟨inside, same, _⟩ := List.idxOf?_eq_some_iff.mp found
    exact absurd (same ▸ List.getElem_mem inside) fresh
  next => exact ⟨rfl, Array.toList_push⟩

theorem intern_get (t : StringTable) (s : Text) : (t.intern s).2.entries[(t.intern s).1]? = some s := by
  unfold intern
  split
  next i found =>
    rw [← t.entries.toArray_toList, List.idxOf?_toArray] at found
    obtain ⟨inside, same, _⟩ := List.idxOf?_eq_some_iff.mp found
    rw [← Array.getElem?_toList, List.getElem?_eq_getElem inside, same]
  · simp [size]

theorem intern_size_le (t : StringTable) (s : Text) : (t.intern s).2.size ≤ t.size + 1 := by
  unfold intern
  split
  · exact Nat.le_succ _
  · simp [size]

theorem mem_intern (t : StringTable) (s u : Text) : u ∈ (t.intern s).2.entries.toList ↔ u ∈ t.entries.toList ∨ u = s := by
  by_cases known : s ∈ t.entries.toList
  · rw [(intern_known known).2]
    constructor
    · exact Or.inl
    · rintro (member | rfl)
      · exact member
      · exact known
  · rw [(intern_fresh known).2, List.mem_append, List.mem_singleton]

theorem idxOf_of_getElem? {t : StringTable} {s : Text} {i : Nat} (entry : t.entries[i]? = some s) :
    t.entries.toList.idxOf s = i := by
  rw [← Array.getElem?_toList] at entry
  obtain ⟨inside, same⟩ := List.getElem?_eq_some_iff.mp entry
  have place := t.distinct.idxOf_getElem _ inside
  rwa [same] at place

theorem intern_index (t : StringTable) (s : Text) : (t.intern s).1 = (t.intern s).2.entries.toList.idxOf s :=
  (idxOf_of_getElem? (t.intern_get s)).symm

theorem get?_inj (t : StringTable) {ref ref' : UInt32} {s : Text} (entry : t.get? ref = some s)
    (entry' : t.get? ref' = some s) : ref = ref' :=
  UInt32.toNat_inj.mp ((idxOf_of_getElem? entry).symm.trans (idxOf_of_getElem? entry'))

/-- A text that is interned comes last among those that occurred, or stays where it first did. -/
theorem intern_eraseDups {t : StringTable} {texts : List Text} (holds : t.entries.toList = texts.eraseDups) (s : Text) :
    (t.intern s).2.entries.toList = (texts ++ [s]).eraseDups := by
  rw [List.eraseDups_append, ← holds]
  by_cases known : s ∈ texts
  · have there : s ∈ t.entries.toList := by rwa [holds, List.mem_eraseDups]
    rw [(intern_known there).2]
    simp [List.removeAll, known]
  · have absent : s ∉ t.entries.toList := by rwa [holds, List.mem_eraseDups]
    rw [(intern_fresh absent).2]
    simp [List.removeAll, known, List.eraseDups_cons]

theorem ref_valueAt (i : Nat) : (valueAt i).ref = UInt32.ofNat i :=
  UInt32.toUInt32_toUInt64 _

/-- A place that a reference can hold is found again through the value that refers to it. -/
theorem get?_valueAt (t : StringTable) {i : Nat} (low : i < UInt32.size) : t.get? (valueAt i).ref = t.entries[i]? := by
  rw [ref_valueAt, get?, UInt32.toNat_ofNat_of_lt' low]

/-- The table after some texts were interned, one after the other. -/
def ofTexts (texts : List Text) : StringTable :=
  texts.foldl (fun t s => (t.intern s).2) {}

/-- The value that a text is given when it is interned after others. -/
def interned (before : List Text) (s : Text) : Value :=
  valueAt ((ofTexts before).intern s).1

theorem entries_foldl {t : StringTable} {before : List Text} (holds : t.entries.toList = before.eraseDups) (texts : List Text) :
    (texts.foldl (fun t s => (t.intern s).2) t).entries.toList = (before ++ texts).eraseDups := by
  induction texts generalizing t before with
  | nil => rw [List.append_nil]; exact holds
  | cons s texts ih =>
    have next := ih (intern_eraseDups holds s)
    rwa [List.append_assoc] at next

theorem entries_ofTexts (texts : List Text) : (ofTexts texts).entries.toList = texts.eraseDups :=
  have none : ({} : StringTable).entries.toList = [].eraseDups := rfl
  entries_foldl none texts

theorem mem_ofTexts (texts : List Text) (s : Text) : s ∈ (ofTexts texts).entries.toList ↔ s ∈ texts := by
  rw [entries_ofTexts, List.mem_eraseDups]

/-- Whatever is interned later, a text keeps the place that it was given. -/
theorem intern_place (before : List Text) (s : Text) (after : List Text) :
    ((ofTexts before).intern s).1 = (ofTexts (before ++ s :: after)).entries.toList.idxOf s := by
  have whole : before ++ s :: after = (before ++ [s]) ++ after := by simp
  have split : ((before ++ [s]) ++ after).eraseDups = (before ++ [s]).eraseDups ++ _ := List.eraseDups_append
  have there : s ∈ (before ++ [s]).eraseDups := by simp [List.mem_eraseDups]
  rw [intern_index, intern_eraseDups (entries_ofTexts before), entries_ofTexts, whole, split, List.idxOf_append, if_pos there]

theorem interned_eq (before : List Text) (s : Text) (after : List Text) :
    interned before s = valueAt ((ofTexts (before ++ s :: after)).entries.toList.idxOf s) :=
  congrArg valueAt (intern_place before s after)

/-- A text that is there is given the value that it has, and nothing changes. -/
theorem intern_again (before : List Text) (s : Text) (after : List Text) :
    ((ofTexts (before ++ s :: after)).intern s).2 = ofTexts (before ++ s :: after) ∧
      interned (before ++ s :: after) s = interned before s := by
  have there : s ∈ (ofTexts (before ++ s :: after)).entries.toList := (mem_ofTexts ..).mpr (by simp)
  have unchanged := (intern_known there).2
  refine ⟨unchanged, ?_⟩
  rw [interned, intern_index, unchanged, interned_eq before s after]

section Values
variable {before after : List Text} {s : Text} (few : (before ++ s :: after).eraseDups.length < UInt32.size)
include few

theorem get?_interned : (ofTexts (before ++ s :: after)).get? (interned before s).ref = some s := by
  have there : s ∈ (ofTexts (before ++ s :: after)).entries.toList := (mem_ofTexts ..).mpr (by simp)
  have inside := List.idxOf_lt_length_of_mem there
  have low : (ofTexts (before ++ s :: after)).entries.toList.idxOf s < UInt32.size := by
    rw [entries_ofTexts] at inside ⊢
    exact Nat.lt_trans inside few
  rw [interned_eq before s after, get?_valueAt _ low, ← Array.getElem?_toList, List.getElem?_eq_getElem inside,
    List.getElem_idxOf]

theorem format_interned : (ofTexts (before ++ s :: after)).format (interned before s) = s := by
  show ((ofTexts _).get? (interned before s).ref).getD _ = s
  rw [get?_interned few]
  rfl

end Values

theorem equal_valueAt_iff (i j : Nat) : (valueAt i).equal (valueAt j) = true ↔ valueAt i = valueAt j :=
  decide_eq_true_iff

theorem interned_inj {texts before after before' after' : List Text} {s s' : Text} (few : texts.eraseDups.length < UInt32.size)
    (here : texts = before ++ s :: after) (there : texts = before' ++ s' :: after') :
    interned before s = interned before' s' ↔ s = s' := by
  constructor
  · intro same
    have first := get?_interned (here ▸ few)
    have second := get?_interned (there ▸ few)
    rw [← here, same] at first
    rw [← there] at second
    exact Option.some.inj (first.symm.trans second)
  · rintro rfl
    rw [interned_eq before s after, interned_eq before' s after', ← here, ← there]

/-- References and texts determine each other. -/
theorem get?_eq_some_iff {texts : List Text} (few : texts.eraseDups.length < UInt32.size) (ref : UInt32) (s : Text) :
    (ofTexts texts).get? ref = some s ↔ s ∈ texts ∧ interned texts s = .object ref.toUInt64 := by
  constructor
  · intro entry
    have member : s ∈ (ofTexts texts).entries.toList := Array.mem_def.mp (Array.mem_of_getElem? entry)
    have known : s ∈ texts := (mem_ofTexts ..).mp member
    refine ⟨known, ?_⟩
    rw [interned, intern_index, (intern_known member).2, idxOf_of_getElem? entry, valueAt, UInt32.ofNat_toNat]
  · rintro ⟨known, value⟩
    obtain ⟨before, after, rfl⟩ := List.append_of_mem known
    have entry := get?_interned few
    rw [← (intern_again before s after).2, value] at entry
    simpa [Value.ref, Value.word] using entry

/-- A table that finds its texts by a map from each of them to its reference. -/
structure Indexed where
  texts : Array Text
  refs : Std.HashMap Text UInt32

namespace Indexed

/-- The value of a text, in the table with the text added to both the texts and the map if it is new. -/
def intern (t : Indexed) (s : Text) : Value × Indexed :=
  match t.refs[s]? with
  | some ref => (.object ref.toUInt64, t)
  | none =>
    let ref := UInt32.ofNat t.texts.size
    (.object ref.toUInt64, ⟨t.texts.push s, t.refs.insert s ref⟩)

def ofTexts (texts : List Text) : Indexed :=
  texts.foldl (fun t s => (t.intern s).2) ⟨#[], ∅⟩

/-- A table and one with a map that have the same texts. The map leads to the places of these and of no others. -/
structure Simulates (t : StringTable) (u : Indexed) : Prop where
  texts : u.texts = t.entries
  refs : ∀ s ref, u.refs[s]? = some ref ↔ ∃ i, t.entries[i]? = some s ∧ UInt32.ofNat i = ref

variable {t : StringTable} {u : Indexed}

theorem Simulates.refs_of_known (same : Simulates t u) {s : Text} (known : s ∈ t.entries.toList) :
    u.refs[s]? = some (UInt32.ofNat (t.intern s).1) := by
  have entry := t.intern_get s
  rw [(intern_known known).2] at entry
  exact (same.refs s _).mpr ⟨_, entry, rfl⟩

theorem entry_ne_of_fresh {s : Text} (fresh : s ∉ t.entries.toList) (i : Nat) : t.entries[i]? ≠ some s :=
  fun entry => fresh (Array.mem_def.mp (Array.mem_of_getElem? entry))

theorem Simulates.refs_of_fresh (same : Simulates t u) {s : Text} (fresh : s ∉ t.entries.toList) : u.refs[s]? = none := by
  cases found : u.refs[s]? with
  | none => rfl
  | some ref =>
    obtain ⟨i, entry, _⟩ := (same.refs s ref).mp found
    exact absurd entry (entry_ne_of_fresh fresh i)

theorem entry_push_iff (entries : Array Text) (s other : Text) (i : Nat) :
    (entries.push s)[i]? = some other ↔ entries[i]? = some other ∨ i = entries.size ∧ s = other := by
  rw [Array.getElem?_push]
  split
  next last => simp [last]
  next other => simp [other]

/-- Interning gives the same value in both tables, and they go on to have the same texts. -/
theorem Simulates.intern (same : Simulates t u) (s : Text) :
    (u.intern s).1 = valueAt (t.intern s).1 ∧ Simulates (t.intern s).2 (u.intern s).2 := by
  by_cases known : s ∈ t.entries.toList
  · rw [Indexed.intern, same.refs_of_known known, (intern_known known).2]
    exact ⟨rfl, same⟩
  · obtain ⟨place, entries⟩ := intern_fresh known
    have pushed : (t.intern s).2.entries = t.entries.push s := by
      apply Array.toList_inj.mp
      rw [entries, Array.toList_push]
    rw [Indexed.intern, same.refs_of_fresh known, place]
    refine ⟨congrArg (fun texts : Array Text => valueAt texts.size) same.texts, ?_, ?_⟩
    · rw [pushed, same.texts]
    · intro other ref
      rw [pushed, Std.HashMap.getElem?_insert, same.texts]
      simp only [beq_iff_eq, entry_push_iff]
      by_cases here : s = other
      · subst here
        simp [entry_ne_of_fresh known]
      · simp [here, same.refs]

/-- As long as the places of all texts fit into references, the map is the inverse of the texts. -/
theorem Simulates.refs_iff (same : Simulates t u) (few : t.size < UInt32.size) (s : Text) (ref : UInt32) :
    u.refs[s]? = some ref ↔ u.texts[ref.toNat]? = some s := by
  rw [same.refs, same.texts]
  constructor
  · rintro ⟨i, entry, rfl⟩
    have inside : i < t.size := (Array.getElem?_eq_some_iff.mp entry).1
    rwa [UInt32.toNat_ofNat_of_lt' (Nat.lt_trans inside few)]
  · intro entry
    exact ⟨ref.toNat, entry, UInt32.ofNat_toNat⟩

theorem simulates_ofTexts (texts : List Text) : Simulates (StringTable.ofTexts texts) (ofTexts texts) := by
  have run (t : StringTable) (u : Indexed) (same : Simulates t u) :
      Simulates (texts.foldl (fun t s => (t.intern s).2) t) (texts.foldl (fun t s => (t.intern s).2) u) := by
    induction texts generalizing t u with
    | nil => exact same
    | cons s texts ih => exact ih _ _ (same.intern s).2
  have none : ({} : StringTable).entries = #[] := rfl
  refine run {} _ ⟨none.symm, ?_⟩
  intro s ref
  simp [none]

end Indexed

/-- Interning numbers the texts in the order in which they first occur. The value of a text refers to it from then on, no other
text has that value, and interning the text again changes nothing. With a map the values are the same, and the map is the inverse
of the texts. -/
theorem interning_bijective (texts : List Text) (few : texts.eraseDups.length < UInt32.size) :
    (ofTexts texts).entries.toList = texts.eraseDups ∧ (ofTexts texts).size = texts.eraseDups.length ∧
      (∀ before s after, texts = before ++ s :: after →
        (ofTexts texts).get? (interned before s).ref = some s ∧ (ofTexts texts).format (interned before s) = s ∧
          ((ofTexts texts).intern s).2 = ofTexts texts ∧ interned texts s = interned before s) ∧
      (∀ before s after before' s' after', texts = before ++ s :: after → texts = before' ++ s' :: after' →
        ((interned before s).equal (interned before' s') = true ↔ s = s')) ∧
      (∀ ref s, (ofTexts texts).get? ref = some s ↔ s ∈ texts ∧ interned texts s = .object ref.toUInt64) ∧
      (Indexed.ofTexts texts).texts = (ofTexts texts).entries ∧
      (∀ s, ((Indexed.ofTexts texts).intern s).1 = interned texts s) ∧
      ∀ (s : Text) (ref : UInt32), (Indexed.ofTexts texts).refs[s]? = some ref ↔ (Indexed.ofTexts texts).texts[ref.toNat]? = some s := by
  have same := Indexed.simulates_ofTexts texts
  have size : (ofTexts texts).size = texts.eraseDups.length := congrArg List.length (entries_ofTexts texts)
  refine ⟨entries_ofTexts texts, size, ?_, ?_, get?_eq_some_iff few, same.texts, fun s => (same.intern s).1,
    same.refs_iff (size ▸ few)⟩
  · rintro before s after rfl
    obtain ⟨unchanged, value⟩ := intern_again before s after
    exact ⟨get?_interned few, format_interned few, unchanged, value⟩
  · intro before s after before' s' after' here there
    exact (equal_valueAt_iff _ _).trans (interned_inj few here there)

/-- An empty text between two equal ones. -/
theorem repeated_text_interned_once :
    let texts := [utf8 "é", [], utf8 "é"]
    texts.eraseDups.length < UInt32.size ∧ (ofTexts texts).entries.toList = [utf8 "é", []] ∧
      (ofTexts texts).format (interned [utf8 "é"] []) = [] ∧
      (interned [] (utf8 "é")).equal (interned [utf8 "é", []] (utf8 "é")) = true ∧
      (interned [] (utf8 "é")).equal (interned [utf8 "é"] []) = false := by
  intro texts
  have few : texts.eraseDups.length < UInt32.size := by decide
  obtain ⟨entries, _, found, equal, _⟩ := interning_bijective texts few
  refine ⟨few, entries.trans (by decide), ?_, ?_, ?_⟩
  · exact (found [utf8 "é"] [] [utf8 "é"] rfl).2.1
  · exact (equal [] (utf8 "é") _ [utf8 "é", []] (utf8 "é") [] rfl rfl).mpr rfl
  · apply Bool.eq_false_iff.mpr
    intro same
    have texts := (equal [] (utf8 "é") _ [utf8 "é"] [] [utf8 "é"] rfl rfl).mp same
    exact absurd texts (by decide)

end ExprLang.StringTable
