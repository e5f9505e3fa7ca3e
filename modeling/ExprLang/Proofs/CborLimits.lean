import ExprLang.Chunk.Record
import ExprLang.Proofs.WellFormedText

/-! How large the items are that can be read. No array has more elements than allowed, however it was
written, and no string is longer than the text that it was read from. -/

namespace ExprLang.Cbor

/-- Arrays stay below the limit, and strings below a given length. -/
inductive Item.Within (size : Nat) : Item → Prop
  | unsigned (n : Nat) : Within size (.unsigned n)
  | negative (n : Nat) : Within size (.negative n)
  | bytes {content : Text} : content.length ≤ size → Within size (.bytes content)
  | text {pieces : List Text} : pieces.flatten.length ≤ size → Within size (.text pieces)
  | array {items : List Item} : items.length ≤ maxElements → (∀ i ∈ items, Within size i) → Within size (.array items)
  | map {items : List Item} : (∀ i ∈ items, Within size i) → Within size (.map items)
  | tag {number : Nat} {content : Item} : Within size content → Within size (.tag number content)
  | simple (n : Nat) : Within size (.simple n)
  | float : Within size .float

theorem Item.Within.mono {size larger : Nat} (le : size ≤ larger) {i : Item} (within : i.Within size) : i.Within larger := by
  induction within with
  | unsigned n => exact .unsigned n
  | negative n => exact .negative n
  | bytes short => exact .bytes (Nat.le_trans short le)
  | text short => exact .text (Nat.le_trans short le)
  | array few _ ih => exact .array few ih
  | map _ ih => exact .map ih
  | tag _ ih => exact .tag ih
  | simple n => exact .simple n
  | float => exact .float

theorem Item.Within.cons {size smaller : Nat} (le : smaller ≤ size) {i : Item} {items : List Item} (first : i.Within size)
    (others : ∀ j ∈ items, j.Within smaller) : ∀ j ∈ i :: items, j.Within size := by
  intro j member
  rcases List.mem_cons.mp member with rfl | member
  · exact first
  · exact (others j member).mono le

/-- A reader whose items are within limits and that leaves no more than it was given. -/
def Bounded (item : Reader) : Prop :=
  ∀ ⦃t i rest⦄, item t = some (i, rest) → i.Within t.length ∧ rest.length ≤ t.length

theorem Head.read?_length {t rest : Text} {h : Head} (found : Head.read? t = some (h, rest)) : rest.length < t.length := by
  cases t with
  | nil => simp [Head.read?] at found
  | cons b more =>
    simp only [Head.read?] at found
    split at found
    · obtain ⟨_, rfl⟩ := Prod.mk.inj (Option.some.inj found)
      simp
    · split at found
      · split at found
        · obtain ⟨_, rfl⟩ := Prod.mk.inj (Option.some.inj found)
          simp only [List.length_drop, List.length_cons]
          omega
        · simp at found
      · split at found
        · obtain ⟨_, rfl⟩ := Prod.mk.inj (Option.some.inj found)
          simp
        · simp at found

theorem takeBytes?_length {n : Nat} {t piece rest : Text} (found : takeBytes? n t = some (piece, rest)) :
    piece.length + rest.length = t.length := by
  simp only [takeBytes?] at found
  split at found
  · obtain ⟨rfl, rfl⟩ := Prod.mk.inj (Option.some.inj found)
    rw [← List.length_append, List.take_append_drop]
  · simp at found

theorem piecesInto_length {major : Nat} (fuel : Nat) {read : Array Text} {t rest : Text} {pieces : List Text}
    (found : piecesInto major read fuel t = some (pieces, rest)) :
    pieces.flatten.length + rest.length ≤ read.toList.flatten.length + t.length := by
  induction fuel generalizing read t with
  | zero => simp [piecesInto] at found
  | succ fuel ih =>
    cases t with
    | nil => simp [piecesInto] at found
    | cons b more =>
      rw [piecesInto] at found
      split at found
      · obtain ⟨rfl, rfl⟩ := Prod.mk.inj (Option.some.inj found)
        simp
      · split at found
        · simp at found
        next h behind head =>
          have shorter := Head.read?_length head
          split at found
          · split at found
            · simp at found
            next piece after taken =>
              have cut := takeBytes?_length taken
              have whole := ih found
              simp only [Array.toList_push, List.flatten_append, List.flatten_cons, List.flatten_nil, List.append_nil,
                List.length_append] at whole
              omega
          · simp at found

theorem pieces?_length {h : Head} {t rest : Text} {pieces : List Text} (found : pieces? h t = some (pieces, rest)) :
    pieces.flatten.length + rest.length ≤ t.length := by
  unfold pieces? at found
  split at found
  · simpa using piecesInto_length _ found
  · obtain ⟨⟨piece, after⟩, taken, same⟩ := Option.map_eq_some_iff.mp found
    obtain ⟨rfl, rfl⟩ := Prod.mk.inj same
    simpa using Nat.le_of_eq (takeBytes?_length taken)

section Collections
variable {item : Reader} (bounded : Bounded item)
include bounded

/-- What a run of items adds to those read before. -/
theorem itemsInto_within (n : Nat) {read : Array Item} {t rest : Text} {items : List Item}
    (found : itemsInto item read n t = some (items, rest)) :
    ∃ added, items = read.toList ++ added ∧ added.length = n ∧ (∀ i ∈ added, i.Within t.length) ∧ rest.length ≤ t.length := by
  induction n generalizing read t with
  | zero =>
    obtain ⟨rfl, rfl⟩ := Prod.mk.inj (Option.some.inj found)
    exact ⟨[], by simp⟩
  | succ n ih =>
    rw [itemsInto] at found
    split at found
    · simp at found
    next i behind first =>
      obtain ⟨within, shorter⟩ := bounded first
      obtain ⟨added, rfl, count, others, least⟩ := ih found
      exact ⟨i :: added, by simp, by simp [count], within.cons shorter others, Nat.le_trans least shorter⟩

theorem itemsUntilBreak_within (n : Nat) {read : Array Item} {t rest : Text} {items : List Item}
    (found : itemsUntilBreak item read n t = some (items, rest)) :
    ∃ added, items = read.toList ++ added ∧ added.length < n ∧ (∀ i ∈ added, i.Within t.length) ∧ rest.length ≤ t.length := by
  induction n generalizing read t with
  | zero => simp [itemsUntilBreak] at found
  | succ n ih =>
    cases t with
    | nil => simp [itemsUntilBreak] at found
    | cons b more =>
      simp only [itemsUntilBreak] at found
      split at found
      · obtain ⟨rfl, rfl⟩ := Prod.mk.inj (Option.some.inj found)
        exact ⟨[], by simp⟩
      · split at found
        · simp at found
        next i behind first =>
          obtain ⟨within, shorter⟩ := bounded first
          obtain ⟨added, rfl, count, others, least⟩ := ih found
          exact ⟨i :: added, by simp, by simpa using count, within.cons shorter others, Nat.le_trans least shorter⟩

theorem elements?_within {width : Nat} {h : Head} {t rest : Text} {items : List Item}
    (found : elements? item width h t = some (items, rest)) :
    items.length ≤ width * maxElements ∧ (∀ i ∈ items, i.Within t.length) ∧ rest.length ≤ t.length := by
  unfold elements? at found
  split at found
  · split at found
    · simp at found
    next broken =>
      split at found
      · obtain ⟨rfl, rfl⟩ := Prod.mk.inj (Option.some.inj found)
        obtain ⟨added, rfl, count, within, least⟩ := itemsUntilBreak_within bounded _ broken
        exact ⟨by simpa using Nat.le_of_lt_succ count, by simpa using within, least⟩
      · simp at found
  · split at found
    next few =>
      obtain ⟨added, rfl, count, within, least⟩ := itemsInto_within bounded _ found
      refine ⟨?_, by simpa using within, least⟩
      simpa [count] using Nat.mul_le_mul_left width few
    · simp at found

end Collections

theorem body?_within {inner : Option Reader} (bounded : ∀ item ∈ inner, Bounded item) {h : Head} {t rest : Text} {i : Item}
    (found : body? inner h t = some (i, rest)) : i.Within t.length ∧ rest.length ≤ t.length := by
  unfold body? at found
  split at found
  · split at found
    · simp at found
    · obtain ⟨rfl, rfl⟩ := Prod.mk.inj (Option.some.inj found)
      exact ⟨.unsigned _, Nat.le_refl _⟩
  · split at found
    · simp at found
    · obtain ⟨rfl, rfl⟩ := Prod.mk.inj (Option.some.inj found)
      exact ⟨.negative _, Nat.le_refl _⟩
  · obtain ⟨⟨pieces, after⟩, read, same⟩ := Option.map_eq_some_iff.mp found
    obtain ⟨rfl, rfl⟩ := Prod.mk.inj same
    have short := pieces?_length read
    exact ⟨.bytes (by omega), by omega⟩
  · obtain ⟨⟨pieces, after⟩, read, same⟩ := Option.map_eq_some_iff.mp found
    obtain ⟨rfl, rfl⟩ := Prod.mk.inj same
    have short := pieces?_length read
    exact ⟨.text (by omega), by omega⟩
  · obtain ⟨item, nested, found⟩ := Option.bind_eq_some_iff.mp found
    obtain ⟨⟨items, after⟩, read, same⟩ := Option.map_eq_some_iff.mp found
    obtain ⟨rfl, rfl⟩ := Prod.mk.inj same
    obtain ⟨few, within, least⟩ := elements?_within (bounded item nested) read
    exact ⟨.array (by simpa using few) within, least⟩
  · obtain ⟨item, nested, found⟩ := Option.bind_eq_some_iff.mp found
    obtain ⟨⟨items, after⟩, read, same⟩ := Option.map_eq_some_iff.mp found
    obtain ⟨rfl, rfl⟩ := Prod.mk.inj same
    obtain ⟨_, within, least⟩ := elements?_within (bounded item nested) read
    exact ⟨.map within, least⟩
  · obtain ⟨j, simple, same⟩ := Option.map_eq_some_iff.mp found
    obtain ⟨rfl, rfl⟩ := Prod.mk.inj same
    refine ⟨?_, Nat.le_refl _⟩
    unfold simple? at simple
    grind [Item.Within]
  · simp at found

theorem itemWith_bounded {inner : Option Reader} (bounded : ∀ item ∈ inner, Bounded item) : Bounded (itemWith inner) := by
  intro t i rest found
  unfold itemWith at found
  split at found
  · simp at found
  next h behind head =>
    have shorter := Head.read?_length head
    split at found
    -- A tag: its content is read by the same reader, except that a nested tag goes one level down.
    · split at found
      · simp at found
      · split at found
        · simp at found
        next h' behind' head' =>
          have shorter' := Head.read?_length head'
          obtain ⟨⟨content, after⟩, read, same⟩ := Option.map_eq_some_iff.mp found
          obtain ⟨rfl, rfl⟩ := Prod.mk.inj same
          split at read
          · obtain ⟨item, nested, read⟩ := Option.bind_eq_some_iff.mp read
            obtain ⟨within, least⟩ := bounded item nested read
            exact ⟨.tag (within.mono (by omega)), by omega⟩
          · obtain ⟨within, least⟩ := body?_within bounded read
            exact ⟨.tag (within.mono (by omega)), by omega⟩
    · obtain ⟨within, least⟩ := body?_within bounded found
      exact ⟨within.mono (by omega), by omega⟩

theorem item?_bounded (depth : Nat) : Bounded (item? depth) := by
  induction depth with
  | zero => exact itemWith_bounded (by simp)
  | succ depth ih =>
    apply itemWith_bounded
    rintro item ⟨⟩
    exact ih

theorem read?_within {t : Text} {i : Item} (found : read? t = some i) : i.Within t.length := by
  unfold read? at found
  split at found
  next read =>
    obtain rfl := Option.some.inj found
    exact (item?_bounded maxDepth read).1
  · simp at found

section Fields
variable {size : Nat} {i : Item}

theorem Item.Within.content {number : Nat} {content : Item} (within : (Item.tag number content).Within size) :
    content.Within size := by
  cases within with
  | tag inside => exact inside

theorem plain?_within (within : i.Within size) {j : Item} (found : plain? i = some (.item j)) : j.Within size := by
  -- Unwrapping tags only leads inwards; what a number in a tag stands for is no item.
  fun_induction plain? i with
  | case1 content ih => exact ih within.content found
  | case2 | case3 | case4 => simp at found
  | case5 number _ _ magnitude _ _ ih => exact ih within.content found
  | case6 number content _ _ _ ih => exact ih within.content found
  | case7 i =>
    obtain rfl := Plain.item.inj (Option.some.inj found)
    exact within

private theorem mem_of_mapM {α β : Type} {f : α → Option β} {xs : List α} {ys : List β} (found : xs.mapM f = some ys) :
    ys.length = xs.length ∧ ∀ y ∈ ys, ∃ x ∈ xs, f x = some y := by
  induction xs generalizing ys with
  | nil =>
    obtain rfl : [] = ys := by simpa using found
    simp
  | cons x xs ih =>
    rw [List.mapM_cons] at found
    obtain ⟨y, first, found⟩ := Option.bind_eq_some_iff.mp found
    obtain ⟨others, rest, found⟩ := Option.bind_eq_some_iff.mp found
    obtain rfl := Option.some.inj found
    obtain ⟨count, each⟩ := ih rest
    refine ⟨by simp [count], ?_⟩
    intro z member
    rcases List.mem_cons.mp member with rfl | member
    · exact ⟨x, by simp, first⟩
    · obtain ⟨x', inside, same⟩ := each z member
      exact ⟨x', by simp [inside], same⟩

theorem list?_within {α : Type} {element : Item → Option α} {xs : List α} (within : i.Within size)
    (found : list? element i = some xs) :
    xs.length ≤ maxElements ∧ ∀ x ∈ xs, ∃ j : Item, j.Within size ∧ element j = some x := by
  unfold list? at found
  split at found
  next items array =>
    cases plain?_within within array with
    | array few inside =>
      obtain ⟨count, each⟩ := mem_of_mapM found
      refine ⟨count ▸ few, ?_⟩
      intro x member
      obtain ⟨j, listed, same⟩ := each x member
      exact ⟨j, inside j listed, same⟩
  · split at found
    · obtain rfl := Option.some.inj found
      simp
    · simp at found
  · simp at found

theorem text?_within {s : Text} (within : i.Within size) (found : text? i = some s) : s.isUtf8 = true ∧ s.length ≤ size := by
  unfold text? at found
  split at found
  next pieces text =>
    cases plain?_within within text with
    | text short =>
      unfold joined? at found
      split at found
      next proper =>
        obtain rfl := Option.some.inj found
        exact ⟨Text.isUtf8_flatten (List.all_eq_true.mp proper), short⟩
      · simp at found
  · split at found
    · obtain rfl := Option.some.inj found
      exact ⟨rfl, Nat.zero_le _⟩
    · simp at found
  · simp at found

theorem fieldsInto_within (found : Array (Nat × Item)) {items : List Item} (within : ∀ i ∈ items, i.Within size)
    (before : ∀ f ∈ found, f.2.Within size) {fields : List (Nat × Item)}
    (read : fieldsInto found items = some fields) : ∀ f ∈ fields, f.2.Within size := by
  fun_induction fieldsInto found items with
  | case1 => simp at read
  | case2 found key value more _ ih => exact ih (fun i member => within i (by simp [member])) before read
  | case3 found key value more n _ ih =>
    refine ih (fun i member => within i (by simp [member])) ?_ read
    intro f member
    rcases Array.mem_push.mp member with member | rfl
    · exact before f member
    · exact within value (by simp)
  | case4 found =>
    obtain rfl := Option.some.inj read
    simpa using before

theorem fields?_within {fields : List (Nat × Item)} (within : i.Within size) (found : fields? i = some fields) :
    ∀ f ∈ fields, f.2.Within size := by
  unfold fields? at found
  split at found
  next items map =>
    cases plain?_within within map with
    | map inside => exact fieldsInto_within #[] inside (by simp) found
  · split at found
    · obtain rfl := Option.some.inj found
      simp
    · simp at found
  · simp at found

theorem field?_within {α : Type} {fields : List (Nat × Item)} {number : Nat} {convert : Item → Option α} {missing x : α}
    (within : ∀ f ∈ fields, f.2.Within size) (found : field? fields number convert missing = some x) :
    x = missing ∨ ∃ j : Item, j.Within size ∧ convert j = some x := by
  unfold field? at found
  split at found
  · exact .inl (Option.some.inj found).symm
  next j present =>
    obtain ⟨front, behind, same, _⟩ := List.lookup_eq_some_iff.mp present
    exact .inr ⟨j, within (number, j) (by simp [same]), found⟩

end Fields

/-- The lines and the strings of a record are no more than an array has, and the strings are well-formed. -/
theorem ofItem?_within {size : Nat} {i : Item} (within : i.Within size) {w : ChunkRecord}
    (found : ChunkRecord.ofItem? i = some w) :
    w.lines.length ≤ maxElements ∧ w.strings.length ≤ maxElements ∧ ∀ s ∈ w.strings, s.isUtf8 = true ∧ s.length ≤ size := by
  unfold ChunkRecord.ofItem? at found
  obtain ⟨fields, record, found⟩ := Option.bind_eq_some_iff.mp found
  obtain ⟨version, _, found⟩ := Option.bind_eq_some_iff.mp found
  obtain ⟨code, _, found⟩ := Option.bind_eq_some_iff.mp found
  obtain ⟨lines, lined, found⟩ := Option.bind_eq_some_iff.mp found
  obtain ⟨constants, _, found⟩ := Option.bind_eq_some_iff.mp found
  obtain ⟨strings, texts, found⟩ := Option.bind_eq_some_iff.mp found
  obtain rfl := Option.some.inj found
  have inside := fields?_within within record
  refine ⟨?_, ?_⟩
  · rcases field?_within inside lined with rfl | ⟨j, short, read⟩
    · exact Nat.zero_le _
    · exact (list?_within short read).1
  · rcases field?_within inside texts with rfl | ⟨j, short, read⟩
    · simp
    · obtain ⟨few, each⟩ := list?_within short read
      refine ⟨few, ?_⟩
      intro s member
      obtain ⟨k, small, text⟩ := each s member
      exact text?_within small text

end ExprLang.Cbor
