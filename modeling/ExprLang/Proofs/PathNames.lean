import ExprLang.File.Path

/-! Absolute paths and the names on them. Cleaning leaves names that lead somewhere, and the path that is written from such names
has these names again. So a clean path can be taken for its names: its parent lacks the last one, and a file in it has one
more. -/

namespace ExprLang.Path

section Split

theorem split_further {path name : Text} {more : List Text} (pieces : split path = name :: more) (b : UInt8) :
    split (b :: path) = if b = slash then [] :: name :: more else (b :: name) :: more := by
  simp only [split, List.foldr_cons] at pieces ⊢
  rw [pieces]

theorem split_cons (b : UInt8) (path : Text) :
    ∃ name more, split path = name :: more ∧
      split (b :: path) = if b = slash then [] :: name :: more else (b :: name) :: more := by
  induction path generalizing b with
  | nil => exact ⟨[], [], rfl, split_further rfl b⟩
  | cons a path ih =>
    obtain ⟨name, more, _, pieces⟩ := ih a
    by_cases cut : a = slash
    · rw [if_pos cut] at pieces
      exact ⟨_, _, pieces, split_further pieces b⟩
    · rw [if_neg cut] at pieces
      exact ⟨_, _, pieces, split_further pieces b⟩

theorem split_eq (path : Text) : split path = path.splitOn slash := by
  induction path with
  | nil => rfl
  | cons b path ih =>
    obtain ⟨name, more, pieces, cut⟩ := split_cons b path
    have same : path.splitOnP (· == slash) = name :: more := ih.symm.trans pieces
    rw [cut, List.splitOn, List.splitOnP_cons_eq_if_modifyHead, same]
    by_cases separator : b = slash <;> simp [separator]

theorem split_append (path rest : Text) : split (path ++ slash :: rest) = split path ++ split rest := by
  simp only [split_eq, List.splitOn_append_cons_self]

theorem split_join {names : List Text} (free : ∀ name ∈ names, slash ∉ name) (some : names ≠ []) :
    split (Text.join [slash] names) = names := by
  rw [split_eq]
  exact List.splitOn_intercalate slash free some

theorem split_free (path : Text) : ∀ name ∈ split path, slash ∉ name := by
  induction path with
  | nil => simp [split]
  | cons b path ih =>
    obtain ⟨name, more, pieces, cut⟩ := split_cons b path
    rw [pieces] at ih
    obtain ⟨first, others⟩ := List.forall_mem_cons.mp ih
    rw [cut]
    by_cases separator : b = slash
    · rw [if_pos separator]
      exact List.forall_mem_cons.mpr ⟨by simp, ih⟩
    · rw [if_neg separator]
      refine List.forall_mem_cons.mpr ⟨?_, others⟩
      intro member
      rcases List.mem_cons.mp member with same | member
      · exact separator same.symm
      · exact first member

end Split

/-- A name that leads from a directory to something in it. -/
structure IsName (name : Text) : Prop where
  some : name ≠ []
  free : slash ∉ name
  ne_dot : name ≠ dot
  ne_dotDot : name ≠ dotDot

theorem enter_name {name : Text} (proper : IsName name) (rooted : Bool) (passed : List Text) :
    enter rooted passed name = name :: passed := by
  simp [enter, proper.some, proper.ne_dot, proper.ne_dotDot]

theorem enter_empty (rooted : Bool) (passed : List Text) : enter rooted passed [] = passed :=
  rfl

theorem enter_names {names : List Text} (proper : ∀ name ∈ names, IsName name) (rooted : Bool) (passed : List Text) :
    names.foldl (enter rooted) passed = names.reverse ++ passed := by
  induction names generalizing passed with
  | nil => rfl
  | cons name names ih =>
    obtain ⟨first, others⟩ := List.forall_mem_cons.mp proper
    rw [List.foldl_cons, enter_name first, ih others, List.reverse_cons, List.append_assoc]
    rfl

/-- From the root on, what is passed are names. -/
theorem enter_proper {passed : List Text} (proper : ∀ name ∈ passed, IsName name) {name : Text} (free : slash ∉ name) :
    ∀ other ∈ enter true passed name, IsName other := by
  unfold enter
  split
  · exact proper
  next visible =>
    simp only [Bool.or_eq_true, List.isEmpty_iff, decide_eq_true_eq, not_or] at visible
    split
    · cases passed with
      | nil => simp
      | cons last before =>
        obtain ⟨proper', others⟩ := List.forall_mem_cons.mp proper
        simp only [if_neg proper'.ne_dotDot]
        exact others
    next up => exact List.forall_mem_cons.mpr ⟨⟨visible.1, free, visible.2, up⟩, proper⟩

theorem names_proper {path : Text} (rooted : isAbsolute path = true) : ∀ name ∈ names path, IsName name := by
  have fold (pieces : List Text) (free : ∀ name ∈ pieces, slash ∉ name) (passed : List Text)
      (proper : ∀ name ∈ passed, IsName name) : ∀ name ∈ pieces.foldl (enter true) passed, IsName name := by
    induction pieces generalizing passed with
    | nil => exact proper
    | cons piece pieces ih =>
      obtain ⟨first, others⟩ := List.forall_mem_cons.mp free
      exact ih others _ (enter_proper proper first)
  intro name member
  rw [names, rooted, List.mem_reverse] at member
  exact fold _ (split_free path) [] (by simp) name member

/-- Behind an absolute path, more names are entered from where it leads. -/
theorem names_append {path : Text} (rooted : isAbsolute path = true) (rest : Text) :
    names (path ++ slash :: rest) = ((split rest).foldl (enter true) (names path).reverse).reverse := by
  have rooted' : isAbsolute (path ++ slash :: rest) = true := by
    cases path with
    | nil => simp [isAbsolute] at rooted
    | cons b path => exact rooted
  rw [names, rooted', split_append, List.foldl_append, names, rooted, List.reverse_reverse]

section Absolute
variable {ns : List Text} (proper : ∀ name ∈ ns, IsName name)

theorem isAbsolute_absolute (ns : List Text) : isAbsolute (absolute ns) = true :=
  rfl

include proper

theorem split_absolute (some : ns ≠ []) : split (absolute ns) = [] :: ns := by
  have pieces : split (absolute ns) = [] :: split (Text.join [slash] ns) := split_append [] _
  rw [pieces, split_join (fun name member => (proper name member).free) some]

theorem names_absolute : names (absolute ns) = ns := by
  by_cases some : ns = []
  · subst some
    rfl
  · rw [names, isAbsolute_absolute, split_absolute proper some, List.foldl_cons, enter_empty, enter_names proper, List.append_nil,
      List.reverse_reverse]

theorem clean_absolute : clean (absolute ns) = absolute ns := by
  rw [clean, if_pos (isAbsolute_absolute ns), names_absolute proper]

theorem fromRoot_absolute (current : Text) : fromRoot current (absolute ns) = absolute ns := by
  rw [fromRoot, if_pos (isAbsolute_absolute ns), clean_absolute proper]

/-- A file in a directory has one name more. -/
theorem join_absolute {name : Text} (named : IsName name) : join (absolute ns) name = absolute (ns ++ [name]) := by
  have rooted : isAbsolute (absolute ns ++ slash :: name) = true := rfl
  have parts : [absolute ns, name].filter (fun part => !part.isEmpty) = [absolute ns, name] := by
    simp [absolute, named.some]
  have joined : Text.join [slash] [absolute ns, name] = absolute ns ++ slash :: name := by
    simp [Text.join]
  have last : split name = [name] := by
    simpa [Text.join] using split_join (List.forall_mem_singleton.mpr named.free) (List.cons_ne_nil name [])
  simp only [join, parts, joined]
  rw [if_neg (by simp), clean, if_pos rooted, names_append (isAbsolute_absolute ns), names_absolute proper, last]
  simp [enter_name named]

end Absolute

/-- A path made absolute consists of names. -/
theorem fromRoot_eq {current : Text} (rooted : isAbsolute current = true) (path : Text) :
    ∃ ns, (∀ name ∈ ns, IsName name) ∧ fromRoot current path = absolute ns := by
  have cleaned {p : Text} (rooted : isAbsolute p = true) : ∃ ns, (∀ name ∈ ns, IsName name) ∧ clean p = absolute ns :=
    ⟨names p, names_proper rooted, by rw [clean, if_pos rooted]⟩
  unfold fromRoot
  by_cases here : isAbsolute path = true
  · rw [if_pos here]
    exact cleaned here
  · rw [if_neg here]
    cases current with
    | nil => simp [isAbsolute] at rooted
    | cons b current =>
      cases path with
      | nil =>
        have joined : join (b :: current) [] = clean (b :: current) := by simp [join, Text.join]
        rw [joined]
        exact cleaned rooted
      | cons a path =>
        have joined : join (b :: current) (a :: path) = clean (b :: current ++ slash :: a :: path) := by simp [join, Text.join]
        rw [joined]
        exact cleaned rooted

/-- The path that is left without the last name. -/
def parent (path : Text) : Text :=
  clean (path.reverse.dropWhile (· ≠ slash)).reverse

/-- What stands before the last slash of a path, with the slash, leads to the directory that its last name is in. -/
theorem names_before {front : List Text} (proper : ∀ name ∈ front, IsName name) (last : Text) :
    ∃ before, absolute (front ++ [last]) = before ++ slash :: last ∧ clean (before ++ [slash]) = absolute front := by
  cases front with
  | nil => exact ⟨[], by simp [absolute, Text.join], rfl⟩
  | cons name front =>
    refine ⟨absolute (name :: front), ?_, ?_⟩
    · rw [absolute, Text.join_concat [slash] (List.cons_ne_nil name front)]
      simp [absolute]
    · have rooted : isAbsolute (absolute (name :: front) ++ [slash]) = true := rfl
      rw [clean, if_pos rooted, names_append (isAbsolute_absolute _), names_absolute proper]
      simp [split, enter_empty]

theorem parent_absolute {ns : List Text} (proper : ∀ name ∈ ns, IsName name) : parent (absolute ns) = absolute ns.dropLast := by
  rcases List.eq_nil_or_concat ns with rfl | ⟨front, last, rfl⟩
  · rfl
  · simp only [List.concat_eq_append, List.forall_mem_append, List.forall_mem_singleton] at proper
    obtain ⟨before, written, leads⟩ := names_before proper.1 last
    have outside : ∀ b ∈ last.reverse, decide (b ≠ slash) = true := by
      intro b member
      have free := proper.2.free
      rw [List.mem_reverse] at member
      exact decide_eq_true fun same => free (same ▸ member)
    have cut : ((before ++ slash :: last).reverse.dropWhile (· ≠ slash)).reverse = before ++ [slash] := by
      rw [List.reverse_append, List.reverse_cons, List.append_assoc, List.dropWhile_append_of_pos outside]
      simp
    rw [List.concat_eq_append, parent, written, cut, leads, List.dropLast_concat]

end ExprLang.Path
