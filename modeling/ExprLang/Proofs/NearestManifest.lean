import ExprLang.File.Tree
import ExprLang.Manifest.Project
import ExprLang.Proofs.PathNames
import Mathlib.Logic.Function.Iterate

/-! The manifest of a project is the nearest one. From where it starts the search goes from a directory to its parent, up to the
root, and asks for one entry in each of them. The first directory that has the entry is the one that is loaded, whatever
the entry is; where no directory has it, there is no project. -/

namespace ExprLang

section Ancestors
namespace Path
variable {ns : List Text} (proper : ∀ name ∈ ns, IsName name)
include proper

theorem iterate_parent (n : Nat) : parent^[n] (absolute ns) = absolute (ns.take (ns.length - n)) := by
  induction n with
  | zero => simp
  | succ n ih =>
    have front : ∀ name ∈ ns.take (ns.length - n), IsName name := fun name member => proper name (List.mem_of_mem_take member)
    rw [Function.iterate_succ_apply', ih, parent_absolute front, List.dropLast_eq_take, List.take_take, List.length_take]
    congr 2
    omega

/-- The directories above a path are those that one comes to by going to the parent again and again. -/
theorem ancestors_eq : ancestors (absolute ns) = (List.range (ns.length + 1)).map fun n => parent^[n] (absolute ns) := by
  rw [ancestors, beginnings, names_absolute proper, List.map_map]
  apply List.ext_getElem (by simp)
  intro n inside _
  simp [iterate_parent proper]

end Path
end Ancestors

section Entries
namespace FileTree

/-- A directory that can be reached has something under a name. -/
def HasEntry (tree : FileTree) (dir : List Text) (name : Text) : Prop :=
  (∀ front, front <+: dir → tree.get? front = some .directory) ∧ (tree.get? (dir ++ [name])).isSome = true

variable (tree : FileTree)

theorem follow_name {name : Text} (proper : Path.IsName name) (dir path names : List Text) :
    tree.follow dir (name :: path) = .ok names ↔
      tree.get? dir = some .directory ∧ tree.follow (dir ++ [name]) path = .ok names := by
  rw [follow]
  split
  next absent => simp [absent]
  next file => simp [file]
  next here => simp [here, proper.some, proper.ne_dot, proper.ne_dotDot]

/-- A path is followed through directories only. -/
theorem follow_concat {ns : List Text} (proper : ∀ name ∈ ns, Path.IsName name) {last : Text} (named : Path.IsName last)
    (dir names : List Text) :
    tree.follow dir (ns ++ [last]) = .ok names ↔
      names = dir ++ (ns ++ [last]) ∧ ∀ front, front <+: ns → tree.get? (dir ++ front) = some .directory := by
  induction ns generalizing dir with
  | nil =>
    rw [List.nil_append, tree.follow_name named, follow]
    simp [and_comm, eq_comm]
  | cons name ns ih =>
    obtain ⟨first, others⟩ := List.forall_mem_cons.mp proper
    rw [List.cons_append, tree.follow_name first, ih others]
    constructor
    · rintro ⟨here, rfl, inside⟩
      refine ⟨by simp, ?_⟩
      intro front start
      rcases List.prefix_cons_iff.mp start with rfl | ⟨rest, rfl, start'⟩
      · simpa using here
      · simpa using inside rest start'
    · rintro ⟨rfl, inside⟩
      refine ⟨by simpa using inside [] List.nil_prefix, by simp, ?_⟩
      intro front start
      simpa using inside (name :: front) ((List.prefix_cons_inj name).mpr start)

variable {ns : List Text} (proper : ∀ name ∈ ns, Path.IsName name) {last : Text} (named : Path.IsName last) (here : List Text)
include proper named

/-- An absolute path leads to a node if and only if there is such an entry. -/
theorem resolve_eq_ok_iff (node : FileNode) :
    tree.resolve here (Path.absolute (ns ++ [last])) = .ok node ↔
      tree.HasEntry ns last ∧ tree.get? (ns ++ [last]) = some node := by
  have all : ∀ name ∈ ns ++ [last], Path.IsName name := by
    simpa [or_imp, forall_and] using ⟨proper, named⟩
  have begun : tree.follow [] ([] :: (ns ++ [last])) = tree.follow [] (ns ++ [last]) := rfl
  have followed := tree.follow_concat proper named []
  have filled : (Path.absolute (ns ++ [last])).isEmpty = false := rfl
  have pieces : Path.split (Path.absolute (ns ++ [last])) = [] :: (ns ++ [last]) := Path.split_absolute all (by simp)
  simp only [resolve, filled, pieces, Path.isAbsolute_absolute, if_pos, begun, HasEntry]
  rw [if_neg Bool.false_ne_true]
  simp only [List.nil_append] at followed
  constructor
  · intro led
    split at led
    · cases led
    next names reached =>
      obtain ⟨rfl, inside⟩ := (followed names).mp reached
      split at led
      · cases led
      next there =>
        obtain rfl := Except.ok.inj led
        exact ⟨⟨inside, by rw [there]; rfl⟩, there⟩
  · rintro ⟨⟨inside, _⟩, there⟩
    rw [(followed _).mpr ⟨rfl, inside⟩]
    simp only [there]

end FileTree
end Entries

section Search

/-- A disk that notes the paths whose presence is asked for. -/
def Disk.noting {m : Type → Type} [Monad m] (disk : Disk m) : Disk (StateT (List Text) m) where
  present path := do
    modify (· ++ [path])
    disk.present path
  read path := disk.read path
  append path := disk.append path

namespace Project

theorem fileName_named : Path.IsName fileName := by
  constructor <;> decide

variable (tree : FileTree) (here : List Text)

/-- Whether the search finds a manifest in a directory. -/
def seen (dir : Text) : Bool :=
  (tree.resolve here (manifestPath dir)).isOk

theorem search_run (dirs : List Text) :
    (search (FileTree.disk here) dirs).run tree = (dirs.find? (seen tree here), tree) := by
  induction dirs with
  | nil => rfl
  | cons dir dirs ih =>
    have step : (search (FileTree.disk here) (dir :: dirs)).run tree =
        (if seen tree here dir = true then pure (some dir) else search (FileTree.disk here) dirs).run tree := rfl
    rw [step, List.find?_cons]
    cases seen tree here dir with
    | true => rfl
    | false => exact ih

theorem search_noting_run (dirs asked : List Text) :
    ((search (FileTree.disk here).noting dirs).run asked).run tree =
      ((dirs.find? (seen tree here), asked ++ (dirs.take (dirs.findIdx (seen tree here) + 1)).map manifestPath), tree) := by
  induction dirs generalizing asked with
  | nil =>
    show ((none, asked), tree) = ((none, asked ++ []), tree)
    rw [List.append_nil]
  | cons dir dirs ih =>
    have step : ((search (FileTree.disk here).noting (dir :: dirs)).run asked).run tree =
        ((if seen tree here dir = true then pure (some dir) else search (FileTree.disk here).noting dirs).run
          (asked ++ [manifestPath dir])).run tree := rfl
    rw [step, List.find?_cons, List.findIdx_cons]
    cases seen tree here dir with
    | true => rfl
    | false =>
      refine (ih (asked ++ [manifestPath dir])).trans ?_
      simp

/-- What loading makes of what is read. -/
def ofRead (current dir : Text) : Except FileFault Text → Except ProjectError Manifest
  | .error fault => .error (.unreadable (manifestPath dir) fault)
  | .ok content =>
    match Manifest.parse content with
    | .error error => .error (.invalid (manifestPath dir) error)
    | .ok manifest => .ok { manifest with dir := Path.fromRoot current dir }

theorem load_eq {m : Type → Type} [Monad m] (disk : Disk m) (current dir : Text) :
    load disk current dir = (do return ofRead current dir (← disk.read (manifestPath dir))) := by
  refine congrArg (disk.read (manifestPath dir) >>= ·) (funext fun content => ?_)
  cases content with
  | error fault => rfl
  | ok content =>
    simp only [ofRead]
    cases Manifest.parse content <;> rfl

theorem load_run (current dir : Text) :
    (load (FileTree.disk here) current dir).run tree = (ofRead current dir (tree.read here (manifestPath dir)), tree) := by
  rw [load_eq]
  rfl

theorem load_noting_run (current dir : Text) (asked : List Text) :
    ((load (FileTree.disk here).noting current dir).run asked).run tree =
      ((ofRead current dir (tree.read here (manifestPath dir)), asked), tree) := by
  rw [load_eq]
  rfl

theorem find_run (current start : Text) :
    (find (FileTree.disk here) current start).run tree =
      (((Path.ancestors (Path.fromRoot current start)).find? (seen tree here)).map fun dir =>
        ofRead current dir (tree.read here (manifestPath dir)), tree) := by
  rw [find, StateT.run_bind, search_run]
  cases (Path.ancestors (Path.fromRoot current start)).find? (seen tree here) with
  | none => rfl
  | some dir => exact congrArg (fun answer => (some answer.1, answer.2)) (load_run tree here current dir)

theorem find_noting_run (current start : Text) :
    ((find (FileTree.disk here).noting current start).run []).run tree =
      ((((find (FileTree.disk here) current start).run tree).1,
        ((Path.ancestors (Path.fromRoot current start)).take
          ((Path.ancestors (Path.fromRoot current start)).findIdx (seen tree here) + 1)).map manifestPath), tree) := by
  rw [find_run, find, StateT.run_bind, StateT.run_bind, search_noting_run]
  cases (Path.ancestors (Path.fromRoot current start)).find? (seen tree here) with
  | none => rfl
  | some dir =>
    exact congrArg (fun answer => ((some answer.1.1, answer.1.2), answer.2)) (load_noting_run tree here current dir _)

/-- What is loaded from a directory that has the given node under the name of the manifest. -/
def ofNode (dir : Text) : FileNode → Except ProjectError Manifest
  | .directory => .error (.unreadable (manifestPath dir) .isDirectory)
  | .file content =>
    match Manifest.parse content with
    | .error error => .error (.invalid (manifestPath dir) error)
    | .ok manifest => .ok { manifest with dir }

variable {tree} {ns : List Text} (proper : ∀ name ∈ ns, Path.IsName name)
include proper

theorem manifestPath_absolute : manifestPath (Path.absolute ns) = Path.absolute (ns ++ [fileName]) :=
  Path.join_absolute proper fileName_named

theorem seen_iff : seen tree here (Path.absolute ns) = true ↔ tree.HasEntry ns fileName := by
  have leads := tree.resolve_eq_ok_iff proper fileName_named here
  rw [seen, manifestPath_absolute proper]
  constructor
  · intro present
    cases led : tree.resolve here (Path.absolute (ns ++ [fileName])) with
    | error fault => simp [led, Except.isOk, Except.toBool] at present
    | ok node => exact ((leads node).mp led).1
  · intro entry
    obtain ⟨node, there⟩ := Option.isSome_iff_exists.mp entry.2
    rw [(leads node).mpr ⟨entry, there⟩]
    rfl

theorem ofRead_eq (current : Text) (entry : tree.HasEntry ns fileName) :
    ∃ node, tree.get? (ns ++ [fileName]) = some node ∧
      ofRead current (Path.absolute ns) (tree.read here (manifestPath (Path.absolute ns))) = ofNode (Path.absolute ns) node := by
  obtain ⟨node, there⟩ := Option.isSome_iff_exists.mp entry.2
  have led := (tree.resolve_eq_ok_iff proper fileName_named here node).mpr ⟨entry, there⟩
  refine ⟨node, there, ?_⟩
  rw [← manifestPath_absolute proper] at led
  rw [FileTree.read, led]
  cases node with
  | directory => rfl
  | file content => simp only [ofRead, ofNode, Path.fromRoot_absolute proper]

end Project
end Search

/-- There is something under the name of the manifest in a directory. -/
def FileTree.HasManifest (tree : FileTree) (dir : Text) : Prop :=
  tree.HasEntry (Path.names dir) Project.fileName

section Climb

private theorem first_in_range {f : Nat → Text} {p : Text → Bool} {n size : Nat} (inside : n < size) (hit : p (f n) = true)
    (before : ∀ k < n, ¬ p (f k) = true) :
    ((List.range size).map f).find? p = some (f n) ∧ ((List.range size).map f).findIdx p = n := by
  constructor
  · rw [List.find?_eq_some_iff_getElem]
    refine ⟨hit, n, by simpa using inside, by simp, ?_⟩
    intro k earlier
    simpa using before k earlier
  · rw [List.findIdx_eq (by simpa using inside)]
    refine ⟨by simpa using hit, ?_⟩
    intro k earlier
    simpa using before k earlier

variable {ns : List Text} (proper : ∀ name ∈ ns, Path.IsName name) (tree : FileTree) (here : List Text)
include proper

/-- The directories on the way up are clean paths, too. -/
theorem Path.climb (n : Nat) :
    ∃ front, (∀ name ∈ front, IsName name) ∧ parent^[n] (absolute ns) = absolute front :=
  ⟨_, fun name member => proper name (List.mem_of_mem_take member), iterate_parent proper n⟩

theorem Path.climb_end {n : Nat} (far : ns.length ≤ n) : parent^[n] (absolute ns) = [slash] := by
  rw [iterate_parent proper, Nat.sub_eq_zero_of_le far]
  rfl

theorem Project.seen_climb (n : Nat) :
    seen tree here (Path.parent^[n] (Path.absolute ns)) = true ↔ tree.HasManifest (Path.parent^[n] (Path.absolute ns)) := by
  obtain ⟨front, proper', same⟩ := Path.climb proper n
  rw [same, seen_iff here proper', FileTree.HasManifest, Path.names_absolute proper']

/-- The search does not go beyond the root. -/
theorem Project.nearest_inside {n : Nat} (hit : tree.HasManifest (Path.parent^[n] (Path.absolute ns)))
    (before : ∀ k < n, ¬ tree.HasManifest (Path.parent^[k] (Path.absolute ns))) : n < ns.length + 1 := by
  by_contra outside
  have far : ns.length < n := by omega
  have missed := before ns.length far
  rw [Path.climb_end proper (Nat.le_of_lt far)] at hit
  rw [Path.climb_end proper (Nat.le_refl _)] at missed
  exact missed hit

theorem Project.load_climb (current : Text) {n : Nat} (hit : tree.HasManifest (Path.parent^[n] (Path.absolute ns))) :
    let dir := Path.parent^[n] (Path.absolute ns)
    ∃ node, tree.get? (Path.names dir ++ [fileName]) = some node ∧
      (load (FileTree.disk here) current dir).run tree = (ofNode dir node, tree) := by
  obtain ⟨front, proper', same⟩ := Path.climb proper n
  rw [FileTree.HasManifest, same, Path.names_absolute proper'] at hit
  obtain ⟨node, there, read⟩ := ofRead_eq here proper' current hit
  refine ⟨node, ?_, ?_⟩
  · rw [same, Path.names_absolute proper', there]
  · rw [same, load_run, read]

end Climb

/-- The search goes up from a path, by one directory at a time and asking once in each, and loads the first one that has an
entry for the manifest, whether it can be read or not. It finds nothing if and only if no directory on the way has one. -/
theorem find_loads_nearest (tree : FileTree) (here : List Text) {current : Text} (rooted : Path.isAbsolute current = true)
    (start : Text) :
    let origin := Path.fromRoot current start
    let found := (Project.find (FileTree.disk here) current start).run tree
    let watched := ((Project.find (FileTree.disk here).noting current start).run []).run tree
    (Path.parent^[(Path.names origin).length] origin = [Path.slash] ∧ Path.parent [Path.slash] = [Path.slash]) ∧
    (∀ n, tree.HasManifest (Path.parent^[n] origin) → (∀ k < n, ¬ tree.HasManifest (Path.parent^[k] origin)) →
      let dir := Path.parent^[n] origin
      let loaded := (Project.load (FileTree.disk here) current dir).run tree
      found = (some loaded.1, tree) ∧
      (∃ node, tree.get? (Path.names dir ++ [Project.fileName]) = some node ∧ loaded.1 = Project.ofNode dir node) ∧
      watched.1.2 = (List.range (n + 1)).map fun k => Project.manifestPath (Path.parent^[k] origin)) ∧
    (found = (none, tree) ↔ ∀ n, ¬ tree.HasManifest (Path.parent^[n] origin)) ∧
    watched.1.1 = found.1 ∧ watched.1.2.length ≤ (Path.names origin).length + 1 := by
  obtain ⟨ns, proper, same⟩ := Path.fromRoot_eq rooted start
  have run := Project.find_run tree here current start
  have asked := Project.find_noting_run tree here current start
  rw [same, Path.ancestors_eq proper] at run asked
  have seen := Project.seen_climb proper tree here
  simp only [same, Path.names_absolute proper, asked, run]
  refine ⟨⟨Path.climb_end proper (Nat.le_refl _), rfl⟩, ?_, ?_, trivial, ?_⟩
  · intro n hit before
    have inside := Project.nearest_inside proper tree hit before
    obtain ⟨node, there, loaded⟩ := Project.load_climb proper tree here current hit
    obtain ⟨first, index⟩ := first_in_range (p := Project.seen tree here) inside ((seen n).mpr hit)
      fun k earlier => mt (seen k).mp (before k earlier)
    rw [first, index, loaded]
    refine ⟨?_, ⟨node, there, rfl⟩, ?_⟩
    · rw [Project.load_run] at loaded
      rw [Option.map_some, (Prod.mk.inj loaded).1]
    · rw [← List.map_take, List.take_range, Nat.min_eq_left inside, List.map_map]
      rfl
  · rw [Prod.mk.injEq, and_iff_left rfl, Option.map_eq_none_iff, List.find?_eq_none, List.forall_mem_map]
    simp only [seen, List.mem_range]
    refine ⟨fun missed n => ?_, fun missed n _ => missed n⟩
    -- Beyond the root every step leads to the root again.
    by_cases inside : n < ns.length + 1
    · exact missed n inside
    · rw [Path.climb_end proper (by omega), ← Path.climb_end proper (Nat.le_refl _)]
      exact missed ns.length (Nat.lt_succ_self _)
  · simp only [List.length_map, List.length_take, List.length_range]
    omega

/-- A project inside of another one, where a directory has taken the name of the manifest. -/
def FileTree.nested : FileTree where
  nodes := [
    ([utf8 "a"], .directory),
    ([utf8 "a", Project.fileName], .directory),
    ([Project.fileName], .file [])]

/-- From a path that does not exist, three directories are looked at and the inner project is found, though it cannot be read. -/
theorem nested_finds_inner :
    ((Project.find (FileTree.disk []) [Path.slash] (utf8 "a/b/c")).run FileTree.nested).1 =
        some (.error (.unreadable (utf8 "/a/quill.toml") .isDirectory)) ∧
      (((Project.find (FileTree.disk []).noting [Path.slash] (utf8 "a/b/c")).run []).run FileTree.nested).1.2 =
        [utf8 "/a/b/c/quill.toml", utf8 "/a/b/quill.toml", utf8 "/a/quill.toml"] := by
  have rooted : Path.isAbsolute [Path.slash] = true := by decide
  obtain ⟨_, nearest, _⟩ := find_loads_nearest FileTree.nested [] rooted (utf8 "a/b/c")
  have origin : Path.fromRoot [Path.slash] (utf8 "a/b/c") = utf8 "/a/b/c" := by decide
  rw [origin] at nearest
  have inner : Path.parent^[2] (utf8 "/a/b/c") = utf8 "/a" := by decide
  have names : Path.names (utf8 "/a") = [utf8 "a"] := by decide
  have hit : FileTree.nested.HasManifest (Path.parent^[2] (utf8 "/a/b/c")) := by
    rw [inner, FileTree.HasManifest, names]
    refine ⟨?_, by decide⟩
    intro front start
    rcases List.prefix_cons_iff.mp start with rfl | ⟨rest, rfl, start'⟩
    · rfl
    · obtain rfl := List.prefix_nil.mp start'
      rfl
  have before : ∀ k < 2, ¬ FileTree.nested.HasManifest (Path.parent^[k] (utf8 "/a/b/c")) := by
    have absent : FileTree.nested.get? [utf8 "a", utf8 "b"] ≠ some .directory := by decide
    have passes : ∀ k < 2, [utf8 "a", utf8 "b"] <+: Path.names (Path.parent^[k] (utf8 "/a/b/c")) := by decide
    intro k small entry
    exact absent (entry.1 _ (passes k small))
  obtain ⟨found, ⟨node, there, loaded⟩, asked⟩ := nearest 2 hit before
  refine ⟨?_, ?_⟩
  · rw [found, loaded]
    rw [inner, names] at there
    obtain rfl := Option.some.inj there
    have path : Project.manifestPath (utf8 "/a") = utf8 "/a/quill.toml" := by decide
    rw [inner, Project.ofNode, path]
  · rw [asked]
    decide

end ExprLang
